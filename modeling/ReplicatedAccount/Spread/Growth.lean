import ReplicatedAccount.Spread.RingRuns

/-
  What only grows in a run of the ring: a packet that a daemon
  has received is never lost to it, so that every packet is
  always somewhere, even when the network loses all of them.

  Key definitions include:
    * `RingState.Grows`
    * `RingState.Owned`

  Key theorems include:
    * `Visit.covers`
    * `RingState.Agreed.grows`
    * `RingState.Owned.pass`
-/

------------------------------------------------------------
-- Packets that Stay
------------------------------------------------------------

namespace ReplicatedAccount

namespace Protocol

open Foundations

variable {n : Nat}
variable {Body : Type}

/- Sending takes no packet from its slot. -/
theorem isSome_of_sendNewPackets
    {me : Proc n}
    {d : ProtocolState n Body}
    {queue : NetQueue}
    {numAllowed : Nat}
    {s : Sending n Body}
    (hResult :
      sendNewPackets me d queue numAllowed = some s)
    {entry : Nat}
    (hSome : (d.delivery.packets entry).isSome) :
    (s.state.delivery.packets entry).isSome := by
  rcases sendNewPackets_eq_some hResult with
    ⟨s', hLoop, hState, _⟩
  rw [hState]
  refine sendLoop_induction
    (P := fun s : Sending n Body =>
      (s.state.delivery.packets entry).isSome)
    ?_ hSome hLoop
  intro s link rest element hBefore _ _ _ _
  exact isSome_insert _ _ hBefore

/- The packets that were sent are in their slots. -/
theorem isSome_of_sent
    {me : Proc n}
    {d : ProtocolState n Body}
    {queue : NetQueue}
    {numAllowed : Nat}
    {s : Sending n Body}
    (hResult :
      sendNewPackets me d queue numAllowed = some s)
    {seq : Nat}
    (hNew : d.highestSeq < seq)
    (hSent : seq ≤ s.state.highestSeq) :
    (s.state.delivery.packets (packEntry seq)).isSome := by
  rcases sendNewPackets_eq_some hResult with
    ⟨s', hLoop, hState, _⟩
  rw [hState] at hSent ⊢
  refine sendLoop_induction
    (P := fun s : Sending n Body =>
      seq ≤ s.state.highestSeq →
        (s.state.delivery.packets (packEntry seq)).isSome)
    ?_ (fun hOld => absurd hNew (Nat.not_lt.mpr hOld)) hLoop
    hSent
  intro s link rest element hBefore _ _ _ _ hLess
  rcases Nat.lt_or_ge s.state.highestSeq seq with hLast | hOld
  · have hSame : seq = s.state.highestSeq + 1 :=
      Nat.le_antisymm hLess hLast
    subst hSame
    simp only [Sending.push, newPacket, Function.update_self]
    rfl
  · exact isSome_insert _ _ (hBefore hOld)

/- A daemon has all packets that it has counted. -/
theorem Holds.covers
    {sent : List (Packet n Body)}
    {d : ProtocolState n Body}
    (hHolds : Holds sent d)
    {seq : Nat}
    (hCounted : seq ≤ d.myAru) :
    Covers d seq := by
  rcases Nat.lt_or_ge d.aru seq with hAbove | hStable
  · rw [← hHolds.discarded] at hAbove
    exact Or.inr (hHolds.tracks.held seq hAbove hCounted)
  · exact Or.inl hStable

/- The packet itself, unless all daemons have received it. -/
theorem Holds.exists_info
    {sent : List (Packet n Body)}
    (hSound : Sound sent)
    {d : ProtocolState n Body}
    (hHolds : Holds sent d)
    {seq : Nat}
    (hCovers : Covers d seq)
    (hAbove : d.aru < seq)
    (hBelow : seq ≤ d.aru + maxPacketsInStruct) :
    ∃ info,
      d.delivery.packets (packEntry seq) = some info ∧
        info.packet.seq = seq := by
  rcases hCovers with hStable | hSome
  · omega
  · rcases Option.isSome_iff_exists.mp hSome with
      ⟨info, hInfo⟩
    rw [← hHolds.discarded] at hAbove hBelow
    exact ⟨info, hInfo,
      hHolds.tracks.seq_of_slot hSound hAbove hBelow hInfo⟩

section

variable {me : Proc n}
variable {d : ProtocolState n Body}
variable {token : Token n}
variable {answer : Answer n Body}
variable {sending : Sending n Body}
variable {handled : Handled n Body}
variable (visit : Visit me d token answer sending handled)
variable (hDiscarded : d.delivery.lastDiscarded = d.aru)
variable {seq : Nat}
variable (hBelow : seq ≤ d.aru + maxPacketsInStruct)

include visit hDiscarded hBelow

/- Discarding takes no packet that is not stable. -/
theorem Visit.covers_of_isSome
    (hAbove : d.aru < seq)
    (hSome :
      (sending.state.delivery.packets
        (packEntry seq)).isSome) :
    Covers handled.state seq := by
  rcases Nat.lt_or_ge handled.state.aru seq with hMore | hLess
  · refine Or.inr (visit.isSome_slot hSome ?_)
    intro seq' hLow hHigh hSame
    rw [hDiscarded] at hLow
    have hEq :=
      packEntry_inj d.aru hLow (by omega) hAbove hBelow hSame
    omega
  · exact Or.inl hLess

/- A daemon that handles a token loses no packet. -/
theorem Visit.covers
    (hStable : d.aru ≤ handled.state.aru)
    (hCovers : Covers d seq) :
    Covers handled.state seq := by
  rcases Nat.lt_or_ge d.aru seq with hAbove | hLess
  · refine visit.covers_of_isSome hDiscarded hBelow hAbove ?_
    rcases hCovers with hOld | hSome
    · omega
    · exact isSome_of_sendNewPackets visit.sent hSome
  · exact Or.inl (hLess.trans hStable)

end

end Protocol

end ReplicatedAccount

------------------------------------------------------------
-- What Only Grows
------------------------------------------------------------

namespace ReplicatedAccount

namespace Protocol

open Foundations

variable {n : Nat}
variable {Body : Type}

namespace RingState

structure Grows (σ τ : RingState n Body) : Prop where
  rounds_le : ∀ i, σ.rounds i ≤ τ.rounds i
  sent : σ.sent <+: τ.sent
  net : σ.net <+: τ.net
  tokens : σ.tokens <+: τ.tokens
  myAru_le :
    ∀ i, (σ.daemons i).myAru ≤ (τ.daemons i).myAru
  covers :
    ∀ i seq, seq ≤ σ.sent.length →
      Covers (σ.daemons i) seq → Covers (τ.daemons i) seq

theorem Grows.refl
    (σ : RingState n Body) :
    Grows σ σ :=
  ⟨fun _ => Nat.le_refl _, List.prefix_rfl, List.prefix_rfl,
    List.prefix_rfl, fun _ => Nat.le_refl _, fun _ _ _ => id⟩

theorem Grows.trans
    {σ τ υ : RingState n Body}
    (hFirst : Grows σ τ)
    (hSecond : Grows τ υ) :
    Grows σ υ where
  rounds_le i :=
    (hFirst.rounds_le i).trans (hSecond.rounds_le i)
  sent := hFirst.sent.trans hSecond.sent
  net := hFirst.net.trans hSecond.net
  tokens := hFirst.tokens.trans hSecond.tokens
  myAru_le i := (hFirst.myAru_le i).trans (hSecond.myAru_le i)
  covers i seq hSent hCovers :=
    hSecond.covers i seq (hSent.trans hFirst.sent.length_le)
      (hFirst.covers i seq hSent hCovers)

variable {σ σ' : RingState n Body}

/- One daemon has changed. -/
theorem Grows.of_update
    {i : Fin n}
    {d : ProtocolState n Body}
    (hCounts : (σ.daemons i).myAru ≤ d.myAru)
    (hCovers :
      ∀ seq, seq ≤ σ.sent.length →
        Covers (σ.daemons i) seq → Covers d seq)
    (hDaemons : σ'.daemons = Function.update σ.daemons i d)
    (hRounds : ∀ p, σ.rounds p ≤ σ'.rounds p)
    (hSent : σ.sent <+: σ'.sent)
    (hNet : σ.net <+: σ'.net)
    (hTokens : σ.tokens <+: σ'.tokens) :
    Grows σ σ' where
  rounds_le := hRounds
  sent := hSent
  net := hNet
  tokens := hTokens
  myAru_le p := by
    rw [hDaemons]
    by_cases hMe : p = i
    · subst hMe
      rw [Function.update_self]
      exact hCounts
    · rw [Function.update_of_ne hMe]
  covers p seq hLess hOld := by
    rw [hDaemons]
    by_cases hMe : p = i
    · subst hMe
      rw [Function.update_self]
      exact hCovers seq hLess hOld
    · rw [Function.update_of_ne hMe]
      exact hOld

variable [NeZero n]
variable {segment : Fin n → Nat}
variable {I : Installation n}
variable {now : Nat}
variable {i : Fin n}

/- The slots of a daemon are enough for what is not stable. -/
theorem Acknowledged.sent_le
    (hAcknowledged : σ.Acknowledged I now)
    (i : Fin n) :
    σ.sent.length + maxPacketsPerToken ≤
      (σ.daemons i).aru + maxPacketsInStruct := by
  have hLess := hAcknowledged.length_sent_le i
  simp only [window, maxSeqGap, maxPacketsPerToken,
    maxPacketsInStruct] at *
  omega

theorem Agreed.grows_pass
    (hAgreed : σ.Agreed)
    (hAcknowledged : σ.Acknowledged I now)
    {place : Nat}
    (hEarned : σ.Earned segment (.token i place))
    {copy : Envelope n}
    (hAccepts : σ.Accepts segment i place copy)
    {answer : Answer n Body}
    {sending : Sending n Body}
    {handled : Handled n Body}
    (visit :
      Visit ⟨i, segment i⟩ (σ.daemons i) copy.token answer
        sending handled) :
    Grows σ (σ.pass i handled) := by
  have hStable :=
    hAcknowledged.aru_le hAccepts visit (hEarned copy hAccepts)
  have hWindow := hAcknowledged.sent_le i
  refine .of_update visit.myAru_le ?_ rfl ?_
    (List.prefix_append _ _) ?_ (List.prefix_append _ _)
  · intro seq hSent hCovers
    exact visit.covers (hAgreed.holds i).discarded (by omega)
      hStable hCovers
  · intro p
    simp only [pass]
    by_cases hMe : p = i
    · subst hMe
      rw [Function.update_self]
      exact Nat.le_succ _
    · rw [Function.update_of_ne hMe]
  · exact (List.prefix_append _ _).trans (List.prefix_append _ _)

/- In a step, nothing is lost. -/
theorem Agreed.grows
    (hAgreed : σ.Agreed)
    (hAcknowledged : σ.Acknowledged I now)
    {a : RingAction n Body}
    (hEarned : σ.Earned segment a)
    (hStep : σ.step segment a = some σ') :
    Grows σ σ' := by
  have hRounds : ∀ p, σ.rounds p ≤ σ.rounds p :=
    fun _ => Nat.le_refl _
  cases step_cases hStep with
  | submitted i link hAlive =>
      exact .of_update
        (d := protNewMessage (σ.daemons i) link)
        (Nat.le_refl _) (fun _ _ => id) rfl hRounds
        List.prefix_rfl List.prefix_rfl List.prefix_rfl
  | received i places d hAlive hResult =>
      rcases hAgreed.bcast segment i places with
        ⟨d', hResult', _, hGains, _⟩
      rw [hResult, Option.some.injEq] at hResult'
      subst hResult'
      exact .of_update
        (protHandleBcast_eq_some hResult).myAru_le
        (fun _ _ hCovers => hCovers.gains hGains) rfl hRounds
        List.prefix_rfl List.prefix_rfl List.prefix_rfl
  | swallowed i place => exact .refl σ
  | resent _ i last hAlive hSame hNone =>
      exact .of_update
        (d := { σ.daemons i with lastToken := last })
        (Nat.le_refl _) (fun _ _ => id) rfl hRounds
        List.prefix_rfl List.prefix_rfl
        (List.prefix_append _ _)
  | accepted i place copy handled hAccepts hResult =>
      rcases acceptToken_eq_some hResult with
        ⟨answer, sending, visit⟩
      exact hAgreed.grows_pass hAcknowledged hEarned hAccepts
        visit
  | exitedBcast i places hAlive hResult =>
      exact ⟨hRounds, List.prefix_rfl, List.prefix_rfl,
        List.prefix_rfl, fun _ => Nat.le_refl _,
        fun _ _ _ => id⟩
  | exitedToken i place copy hAccepts hResult =>
      exact ⟨hRounds, List.prefix_rfl, List.prefix_rfl,
        List.prefix_rfl, fun _ => Nat.le_refl _,
        fun _ _ _ => id⟩

/- Each packet that was sent is at some daemon. -/
def Owned (σ : RingState n Body) : Prop :=
  ∀ seq, seq ≤ σ.sent.length → ∃ i, Covers (σ.daemons i) seq

omit [NeZero n] in
theorem Owned.grows
    (hOwned : σ.Owned)
    (hGrows : Grows σ σ')
    (hSent : σ'.sent = σ.sent) :
    σ'.Owned := by
  intro seq hLess
  rw [hSent] at hLess
  rcases hOwned seq hLess with ⟨i, hCovers⟩
  exact ⟨i, hGrows.covers i seq hLess hCovers⟩

/- The daemon has the packets that it has sent itself. -/
theorem Owned.pass
    (hOwned : σ.Owned)
    (hAgreed : σ.Agreed)
    (hAcknowledged : σ.Acknowledged I now)
    {place : Nat}
    (hEarned : σ.Earned segment (.token i place))
    {copy : Envelope n}
    (hAccepts : σ.Accepts segment i place copy)
    {answer : Answer n Body}
    {sending : Sending n Body}
    {handled : Handled n Body}
    (visit :
      Visit ⟨i, segment i⟩ (σ.daemons i) copy.token answer
        sending handled) :
    (σ.pass i handled).Owned := by
  have hGrows :=
    hAgreed.grows_pass hAcknowledged hEarned hAccepts visit
  have hTop := hAcknowledged.seq_eq hAccepts
  have hWindow := hAcknowledged.sent_le i
  have hLimit := visit.length_packets_le.1
  have hHighest := visit.sends.highestSeq_eq
  intro seq hLess
  rcases Nat.lt_or_ge σ.sent.length seq with hNew | hOld
  · have hKnown :=
      (hAgreed.holds i).tracks.myAru_le
    have hStable := hAcknowledged.aru_le_myAru i i
    simp only [RingState.pass, List.length_append] at hLess
    rw [visit.packets] at hLess hLimit
    simp only [ProtocolState.heard] at hHighest
    refine ⟨i, ?_⟩
    simp only [RingState.pass, Function.update_self]
    refine visit.covers_of_isSome (hAgreed.holds i).discarded
      (by omega) (by omega) ?_
    refine isSome_of_sent visit.sent ?_ (by omega)
    simp only [ProtocolState.heard]
    omega
  · rcases hOwned seq hOld with ⟨p, hCovers⟩
    exact ⟨p, hGrows.covers p seq hOld hCovers⟩

end RingState

end Protocol

end ReplicatedAccount
