import ReplicatedAccount.Spread.Progress
import Mathlib.Data.Fintype.Card

/-
  How a packet that the network has lost comes to all daemons.

  A daemon that lacks a packet asks for it when it has the
  token.  The daemon behind it, which takes the token next,
  sends the packet again if it has it.  Some daemon has it, and
  so it goes round the ring against the token.

  Key theorems include:
    * `Live.turn_of`
    * `Live.answered`
    * `Live.send_again`
    * `Live.spread`
-/

------------------------------------------------------------
-- The Turn of a Daemon
------------------------------------------------------------

namespace ReplicatedAccount

namespace Protocol

open Foundations RoundRobin

variable {n : Nat}
variable {Body : Type}
variable [NeZero n]
variable {I : Installation n}
variable {σ : RingState n Body}
variable {now : Nat}

/- The token can go on until it is the turn of a daemon. -/
theorem Live.turn_of
    (hLive : Live I σ now)
    (hClean : I.Clean)
    (segment : Fin n → Nat)
    (j : Fin n) :
    ∃ cs τ now',
      Leads segment I σ cs τ ∧ Live I τ now' ∧
        now' = time τ.rounds j + n := by
  rcases hLive.available with ⟨last, hLast, _⟩
  have hTurn := hLive.acknowledged.circulates.turn.next hLast
  refine forall_of_next
    (P := fun j => ∃ cs τ now',
      Leads segment I σ cs τ ∧ Live I τ now' ∧
        now' = time τ.rounds j + n)
    ?_ ⟨[], σ, now, .refl segment I σ, hLive, hTurn⟩ j
  rintro i ⟨cs, τ, now', hLeads, hLiveτ, hMine⟩
  rcases hLiveτ.visit hClean segment with
    ⟨cs', υ, i', place, copy, handled, hLeads', hCalm, _, _,
      hFirst, _, _, hLive'⟩
  have hSame : i' = i :=
    time_injective τ.rounds (by omega)
  subst hSame
  have hDone :
      now' + 1 = time (υ.pass i' handled).rounds i' + 1 := by
    simp only [RingState.pass, time_update_same, hCalm.rounds]
    omega
  exact ⟨cs ++ cs', _, now' + 1,
    hLeads.trans hLive hClean hLeads', hLive',
    hLive'.acknowledged.circulates.turn.next hDone⟩

end Protocol

end ReplicatedAccount

------------------------------------------------------------
-- A Packet that is Sent Again
------------------------------------------------------------

namespace ReplicatedAccount

namespace Protocol

open Foundations RoundRobin

variable {n : Nat}
variable {Body : Type}
variable [NeZero n]
variable {segment : Fin n → Nat}
variable {I : Installation n}
variable {σ : RingState n Body}
variable {now : Nat}
variable {m : Nat}

/- A daemon that lacks the next packet asks for it. -/
theorem Live.asks
    (hLive : Live I σ now)
    (hClean : I.Clean)
    {j : Fin n}
    {place : Nat}
    {copy : Envelope n}
    (hAccepts : σ.Accepts segment j place copy)
    {handled : Handled n Body}
    (hResult :
      acceptToken ⟨j, segment j⟩ (σ.daemons j) copy.token =
        some handled)
    (hCounted : m ≤ handled.state.myAru)
    (hSent : m < σ.sent.length)
    (hLacks : ¬ Covers handled.state (m + 1)) :
    handled.state.myAru = m ∧
      (σ.pass j handled).CurrentCopy j
        ⟨j, σ.rounds j + 1, handled.state.lastToken⟩ ∧
      ∃ rtr ∈ handled.state.lastToken.rtr,
        m + 1 ∈ rtr.seqs ∧
          rtr.target.Covers ⟨j, segment j⟩ := by
  have hAcknowledged := hLive.acknowledged
  rcases acceptToken_eq_some hResult with
    ⟨answer, sending, visit⟩
  have hAgreed := (hLive.pass hClean hAccepts hResult).agreed
  have hState :
      (σ.pass j handled).daemons j = handled.state :=
    Function.update_self _ _ _
  have hMine : handled.state.myAru = m := by
    by_contra hNot
    have hHolds := hAgreed.holds j
    rw [hState] at hHolds
    exact hLacks (hHolds.covers (by omega))
  have hHighest := visit.highestSeq_eq
  rw [hAcknowledged.seq_eq hAccepts] at hHighest
  have hStable :=
    (hAcknowledged.aru_le_myAru j j).trans visit.myAru_le
  have hToken := token_eq_some_of_missing hResult (by omega)
  rcases visit.exists_request (by omega) with
    ⟨rtr, hRtr, hSeq, hTarget⟩
  rw [hMine] at hSeq
  refine ⟨hMine, ⟨?_, rfl, ?_⟩, rtr, hRtr, hSeq, hTarget⟩
  · rw [RingState.pass, hToken]
    exact List.mem_append_right _ (List.mem_singleton_self _)
  · simp only [RingState.pass, Function.update_self]

/- The next daemon answers, and the answer can arrive. -/
theorem Live.answered
    (hLive : Live I σ now)
    (hClean : I.Clean)
    (segment : Fin n → Nat)
    {j : Fin n}
    (hTurn : now = time σ.rounds j + 1)
    {copy : Envelope n}
    (hCopy : σ.CurrentCopy j copy)
    {rtr : RingRtr n}
    (hRtr : rtr ∈ copy.token.rtr)
    (hSeq : m + 1 ∈ rtr.seqs)
    (hTarget : rtr.target.Covers ⟨j, segment j⟩)
    (hOther : j + 1 ≠ j)
    (hCounted : (σ.daemons j).myAru = m)
    (hSent : m < σ.sent.length)
    (hHas : Covers (σ.daemons (j + 1)) (m + 1)) :
    ∃ cs τ now',
      Leads segment I σ cs τ ∧ Live I τ now' ∧
        Covers (τ.daemons j) (m + 1) := by
  have hStable :=
    hLive.acknowledged.aru_le_myAru (j + 1) j
  have hWindow := hLive.acknowledged.sent_le (j + 1)
  rcases (hLive.agreed.holds (j + 1)).exists_info
      hLive.agreed.served.sound hHas (by omega) (by omega) with
    ⟨info, hInfo, hNumber⟩
  rcases hLive.visit_copy hClean segment hTurn hCopy with
    ⟨place, handled, hAccepts, hResult, hStep, hAnew, hLive'⟩
  rcases acceptToken_eq_some hResult with
    ⟨answer, sending, visit⟩
  have hAnswer := visit.mem_answers hRtr hSeq hInfo
  rcases List.getElem?_of_mem hAnswer with ⟨k, hPlace⟩
  have hLess := (List.getElem?_eq_some_iff.mp hPlace).1
  -- the answer is behind everything that was in the network
  have hNet :
      (σ.pass (j + 1) handled).net[σ.net.length + k]? =
        some ⟨j + 1, info.packet, rtr.target⟩ := by
    simp only [RingState.pass]
    rw [List.getElem?_append_left
        (by rw [List.length_append]; omega),
      List.getElem?_append_right (Nat.le_add_right _ _),
      Nat.add_sub_cancel_left]
    exact hPlace
  rcases hLive'.agreed.bcast segment j [σ.net.length + k] with
    ⟨d, hReceived, _, _, hCovers⟩
  have hArrives :
      info.packet ∈
        (σ.pass (j + 1) handled).datagram segment j
          [σ.net.length + k] := by
    refine List.mem_filterMap.mpr
      ⟨_, List.mem_singleton_self _, ?_⟩
    rw [hNet, Option.bind_some,
      if_pos (Transmission.reaches hTarget hOther _)]
  have hStep' :
      (σ.pass (j + 1) handled).step segment
          (.bcast j [σ.net.length + k]) =
        some
          { σ.pass (j + 1) handled with
            daemons :=
              Function.update (σ.pass (j + 1) handled).daemons
                j d } := by
    rw [RingState.step,
      if_neg (Bool.eq_false_iff.mp (hLive'.agreed.alive j)),
      hReceived, Option.map_some, RingState.finish_same]
  rcases hLive'.step hClean hStep' with ⟨now', hLive''⟩
  refine ⟨[.token (j + 1) place, .bcast j [σ.net.length + k]],
    _, now', ⟨?_, ?_⟩, hLive'', ?_⟩
  · simp only [TransitionSystem.runFrom, ringSystem]
    rw [hStep]
    dsimp only
    rw [hStep']
  · intro a hMember
    rcases List.mem_cons.mp hMember with rfl | hLast
    · exact hAnew
    · rw [List.mem_singleton.mp hLast]
      intro place' hPlace'
      rw [List.mem_singleton.mp hPlace']
      exact Nat.le_add_right _ _
  · have hMine := hCovers _ hArrives
    rw [hNumber] at hMine
    dsimp only
    rw [Function.update_self]
    exact hMine

/- A daemon gets what it lacks from the one behind it. -/
theorem Live.send_again
    (hLive : Live I σ now)
    (hClean : I.Clean)
    (segment : Fin n → Nat)
    (hAll : ∀ p, m ≤ (σ.daemons p).myAru)
    (hSent : m < σ.sent.length)
    {j : Fin n}
    (hLacks : ¬ Covers (σ.daemons j) (m + 1))
    (hHas : Covers (σ.daemons (j + 1)) (m + 1)) :
    ∃ cs τ now',
      Leads segment I σ cs τ ∧ Live I τ now' ∧
        Covers (τ.daemons j) (m + 1) := by
  have hOther : j + 1 ≠ j := by
    intro hSame
    rw [hSame] at hHas
    exact hLacks hHas
  rcases hLive.turn_of hClean segment j with
    ⟨cs, τ, now', hLeads, hLiveτ, hTurn⟩
  rcases hLiveτ.visit hClean segment with
    ⟨cs', υ, i, place, copy, handled, hLeads', hCalm, hLiveυ,
      hGrows', hFirst, hAccepts, hResult, hLiveω⟩
  have hSame : i = j :=
    time_injective τ.rounds (by omega)
  subst hSame
  have hLeads'' := hLeads.trans hLive hClean hLeads'
  have hGrows := hLive.grows_run hClean hLeads''.1
  have hState :
      (υ.pass i handled).daemons i = handled.state :=
    Function.update_self _ _ _
  by_cases hNow : Covers handled.state (m + 1)
  · exact ⟨_, _, _, hLeads'', hLiveω, by rw [hState]; exact hNow⟩
  · have hMore := hGrows.myAru_le i
    rw [hState] at hMore
    have hBefore :=
      (hLive.grows_run hClean hLeads.1).trans hGrows'
    have hSentυ := hSent.trans_le hBefore.sent.length_le
    have hSentω := hSent.trans_le hGrows.sent.length_le
    rcases hLiveυ.asks hClean hAccepts hResult
        ((hAll i).trans hMore) hSentυ hNow with
      ⟨hMine, hCopy, rtr, hRtr, hSeq, hTarget⟩
    have hLast :
        now' + 1 = time (υ.pass i handled).rounds i + 1 := by
      simp only [RingState.pass, time_update_same, hCalm.rounds]
      omega
    rcases hLiveω.answered hClean segment hLast hCopy hRtr hSeq
        hTarget hOther (by rw [hState]; exact hMine) hSentω
        (hGrows.covers (i + 1) (m + 1) hSent hHas) with
      ⟨ds, ω, now'', hLeadsω, hLive', hCovers⟩
    exact ⟨_, ω, now'', hLeads''.trans hLive hClean hLeadsω,
      hLive', hCovers⟩

end Protocol

end ReplicatedAccount

------------------------------------------------------------
-- Round the Ring
------------------------------------------------------------

namespace ReplicatedAccount

namespace Protocol

open Foundations RoundRobin

variable {n : Nat}
variable {Body : Type}
variable [NeZero n]
variable {I : Installation n}
variable {σ : RingState n Body}
variable {now : Nat}
variable {m : Nat}

/- Some daemon lacks a packet that the one behind it has. -/
theorem RingState.Owned.exists_next
    (hOwned : σ.Owned)
    (hSent : m < σ.sent.length)
    {p : Fin n}
    (hLacks : ¬ Covers (σ.daemons p) (m + 1)) :
    ∃ j, ¬ Covers (σ.daemons j) (m + 1) ∧
      Covers (σ.daemons (j + 1)) (m + 1) := by
  by_contra hNone
  rw [not_exists] at hNone
  rcases hOwned (m + 1) hSent with ⟨i, hHas⟩
  refine forall_of_next
    (P := fun j => ¬ Covers (σ.daemons j) (m + 1))
    ?_ hLacks i hHas
  intro j hLacks' hNext
  exact hNone j ⟨hLacks', hNext⟩

/- The daemons that lack a packet. -/
noncomputable def RingState.lacking
    (σ : RingState n Body)
    (seq : Nat) :
    Finset (Fin n) :=
  open Classical in
  Finset.univ.filter fun p => ¬ Covers (σ.daemons p) seq

omit [NeZero n] in
theorem RingState.mem_lacking
    {seq : Nat}
    {p : Fin n} :
    p ∈ σ.lacking seq ↔ ¬ Covers (σ.daemons p) seq := by
  simp [RingState.lacking]

/-
  All daemons can get the first packet that one of them lacks.
  By induction on how many lack it.
-/
theorem Live.spread
    (hLive : Live I σ now)
    (hClean : I.Clean)
    (segment : Fin n → Nat)
    (hAll : ∀ p, m ≤ (σ.daemons p).myAru)
    (hSent : m < σ.sent.length) :
    ∃ cs τ now',
      Leads segment I σ cs τ ∧ Live I τ now' ∧
        ∀ p, Covers (τ.daemons p) (m + 1) := by
  generalize hCount : (σ.lacking (m + 1)).card = count
  induction count using Nat.strong_induction_on
    generalizing σ now with
  | _ count ih =>
      by_cases hDone : ∀ p, Covers (σ.daemons p) (m + 1)
      · exact ⟨[], σ, now, .refl segment I σ, hLive, hDone⟩
      · rw [not_forall] at hDone
        rcases hDone with ⟨p, hLacks⟩
        rcases hLive.owned.exists_next hSent hLacks with
          ⟨j, hMissing, hHas⟩
        rcases hLive.send_again hClean segment hAll hSent
            hMissing hHas with
          ⟨cs, τ, now', hLeads, hLiveτ, hCovers⟩
        have hGrows := hLive.grows_run hClean hLeads.1
        have hFewer :
            τ.lacking (m + 1) ⊂ σ.lacking (m + 1) := by
          rw [Finset.ssubset_iff_of_subset]
          · exact ⟨j, RingState.mem_lacking.mpr hMissing,
              fun hStill =>
                RingState.mem_lacking.mp hStill hCovers⟩
          · intro q hStill
            rw [RingState.mem_lacking] at hStill ⊢
            exact fun hOld =>
              hStill (hGrows.covers q (m + 1) hSent hOld)
        rcases ih (τ.lacking (m + 1)).card
            (hCount ▸ Finset.card_lt_card hFewer) hLiveτ
            (fun q => (hAll q).trans (hGrows.myAru_le q))
            (hSent.trans_le hGrows.sent.length_le) rfl with
          ⟨ds, υ, now'', hLeads', hLiveυ, hEverywhere⟩
        exact ⟨cs ++ ds, υ, now'',
          hLeads.trans hLive hClean hLeads', hLiveυ,
          hEverywhere⟩

end Protocol

end ReplicatedAccount
