import ReplicatedAccount.Spread.Protocol
import Mathlib.Tactic.Common

/-
  What the handlers of the ring protocol do to the numbers of
  a daemon, whatever packets it holds.

  Key definitions include:
    * `Receives`
    * `Sends`
    * `Visit`

  Key theorems include:
    * `protHandleBcast_eq_some`
    * `sendNewPackets_eq_some`
    * `acceptToken_eq_some`
-/

------------------------------------------------------------
-- Received Packets
------------------------------------------------------------

namespace ReplicatedAccount

namespace Protocol

variable {n : Nat}
variable {Body : Type}

theorem le_advanceAru
    (packets : Nat → Option (PacketInfo n Body))
    (k aru : Nat) :
    aru ≤ advanceAru packets k aru := by
  induction k generalizing aru with
  | zero => exact Nat.le_refl _
  | succ k ih =>
      rw [advanceAru]
      split_ifs
      · exact Nat.le_of_succ_le (ih (aru + 1))
      · exact Nat.le_refl _

theorem advanceAru_le
    (packets : Nat → Option (PacketInfo n Body))
    (k aru : Nat) :
    advanceAru packets k aru ≤ aru + k := by
  induction k generalizing aru with
  | zero => exact Nat.le_refl _
  | succ k ih =>
      rw [advanceAru]
      split_ifs
      · exact (ih (aru + 1)).trans (by omega)
      · omega

/- All packets that were counted are there. -/
theorem isSome_of_le_advanceAru
    {packets : Nat → Option (PacketInfo n Body)}
    {k aru q : Nat}
    (hAbove : aru < q)
    (hCounted : q ≤ advanceAru packets k aru) :
    (packets (packEntry q)).isSome := by
  induction k generalizing aru with
  | zero =>
      rw [advanceAru] at hCounted
      omega
  | succ k ih =>
      rw [advanceAru] at hCounted
      split_ifs at hCounted with hNext
      · rcases Nat.lt_or_ge (aru + 1) q with hMore | hLess
        · exact ih hMore hCounted
        · have hSame : q = aru + 1 := by
            omega
          exact hSame ▸ hNext
      · omega

/- What a daemon changes when packets arrive. -/
structure Receives (d d' : ProtocolState n Body) : Prop where
  same :
    d' =
      { d with
        highestSeq := d'.highestSeq
        myAru := d'.myAru
        delivery := d'.delivery }
  highestSeq_le : d.highestSeq ≤ d'.highestSeq
  myAru_le : d.myAru ≤ d'.myAru
  myAru_le_highestSeq :
    d.myAru ≤ d.highestSeq → d'.myAru ≤ d'.highestSeq

theorem Receives.refl
    (d : ProtocolState n Body) :
    Receives d d :=
  ⟨rfl, Nat.le_refl _, Nat.le_refl _, id⟩

theorem Receives.trans
    {d d' d'' : ProtocolState n Body}
    (hFirst : Receives d d')
    (hSecond : Receives d' d'') :
    Receives d d'' where
  same := by
    rw [hSecond.same, hFirst.same]
  highestSeq_le :=
    hFirst.highestSeq_le.trans hSecond.highestSeq_le
  myAru_le := hFirst.myAru_le.trans hSecond.myAru_le
  myAru_le_highestSeq hLess :=
    hSecond.myAru_le_highestSeq (hFirst.myAru_le_highestSeq hLess)

theorem Receives.lastToken_eq
    {d d' : ProtocolState n Body}
    (hReceives : Receives d d') :
    d'.lastToken = d.lastToken := by
  rw [hReceives.same]

theorem Receives.setAru_eq
    {d d' : ProtocolState n Body}
    (hReceives : Receives d d') :
    d'.setAru = d.setAru := by
  rw [hReceives.same]

theorem Receives.aru_eq
    {d d' : ProtocolState n Body}
    (hReceives : Receives d d') :
    d'.aru = d.aru := by
  rw [hReceives.same]

theorem handlePacket_eq_some
    {d d' : ProtocolState n Body}
    {p : Packet n Body}
    (hResult : handlePacket d p = some d') :
    Receives d d' ∧ d'.highestSeq ≤ max d.highestSeq p.seq := by
  unfold handlePacket at hResult
  split_ifs at hResult with hOld hExists hNext
  · cases hResult
    exact ⟨.refl d, Nat.le_max_left _ _⟩
  · cases hResult
    exact ⟨.refl d, Nat.le_max_left _ _⟩
  · dsimp only at hResult
    split at hResult
    · cases hResult
    · cases hResult
      refine ⟨⟨rfl, Nat.le_max_left _ _, le_advanceAru _ _ _,
        ?_⟩, Nat.le_refl _⟩
      intro hLess
      have hCounted :=
        advanceAru_le
          (Function.update d.delivery.packets (packEntry p.seq)
            (some ⟨p, false⟩))
          (max d.highestSeq p.seq - d.myAru) d.myAru
      dsimp only
      omega
  · dsimp only at hResult
    split at hResult
    · cases hResult
    · cases hResult
      exact ⟨⟨rfl, Nat.le_max_left _ _, Nat.le_refl _,
        fun hLess => hLess.trans (Nat.le_max_left _ _)⟩,
        Nat.le_refl _⟩

theorem protHandleBcast_eq_some
    {d d' : ProtocolState n Body}
    {packets : List (Packet n Body)}
    (hResult : protHandleBcast d packets = some d') :
    Receives d d' := by
  induction packets generalizing d with
  | nil =>
      cases hResult
      exact .refl _
  | cons p packets ih =>
      rw [protHandleBcast] at hResult
      split at hResult
      · cases hResult
      · rename_i next hNext
        exact (handlePacket_eq_some hNext).1.trans (ih hResult)

theorem highestSeq_le_of_protHandleBcast
    {d d' : ProtocolState n Body}
    {packets : List (Packet n Body)}
    (hResult : protHandleBcast d packets = some d')
    {bound : Nat}
    (hBound : d.highestSeq ≤ bound)
    (hSeqs : ∀ p ∈ packets, p.seq ≤ bound) :
    d'.highestSeq ≤ bound := by
  induction packets generalizing d with
  | nil =>
      cases hResult
      exact hBound
  | cons p packets ih =>
      rw [protHandleBcast] at hResult
      split at hResult
      · cases hResult
      · rename_i next hNext
        have hMax := (handlePacket_eq_some hNext).2
        have hSeq := hSeqs p (by simp)
        exact ih hResult (by omega)
          fun p' hMember => hSeqs p' (by simp [hMember])

end Protocol

end ReplicatedAccount

------------------------------------------------------------
-- Sent Packets
------------------------------------------------------------

namespace ReplicatedAccount

namespace Protocol

variable {n : Nat}
variable {Body : Type}

theorem sendNext_eq_some
    {me : Proc n}
    {s s' : Sending n Body}
    (hResult : sendNext me s = some s')
    (hLinks : s.state.downQueue.links ≠ []) :
    ∃ link rest element,
      s.state.downQueue.links = link :: rest ∧
        link.mess[s.state.downQueue.curElement]? =
          some element ∧
        s.state.delivery.packets
            (packEntry (s.state.highestSeq + 1)) = none ∧
        s' = s.push me link rest element := by
  unfold sendNext at hResult
  split at hResult
  · rename_i hNil
    exact absurd hNil hLinks
  · rename_i link rest hCons
    split at hResult
    · cases hResult
    · rename_i element hElement
      split_ifs at hResult with hExists
      cases hResult
      exact ⟨link, rest, element, hCons, hElement,
        Option.not_isSome_iff_eq_none.mp hExists, rfl⟩

/- What every turn keeps, holds when all packets are sent. -/
theorem sendLoop_induction
    {me : Proc n}
    {numAllowed : Nat}
    {P : Sending n Body → Prop}
    (hStep :
      ∀ s link rest element,
        P s → s.numSent < numAllowed →
          s.state.downQueue.links = link :: rest →
          link.mess[s.state.downQueue.curElement]? =
            some element →
          s.state.delivery.packets
              (packEntry (s.state.highestSeq + 1)) = none →
            P (s.push me link rest element))
    {k : Nat}
    {s s' : Sending n Body}
    (hStart : P s)
    (hResult : sendLoop me numAllowed k s = some s') :
    P s' := by
  induction k generalizing s with
  | zero =>
      cases hResult
      exact hStart
  | succ k ih =>
      rw [sendLoop] at hResult
      split_ifs at hResult with hMore
      · split at hResult
        · cases hResult
        · rename_i next hNext
          rcases sendNext_eq_some hNext hMore.2 with
            ⟨link, rest, element, hLinks, hElement, hNone, rfl⟩
          exact ih
            (hStep s link rest element hStart hMore.1 hLinks
              hElement hNone)
            hResult
      · cases hResult
        exact hStart

/- What a daemon changes when it sends packets. -/
structure Sends
    (d : ProtocolState n Body)
    (s : Sending n Body) : Prop where
  same :
    s.state =
      { d with
        highestSeq := d.highestSeq + s.packets.length
        downQueue := s.state.downQueue
        delivery :=
          { d.delivery with
            packets := s.state.delivery.packets } }
  seqs :
    ∀ k p, s.packets[k]? = some p → p.seq = d.highestSeq + k + 1

theorem Sends.push
    {d : ProtocolState n Body}
    {s : Sending n Body}
    (hSends : Sends d s)
    (me : Proc n)
    (link : DownLink Body)
    (rest : List (DownLink Body))
    (element : Fragment Body) :
    Sends d (s.push me link rest element) where
  same := by
    rw [Sending.push, hSends.same]
    simp [Nat.add_assoc]
  seqs k p hPlace := by
    have hSame : s.state.highestSeq =
        d.highestSeq + s.packets.length := by
      rw [hSends.same]
    rw [Sending.push, List.getElem?_append] at hPlace
    split_ifs at hPlace with hOld
    · exact hSends.seqs k p hPlace
    · rw [List.getElem?_singleton] at hPlace
      split_ifs at hPlace with hLast
      cases hPlace
      simp only [newPacket, hSame]
      omega

theorem Sends.highestSeq_eq
    {d : ProtocolState n Body}
    {s : Sending n Body}
    (hSends : Sends d s) :
    s.state.highestSeq = d.highestSeq + s.packets.length := by
  rw [hSends.same]

theorem Sends.myAru_eq
    {d : ProtocolState n Body}
    {s : Sending n Body}
    (hSends : Sends d s) :
    s.state.myAru = d.myAru := by
  rw [hSends.same]

theorem Sends.lastDiscarded_eq
    {d : ProtocolState n Body}
    {s : Sending n Body}
    (hSends : Sends d s) :
    s.state.delivery.lastDiscarded =
      d.delivery.lastDiscarded := by
  rw [hSends.same]

theorem Sends.delivered_eq
    {d : ProtocolState n Body}
    {s : Sending n Body}
    (hSends : Sends d s) :
    s.state.delivery.delivered = d.delivery.delivered := by
  rw [hSends.same]

/- At most forty packets wait to be sent in a datagram. -/
def Packed (s : Sending n Body) : Prop :=
  ∃ waiting,
    s.packets.length ≤ 40 * s.numSent + waiting ∧
      packetHeaderSize * waiting ≤ s.queue.queuedBytes ∧
      (waiting ≤ 1 ∨ s.queue.queuedBytes ≤ maxPacketSize)

/- A packet starts a new datagram, or joins the one there. -/
theorem netQueueBcast_cases
    (queue : NetQueue)
    (newBytes : Nat) :
    ((netQueueBcast queue newBytes).1.queuedBytes = newBytes ∧
      (queue.queuedBytes = 0 ∨
        (netQueueBcast queue newBytes).2 = true)) ∨
    (queue.queuedBytes + newBytes ≤
        (netQueueBcast queue newBytes).1.queuedBytes ∧
      (netQueueBcast queue newBytes).1.queuedBytes ≤
        maxPacketSize) := by
  simp only [netQueueBcast]
  generalize
    (if queue.queuedBytes = 0 then 0 else queue.numElements) =
      numElements
  generalize (4 - queue.queuedBytes % 4) % 4 = alignBytes
  generalize (if alignBytes = 0 then 0 else 1) = alignNumScatter
  split
  · refine Or.inl ⟨rfl, ?_⟩
    by_cases hEmpty : queue.queuedBytes = 0
    · exact Or.inl hEmpty
    · exact Or.inr (by rw [netFlushBcast, if_neg hEmpty])
  · rename_i hFits
    rw [not_or, Nat.not_lt] at hFits
    refine Or.inr ⟨?_, ?_⟩
    · dsimp only
      omega
    · dsimp only
      omega

theorem Packed.push
    {s : Sending n Body}
    (hPacked : Packed s)
    (me : Proc n)
    (link : DownLink Body)
    (rest : List (DownLink Body))
    (element : Fragment Body) :
    Packed (s.push me link rest element) := by
  rcases hPacked with ⟨waiting, hCount, hBytes, hFits⟩
  have hCases :=
    netQueueBcast_cases s.queue
      (packetHeaderSize + element.len)
  simp only [Packed, Sending.push, List.length_append,
    List.length_singleton, packetHeaderSize,
    maxPacketSize] at *
  rcases hCases with ⟨hNew, hEmpty⟩ | ⟨hJoined, hFits'⟩
  · -- at most forty packets were in the datagram that is full
    refine ⟨1, ?_, by omega, Or.inl (Nat.le_refl _)⟩
    rcases hEmpty with hEmpty | hFlushed
    · omega
    · rw [hFlushed, Bool.toNat_true]
      omega
  · exact ⟨waiting + 1, by omega, by omega, Or.inr hFits'⟩

/- As many packets as a daemon can send with one token. -/
def maxPacketsPerToken : Nat := 640

theorem Packed.length_le
    {s : Sending n Body}
    (hPacked : Packed s)
    (hSent : s.numSent ≤ 15) :
    s.packets.length ≤ maxPacketsPerToken := by
  rcases hPacked with ⟨waiting, hCount, hBytes, hFits⟩
  simp only [packetHeaderSize, maxPacketSize] at hBytes hFits
  simp only [maxPacketsPerToken]
  omega

theorem fcAllowed_le
    (highestSeq aru : Nat)
    (flowControl : Int) :
    fcAllowed highestSeq aru flowControl ≤ 15 := by
  unfold fcAllowed
  split_ifs
  · exact Nat.zero_le _
  · omega

theorem fcAllowed_eq_zero
    {highestSeq aru : Nat}
    (flowControl : Int)
    (hGap : aru + maxSeqGap < highestSeq) :
    fcAllowed highestSeq aru flowControl = 0 :=
  if_pos hGap

theorem sendNewPackets_eq_some
    {me : Proc n}
    {d : ProtocolState n Body}
    {queue : NetQueue}
    {numAllowed : Nat}
    {s : Sending n Body}
    (hResult :
      sendNewPackets me d queue numAllowed = some s) :
    ∃ s',
      sendLoop me numAllowed d.downQueue.turns
          ⟨d, [], queue, 0⟩ = some s' ∧
        s.state = s'.state ∧ s.packets = s'.packets := by
  unfold sendNewPackets at hResult
  split at hResult
  · cases hResult
  · rename_i s' hLoop
    cases hResult
    exact ⟨s', hLoop, rfl, rfl⟩

theorem sends_of_sendNewPackets
    {me : Proc n}
    {d : ProtocolState n Body}
    {queue : NetQueue}
    {numAllowed : Nat}
    {s : Sending n Body}
    (hResult :
      sendNewPackets me d queue numAllowed = some s) :
    Sends d s := by
  rcases sendNewPackets_eq_some hResult with
    ⟨s', hLoop, hState, hPackets⟩
  have hSends : Sends d s' := by
    refine sendLoop_induction (P := Sends d) ?_
      ⟨rfl, by simp⟩ hLoop
    intro s link rest element hSends _ _ _ _
    exact hSends.push me link rest element
  exact ⟨by rw [hState, hPackets]; exact hSends.same,
    by rw [hPackets]; exact hSends.seqs⟩

/- The flow control allows that many packets, or none. -/
theorem length_packets_le
    {me : Proc n}
    {d : ProtocolState n Body}
    {queue : NetQueue}
    {highestSeq aru : Nat}
    {flowControl : Int}
    {s : Sending n Body}
    (hResult :
      sendNewPackets me d queue
          (fcAllowed highestSeq aru flowControl) =
        some s) :
    s.packets.length ≤ maxPacketsPerToken ∧
      (aru + maxSeqGap < highestSeq → s.packets = []) := by
  rcases sendNewPackets_eq_some hResult with
    ⟨s', hLoop, hState, hPackets⟩
  rw [hPackets]
  constructor
  · have hLimit := fcAllowed_le highestSeq aru flowControl
    have hBoth : s'.numSent ≤ 15 ∧ Packed s' := by
      refine sendLoop_induction
        (P := fun s => s.numSent ≤ 15 ∧ Packed s) ?_
        ⟨Nat.zero_le _, 0, Nat.zero_le _, Nat.zero_le _,
          Or.inl (Nat.zero_le _)⟩ hLoop
      rintro s link rest element ⟨_, hPacked⟩ hLess _ _ _
      refine ⟨?_, hPacked.push me link rest element⟩
      have hOne :=
        Bool.toNat_le
          (netQueueBcast s.queue
            (packetHeaderSize + element.len)).2
      simp only [Sending.push]
      omega
    exact hBoth.2.length_le hBoth.1
  · intro hGap
    rw [fcAllowed_eq_zero flowControl hGap] at hLoop
    refine sendLoop_induction
      (P := fun s : Sending n Body => s.packets = [])
      (fun s _ _ _ _ hLess => absurd hLess (Nat.not_lt_zero _))
      rfl hLoop

end Protocol

end ReplicatedAccount

------------------------------------------------------------
-- An Accepted Token
------------------------------------------------------------

namespace ReplicatedAccount

namespace Protocol

variable {n : Nat}
variable {Body : Type}

/- The token that the daemon keeps, and sends if at all. -/
def Sending.next
    (sending : Sending n Body)
    (me : Proc n)
    (answer : Answer n Body)
    (token : Token n) :
    Token n :=
  nextToken me sending.state.advanced answer sending.numSent
    token

/- The state in which the daemon delivers its packets. -/
def Sending.passed
    (sending : Sending n Body)
    (me : Proc n)
    (answer : Answer n Body)
    (token : Token n) :
    ProtocolState n Body :=
  sending.state.advanced.passed
    (tokenAru me sending.state.advanced token).2.2
    answer.numRetrans sending.numSent
    (sending.next me answer token)

/- What happens when a token was accepted. -/
structure Visit
    (me : Proc n)
    (d : ProtocolState n Body)
    (token : Token n)
    (answer : Answer n Body)
    (sending : Sending n Body)
    (handled : Handled n Body) : Prop where
  answered :
    answerRetrans me (d.heard token) token.rtr = some answer
  sent :
    sendNewPackets me (d.heard token) answer.queue
        (fcAllowed (d.heard token).highestSeq d.aru
          token.flowControl) =
      some sending
  delivered :
    deliverPackets (sending.passed me answer token)
        sending.numSent =
      some handled.state
  answers : handled.answers = answer.sends
  packets : handled.packets = sending.packets
  token :
    handled.token = none ∨
      handled.token = some (sending.next me answer token)

theorem acceptToken_eq_some
    {me : Proc n}
    {d : ProtocolState n Body}
    {token : Token n}
    {handled : Handled n Body}
    (hResult : acceptToken me d token = some handled) :
    ∃ answer sending,
      Visit me d token answer sending handled := by
  simp only [acceptToken] at hResult
  split at hResult
  · cases hResult
  · rename_i answer hAnswer
    split at hResult
    · cases hResult
    · rename_i sending hSending
      split at hResult
      · cases hResult
      · rename_i state hState
        cases hResult
        refine
          ⟨answer, sending, hAnswer, hSending, hState, rfl, rfl,
            ?_⟩
        dsimp only
        split_ifs
        · exact Or.inl rfl
        · exact Or.inr rfl

/- The delivery of packets changes nothing else. -/
theorem deliverPackets_eq_some
    {d d' : ProtocolState n Body}
    {numSent : Nat}
    (hResult : deliverPackets d numSent = some d') :
    ∃ h, d' = { d with delivery := h } := by
  unfold deliverPackets at hResult
  split at hResult
  · cases hResult
  · split at hResult
    · cases hResult
    · split at hResult
      · cases hResult
      · cases hResult
        exact ⟨_, rfl⟩

namespace Visit

variable {me : Proc n}
variable {d : ProtocolState n Body}
variable {token : Token n}
variable {answer : Answer n Body}
variable {sending : Sending n Body}
variable {handled : Handled n Body}
variable (visit : Visit me d token answer sending handled)

include visit

theorem exists_delivery :
    ∃ h,
      handled.state =
        { sending.passed me answer token with
          delivery := h } :=
  deliverPackets_eq_some visit.delivered

theorem lastToken_eq :
    handled.state.lastToken = sending.next me answer token := by
  rcases visit.exists_delivery with ⟨h, hState⟩
  rw [hState]
  rfl

theorem token_eq :
    handled.token = none ∨
      handled.token = some handled.state.lastToken := by
  rw [visit.lastToken_eq]
  exact visit.token

theorem sends : Sends (d.heard token) sending :=
  sends_of_sendNewPackets visit.sent

/- What the daemon has, when its packets are counted. -/
theorem advanced_eq :
    handled.state.highestSeq =
        sending.state.advanced.highestSeq ∧
      handled.state.myAru = sending.state.advanced.myAru := by
  rcases visit.exists_delivery with ⟨h, hState⟩
  rw [hState]
  exact ⟨rfl, rfl⟩

theorem highestSeq_eq :
    handled.state.highestSeq =
      max d.highestSeq token.seq + handled.packets.length := by
  rw [visit.advanced_eq.1, ProtocolState.advanced,
    visit.sends.same, visit.packets]
  rfl

theorem myAru_le : d.myAru ≤ handled.state.myAru := by
  rw [visit.advanced_eq.2, ProtocolState.advanced,
    visit.sends.same]
  exact le_advanceAru _ _ _

theorem myAru_le_highestSeq
    (hLess : d.myAru ≤ d.highestSeq) :
    handled.state.myAru ≤ handled.state.highestSeq := by
  have hCounted :=
    advanceAru_le sending.state.delivery.packets
      (sending.state.highestSeq - sending.state.myAru)
      sending.state.myAru
  rw [visit.advanced_eq.1, visit.advanced_eq.2]
  have hHighest := visit.sends.highestSeq_eq
  have hMine := visit.sends.myAru_eq
  simp only [ProtocolState.advanced, ProtocolState.heard] at *
  omega

theorem setAru_advanced :
    sending.state.advanced.setAru = d.setAru := by
  rw [ProtocolState.advanced, visit.sends.same]
  rfl

theorem setAru_eq :
    handled.state.setAru =
      (tokenAru me sending.state.advanced token).2.2 := by
  rcases visit.exists_delivery with ⟨h, hState⟩
  rw [hState]
  rfl

theorem aru_eq :
    handled.state.aru =
      min handled.state.lastToken.aru d.lastToken.aru := by
  rcases visit.exists_delivery with ⟨h, hState⟩
  rw [hState]
  have hLast :
      sending.state.advanced.lastToken = d.lastToken := by
    rw [ProtocolState.advanced, visit.sends.same]
    rfl
  simp only [Sending.passed, ProtocolState.passed, hLast]

theorem length_packets_le :
    handled.packets.length ≤ maxPacketsPerToken ∧
      (d.aru + maxSeqGap < max d.highestSeq token.seq →
        handled.packets = []) := by
  rw [visit.packets]
  exact Protocol.length_packets_le visit.sent

end Visit

end Protocol

end ReplicatedAccount
