import ReplicatedAccount.Spread.RingRuns
import Mathlib.Data.List.Nodup

/-
  What the daemons of a ring promise to their sessions.

  All daemons deliver the messages in one order, and those of
  a daemon in the order in which it was given them.  A message
  is delivered at most once, and a safe one when all daemons
  have received it.

  Key definitions include:
    * `isSingleMessage`
    * `ProtocolState.Holding`

  Key theorems include:
    * `daemons_deliver_in_one_order`
    * `sessions_are_heard_in_order`
    * `safe_messages_are_everywhere`
    * `everything_known_is_delivered`
    * `daemons_never_exit`
-/

------------------------------------------------------------
-- Delivered Messages
------------------------------------------------------------

namespace ReplicatedAccount

namespace Protocol

open Foundations
open Daemon (PacketType)

variable {n : Nat}
variable {Body : Type}
variable {sent : List (Packet n Body)}
variable {myAru aru : Nat}
variable {h : Delivery n Body}
variable {a : Assembly (Packet n Body) (Option (Fin n))
  (Fragment Body)}

/- A message that a daemon need not deliver in order. -/
def isSingleMessage
    (message : PacketType × List (Fragment Body)) :
    Bool :=
  message.1 = .reliable && message.2.length = 1

theorem isSingle_of_mem_whole
    (hAll : packetFraming.assemble sent = some a)
    {m : Packet n Body × List (Fragment Body)}
    (hMember : m ∈ a.whole) :
    m.1.isSingle = isSingleMessage (m.1.type, m.2) := by
  rcases packetFraming.last_of_mem_whole hAll hMember with
    ⟨hLast, before, hParts, hIndex⟩
  simp only [packetFraming, decide_eq_true_eq] at hLast hIndex
  have hSame : m.1.packetIndex = -1 ↔ m.2.length = 1 := by
    rw [hParts, List.length_append, List.length_singleton]
    omega
  simp only [Packet.isSingle, isSingleMessage, hSame]

/- The messages of a daemon that are delivered in order. -/
theorem messagesOf_ordered
    (hAll : packetFraming.assemble sent = some a)
    (i : Fin n) :
    messagesOf i (ordered a.whole) =
      (messagesOf i a.whole).filter
        fun message => !isSingleMessage message := by
  have hSame :
      ordered a.whole =
        a.whole.filter
          fun m => !isSingleMessage (m.1.type, m.2) :=
    List.filter_congr fun m hMember => by
      rw [isSingle_of_mem_whole hAll hMember]
  rw [hSame, messagesOf, messagesOf, List.filter_map,
    List.filter_filter, List.filter_filter]
  simp only [Function.comp_def, Bool.and_comm]

/- A single packet is a whole message. -/
theorem mem_whole_of_isSingle
    (hAll : packetFraming.assemble sent = some a)
    {p : Packet n Body}
    (hSent : p ∈ sent)
    (hSingle : p.isSingle = true) :
    (p, [packetFraming.part p]) ∈ a.whole := by
  rcases List.getElem?_of_mem hSent with ⟨k, hPlace⟩
  rcases packetFraming.exists_add_of_assemble hPlace hAll with
    ⟨b, hBefore, _, hAfter⟩
  rw [(accept_single (parts_none hBefore) hSingle).2.2] at hAfter
  have hPrefix :=
    packetFraming.isPrefix_whole_of_le (k := sent.length)
      (List.getElem?_eq_some_iff.mp hPlace).1 hAfter
      (by rw [List.take_length]; exact hAll)
  exact hPrefix.subset (by simp)

/- No packet was sent twice. -/
theorem Sound.nodup
    (hSound : Sound sent) :
    sent.Nodup := by
  rw [List.nodup_iff_getElem?_ne_getElem?]
  intro i j hLess hLength hSame
  rw [List.getElem?_eq_getElem hLength] at hSame
  have hSeq := hSound.seq i _ hSame
  rw [hSound.seq j _ (List.getElem?_eq_getElem hLength)] at hSeq
  omega

namespace Tracks

variable (hTracks : Tracks sent myAru aru h)

include hTracks

/- The ordered messages are those of an initial part. -/
theorem ordered_prefix
    (hAll : packetFraming.assemble sent = some a) :
    ordered h.delivered <+: ordered a.whole := by
  rcases hTracks.assembled with ⟨b, hPart, _, hOrdered⟩
  rw [hOrdered]
  have hLess := hTracks.delivered_le.trans hTracks.myAru_le
  have hPrefix :=
    packetFraming.isPrefix_whole_of_le hLess hPart
      (by rw [List.take_length]; exact hAll)
  exact hPrefix.filter _

/- Every message that was delivered was sent as a whole. -/
theorem delivered_subset
    (hAll : packetFraming.assemble sent = some a) :
    h.delivered ⊆ a.whole := by
  intro m hMember
  by_cases hSingle : m.1.isSingle = true
  · rcases (hTracks.singles m hSingle).mp hMember with
      ⟨hSent, hParts, _⟩
    have hWhole := mem_whole_of_isSingle hAll hSent hSingle
    rw [← hParts] at hWhole
    exact hWhole
  · have hOrdered : m ∈ ordered h.delivered :=
      List.mem_filter.mpr ⟨hMember, by simpa using hSingle⟩
    exact (List.mem_filter.mp
      ((hTracks.ordered_prefix hAll).subset hOrdered)).1

theorem delivered_subperm
    (hAll : packetFraming.assemble sent = some a) :
    h.delivered.Subperm a.whole :=
  List.subperm_of_subset (List.Nodup.of_map _ hTracks.once)
    (hTracks.delivered_subset hAll)

/- A message up to the delivered packets was delivered. -/
theorem mem_delivered
    (hSound : Sound sent)
    (hAll : packetFraming.assemble sent = some a)
    {m : Packet n Body × List (Fragment Body)}
    (hWhole : m ∈ a.whole)
    (hBefore : m.1.seq ≤ h.lastDelivered) :
    m ∈ h.delivered := by
  have hLater :
      ∀ p ∈ sent.drop h.lastDelivered, p ≠ m.1 := by
    rintro p hDrop rfl
    rcases List.getElem?_of_mem hDrop with ⟨k, hPlace⟩
    rw [List.getElem?_drop] at hPlace
    have hSeq := hSound.seq _ _ hPlace
    omega
  rcases packetFraming.mem_whole_of_ne hAll hWhole hLater with
    ⟨b, hPart, hMember⟩
  by_cases hSingle : m.1.isSingle = true
  · refine (hTracks.singles m hSingle).mpr
      ⟨packetFraming.mem_of_mem_whole hAll hWhole, ?_,
        Or.inl hBefore⟩
    rcases packetFraming.last_of_mem_whole hAll hWhole with
      ⟨_, before, hParts, hIndex⟩
    have hOne := (Packet.eq_of_isSingle hSingle).2.1
    simp only [packetFraming, hOne] at hIndex
    have hEmpty : before = [] :=
      List.length_eq_zero_iff.mp (by omega)
    rw [hParts, hEmpty, List.nil_append]
  · rcases hTracks.assembled with ⟨b', hPart', _, hOrdered⟩
    rw [hPart, Option.some.injEq] at hPart'
    subst hPart'
    have hMine : m ∈ ordered b.whole :=
      List.mem_filter.mpr ⟨hMember, by simpa using hSingle⟩
    rw [← hOrdered] at hMine
    exact (List.mem_filter.mp hMine).1

/- When everything was delivered, nothing is missing. -/
theorem delivered_perm
    (hSound : Sound sent)
    (hAll : packetFraming.assemble sent = some a)
    (hLast : h.lastDelivered = sent.length) :
    h.delivered.Perm a.whole := by
  have hWhole : a.whole.Nodup :=
    List.Nodup.of_map Prod.fst
      ((packetFraming.whole_sublist hAll).nodup hSound.nodup)
  refine (hTracks.delivered_subperm hAll).antisymm
    (List.subperm_of_subset hWhole ?_)
  intro m hMember
  have hSent := packetFraming.mem_of_mem_whole hAll hMember
  refine hTracks.mem_delivered hSound hAll hMember ?_
  rw [hLast]
  exact (hSound.bounds hSent).2.1

end Tracks

end Protocol

end ReplicatedAccount

------------------------------------------------------------
-- A Ring of Three Daemons
------------------------------------------------------------

namespace ReplicatedAccount

namespace Protocol

open Foundations

def firstToken (setter : Option (Fin 3)) : Token 3 where
  arq := 5
  retrans := 0
  seq := 0
  aru := 3333
  aruLastId := setter
  flowControl := 0
  rtr := []

def lastTokenOf (_ : Fin 3) : Token 3 where
  arq := 5
  retrans := 0
  seq := 0
  aru := 0
  aruLastId := none
  flowControl := 0
  rtr := []

theorem firstToken_aru
    (setter : Option (Fin 3)) :
    3333 ≤ (firstToken setter).aru :=
  Nat.le_refl _

theorem no_stale_round (copy : Envelope 3) :
    copy ∈ ([] : List (Envelope 3)) →
      copy.round < if copy.source < 0 then 5 + 1 else 5 :=
  fun hCopy => absurd hCopy List.not_mem_nil

theorem no_stale_arq (copy : Envelope 3) :
    copy ∈ ([] : List (Envelope 3)) →
      copy.token.arq = copy.round % 0x10 :=
  fun hCopy => absurd hCopy List.not_mem_nil

/- A membership of three, with the setter of the first token. -/
def threeDaemons (setter : Option (Fin 3)) : Installation 3 where
  first := 0
  round := 5
  token := firstToken setter
  last := lastTokenOf
  lastNumRetrans := fun _ => 0
  lastNumSent := fun _ => 0
  stale := []
  token_seq := rfl
  token_aru := firstToken_aru setter
  token_arq := rfl
  last_seq := fun _ => rfl
  last_aru := fun _ => rfl
  last_arq := fun _ => rfl
  stale_round := no_stale_round
  stale_arq := no_stale_arq

theorem threeDaemons_clean :
    (threeDaemons (some 0)).Clean :=
  rfl

def oneSegment (_ : Fin 3) : Nat := 0

/- Three messages, of which the reliable one comes early. -/
def threeMessages : List (RingAction 3 Nat) :=
  [.submit 1 ⟨.safe, [⟨10, 7⟩], List.cons_ne_nil _ _⟩,
    .submit 0
      ⟨.fifo, [⟨10, 1⟩, ⟨5, 2⟩], List.cons_ne_nil _ _⟩,
    .submit 0 ⟨.reliable, [⟨3, 9⟩], List.cons_ne_nil _ _⟩,
    .token 0 0, .bcast 2 [2], .token 1 1,
    .bcast 1 [0, 1, 2], .token 2 2, .bcast 0 [3],
    .bcast 2 [0, 1, 3], .token 0 3, .token 1 4, .token 2 5,
    .token 0 6, .token 1 7, .token 2 8, .token 0 9]

/- The numbers of the packets that end what was delivered. -/
def RingState.deliveredAt
    (σ : RingState 3 Nat)
    (i : Fin 3) :
    List Nat :=
  (σ.daemons i).delivery.delivered.map fun m => m.1.seq

theorem threeMessages_delivered :
    ((ringSystem Nat oneSegment (threeDaemons (some 0))).run
        threeMessages).map
      (fun σ => (σ.deliveredAt 0, σ.deliveredAt 2)) =
        some ([2, 3, 4], [3, 2, 4]) := by
  decide +kernel

theorem exists_threeMessages :
    ∃ σ,
      (ringSystem Nat oneSegment (threeDaemons (some 0))).run
          threeMessages =
        some σ ∧
      σ.deliveredAt 0 = [2, 3, 4] ∧
        σ.deliveredAt 2 = [3, 2, 4] := by
  rcases Option.map_eq_some_iff.mp threeMessages_delivered with
    ⟨σ, hRun, hDelivered⟩
  rw [Prod.mk.injEq] at hDelivered
  exact ⟨σ, hRun, hDelivered⟩

/-
  When another daemon has left the number of the first token,
  a safe message is delivered that a daemon has not received.
-/
def unearnedSafe : List (RingAction 3 Nat) :=
  [.submit 1 ⟨.safe, [⟨10, 7⟩], List.cons_ne_nil _ _⟩,
    .token 0 0, .token 1 1, .token 2 2, .bcast 0 [0],
    .token 0 3, .token 1 4]

example :
    ((ringSystem Nat oneSegment (threeDaemons none)).run
        unearnedSafe).map
      (fun σ => (σ.deliveredAt 1, (σ.daemons 2).myAru)) =
        some ([1], 0) := by
  decide +kernel

end Protocol

end ReplicatedAccount

------------------------------------------------------------
-- Promises of the Ring
------------------------------------------------------------

namespace ReplicatedAccount

namespace Protocol

open Foundations

variable {n : Nat}
variable {Body : Type}
variable [NeZero n]
variable {segment : Fin n → Nat}
variable {I : Installation n}
variable {as bs : List (RingAction n Body)}
variable {σ σ' : RingState n Body}

/- The ordered messages of two daemons, at one time. -/
omit [NeZero n] in
theorem RingState.Agreed.ordered_prefix_or
    (hAgreed : σ.Agreed)
    (p q : Fin n) :
    ordered (σ.daemons p).delivery.delivered <+:
        ordered (σ.daemons q).delivery.delivered ∨
      ordered (σ.daemons q).delivery.delivered <+:
        ordered (σ.daemons p).delivery.delivered := by
  rcases hAgreed.served.serves with ⟨a, hAll, _⟩
  exact List.prefix_or_prefix_of_prefix
    ((hAgreed.holds p).tracks.ordered_prefix hAll)
    ((hAgreed.holds q).tracks.ordered_prefix hAll)

/-
  What was delivered stays delivered, and no two daemons ever
  deliver ordered messages in a different order.
-/
theorem daemons_deliver_in_one_order
    (hEarned :
      I.Clean ∨
        (ringSystem Body segment I).EveryStep
          (RingState.Earned segment) bs)
    (hPrefix : as <+: bs)
    (hBefore : (ringSystem Body segment I).run as = some σ)
    (hAfter : (ringSystem Body segment I).run bs = some σ')
    (p q : Fin n) :
    (σ.daemons p).delivery.delivered <+:
        (σ'.daemons p).delivery.delivered ∧
      (ordered (σ.daemons p).delivery.delivered <+:
          ordered (σ'.daemons q).delivery.delivered ∨
        ordered (σ'.daemons q).delivery.delivered <+:
          ordered (σ.daemons p).delivery.delivered) := by
  have hEvery := everyStep_of_clean_or hAfter hEarned
  have hMore :=
    extends_of_run hPrefix hBefore hAfter hEvery p
  refine ⟨hMore, ?_⟩
  have hOrdered :
      ordered (σ.daemons p).delivery.delivered <+:
        ordered (σ'.daemons p).delivery.delivered :=
    hMore.filter _
  rcases (agreed_of_run hAfter hEvery).2.ordered_prefix_or p q
    with hShort | hLong
  · exact Or.inl (hOrdered.trans hShort)
  · exact List.prefix_or_prefix_of_prefix hOrdered hLong

theorem threeMessages_in_one_order :
    ∃ σ : RingState 3 Nat, σ.deliveredAt 2 = [3, 2, 4] ∧
      (ordered (σ.daemons 0).delivery.delivered <+:
          ordered (σ.daemons 2).delivery.delivered ∨
        ordered (σ.daemons 2).delivery.delivered <+:
          ordered (σ.daemons 0).delivery.delivered) := by
  rcases exists_threeMessages with ⟨σ, hRun, _, hDelivered⟩
  exact ⟨σ, hDelivered,
    (daemons_deliver_in_one_order (Or.inl threeDaemons_clean)
      List.prefix_rfl hRun hRun 0 2).2⟩

/-
  The ordered messages of a daemon are delivered as its
  sessions have given them to it.  All of its messages are
  delivered at most as often as they were given to it.
-/
theorem sessions_are_heard_in_order
    (hEarned :
      I.Clean ∨
        (ringSystem Body segment I).EveryStep
          (RingState.Earned segment) as)
    (hRun : (ringSystem Body segment I).run as = some σ)
    (q i : Fin n) :
    messagesOf i (ordered (σ.daemons q).delivery.delivered) <+:
        ((σ.submitted i).map DownLink.message).filter
          (fun message => !isSingleMessage message) ∧
      (messagesOf i (σ.daemons q).delivery.delivered).Subperm
        ((σ.submitted i).map DownLink.message) := by
  have hEvery := everyStep_of_clean_or hRun hEarned
  have hAgreed := (agreed_of_run hRun hEvery).2
  have hTracks := (hAgreed.holds q).tracks
  rcases hAgreed.served.serves with ⟨a, hAll, hServes⟩
  rcases (hServes i).messages with ⟨done, hSubmitted, hDone⟩
  have hPrefix :
      messagesOf i a.whole <+:
        (σ.submitted i).map DownLink.message := by
    rw [hDone, hSubmitted, List.map_append]
    exact List.prefix_append _ _
  constructor
  · have hOrdered :
        messagesOf i
            (ordered (σ.daemons q).delivery.delivered) <+:
          messagesOf i (ordered a.whole) :=
      ((hTracks.ordered_prefix hAll).filter _).map _
    rw [messagesOf_ordered hAll] at hOrdered
    exact hOrdered.trans (hPrefix.filter _)
  · rcases (hTracks.delivered_subperm hAll).filter
        (fun m => m.1.procId = i) with
      ⟨ms, hPerm, hSublist⟩
    have hSubperm :
        (messagesOf i
            (σ.daemons q).delivery.delivered).Subperm
          (messagesOf i a.whole) :=
      ⟨_, hPerm.map _, hSublist.map _⟩
    exact hSubperm.trans hPrefix.sublist.subperm

theorem threeMessages_heard_in_order :
    ∃ σ : RingState 3 Nat, σ.deliveredAt 2 = [3, 2, 4] ∧
      messagesOf 0 (ordered (σ.daemons 2).delivery.delivered) <+:
        ((σ.submitted 0).map DownLink.message).filter
          (fun message => !isSingleMessage message) := by
  rcases exists_threeMessages with ⟨σ, hRun, _, hDelivered⟩
  exact ⟨σ, hDelivered,
    (sessions_are_heard_in_order (Or.inl threeDaemons_clean) hRun 2 0).1⟩

/- The daemon has the packet in its slot. -/
def ProtocolState.Holding
    (d : ProtocolState n Body)
    (p : Packet n Body) : Prop :=
  ∃ delivered,
    d.delivery.packets (packEntry p.seq) = some ⟨p, delivered⟩

/-
  When a daemon has delivered a safe message, each daemon has
  delivered it, or holds all packets up to it that it has not
  delivered.
-/
theorem safe_messages_are_everywhere
    (hEarned :
      I.Clean ∨
        (ringSystem Body segment I).EveryStep
          (RingState.Earned segment) as)
    (hRun : (ringSystem Body segment I).run as = some σ)
    {p : Fin n}
    {m : Packet n Body × List (Fragment Body)}
    (hDelivered : m ∈ (σ.daemons p).delivery.delivered)
    (hSafe : m.1.type = .safe)
    (q : Fin n) :
    m ∈ (σ.daemons q).delivery.delivered ∨
      ∀ r ∈ σ.sent,
        (σ.daemons q).delivery.lastDelivered < r.seq →
          r.seq ≤ m.1.seq → (σ.daemons q).Holding r := by
  have hEvery := everyStep_of_clean_or hRun hEarned
  rcases agreed_of_run hRun hEvery with
    ⟨⟨now, hAcknowledged⟩, hAgreed⟩
  have hSound := hAgreed.served.sound
  have hTracks := (hAgreed.holds q).tracks
  have hStable : m.1.seq ≤ (σ.daemons q).myAru :=
    ((hAgreed.holds p).tracks.safe m hDelivered hSafe).trans
      (hAcknowledged.aru_le_myAru p q)
  rcases hAgreed.served.serves with ⟨a, hAll, _⟩
  rcases Nat.lt_or_ge (σ.daemons q).delivery.lastDelivered
      m.1.seq with hLater | hBefore
  · right
    intro r hSent hAbove hLess
    have hKept := hTracks.discarded_le.trans_lt hAbove
    rcases hTracks.exists_info hSound hKept
        (hLess.trans hStable) with
      ⟨⟨r', delivered⟩, hInfo, hSent', hSeq, _⟩
    have hSame : r' = r := hSound.eq_of_seq hSent' hSent hSeq
    exact ⟨delivered, hSame ▸ hInfo⟩
  · left
    exact hTracks.mem_delivered hSound hAll
      ((hAgreed.holds p).tracks.delivered_subset hAll hDelivered)
      hBefore

theorem threeMessages_safe_everywhere :
    ∃ (σ : RingState 3 Nat)
      (m : Packet 3 Nat × List (Fragment Nat)),
      m ∈ (σ.daemons 0).delivery.delivered ∧ m.1.seq = 4 ∧
        (m ∈ (σ.daemons 1).delivery.delivered ∨
          ∀ r ∈ σ.sent,
            (σ.daemons 1).delivery.lastDelivered < r.seq →
              r.seq ≤ m.1.seq → (σ.daemons 1).Holding r) := by
  have hSafe :
      ((ringSystem Nat oneSegment (threeDaemons (some 0))).run
          threeMessages).map
        (fun σ =>
          (σ.daemons 0).delivery.delivered[2]?.map
            fun m => (m.1.type, m.1.seq)) =
          some (some (.safe, 4)) := by
    decide +kernel
  rcases Option.map_eq_some_iff.mp hSafe with
    ⟨σ, hRun, hThird⟩
  rcases Option.map_eq_some_iff.mp hThird with
    ⟨m, hPlace, hType⟩
  rw [Prod.mk.injEq] at hType
  have hMember := List.mem_of_getElem? hPlace
  exact ⟨σ, m, hMember, hType.2,
    safe_messages_are_everywhere (Or.inl threeDaemons_clean) hRun hMember
      hType.1 1⟩

/-
  When a daemon knows that all have received everything, it
  has delivered all messages but those that are still to be
  sent, each once.
-/
theorem everything_known_is_delivered
    (hEarned :
      I.Clean ∨
        (ringSystem Body segment I).EveryStep
          (RingState.Earned segment) as)
    (hRun : (ringSystem Body segment I).run as = some σ)
    {q : Fin n}
    (hKnown : (σ.daemons q).aru = σ.sent.length)
    (i : Fin n) :
    (messagesOf i (σ.daemons q).delivery.delivered ++
        (σ.daemons i).downQueue.links.map
          DownLink.message).Perm
      ((σ.submitted i).map DownLink.message) := by
  have hEvery := everyStep_of_clean_or hRun hEarned
  have hAgreed := (agreed_of_run hRun hEvery).2
  have hSound := hAgreed.served.sound
  have hTracks := (hAgreed.holds q).tracks
  have hLast :
      (σ.daemons q).delivery.lastDelivered = σ.sent.length := by
    have hDiscarded := (hAgreed.holds q).discarded
    have hLow := hTracks.discarded_le
    have hHigh := hTracks.delivered_le.trans hTracks.myAru_le
    omega
  rcases hAgreed.served.serves with ⟨a, hAll, hServes⟩
  rcases (hServes i).messages with ⟨done, hSubmitted, hDone⟩
  have hPerm :
      (messagesOf i (σ.daemons q).delivery.delivered).Perm
        (messagesOf i a.whole) :=
    ((hTracks.delivered_perm hSound hAll hLast).filter _).map _
  rw [hSubmitted, List.map_append, ← hDone]
  exact hPerm.append_right _

theorem threeMessages_delivered_everything :
    ∃ σ : RingState 3 Nat, σ.deliveredAt 0 = [2, 3, 4] ∧
      (messagesOf 0 (σ.daemons 0).delivery.delivered ++
          (σ.daemons 0).downQueue.links.map
            DownLink.message).Perm
        ((σ.submitted 0).map DownLink.message) := by
  have hNumbers :
      ((ringSystem Nat oneSegment (threeDaemons (some 0))).run
          threeMessages).map
        (fun σ =>
          ((σ.daemons 0).aru, σ.sent.length,
            σ.deliveredAt 0)) =
          some (4, 4, [2, 3, 4]) := by
    decide +kernel
  rcases Option.map_eq_some_iff.mp hNumbers with
    ⟨σ, hRun, hSame⟩
  rw [Prod.mk.injEq, Prod.mk.injEq] at hSame
  rcases hSame with ⟨hAru, hLength, hDelivered⟩
  exact ⟨σ, hDelivered,
    everything_known_is_delivered (Or.inl threeDaemons_clean)
      hRun (hAru.trans hLength.symm) 0⟩

/-
  No daemon ever ends with an `Alarm`, and no two packets that
  a daemon has not discarded belong into one slot.
-/
theorem daemons_never_exit
    (hEarned :
      I.Clean ∨
        (ringSystem Body segment I).EveryStep
          (RingState.Earned segment) as)
    (hRun : (ringSystem Body segment I).run as = some σ)
    (i : Fin n) :
    σ.exited i = false ∧
      ∀ p ∈ σ.sent, ∀ q ∈ σ.sent,
        (σ.daemons i).delivery.lastDiscarded < p.seq →
          (σ.daemons i).delivery.lastDiscarded < q.seq →
            packEntry p.seq = packEntry q.seq → p = q := by
  have hEvery := everyStep_of_clean_or hRun hEarned
  have hAgreed := (agreed_of_run hRun hEvery).2
  have hSound := hAgreed.served.sound
  have hWindow := (hAgreed.holds i).tracks.window
  refine ⟨hAgreed.alive i, ?_⟩
  intro p hP q hQ hAboveP hAboveQ hSlot
  have hBelowP := (hSound.bounds hP).2.1
  have hBelowQ := (hSound.bounds hQ).2.1
  exact hSound.eq_of_seq hP hQ
    (packEntry_inj _ hAboveP (by omega) hAboveQ (by omega)
      hSlot)

theorem threeMessages_never_exit :
    ∃ σ : RingState 3 Nat, σ.deliveredAt 0 = [2, 3, 4] ∧
      σ.exited 1 = false := by
  rcases exists_threeMessages with ⟨σ, hRun, hDelivered, _⟩
  exact ⟨σ, hDelivered,
    (daemons_never_exit (Or.inl threeDaemons_clean) hRun 1).1⟩

end Protocol

end ReplicatedAccount
