import ReplicatedAccount.Spread.Handlers
import ReplicatedAccount.Foundations.Reassembly
import Mathlib.Data.Nat.Bitwise

/-
  What a daemon holds and has delivered, compared with all
  packets that were sent.

  The slots of `Packets` hold packets of a window of sequence
  numbers, so that no two of them share a slot.  The messages
  that were delivered are those of an initial part of the
  packets, and single packets out of order.

  Key definitions include:
    * `packetFraming`
    * `Sound`
    * `Tracks`

  Key theorems include:
    * `Tracks.chain`
    * `Tracks.chain_singles`
-/

------------------------------------------------------------
-- Packets as Frames
------------------------------------------------------------

namespace ReplicatedAccount

namespace Protocol

open Foundations

variable {n : Nat}
variable {Body : Type}

def packetFraming :
    Framing (Packet n Body) (Option (Fin n)) (Fragment Body) where
  source := Packet.queue
  index := fun p => p.packetIndex.natAbs
  isLast := fun p => p.packetIndex < 0
  part := fun p => ⟨p.dataLen, p.body⟩

/- The queues and the messages, as an assembly. -/
def Delivery.assembly
    (h : Delivery n Body) :
    Assembly (Packet n Body) (Option (Fin n))
      (Fragment Body) where
  parts := fun queue => (h.upQueue queue).getD []
  whole := h.delivered

/- The state when a packet that fits was delivered. -/
def Delivery.chain
    (h : Delivery n Body)
    (entry : Nat)
    (p : Packet n Body) :
    Delivery n Body :=
  { h with
    packets := Function.update h.packets entry (some ⟨p, true⟩)
    upQueue :=
      Function.update h.upQueue p.queue
        (if p.packetIndex < 0 then
          none
        else
          some (packetFraming.extend h.assembly p))
    delivered :=
      if p.packetIndex < 0 then
        h.delivered ++ [(p, packetFraming.extend h.assembly p)]
      else
        h.delivered }

theorem deliverPacket_of_fits
    {h : Delivery n Body}
    {entry : Nat}
    {info : PacketInfo n Body}
    (hInfo : h.packets entry = some info)
    (hFits : packetFraming.Fits h.assembly info.packet) :
    deliverPacket h entry = some (h.chain entry info.packet) := by
  have hIndex :
      ((h.upQueue info.packet.queue).getD []).length + 1 =
        info.packet.packetIndex.natAbs :=
    hFits
  simp only [deliverPacket, hInfo, hIndex, ne_eq,
    not_true_eq_false, if_false, Delivery.chain,
    Framing.extend, Delivery.assembly, packetFraming]
  split_ifs <;> rfl

theorem assembly_chain
    (h : Delivery n Body)
    (entry : Nat)
    (p : Packet n Body) :
    (h.chain entry p).assembly =
      packetFraming.accept h.assembly p := by
  by_cases hLast : p.packetIndex < 0
  · simp only [Delivery.assembly, Delivery.chain,
      Framing.accept, packetFraming, hLast, if_true,
      decide_true, Assembly.mk.injEq, and_true]
    funext queue
    by_cases hSame : queue = p.queue
    · subst hSame
      simp
    · simp [hSame]
  · simp only [Delivery.assembly, Delivery.chain,
      Framing.accept, packetFraming, hLast, if_false,
      decide_false, Bool.false_eq_true, Assembly.mk.injEq,
      and_true]
    funext queue
    by_cases hSame : queue = p.queue
    · subst hSame
      simp
    · simp [hSame]

theorem Packet.eq_of_isSingle
    {p : Packet n Body}
    (hSingle : p.isSingle = true) :
    p.type = .reliable ∧ p.packetIndex = -1 ∧
      p.queue = none := by
  have hQueue : p.queue = none := if_pos hSingle
  simp only [Packet.isSingle, Bool.and_eq_true,
    decide_eq_true_eq] at hSingle
  exact ⟨hSingle.1, hSingle.2, hQueue⟩

theorem Packet.isSingle_of_queue
    {p : Packet n Body}
    (hQueue : p.queue = none) :
    p.isSingle = true := by
  unfold Packet.queue at hQueue
  split_ifs at hQueue with hSingle
  exact hSingle

/- The queue of single packets is always empty. -/
theorem parts_none
    {packets : List (Packet n Body)}
    {a : Assembly (Packet n Body) (Option (Fin n))
      (Fragment Body)}
    (hAll : packetFraming.assemble packets = some a) :
    a.parts none = [] := by
  induction packets using List.reverseRecOn generalizing a with
  | nil =>
      cases hAll
      rfl
  | append_singleton packets p ih =>
      rcases packetFraming.assemble_concat_iff.mp hAll with
        ⟨b, hBefore, _, rfl⟩
      have hNone := ih hBefore
      by_cases hQueue : p.queue = none
      · have hIndex :=
          (Packet.eq_of_isSingle
            (Packet.isSingle_of_queue hQueue)).2.1
        simp [Framing.accept, packetFraming, hIndex, hQueue]
      · have hOther : none ≠ p.queue := Ne.symm hQueue
        rw [Framing.accept]
        split_ifs
        · exact (Function.update_of_ne hOther _ _).trans hNone
        · exact (Function.update_of_ne hOther _ _).trans hNone

end Protocol

end ReplicatedAccount

------------------------------------------------------------
-- The Window of Packets
------------------------------------------------------------

namespace ReplicatedAccount

namespace Protocol

open Foundations

variable {n : Nat}
variable {Body : Type}

theorem packEntry_eq (seq : Nat) :
    packEntry seq = seq % maxPacketsInStruct :=
  Nat.and_two_pow_sub_one_eq_mod seq 13

/- Two numbers of a window are in different slots. -/
theorem packEntry_inj
    (low : Nat)
    {a b : Nat}
    (hA : low < a)
    (hA' : a ≤ low + maxPacketsInStruct)
    (hB : low < b)
    (hB' : b ≤ low + maxPacketsInStruct)
    (hSame : packEntry a = packEntry b) :
    a = b := by
  rw [packEntry_eq, packEntry_eq] at hSame
  simp only [maxPacketsInStruct] at *
  omega

/- What holds of all packets that were sent in a ring. -/
structure Sound (sent : List (Packet n Body)) : Prop where
  seq : ∀ k p, sent[k]? = some p → p.seq = k + 1
  assembles : ∃ a, packetFraming.assemble sent = some a

theorem Sound.bounds
    {sent : List (Packet n Body)}
    (hSound : Sound sent)
    {p : Packet n Body}
    (hSent : p ∈ sent) :
    0 < p.seq ∧ p.seq ≤ sent.length ∧
      sent[p.seq - 1]? = some p := by
  rcases List.getElem?_of_mem hSent with ⟨k, hPlace⟩
  have hLess := (List.getElem?_eq_some_iff.mp hPlace).1
  have hSeq := hSound.seq k p hPlace
  refine ⟨by omega, by omega, ?_⟩
  rw [hSeq, Nat.add_sub_cancel]
  exact hPlace

/- A sequence number names one packet. -/
theorem Sound.eq_of_seq
    {sent : List (Packet n Body)}
    (hSound : Sound sent)
    {p q : Packet n Body}
    (hP : p ∈ sent)
    (hQ : q ∈ sent)
    (hSame : p.seq = q.seq) :
    p = q := by
  have hPlace := (hSound.bounds hP).2.2
  rw [hSame, (hSound.bounds hQ).2.2] at hPlace
  exact (Option.some.inj hPlace).symm

/- The packet was delivered, in order or as a single one. -/
def Delivery.Done
    (h : Delivery n Body)
    (p : Packet n Body) : Prop :=
  p.seq ≤ h.lastDelivered ∨
    h.packets (packEntry p.seq) = some ⟨p, true⟩

def ordered
    (messages : List (Packet n Body × List (Fragment Body))) :
    List (Packet n Body × List (Fragment Body)) :=
  messages.filter fun m => !m.1.isSingle

/-
  What a daemon holds and has delivered of the packets that
  were sent, up to its `My_aru`; safe ones up to its `Aru`.
-/
structure Tracks
    (sent : List (Packet n Body))
    (myAru aru : Nat)
    (h : Delivery n Body) : Prop where
  window :
    sent.length ≤ h.lastDiscarded + maxPacketsInStruct
  myAru_le : myAru ≤ sent.length
  discarded_le : h.lastDiscarded ≤ h.lastDelivered
  delivered_le : h.lastDelivered ≤ myAru
  stored :
    ∀ entry info, h.packets entry = some info →
      info.packet ∈ sent ∧
        h.lastDiscarded < info.packet.seq ∧
          packEntry info.packet.seq = entry
  held :
    ∀ seq, h.lastDiscarded < seq → seq ≤ myAru →
      (h.packets (packEntry seq)).isSome
  marked :
    ∀ entry info, h.packets entry = some info →
      info.packet.seq ≤ h.lastDelivered →
        info.delivered = true
  early :
    ∀ entry info, h.packets entry = some info →
      info.delivered = true →
        h.lastDelivered < info.packet.seq →
          info.packet.isSingle = true
  assembled :
    ∃ a,
      packetFraming.assemble (sent.take h.lastDelivered) =
          some a ∧
        h.assembly.parts = a.parts ∧
          ordered h.delivered = ordered a.whole
  singles :
    ∀ m, m.1.isSingle = true →
      (m ∈ h.delivered ↔
        m.1 ∈ sent ∧ m.2 = [packetFraming.part m.1] ∧
          h.Done m.1)
  once : (h.delivered.map fun m => m.1.seq).Nodup
  safe :
    ∀ m ∈ h.delivered, m.1.type = .safe → m.1.seq ≤ aru

namespace Tracks

variable {sent : List (Packet n Body)}
variable {myAru aru : Nat}
variable {h : Delivery n Body}

/- The slot of a number in the window is its own. -/
theorem seq_of_slot
    (hSound : Sound sent)
    (hTracks : Tracks sent myAru aru h)
    {seq : Nat}
    (hAbove : h.lastDiscarded < seq)
    (hBelow : seq ≤ h.lastDiscarded + maxPacketsInStruct)
    {info : PacketInfo n Body}
    (hInfo : h.packets (packEntry seq) = some info) :
    info.packet.seq = seq := by
  rcases hTracks.stored _ info hInfo with
    ⟨hSent, hAbove', hSlot⟩
  have hLess := (hSound.bounds hSent).2.1
  have hWindow := hTracks.window
  exact packEntry_inj h.lastDiscarded hAbove' (by omega) hAbove
    hBelow hSlot

/- The packet of a number that was counted. -/
theorem exists_info
    (hSound : Sound sent)
    (hTracks : Tracks sent myAru aru h)
    {seq : Nat}
    (hAbove : h.lastDiscarded < seq)
    (hCounted : seq ≤ myAru) :
    ∃ info, h.packets (packEntry seq) = some info ∧
      info.packet ∈ sent ∧ info.packet.seq = seq ∧
        sent[seq - 1]? = some info.packet := by
  rcases Option.isSome_iff_exists.mp
      (hTracks.held seq hAbove hCounted) with
    ⟨info, hInfo⟩
  have hSent := (hTracks.stored _ info hInfo).1
  have hWindow := hTracks.window
  have hLess := hTracks.myAru_le
  have hSeq :=
    hTracks.seq_of_slot hSound hAbove (by omega) hInfo
  exact ⟨info, hInfo, hSent, hSeq,
    hSeq ▸ (hSound.bounds hSent).2.2⟩

/- A packet that is not delivered is in no message. -/
theorem seq_notMem
    (hSound : Sound sent)
    (hTracks : Tracks sent myAru aru h)
    {entry : Nat}
    {p : Packet n Body}
    (hInfo : h.packets entry = some ⟨p, false⟩) :
    p.seq ∉ h.delivered.map fun m => m.1.seq := by
  rcases hTracks.stored entry _ hInfo with ⟨hSent, _, rfl⟩
  have hLate : h.lastDelivered < p.seq := by
    by_contra hLess
    have hMarked :=
      hTracks.marked _ _ hInfo (Nat.le_of_not_lt hLess)
    cases hMarked
  intro hMember
  rcases List.mem_map.mp hMember with ⟨m, hDelivered, hSame⟩
  by_cases hSingle : m.1.isSingle = true
  · rcases (hTracks.singles m hSingle).mp hDelivered with
      ⟨_, _, hDone⟩
    rcases hDone with hBefore | hSlot
    · omega
    · rw [hSame, hInfo] at hSlot
      cases hSlot
  · -- a message that is not single ends before
    rcases hTracks.assembled with ⟨a, hAll, _, hOrdered⟩
    have hWhole : m ∈ ordered a.whole := by
      rw [← hOrdered]
      exact List.mem_filter.mpr
        ⟨hDelivered, by simpa using hSingle⟩
    have hPrefix :=
      packetFraming.mem_of_mem_whole hAll
        (List.mem_filter.mp hWhole).1
    rcases List.getElem?_of_mem hPrefix with ⟨k, hPlace⟩
    rw [List.getElem?_take] at hPlace
    split_ifs at hPlace with hLess
    have hSeq := hSound.seq k _ hPlace
    omega

end Tracks

end Protocol

end ReplicatedAccount

------------------------------------------------------------
-- One Packet
------------------------------------------------------------

namespace ReplicatedAccount

namespace Protocol

open Foundations

variable {n : Nat}
variable {Body : Type}
variable {sent : List (Packet n Body)}
variable {myAru aru : Nat}
variable {h : Delivery n Body}

theorem ordered_append
    (ms ms' : List (Packet n Body × List (Fragment Body))) :
    ordered (ms ++ ms') = ordered ms ++ ordered ms' :=
  List.filter_append ..

theorem ordered_single
    {p : Packet n Body}
    (hSingle : p.isSingle = true)
    (message : List (Fragment Body)) :
    ordered [(p, message)] = [] := by
  simp [ordered, hSingle]

/- What a single packet does to an assembly. -/
theorem accept_single
    {a : Assembly (Packet n Body) (Option (Fin n))
      (Fragment Body)}
    (hNone : a.parts none = [])
    {p : Packet n Body}
    (hSingle : p.isSingle = true) :
    packetFraming.Fits a p ∧
      packetFraming.extend a p = [packetFraming.part p] ∧
      packetFraming.accept a p =
        { a with
          whole := a.whole ++ [(p, [packetFraming.part p])] } := by
  rcases Packet.eq_of_isSingle hSingle with
    ⟨_, hIndex, hQueue⟩
  have hSource : packetFraming.source p = none := hQueue
  have hLast : packetFraming.isLast p = true := by
    simp [packetFraming, hIndex]
  have hExtend :
      packetFraming.extend a p = [packetFraming.part p] := by
    rw [Framing.extend, hSource, hNone, List.nil_append]
  refine ⟨?_, hExtend, ?_⟩
  · rw [Framing.Fits, hSource, hNone]
    simp [packetFraming, hIndex]
  · rw [Framing.accept, if_pos hLast, hExtend, hSource, ← hNone,
      Function.update_eq_self]

/- The next packet fits what the packets before it give. -/
theorem Tracks.next
    (hSound : Sound sent)
    (hTracks : Tracks sent myAru aru h)
    {p : Packet n Body}
    (hSent : p ∈ sent)
    (hSeq : p.seq = h.lastDelivered + 1) :
    ∃ a,
      packetFraming.Fits a p ∧
        packetFraming.assemble
            (sent.take (h.lastDelivered + 1)) =
          some (packetFraming.accept a p) ∧
        h.assembly.parts = a.parts ∧
        a.parts none = [] ∧
        ordered h.delivered = ordered a.whole := by
  have hPlace := (hSound.bounds hSent).2.2
  rw [hSeq, Nat.add_sub_cancel] at hPlace
  rcases hSound.assembles with ⟨b, hAll⟩
  rcases packetFraming.exists_add_of_assemble hPlace hAll with
    ⟨a, hBefore, hFits, hAfter⟩
  rcases hTracks.assembled with ⟨a', hSame, hParts, hOrdered⟩
  rw [hBefore, Option.some.injEq] at hSame
  subst hSame
  exact ⟨a, hFits, hAfter, hParts, parts_none hBefore, hOrdered⟩

/- A packet that was delivered before is passed over. -/
theorem Tracks.skip
    (hSound : Sound sent)
    (hTracks : Tracks sent myAru aru h)
    (hCounted : h.lastDelivered + 1 ≤ myAru)
    {info : PacketInfo n Body}
    (hInfo :
      h.packets (packEntry (h.lastDelivered + 1)) = some info)
    (hDelivered : info.delivered = true) :
    Tracks sent myAru aru
      { h with lastDelivered := h.lastDelivered + 1 } := by
  have hDiscarded := hTracks.discarded_le
  have hWindow := hTracks.window
  have hMyAru := hTracks.myAru_le
  have hSeq : info.packet.seq = h.lastDelivered + 1 :=
    hTracks.seq_of_slot hSound (by omega) (by omega) hInfo
  have hSent := (hTracks.stored _ info hInfo).1
  have hSingle :=
    hTracks.early _ info hInfo hDelivered (by omega)
  rcases hTracks.next hSound hSent hSeq with
    ⟨a, _, hAfter, hParts, hNone, hOrdered⟩
  refine
    { window := hWindow
      myAru_le := hMyAru
      discarded_le := hDiscarded.trans (Nat.le_succ _)
      delivered_le := hCounted
      stored := hTracks.stored
      held := hTracks.held
      marked := ?_
      early := ?_
      assembled := ?_
      singles := ?_
      once := hTracks.once
      safe := hTracks.safe }
  · intro entry info' hInfo' hLess
    rcases Nat.lt_or_ge h.lastDelivered info'.packet.seq with
      hLast | hOld
    · have hSlot := (hTracks.stored entry info' hInfo').2.2
      have hSame : info'.packet.seq = h.lastDelivered + 1 :=
        Nat.le_antisymm hLess hLast
      rw [← hSlot, hSame, hInfo, Option.some.injEq] at hInfo'
      exact hInfo' ▸ hDelivered
    · exact hTracks.marked entry info' hInfo' hOld
  · intro entry info' hInfo' hMarked hLess
    exact hTracks.early entry info' hInfo' hMarked
      (Nat.lt_of_succ_lt hLess)
  · refine ⟨_, hAfter, ?_, ?_⟩
    · rw [(accept_single hNone hSingle).2.2]
      exact hParts
    · rw [(accept_single hNone hSingle).2.2]
      simp only [ordered_append, ordered_single hSingle,
        List.append_nil]
      exact hOrdered
  · intro m hMine
    rw [hTracks.singles m hMine]
    refine and_congr_right fun hSent' =>
      and_congr_right fun _ => ⟨?_, ?_⟩
    · rintro (hOld | hSlot)
      · exact Or.inl (Nat.le_succ_of_le hOld)
      · exact Or.inr hSlot
    · rintro (hLess | hSlot)
      · rcases Nat.lt_or_ge h.lastDelivered m.1.seq with
          hLast | hOld
        · have hSame : m.1 = info.packet :=
            hSound.eq_of_seq hSent' hSent
              (by rw [hSeq]; exact Nat.le_antisymm hLess hLast)
          right
          rw [hSame, hSeq, hInfo, ← hDelivered]
        · exact Or.inl hOld
      · exact Or.inr hSlot

/- The numbers of the messages after one was delivered. -/
theorem chain_delivered
    (hTracks : Tracks sent myAru aru h)
    (hSound : Sound sent)
    {entry : Nat}
    {p : Packet n Body}
    (hInfo : h.packets entry = some ⟨p, false⟩) :
    ((h.chain entry p).delivered.map fun m => m.1.seq).Nodup ∧
      ∀ m ∈ (h.chain entry p).delivered,
        m ∈ h.delivered ∨ m.1 = p := by
  have hNew := hTracks.seq_notMem hSound hInfo
  simp only [Delivery.chain]
  split_ifs
  · constructor
    · rw [List.map_append, List.nodup_append]
      refine ⟨hTracks.once, List.nodup_singleton _, ?_⟩
      rintro seq hOld _ hLast rfl
      rw [List.map_singleton, List.mem_singleton] at hLast
      exact hNew (hLast ▸ hOld)
    · intro m hMember
      rcases List.mem_append.mp hMember with hOld | hLast
      · exact Or.inl hOld
      · rw [List.mem_singleton.mp hLast]
        exact Or.inr rfl
  · exact ⟨hTracks.once, fun m hOld => Or.inl hOld⟩

end Protocol

end ReplicatedAccount

------------------------------------------------------------
-- Delivering One Packet
------------------------------------------------------------

namespace ReplicatedAccount

namespace Protocol

open Foundations

variable {n : Nat}
variable {Body : Type}
variable {sent : List (Packet n Body)}
variable {myAru aru : Nat}
variable {h : Delivery n Body}

/-
  A packet is delivered as a single one, or because it is the
  next one.  `next` is the number up to which all packets are
  delivered then.
-/
def Due
    (h : Delivery n Body)
    (myAru : Nat)
    (p : Packet n Body)
    (next : Nat) : Prop :=
  next = h.lastDelivered ∧ p.isSingle = true ∨
    next = h.lastDelivered + 1 ∧
      p.seq = h.lastDelivered + 1 ∧ next ≤ myAru

theorem accept_congr
    {a b : Assembly (Packet n Body) (Option (Fin n))
      (Fragment Body)}
    (hParts : a.parts = b.parts)
    (hOrdered : ordered a.whole = ordered b.whole)
    (p : Packet n Body) :
    (packetFraming.accept a p).parts =
        (packetFraming.accept b p).parts ∧
      ordered (packetFraming.accept a p).whole =
        ordered (packetFraming.accept b p).whole := by
  have hExtend :
      packetFraming.extend a p = packetFraming.extend b p := by
    rw [Framing.extend, Framing.extend, hParts]
  rw [Framing.accept, Framing.accept, hExtend]
  split_ifs
  · simp only [hParts, ordered_append, hOrdered, and_self]
  · simp only [hParts, hOrdered, and_self]

theorem Tracks.chain_assembled
    (hSound : Sound sent)
    (hTracks : Tracks sent myAru aru h)
    {p : Packet n Body}
    (hSent : p ∈ sent)
    {next : Nat}
    (hDue : Due h myAru p next) :
    packetFraming.Fits h.assembly p ∧
      ∃ a,
        packetFraming.assemble (sent.take next) = some a ∧
          (packetFraming.accept h.assembly p).parts =
            a.parts ∧
          ordered (packetFraming.accept h.assembly p).whole =
            ordered a.whole := by
  rcases hDue with ⟨rfl, hSingle⟩ | ⟨rfl, hSeq, _⟩
  · rcases hTracks.assembled with ⟨a, hAll, hParts, hOrdered⟩
    have hNone : h.assembly.parts none = [] := by
      rw [hParts]
      exact parts_none hAll
    rcases accept_single hNone hSingle with
      ⟨hFits, _, hAccept⟩
    refine ⟨hFits, a, hAll, ?_⟩
    rw [hAccept]
    refine ⟨hParts, ?_⟩
    simp only [ordered_append, ordered_single hSingle,
      List.append_nil]
    exact hOrdered
  · rcases hTracks.next hSound hSent hSeq with
      ⟨a, hFits, hAfter, hParts, _, hOrdered⟩
    refine ⟨?_, _, hAfter, accept_congr hParts hOrdered p⟩
    rw [Framing.Fits, hParts]
    exact hFits

theorem Tracks.chain_done
    (hSound : Sound sent)
    (hTracks : Tracks sent myAru aru h)
    {entry : Nat}
    {p : Packet n Body}
    (hInfo : h.packets entry = some ⟨p, false⟩)
    {next : Nat}
    (hDue : Due h myAru p next)
    {q : Packet n Body}
    (hSent : q ∈ sent) :
    { h.chain entry p with lastDelivered := next }.Done q ↔
      h.Done q ∨ q = p := by
  rcases hTracks.stored entry _ hInfo with ⟨hSent', _, hSlot⟩
  dsimp only at hSent' hSlot
  simp only [Delivery.Done, Delivery.chain]
  constructor
  · rintro (hLess | hFlag)
    · rcases hDue with ⟨rfl, _⟩ | ⟨rfl, hSeq, _⟩
      · exact Or.inl (Or.inl hLess)
      · rcases Nat.lt_or_ge h.lastDelivered q.seq with
          hLast | hOld
        · exact Or.inr
            (hSound.eq_of_seq hSent hSent'
              (by rw [hSeq]; exact Nat.le_antisymm hLess hLast))
        · exact Or.inl (Or.inl hOld)
    · by_cases hSame : packEntry q.seq = entry
      · rw [hSame, Function.update_self] at hFlag
        cases hFlag
        exact Or.inr rfl
      · rw [Function.update_of_ne hSame] at hFlag
        exact Or.inl (Or.inr hFlag)
  · rintro ((hOld | hFlag) | rfl)
    · left
      rcases hDue with ⟨rfl, _⟩ | ⟨rfl, _⟩
      · exact hOld
      · exact Nat.le_succ_of_le hOld
    · right
      have hOther : packEntry q.seq ≠ entry := by
        intro hSame
        rw [hSame, hInfo] at hFlag
        cases hFlag
      rw [Function.update_of_ne hOther]
      exact hFlag
    · right
      rw [hSlot, Function.update_self]

theorem Tracks.chain_singles
    (hSound : Sound sent)
    (hTracks : Tracks sent myAru aru h)
    {entry : Nat}
    {p : Packet n Body}
    (hInfo : h.packets entry = some ⟨p, false⟩)
    {next : Nat}
    (hDue : Due h myAru p next)
    (m : Packet n Body × List (Fragment Body))
    (hMine : m.1.isSingle = true) :
    m ∈ (h.chain entry p).delivered ↔
      m.1 ∈ sent ∧ m.2 = [packetFraming.part m.1] ∧
        { h.chain entry p with
          lastDelivered := next }.Done m.1 := by
  have hSent := (hTracks.stored entry _ hInfo).1
  have hDone :
      (m.1 ∈ sent ∧ m.2 = [packetFraming.part m.1] ∧
        { h.chain entry p with
          lastDelivered := next }.Done m.1) ↔
      m.1 ∈ sent ∧ m.2 = [packetFraming.part m.1] ∧
        (h.Done m.1 ∨ m.1 = p) :=
    and_congr_right fun hSent' =>
      and_congr_right fun _ =>
        hTracks.chain_done hSound hInfo hDue hSent'
  rw [hDone]
  have hOld := hTracks.singles m hMine
  by_cases hSingle : p.isSingle = true
  · rcases hTracks.assembled with ⟨a, hAll, hParts, _⟩
    have hNone : h.assembly.parts none = [] := by
      rw [hParts]
      exact parts_none hAll
    have hExtend := (accept_single hNone hSingle).2.1
    have hIndex := (Packet.eq_of_isSingle hSingle).2.1
    have hNew :
        (h.chain entry p).delivered =
          h.delivered ++ [(p, [packetFraming.part p])] := by
      simp only [Delivery.chain, hExtend, hIndex]
      rfl
    rw [hNew, List.mem_append, hOld, List.mem_singleton]
    constructor
    · rintro (⟨hSent', hPart, hBefore⟩ | rfl)
      · exact ⟨hSent', hPart, Or.inl hBefore⟩
      · exact ⟨hSent, rfl, Or.inr rfl⟩
    · rintro ⟨hSent', hPart, hBefore | hSame⟩
      · exact Or.inl ⟨hSent', hPart, hBefore⟩
      · exact Or.inr (Prod.ext hSame (hSame ▸ hPart))
  · have hOther : m.1 ≠ p := by
      intro hSame
      exact hSingle (hSame ▸ hMine)
    have hSame :
        m ∈ (h.chain entry p).delivered ↔ m ∈ h.delivered := by
      constructor
      · intro hMember
        exact ((chain_delivered hTracks hSound hInfo).2 m
          hMember).resolve_right hOther
      · intro hMember
        simp only [Delivery.chain]
        split_ifs
        · exact List.mem_append_left _ hMember
        · exact hMember
    rw [hSame, hOld]
    simp only [hOther, or_false]

/- A slot of a delivered packet, or one as it was. -/
theorem chain_packets_cases
    {entry : Nat}
    {p : Packet n Body}
    {entry' : Nat}
    {info : PacketInfo n Body}
    (hSome : (h.chain entry p).packets entry' = some info) :
    entry' = entry ∧ info = ⟨p, true⟩ ∨
      entry' ≠ entry ∧ h.packets entry' = some info := by
  simp only [Delivery.chain] at hSome
  by_cases hSame : entry' = entry
  · rw [hSame, Function.update_self, Option.some.injEq] at hSome
    exact Or.inl ⟨hSame, hSome.symm⟩
  · rw [Function.update_of_ne hSame] at hSome
    exact Or.inr ⟨hSame, hSome⟩

theorem Due.bounds
    {p : Packet n Body}
    {next : Nat}
    (hDue : Due h myAru p next)
    (hDelivered : h.lastDelivered ≤ myAru) :
    h.lastDelivered ≤ next ∧ next ≤ myAru := by
  rcases hDue with ⟨rfl, _⟩ | ⟨rfl, _, hCounted⟩
  · exact ⟨Nat.le_refl _, hDelivered⟩
  · exact ⟨Nat.le_succ _, hCounted⟩

/- What was delivered in order is marked. -/
theorem Tracks.chain_marked
    (hTracks : Tracks sent myAru aru h)
    {entry : Nat}
    {p : Packet n Body}
    (hSlot : packEntry p.seq = entry)
    {next : Nat}
    (hDue : Due h myAru p next)
    {entry' : Nat}
    {info : PacketInfo n Body}
    (hSome : (h.chain entry p).packets entry' = some info)
    (hBefore : info.packet.seq ≤ next) :
    info.delivered = true := by
  rcases chain_packets_cases hSome with
    ⟨rfl, rfl⟩ | ⟨hOther, hOld⟩
  · rfl
  · rcases Nat.lt_or_ge h.lastDelivered info.packet.seq with
      hLast | hEarlier
    · -- then it would be the packet itself
      rcases hTracks.stored entry' info hOld with
        ⟨_, _, hSlot'⟩
      have hSame : info.packet.seq = p.seq := by
        rcases hDue with ⟨rfl, _⟩ | ⟨rfl, hSeq, _⟩
        · exact absurd hBefore (Nat.not_le.mpr hLast)
        · rw [hSeq]
          exact Nat.le_antisymm hBefore hLast
      exact absurd (by rw [← hSlot', hSame, hSlot]) hOther
    · exact hTracks.marked entry' info hOld hEarlier

/- What was delivered early is a single packet. -/
theorem Tracks.chain_early
    (hTracks : Tracks sent myAru aru h)
    {entry : Nat}
    {p : Packet n Body}
    {next : Nat}
    (hDue : Due h myAru p next)
    {entry' : Nat}
    {info : PacketInfo n Body}
    (hSome : (h.chain entry p).packets entry' = some info)
    (hDelivered : info.delivered = true)
    (hLater : next < info.packet.seq) :
    info.packet.isSingle = true := by
  have hLess := (hDue.bounds hTracks.delivered_le).1
  rcases chain_packets_cases hSome with
    ⟨rfl, rfl⟩ | ⟨_, hOld⟩
  · rcases hDue with ⟨_, hSingle⟩ | ⟨rfl, hSeq, _⟩
    · exact hSingle
    · dsimp only at hLater
      omega
  · exact hTracks.early entry' info hOld hDelivered
      (hLess.trans_lt hLater)

/- The delivery of a packet that is due. -/
theorem Tracks.chain
    (hSound : Sound sent)
    (hTracks : Tracks sent myAru aru h)
    {entry : Nat}
    {p : Packet n Body}
    (hInfo : h.packets entry = some ⟨p, false⟩)
    {next : Nat}
    (hDue : Due h myAru p next)
    (hSafe : p.type = .safe → p.seq ≤ aru) :
    Tracks sent myAru aru
      { h.chain entry p with lastDelivered := next } := by
  rcases hTracks.stored entry _ hInfo with
    ⟨hSent, hAbove, hSlot⟩
  dsimp only at hSent hAbove hSlot
  have hLess := hDue.bounds hTracks.delivered_le
  rcases hTracks.chain_assembled hSound hSent hDue with
    ⟨_, a, hAll, hParts, hOrdered⟩
  rw [← assembly_chain h entry p] at hParts hOrdered
  refine
    { window := hTracks.window
      myAru_le := hTracks.myAru_le
      discarded_le := hTracks.discarded_le.trans hLess.1
      delivered_le := hLess.2
      stored := ?_
      held := ?_
      marked := fun _ _ => hTracks.chain_marked hSlot hDue
      early := fun _ _ => hTracks.chain_early hDue
      assembled := ⟨a, hAll, hParts, hOrdered⟩
      singles := hTracks.chain_singles hSound hInfo hDue
      once := (chain_delivered hTracks hSound hInfo).1
      safe := ?_ }
  · intro entry' info hSome
    rcases chain_packets_cases hSome with
      ⟨rfl, rfl⟩ | ⟨_, hOld⟩
    · exact ⟨hSent, hAbove, hSlot⟩
    · exact hTracks.stored entry' info hOld
  · intro seq hLow hCounted
    have hHeld := hTracks.held seq hLow hCounted
    simp only [Delivery.chain]
    by_cases hSame : packEntry seq = entry
    · rw [hSame, Function.update_self]
      rfl
    · rw [Function.update_of_ne hSame]
      exact hHeld
  · intro m hMember hType
    rcases (chain_delivered hTracks hSound hInfo).2 m
        hMember with
      hOld | hSame
    · exact hTracks.safe m hOld hType
    · rw [hSame] at hType ⊢
      exact hSafe hType

end Protocol

end ReplicatedAccount
