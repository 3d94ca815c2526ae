import ReplicatedAccount.Spread.Delivery

/-
  The loops that deliver and discard packets: they never find
  a packet missing, and keep what holds of those a daemon has.

  Key definitions include:
    * `Delivers`

  Key theorems include:
    * `Tracks.deliverAgreedPackets`
    * `Tracks.deliverReliablePackets`
    * `Tracks.discardPackets`
-/

------------------------------------------------------------
-- Delivering Many Packets
------------------------------------------------------------

namespace ReplicatedAccount

namespace Protocol

open Foundations

variable {n : Nat}
variable {Body : Type}
variable {sent : List (Packet n Body)}
variable {myAru aru : Nat}
variable {h : Delivery n Body}

/- A packet that is due can be delivered. -/
theorem Tracks.deliverPacket_eq
    (hSound : Sound sent)
    (hTracks : Tracks sent myAru aru h)
    {entry : Nat}
    {p : Packet n Body}
    (hInfo : h.packets entry = some ⟨p, false⟩)
    {next : Nat}
    (hDue : Due h myAru p next) :
    deliverPacket h entry = some (h.chain entry p) :=
  deliverPacket_of_fits hInfo
    (hTracks.chain_assembled hSound
      (hTracks.stored entry _ hInfo).1 hDue).1

/- More delivered packets, none of them discarded. -/
structure Delivers (h h' : Delivery n Body) : Prop where
  discarded : h'.lastDiscarded = h.lastDiscarded
  delivered_le : h.lastDelivered ≤ h'.lastDelivered
  prefix_le : h.delivered <+: h'.delivered
  kept :
    ∀ entry, (h.packets entry).isSome →
      (h'.packets entry).isSome

theorem Delivers.refl
    (h : Delivery n Body) :
    Delivers h h :=
  ⟨rfl, Nat.le_refl _, List.prefix_rfl, fun _ => id⟩

theorem Delivers.trans
    {h h' h'' : Delivery n Body}
    (hFirst : Delivers h h')
    (hSecond : Delivers h' h'') :
    Delivers h h'' :=
  ⟨hSecond.discarded.trans hFirst.discarded,
    hFirst.delivered_le.trans hSecond.delivered_le,
    hFirst.prefix_le.trans hSecond.prefix_le,
    fun entry hSome => hSecond.kept entry (hFirst.kept entry hSome)⟩

theorem chain_delivers
    (h : Delivery n Body)
    (entry : Nat)
    (p : Packet n Body)
    {next : Nat}
    (hMore : h.lastDelivered ≤ next) :
    Delivers h { h.chain entry p with lastDelivered := next } where
  discarded := rfl
  delivered_le := hMore
  prefix_le := by
    simp only [Delivery.chain]
    split_ifs
    · exact List.prefix_append _ _
    · exact List.prefix_rfl
  kept entry' hSome := by
    simp only [Delivery.chain]
    by_cases hSame : entry' = entry
    · rw [hSame, Function.update_self]
      rfl
    · rw [Function.update_of_ne hSame]
      exact hSome

theorem Tracks.deliverAgreedLoop
    (hSound : Sound sent)
    {k : Nat}
    (hTracks : Tracks sent myAru aru h)
    (hCounted : h.lastDelivered + k ≤ myAru) :
    ∃ h', Protocol.deliverAgreedLoop k h = some h' ∧
      Tracks sent myAru aru h' ∧ Delivers h h' := by
  induction k generalizing h with
  | zero => exact ⟨h, rfl, hTracks, .refl h⟩
  | succ k ih =>
      have hDiscarded := hTracks.discarded_le
      have hNext : h.lastDelivered + 1 ≤ myAru := by
        omega
      rcases hTracks.exists_info hSound
          (Nat.lt_succ_of_le hDiscarded) hNext with
        ⟨⟨p, delivered⟩, hInfo, hSent, hSeq, _⟩
      rw [Protocol.deliverAgreedLoop, hInfo]
      dsimp only
      split_ifs with hDelivered hType
      · rcases ih (hTracks.skip hSound hNext hInfo hDelivered)
            (by dsimp only; omega) with
          ⟨h', hLoop, hTracks', hDelivers⟩
        have hSkip :
            Delivers h
              { h with lastDelivered := h.lastDelivered + 1 } :=
          ⟨rfl, Nat.le_succ _, List.prefix_rfl, fun _ => id⟩
        exact ⟨h', hLoop, hTracks', hSkip.trans hDelivers⟩
      · exact ⟨h, rfl, hTracks, .refl h⟩
      · have hNew : delivered = false :=
          Bool.eq_false_of_not_eq_true hDelivered
        subst hNew
        have hDue : Due h myAru p (h.lastDelivered + 1) :=
          Or.inr ⟨rfl, hSeq, hNext⟩
        rw [hTracks.deliverPacket_eq hSound hInfo hDue]
        rcases ih
            (hTracks.chain hSound hInfo hDue
              fun hSafe => absurd hSafe hType)
            (by dsimp only; omega) with
          ⟨h', hLoop, hTracks', hDelivers⟩
        exact ⟨h', hLoop, hTracks',
          (chain_delivers h _ p (Nat.le_succ _)).trans
            hDelivers⟩

theorem Tracks.deliverAgreedPackets
    (hSound : Sound sent)
    (hTracks : Tracks sent myAru aru h) :
    ∃ h', Protocol.deliverAgreedPackets myAru h = some h' ∧
      Tracks sent myAru aru h' ∧ Delivers h h' := by
  unfold Protocol.deliverAgreedPackets
  split_ifs with hAll
  · exact ⟨h, rfl, hTracks, .refl h⟩
  · exact hTracks.deliverAgreedLoop hSound (by omega)

theorem Tracks.deliverReliableLoop
    (hSound : Sound sent)
    {k i : Nat}
    (hTracks : Tracks sent myAru aru h) :
    ∃ h', Protocol.deliverReliableLoop k i h = some h' ∧
      Tracks sent myAru aru h' ∧ Delivers h h' := by
  induction k generalizing h i with
  | zero => exact ⟨h, rfl, hTracks, .refl h⟩
  | succ k ih =>
      rw [Protocol.deliverReliableLoop]
      split
      · exact ih hTracks
      · rename_i info hInfo
        rcases info with ⟨p, delivered⟩
        split_ifs with hSingle
        · rw [Bool.and_eq_true, Bool.not_eq_true'] at hSingle
          rcases hSingle with ⟨hNew, hSingle⟩
          dsimp only at hNew
          subst hNew
          have hDue : Due h myAru p h.lastDelivered :=
            Or.inl ⟨rfl, hSingle⟩
          rw [hTracks.deliverPacket_eq hSound hInfo hDue]
          have hType : p.type = .safe → p.seq ≤ aru := by
            rw [(Packet.eq_of_isSingle hSingle).1]
            intro hSafe
            cases hSafe
          rcases ih (i := i + 1)
              (hTracks.chain hSound hInfo hDue hType) with
            ⟨h', hLoop, hTracks', hDelivers⟩
          exact ⟨h', hLoop, hTracks',
            (chain_delivers h _ p (Nat.le_refl _)).trans
              hDelivers⟩
        · exact ih hTracks

theorem Tracks.deliverReliablePackets
    (hSound : Sound sent)
    (hTracks : Tracks sent myAru aru h)
    (startSeq numPackets : Nat) :
    ∃ h',
      Protocol.deliverReliablePackets startSeq numPackets h =
          some h' ∧
        Tracks sent myAru aru h' ∧ Delivers h h' :=
  hTracks.deliverReliableLoop hSound

end Protocol

end ReplicatedAccount

------------------------------------------------------------
-- Discarding Packets
------------------------------------------------------------

namespace ReplicatedAccount

namespace Protocol

open Foundations

variable {n : Nat}
variable {Body : Type}
variable {sent : List (Packet n Body)}
variable {myAru aru : Nat}
variable {h : Delivery n Body}

/- The state without the first packet that is not discarded. -/
def Delivery.freed (h : Delivery n Body) : Delivery n Body :=
  { h with
    packets :=
      Function.update h.packets
        (packEntry (h.lastDiscarded + 1)) none
    lastDiscarded := h.lastDiscarded + 1 }

theorem freed_packets
    {entry : Nat}
    {info : PacketInfo n Body}
    (hSome : h.freed.packets entry = some info) :
    entry ≠ packEntry (h.lastDiscarded + 1) ∧
      h.packets entry = some info := by
  simp only [Delivery.freed] at hSome
  by_cases hSame : entry = packEntry (h.lastDiscarded + 1)
  · rw [hSame, Function.update_self] at hSome
    cases hSome
  · rw [Function.update_of_ne hSame] at hSome
    exact ⟨hSame, hSome⟩

theorem Tracks.stored_freed
    (hTracks : Tracks sent myAru aru h)
    {entry : Nat}
    {info : PacketInfo n Body}
    (hSome : h.freed.packets entry = some info) :
    info.packet ∈ sent ∧
      h.freed.lastDiscarded < info.packet.seq ∧
        packEntry info.packet.seq = entry := by
  rcases freed_packets hSome with ⟨hOther, hBefore⟩
  rcases hTracks.stored entry info hBefore with
    ⟨hSent, hAbove, hSlot⟩
  refine ⟨hSent, ?_, hSlot⟩
  rcases Nat.lt_or_ge (h.lastDiscarded + 1) info.packet.seq with
    hMore | hLess
  · exact hMore
  · have hSame : info.packet.seq = h.lastDiscarded + 1 :=
      Nat.le_antisymm hLess hAbove
    exact absurd (by rw [← hSlot, hSame]) hOther

theorem Tracks.held_freed
    (hTracks : Tracks sent myAru aru h)
    {seq : Nat}
    (hLow : h.freed.lastDiscarded < seq)
    (hHigh : seq ≤ myAru) :
    (h.freed.packets (packEntry seq)).isSome = true := by
  have hWindow := hTracks.window
  have hMyAru := hTracks.myAru_le
  simp only [Delivery.freed] at hLow ⊢
  have hOther :
      packEntry seq ≠ packEntry (h.lastDiscarded + 1) := by
    intro hSame
    have hEq : seq = h.lastDiscarded + 1 :=
      packEntry_inj h.lastDiscarded (by omega) (by omega)
        (Nat.lt_succ_self _) (by omega) hSame
    omega
  rw [Function.update_of_ne hOther]
  exact hTracks.held seq (by omega) hHigh

/- What is done does not change, as the packet was delivered. -/
theorem Tracks.done_freed
    (hSound : Sound sent)
    (hTracks : Tracks sent myAru aru h)
    (hDelivered : h.lastDiscarded + 1 ≤ h.lastDelivered)
    (p : Packet n Body) :
    h.freed.Done p ↔ h.Done p := by
  have hMyAru := hTracks.myAru_le
  have hCounted := hTracks.delivered_le
  simp only [Delivery.Done]
  constructor
  · rintro (hBefore | hFlag)
    · exact Or.inl hBefore
    · exact Or.inr (freed_packets hFlag).2
  · rintro (hBefore | hFlag)
    · exact Or.inl hBefore
    · by_cases hSame :
          packEntry p.seq = packEntry (h.lastDiscarded + 1)
      · left
        rw [hSame] at hFlag
        have hSeq :=
          hTracks.seq_of_slot hSound (Nat.lt_succ_self _)
            (by simp only [maxPacketsInStruct]; omega) hFlag
        simp only [Delivery.freed] at hSeq ⊢
        omega
      · right
        simp only [Delivery.freed, Function.update_of_ne hSame]
        exact hFlag

/- A packet that was delivered is taken from its slot. -/
theorem Tracks.discard
    (hSound : Sound sent)
    (hTracks : Tracks sent myAru aru h)
    (hDelivered : h.lastDiscarded + 1 ≤ h.lastDelivered) :
    Tracks sent myAru aru h.freed where
  window := by
    have hWindow := hTracks.window
    simp only [Delivery.freed]
    omega
  myAru_le := hTracks.myAru_le
  discarded_le := hDelivered
  delivered_le := hTracks.delivered_le
  stored := fun _ _ => hTracks.stored_freed
  held := fun _ => hTracks.held_freed
  marked := fun entry info hSome =>
    hTracks.marked entry info (freed_packets hSome).2
  early := fun entry info hSome =>
    hTracks.early entry info (freed_packets hSome).2
  assembled := hTracks.assembled
  singles := by
    intro m hMine
    rw [hTracks.done_freed hSound hDelivered]
    exact hTracks.singles m hMine
  once := hTracks.once
  safe := hTracks.safe

end Protocol

end ReplicatedAccount

------------------------------------------------------------
-- Discarding Many Packets
------------------------------------------------------------

namespace ReplicatedAccount

namespace Protocol

open Foundations

variable {n : Nat}
variable {Body : Type}
variable {sent : List (Packet n Body)}
variable {myAru aru : Nat}
variable {h : Delivery n Body}

/- The state as if the packets up to a number were discarded. -/
def Delivery.upTo
    (h : Delivery n Body)
    (i : Nat) :
    Delivery n Body :=
  { h with
    lastDiscarded := i
    lastDelivered := max h.lastDelivered i }

/- The state when the next slot is given free. -/
def Delivery.next
    (h : Delivery n Body)
    (i : Nat) :
    Delivery n Body :=
  Delivery.upTo
    { h with
      packets :=
        Function.update h.packets (packEntry (i + 1)) none }
    (i + 1)

/- The next packet was delivered in its turn. -/
theorem Tracks.next_delivered
    (hSound : Sound sent)
    {i : Nat}
    (hTracks : Tracks sent myAru aru (h.upTo i))
    (hBefore : i + 1 ≤ h.lastDelivered) :
    Tracks sent myAru aru (h.next i) := by
  have hMax :
      max h.lastDelivered i = max h.lastDelivered (i + 1) := by
    omega
  have hDiscard :=
    hTracks.discard hSound
      (by simp only [Delivery.upTo]; omega)
  simp only [Delivery.freed, Delivery.next, Delivery.upTo, hMax]
    at hDiscard ⊢
  exact hDiscard

/- The next packet was delivered before its turn. -/
theorem Tracks.next_early
    (hSound : Sound sent)
    {i : Nat}
    (hTracks : Tracks sent myAru aru (h.upTo i))
    (hCounted : i + 1 ≤ myAru)
    (hAfter : ¬ i + 1 ≤ h.lastDelivered)
    {p : Packet n Body}
    (hInfo : h.packets (packEntry (i + 1)) = some ⟨p, true⟩) :
    Tracks sent myAru aru (h.next i) := by
  have hLast : max h.lastDelivered i = i := by
    omega
  have hNext : max h.lastDelivered (i + 1) = i + 1 := by
    omega
  have hSame : (h.upTo i).lastDelivered = i := hLast
  have hSkip :=
    hTracks.skip hSound (by rw [hSame]; exact hCounted)
      (by rw [hSame]; exact hInfo) rfl
  have hDiscard :=
    hSkip.discard hSound
      (by dsimp only; rw [hSame]; exact Nat.le_refl _)
  simp only [Delivery.freed, Delivery.next, Delivery.upTo, hLast,
    hNext] at hDiscard ⊢
  exact hDiscard

/- The next packet is delivered when it is discarded. -/
theorem Tracks.next_chain
    (hSound : Sound sent)
    {i : Nat}
    (hTracks : Tracks sent myAru aru (h.upTo i))
    (hAfter : ¬ i + 1 ≤ h.lastDelivered)
    (hAru : i + 1 ≤ aru)
    {p : Packet n Body}
    (hInfo : h.packets (packEntry (i + 1)) = some ⟨p, false⟩)
    (hSeq : p.seq = i + 1)
    (hDue : Due (h.upTo i) myAru p (i + 1)) :
    Tracks sent myAru aru
      ((h.chain (packEntry (i + 1)) p).next i) := by
  have hNext :
      max (h.chain (packEntry (i + 1)) p).lastDelivered (i + 1) =
        i + 1 :=
    Nat.max_eq_right (Nat.le_of_not_ge hAfter)
  have hChain :=
    hTracks.chain hSound hInfo hDue fun _ => hSeq.trans_le hAru
  have hDiscard := hChain.discard hSound (Nat.le_refl _)
  simp only [Delivery.freed, Delivery.next, Delivery.upTo, hNext]
    at hDiscard ⊢
  exact hDiscard

/- One turn of the loop of `Discard_packets`. -/
theorem Tracks.discard_next
    (hSound : Sound sent)
    {i : Nat}
    (hTracks : Tracks sent myAru aru (h.upTo i))
    (hCounted : i + 1 ≤ myAru)
    (hAru : i + 1 ≤ aru) :
    ∃ info h',
      h.packets (packEntry (i + 1)) = some info ∧
        (if info.delivered then some h
          else deliverPacket h (packEntry (i + 1))) = some h' ∧
        Tracks sent myAru aru (h'.next i) ∧
        h.delivered <+: h'.delivered := by
  rcases hTracks.exists_info hSound (Nat.lt_succ_self i)
      hCounted with
    ⟨⟨p, delivered⟩, hInfo, hSent, hSeq, _⟩
  dsimp only at hSent hSeq
  have hInfo' :
      h.packets (packEntry (i + 1)) = some ⟨p, delivered⟩ :=
    hInfo
  by_cases hBefore : i + 1 ≤ h.lastDelivered
  · have hLess :
        p.seq ≤ max h.lastDelivered i := by
      omega
    have hMarked : delivered = true :=
      hTracks.marked _ _ hInfo hLess
    subst hMarked
    exact ⟨_, h, hInfo', rfl,
      hTracks.next_delivered hSound hBefore, List.prefix_rfl⟩
  · cases delivered with
    | true =>
        exact ⟨_, h, hInfo', rfl,
          hTracks.next_early hSound hCounted hBefore hInfo',
          List.prefix_rfl⟩
    | false =>
        have hLast : (h.upTo i).lastDelivered = i :=
          Nat.max_eq_right (by omega)
        have hDue : Due (h.upTo i) myAru p (i + 1) :=
          Or.inr
            ⟨by rw [hLast], by rw [hLast]; exact hSeq, hCounted⟩
        have hFits : packetFraming.Fits h.assembly p :=
          (hTracks.chain_assembled hSound hSent hDue).1
        exact
          ⟨_, h.chain (packEntry (i + 1)) p, hInfo',
            deliverPacket_of_fits hInfo' hFits,
            hTracks.next_chain hSound hBefore hAru hInfo' hSeq
              hDue,
            (chain_delivers h _ p (Nat.le_refl _)).prefix_le⟩

theorem Tracks.discardLoop
    (hSound : Sound sent)
    {k i : Nat}
    (hTracks : Tracks sent myAru aru (h.upTo i))
    (hCounted : i + k ≤ myAru)
    (hAru : i + k ≤ aru) :
    ∃ h', Protocol.discardLoop k (i + 1) h = some h' ∧
      Tracks sent myAru aru (h'.upTo (i + k)) ∧
        h.delivered <+: h'.delivered := by
  induction k generalizing h i with
  | zero => exact ⟨h, rfl, hTracks, List.prefix_rfl⟩
  | succ k ih =>
      rcases hTracks.discard_next hSound (by omega)
          (by omega) with
        ⟨info, h', hInfo, hDeliver, hNext, hPrefix⟩
      rcases ih hNext (by omega) (by omega) with
        ⟨h'', hLoop, hTracks', hPrefix'⟩
      refine ⟨h'', ?_, ?_, hPrefix.trans hPrefix'⟩
      · rw [Protocol.discardLoop, hInfo]
        dsimp only at hDeliver ⊢
        rw [hDeliver]
        exact hLoop
      · rw [Nat.add_right_comm] at hTracks'
        exact hTracks'

theorem Tracks.discardPackets
    (hSound : Sound sent)
    (hTracks : Tracks sent myAru aru h)
    {discarded : Nat}
    (hCounted : discarded ≤ myAru)
    (hAru : discarded ≤ aru) :
    ∃ h', Protocol.discardPackets discarded h = some h' ∧
      Tracks sent myAru aru h' ∧
        h'.lastDiscarded = max h.lastDiscarded discarded ∧
          h.delivered <+: h'.delivered := by
  unfold Protocol.discardPackets
  split_ifs with hLess
  · exact ⟨h, rfl, hTracks,
      (Nat.max_eq_left hLess).symm, List.prefix_rfl⟩
  · have hStart :
        Tracks sent myAru aru (h.upTo h.lastDiscarded) := by
      rw [Delivery.upTo, Nat.max_eq_left hTracks.discarded_le]
      exact hTracks
    have hMore :
        h.lastDiscarded + (discarded - h.lastDiscarded) =
          discarded := by
      omega
    rcases hStart.discardLoop hSound
        (k := discarded - h.lastDiscarded) (by omega)
        (by omega) with
      ⟨h', hLoop, hTracks', hPrefix⟩
    rw [hLoop]
    rw [hMore] at hTracks'
    exact ⟨_, rfl, hTracks', by dsimp only; omega, hPrefix⟩

end Protocol

end ReplicatedAccount
