import ReplicatedAccount.Spread.DeliveryLoops

/-
  Packets that arrive, in a datagram or because more of them
  were sent, keep what holds of the packets of a daemon, and
  never lead to an `Alarm` that ends it.

  Key definitions include:
    * `Holds`

  Key theorems include:
    * `Tracks.insert`
    * `Tracks.extend`
    * `Holds.protHandleBcast`
-/

------------------------------------------------------------
-- Inserted Packets
------------------------------------------------------------

namespace ReplicatedAccount

namespace Protocol

open Foundations

variable {n : Nat}
variable {Body : Type}
variable {sent : List (Packet n Body)}
variable {myAru aru : Nat}
variable {h : Delivery n Body}

/- A slot that is free takes a packet that was sent. -/
theorem Tracks.insert
    (hTracks : Tracks sent myAru aru h)
    {p : Packet n Body}
    (hSent : p ∈ sent)
    (hAbove : h.lastDiscarded < p.seq)
    (hFree : h.packets (packEntry p.seq) = none) :
    Tracks sent myAru aru
      { h with
        packets :=
          Function.update h.packets (packEntry p.seq)
            (some ⟨p, false⟩) } := by
  have hNew : myAru < p.seq := by
    by_contra hCounted
    have hHeld :=
      hTracks.held p.seq hAbove (Nat.le_of_not_lt hCounted)
    rw [hFree] at hHeld
    cases hHeld
  have hDelivered := hTracks.delivered_le
  have hOld :
      ∀ entry info,
        Function.update h.packets (packEntry p.seq)
            (some ⟨p, false⟩) entry =
          some info →
            entry = packEntry p.seq ∧ info = ⟨p, false⟩ ∨
              h.packets entry = some info := by
    intro entry info hSome
    by_cases hSame : entry = packEntry p.seq
    · rw [hSame, Function.update_self,
        Option.some.injEq] at hSome
      exact Or.inl ⟨hSame, hSome.symm⟩
    · rw [Function.update_of_ne hSame] at hSome
      exact Or.inr hSome
  refine
    { window := hTracks.window
      myAru_le := hTracks.myAru_le
      discarded_le := hTracks.discarded_le
      delivered_le := hDelivered
      stored := ?_
      held := ?_
      marked := ?_
      early := ?_
      assembled := hTracks.assembled
      singles := ?_
      once := hTracks.once
      safe := hTracks.safe }
  · intro entry info hSome
    rcases hOld entry info hSome with ⟨rfl, rfl⟩ | hBefore
    · exact ⟨hSent, hAbove, rfl⟩
    · exact hTracks.stored entry info hBefore
  · intro seq hLow hCounted
    dsimp only
    by_cases hSame : packEntry seq = packEntry p.seq
    · rw [hSame, Function.update_self]
      rfl
    · rw [Function.update_of_ne hSame]
      exact hTracks.held seq hLow hCounted
  · intro entry info hSome hLess
    rcases hOld entry info hSome with ⟨rfl, rfl⟩ | hBefore
    · dsimp only at hLess
      omega
    · exact hTracks.marked entry info hBefore hLess
  · intro entry info hSome hMarked
    rcases hOld entry info hSome with ⟨rfl, rfl⟩ | hBefore
    · cases hMarked
    · exact hTracks.early entry info hBefore hMarked
  · intro m hMine
    rw [hTracks.singles m hMine]
    refine and_congr_right fun _ =>
      and_congr_right fun _ => or_congr_right ⟨?_, ?_⟩
    · intro hFlag
      have hOther : packEntry m.1.seq ≠ packEntry p.seq := by
        intro hSame
        rw [hSame, hFree] at hFlag
        cases hFlag
      dsimp only
      rw [Function.update_of_ne hOther]
      exact hFlag
    · intro hFlag
      rcases hOld _ _ hFlag with ⟨_, hSame⟩ | hBefore
      · cases hSame
      · exact hBefore

/- More packets are counted, if they are there. -/
theorem Tracks.advance
    (hTracks : Tracks sent myAru aru h)
    {k : Nat}
    (hLess : myAru + k ≤ sent.length) :
    Tracks sent (advanceAru h.packets k myAru) aru h :=
  { hTracks with
    myAru_le := (advanceAru_le _ _ _).trans hLess
    delivered_le :=
      hTracks.delivered_le.trans (le_advanceAru _ _ _)
    held := by
      intro seq hAbove hCounted
      rcases Nat.lt_or_ge myAru seq with hNew | hOld
      · exact isSome_of_le_advanceAru hNew hCounted
      · exact hTracks.held seq hAbove hOld }

theorem Tracks.weaken
    (hTracks : Tracks sent myAru aru h)
    {aru' : Nat}
    (hLess : aru ≤ aru') :
    Tracks sent myAru aru' h :=
  { hTracks with
    safe := fun m hMember hType =>
      (hTracks.safe m hMember hType).trans hLess }

/- More packets were sent, that fit into the window. -/
theorem Tracks.extend
    (hTracks : Tracks sent myAru aru h)
    {packets : List (Packet n Body)}
    (hSound : Sound (sent ++ packets))
    (hWindow :
      (sent ++ packets).length ≤
        h.lastDiscarded + maxPacketsInStruct) :
    Tracks (sent ++ packets) myAru aru h := by
  have hCounted := hTracks.myAru_le
  have hDelivered := hTracks.delivered_le
  refine
    { window := hWindow
      myAru_le := by
        rw [List.length_append]
        omega
      discarded_le := hTracks.discarded_le
      delivered_le := hDelivered
      stored := ?_
      held := hTracks.held
      marked := hTracks.marked
      early := hTracks.early
      assembled := ?_
      singles := ?_
      once := hTracks.once
      safe := hTracks.safe }
  · intro entry info hSome
    rcases hTracks.stored entry info hSome with
      ⟨hSent, hRest⟩
    exact ⟨List.mem_append_left _ hSent, hRest⟩
  · rw [List.take_append_of_le_length
      (hDelivered.trans hCounted)]
    exact hTracks.assembled
  · intro m hMine
    rw [hTracks.singles m hMine]
    constructor
    · rintro ⟨hSent, hRest⟩
      exact ⟨List.mem_append_left _ hSent, hRest⟩
    · rintro ⟨hSent, hPart, hDone⟩
      refine ⟨?_, hPart, hDone⟩
      rcases hDone with hBefore | hFlag
      · have hBounds := hSound.bounds hSent
        have hPlace := hBounds.2.2
        rw [List.getElem?_append_left (by omega)] at hPlace
        exact List.mem_of_getElem? hPlace
      · exact (hTracks.stored _ _ hFlag).1

end Protocol

end ReplicatedAccount

------------------------------------------------------------
-- Received Datagrams
------------------------------------------------------------

namespace ReplicatedAccount

namespace Protocol

open Foundations

variable {n : Nat}
variable {Body : Type}
variable {sent : List (Packet n Body)}
variable {d : ProtocolState n Body}

/- What holds of the packets of a daemon between its steps. -/
structure Holds
    (sent : List (Packet n Body))
    (d : ProtocolState n Body) : Prop where
  tracks : Tracks sent d.myAru d.aru d.delivery
  discarded : d.delivery.lastDiscarded = d.aru
  highestSeq_le : d.highestSeq ≤ sent.length

/- More packets, none of which is lost, and more delivered. -/
structure Gains (d d' : ProtocolState n Body) : Prop where
  aru : d'.aru = d.aru
  delivered :
    d.delivery.delivered <+: d'.delivery.delivered
  kept :
    ∀ entry, (d.delivery.packets entry).isSome →
      (d'.delivery.packets entry).isSome

theorem Gains.refl
    (d : ProtocolState n Body) :
    Gains d d :=
  ⟨rfl, List.prefix_rfl, fun _ => id⟩

theorem Gains.trans
    {d d' d'' : ProtocolState n Body}
    (hFirst : Gains d d')
    (hSecond : Gains d' d'') :
    Gains d d'' :=
  ⟨hSecond.aru.trans hFirst.aru,
    hFirst.delivered.trans hSecond.delivered,
    fun entry hSome => hSecond.kept entry (hFirst.kept entry hSome)⟩

/- The daemon has the packet, or does not need it. -/
def Covers
    (d : ProtocolState n Body)
    (seq : Nat) : Prop :=
  seq ≤ d.aru ∨ (d.delivery.packets (packEntry seq)).isSome

theorem Covers.gains
    {d d' : ProtocolState n Body}
    {seq : Nat}
    (hCovers : Covers d seq)
    (hGains : Gains d d') :
    Covers d' seq := by
  rcases hCovers with hOld | hSome
  · exact Or.inl (hGains.aru ▸ hOld)
  · exact Or.inr (hGains.kept _ hSome)

theorem isSome_insert
    {packets : Nat → Option (PacketInfo n Body)}
    (entry : Nat)
    (info : PacketInfo n Body)
    {entry' : Nat}
    (hSome : (packets entry').isSome) :
    (Function.update packets entry (some info) entry').isSome := by
  by_cases hSame : entry' = entry
  · rw [hSame, Function.update_self]
    rfl
  · rw [Function.update_of_ne hSame]
    exact hSome

/- The packet that was inserted is there, and the others. -/
theorem Delivers.inserted
    {h h' : Delivery n Body}
    {entry : Nat}
    {info : PacketInfo n Body}
    (hDelivers :
      Delivers
        { h with
          packets :=
            Function.update h.packets entry (some info) }
        h') :
    (∀ entry', (h.packets entry').isSome →
        (h'.packets entry').isSome) ∧
      (h'.packets entry).isSome := by
  refine ⟨fun entry' hSome =>
    hDelivers.kept entry' (isSome_insert entry info hSome),
    hDelivers.kept entry ?_⟩
  dsimp only
  rw [Function.update_self]
  rfl

/- A packet that is new, before it is counted. -/
theorem Holds.insert
    (hSound : Sound sent)
    (hHolds : Holds sent d)
    {p : Packet n Body}
    (hSent : p ∈ sent)
    (hNew : ¬ p.seq ≤ d.aru)
    (hFree :
      ¬ (d.delivery.packets (packEntry p.seq)).isSome = true) :
    Tracks sent d.myAru d.aru
        { d.delivery with
          packets :=
            Function.update d.delivery.packets (packEntry p.seq)
              (some ⟨p, false⟩) } ∧
      max d.highestSeq p.seq ≤ sent.length := by
  have hAbove : d.delivery.lastDiscarded < p.seq := by
    rw [hHolds.discarded]
    omega
  exact ⟨hHolds.tracks.insert hSent hAbove
      (Option.not_isSome_iff_eq_none.mp hFree),
    Nat.max_le.mpr
      ⟨hHolds.highestSeq_le, (hSound.bounds hSent).2.1⟩⟩

theorem Holds.handlePacket
    (hSound : Sound sent)
    (hHolds : Holds sent d)
    {p : Packet n Body}
    (hSent : p ∈ sent) :
    ∃ d', Protocol.handlePacket d p = some d' ∧ Holds sent d' ∧
      Gains d d' ∧ Covers d' p.seq := by
  unfold Protocol.handlePacket
  split_ifs with hOld hExists hNext
  · exact ⟨d, rfl, hHolds, .refl d, Or.inl hOld⟩
  · exact ⟨d, rfl, hHolds, .refl d, Or.inr hExists⟩
  · have hCounted := hHolds.tracks.myAru_le
    rcases hHolds.insert hSound hSent hOld hExists with
      ⟨hInsert, hHighest⟩
    have hAdvance :=
      hInsert.advance
        (k := max d.highestSeq p.seq - d.myAru) (by omega)
    rcases hAdvance.deliverAgreedPackets hSound with
      ⟨h, hDeliver, hTracks, hDelivers⟩
    dsimp only at hDeliver ⊢
    rw [hDeliver]
    exact ⟨_, rfl,
      ⟨hTracks, hDelivers.discarded.trans hHolds.discarded,
        hHighest⟩,
      ⟨rfl, hDelivers.prefix_le, hDelivers.inserted.1⟩,
      Or.inr hDelivers.inserted.2⟩
  · rcases hHolds.insert hSound hSent hOld hExists with
      ⟨hInsert, hHighest⟩
    rcases hInsert.deliverReliablePackets hSound p.seq 1 with
      ⟨h, hDeliver, hTracks, hDelivers⟩
    dsimp only at hDeliver ⊢
    rw [hDeliver]
    exact ⟨_, rfl,
      ⟨hTracks, hDelivers.discarded.trans hHolds.discarded,
        hHighest⟩,
      ⟨rfl, hDelivers.prefix_le, hDelivers.inserted.1⟩,
      Or.inr hDelivers.inserted.2⟩

theorem Holds.protHandleBcast
    (hSound : Sound sent)
    {packets : List (Packet n Body)}
    (hHolds : Holds sent d)
    (hSent : ∀ p ∈ packets, p ∈ sent) :
    ∃ d', Protocol.protHandleBcast d packets = some d' ∧
      Holds sent d' ∧ Gains d d' ∧
        ∀ p ∈ packets, Covers d' p.seq := by
  induction packets generalizing d with
  | nil =>
      exact ⟨d, rfl, hHolds, .refl d,
        fun _ hMember => absurd hMember List.not_mem_nil⟩
  | cons p packets ih =>
      rcases hHolds.handlePacket hSound (hSent p (by simp)) with
        ⟨d', hResult, hHolds', hGains, hCovers⟩
      rcases ih hHolds'
          (fun p' hMember => hSent p' (by simp [hMember])) with
        ⟨d'', hRest, hHolds'', hGains', hAll⟩
      refine ⟨d'', ?_, hHolds'', hGains.trans hGains', ?_⟩
      · rw [Protocol.protHandleBcast, hResult]
        exact hRest
      · intro p' hMember
        rcases List.mem_cons.mp hMember with rfl | hLater
        · exact hCovers.gains hGains'
        · exact hAll p' hLater

end Protocol

end ReplicatedAccount
