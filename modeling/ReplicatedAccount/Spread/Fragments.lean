import ReplicatedAccount.Spread.SessionParse

/-
  The fragments of a message that a daemon is reading: full
  ones, and one that is being filled.

  Key definitions include:
    * `Daemon.Filling`
    * `Daemon.FilledUpTo`
    * `Daemon.Buffered`
    * `Daemon.Whole`

  Key theorems include:
    * `Daemon.recv_cases`
    * `Daemon.FilledUpTo.allocate`
    * `Daemon.header_of_bytes`
    * `Daemon.whole_elementLenFixup`
-/

------------------------------------------------------------
-- What `recv` Takes
------------------------------------------------------------

namespace ReplicatedAccount

open Foundations SpreadConnection

namespace Daemon

/- Some bytes, at most as many as wanted, or none at all. -/
theorem recv_cases
    {n : Nat}
    (hPositive : 0 < n)
    (input : SessionInput) :
    (∃ content,
      (recv n input).1 = .bytes content ∧ content ≠ [] ∧
        content.length ≤ n ∧
          items input =
            content.map .inl ++ items (recv n input).2) ∨
      (∃ cause,
        (recv n input).1 = .trouble cause ∧
          (items input = .inr cause :: items (recv n input).2 ∨
            cause = .again ∧ items input = [] ∧
              items (recv n input).2 = [])) := by
  induction input with
  | nil => exact Or.inr ⟨.again, rfl, Or.inr ⟨rfl, rfl, rfl⟩⟩
  | cons arrival rest ih =>
      cases arrival with
      | interruption cause =>
          exact Or.inr ⟨cause, rfl, Or.inl rfl⟩
      | chunk content =>
          by_cases hEmpty : content = []
          · subst hEmpty
            simpa [recv] using ih
          · apply Or.inl
            refine ⟨content.take n, by simp [recv, hEmpty], ?_,
              ?_, ?_⟩
            · simp [hEmpty, Nat.ne_of_gt hPositive]
            · exact List.length_take_le n content
            · have hParts :
                  (content.take n).map
                        (.inl : Byte → Byte ⊕ RecvTrouble) ++
                      (content.drop n).map .inl =
                    content.map .inl := by
                rw [← List.map_append, List.take_append_drop]
              simp only [recv, hEmpty, if_false, items_chunk]
              rw [← List.append_assoc, hParts]

end Daemon

end ReplicatedAccount

------------------------------------------------------------
-- Fragments
------------------------------------------------------------

namespace ReplicatedAccount

open Foundations SpreadConnection

namespace Daemon

/- Full fragments in front of one that holds `curByte` bytes. -/
structure Filling
    (msg : MessageObj)
    (curElement curByte : Nat)
    (full : List ScatElement)
    (e : ScatElement) : Prop where
  elements : msg.elements = full ++ [e]
  length : full.length = curElement
  full : ∀ f ∈ full, f.buf.length = packetBody
  byte : e.buf.length = curByte

/- The bytes of a message are stored up to this place. -/
structure FilledUpTo
    (msg : MessageObj)
    (curElement curByte : Nat) : Prop where
  fits : curByte < packetBody
  parts :
    (∃ full e, Filling msg curElement curByte full e) ∨
      (curByte = 0 ∧ msg.elements.length = curElement ∧
        ∀ f ∈ msg.elements, f.buf.length = packetBody)

/- Lengths and buffers of a message that is being read. -/
structure Buffered (msg : MessageObj) : Prop where
  start :
    ∀ first ∈ msg.elements.head?,
      headerSize ≤ first.buf.length
  lens : ∀ e ∈ msg.elements.tail, e.len = packetBody
  room : msg.elements.length ≤ maxScatterElements

/- A message whose last fragment is its last. -/
structure Fragmented (msg : MessageObj) : Prop where
  parts :
    ∃ full e, msg.elements = full ++ [e] ∧
      (∀ f ∈ full, f.buf.length = packetBody) ∧
        0 < e.buf.length ∧ e.buf.length ≤ packetBody
  room : msg.elements.length ≤ maxScatterElements

/-
  A message in fragments, the first of which has the header;
  every length is the length of its buffer.
-/
structure Whole (msg : MessageObj) : Prop
    extends Fragmented msg where
  start :
    ∀ first ∈ msg.elements.head?,
      headerSize ≤ first.buf.length
  lens : ∀ e ∈ msg.elements, e.len = e.buf.length

theorem length_flatMap_full
    {full : List ScatElement}
    (hFull : ∀ f ∈ full, f.buf.length = packetBody) :
    (full.flatMap ScatElement.buf).length =
      full.length * packetBody := by
  induction full with
  | nil => simp
  | cons f full ih =>
      have hFirst := hFull f (by simp)
      have hRest := ih (fun g hMember => hFull g (by simp [hMember]))
      rw [List.flatMap_cons, List.length_append, hFirst, hRest,
        List.length_cons, Nat.succ_mul, Nat.add_comm]

theorem Fragmented.length_le_capacity
    {msg : MessageObj}
    (hFragmented : Fragmented msg) :
    msg.bytes.length ≤ capacity := by
  rcases hFragmented with
    ⟨⟨full, e, hElements, hFull, _, hFits⟩, hRoom⟩
  rw [hElements, List.length_append, List.length_singleton]
    at hRoom
  rw [MessageObj.bytes, hElements, List.flatMap_append,
    List.length_append, length_flatMap_full hFull]
  calc full.length * packetBody + ([e].flatMap _).length
      = full.length * packetBody + e.buf.length := by simp
    _ ≤ (full.length + 1) * packetBody := by
        rw [Nat.succ_mul]
        exact Nat.add_le_add_left hFits _
    _ ≤ capacity := Nat.mul_le_mul_right _ hRoom

theorem modify_last
    (full : List ScatElement)
    (e : ScatElement)
    (f : ScatElement → ScatElement) :
    (full ++ [e]).modify full.length f = full ++ [f e] := by
  induction full with
  | nil => rfl
  | cons g full ih => simp [ih]

namespace Filling

variable {msg : MessageObj}
variable {curElement curByte : Nat}
variable {full : List ScatElement}
variable {e : ScatElement}

theorem length_bytes
    (hFilling : Filling msg curElement curByte full e) :
    msg.bytes.length = curElement * packetBody + curByte := by
  rw [MessageObj.bytes, hFilling.elements, List.flatMap_append,
    List.length_append, length_flatMap_full hFilling.full,
    hFilling.length]
  simp [hFilling.byte]

theorem length_elements
    (hFilling : Filling msg curElement curByte full e) :
    msg.elements.length = curElement + 1 := by
  rw [hFilling.elements]
  simp [hFilling.length]

/- Bytes are written behind those that are there. -/
theorem write_elements
    (hFilling : Filling msg curElement curByte full e)
    (content : List Byte) :
    (msg.write curElement curByte content).elements =
      full ++ [{ e with buf := e.buf ++ content }] := by
  have hTake : e.buf.take curByte = e.buf :=
    List.take_of_length_le (Nat.le_of_eq hFilling.byte)
  rw [MessageObj.write, hFilling.elements, ← hFilling.length,
    modify_last, hTake]

theorem write
    (hFilling : Filling msg curElement curByte full e)
    (content : List Byte) :
    Filling (msg.write curElement curByte content) curElement
      (curByte + content.length) full
      { e with buf := e.buf ++ content } where
  elements := hFilling.write_elements content
  length := hFilling.length
  full := hFilling.full
  byte := by simp [hFilling.byte]

theorem bytes_write
    (hFilling : Filling msg curElement curByte full e)
    (content : List Byte) :
    (msg.write curElement curByte content).bytes =
      msg.bytes ++ content := by
  rw [MessageObj.bytes, hFilling.write_elements content,
    MessageObj.bytes, hFilling.elements]
  simp

theorem buffered_write
    (hFilling : Filling msg curElement curByte full e)
    (hBuffered : Buffered msg)
    (content : List Byte) :
    Buffered (msg.write curElement curByte content) := by
  rcases hBuffered with ⟨hStart, hLens, hRoom⟩
  rw [hFilling.elements] at hStart hLens hRoom
  have hElements := hFilling.write_elements content
  rcases full with _ | ⟨first, full⟩
  · have hLong := hStart e (by simp)
    refine ⟨?_, ?_, ?_⟩ <;> rw [hElements]
    · simp
      omega
    · simp
    · simpa using hRoom
  · refine ⟨?_, ?_, ?_⟩ <;> rw [hElements]
    · simpa using hStart
    · intro f hMember
      simp only [List.cons_append, List.tail_cons,
        List.mem_append, List.mem_singleton] at hMember
      rcases hMember with hOld | rfl
      · exact hLens f (by simp [hOld])
      · exact hLens e (by simp)
    · simpa using hRoom

end Filling

/- The place has a buffer, or one is added, or none is left. -/
theorem FilledUpTo.allocate
    {msg : MessageObj}
    {curElement curByte : Nat}
    (hUpTo : FilledUpTo msg curElement curByte)
    (hBuffered : Buffered msg)
    (hStarted : msg.elements ≠ []) :
    ((if msg.elements.length ≤ curElement then
        msg.addScatElement
      else
        some msg) = none ∧
      msg.bytes.length = capacity) ∨
    ∃ msg' full e,
      (if msg.elements.length ≤ curElement then
          msg.addScatElement
        else
          some msg) = some msg' ∧
        Filling msg' curElement curByte full e ∧
          Buffered msg' ∧ msg'.bytes = msg.bytes := by
  rcases hUpTo.parts with
    ⟨full, e, hFilling⟩ | ⟨hZero, hLength, hFull⟩
  · have hMore := hFilling.length_elements
    rw [if_neg (by omega)]
    exact Or.inr ⟨msg, full, e, rfl, hFilling, hBuffered, rfl⟩
  · rw [if_pos (Nat.le_of_eq hLength)]
    unfold MessageObj.addScatElement
    by_cases hRoom : msg.elements.length < maxScatterElements
    · rw [if_pos hRoom]
      refine Or.inr ⟨_, msg.elements, ⟨[], packetBody⟩, rfl,
        ⟨rfl, hLength, hFull, by simp [hZero]⟩, ?_, ?_⟩
      · refine ⟨?_, ?_, by simpa using Nat.succ_le_of_lt hRoom⟩
        · intro first hFirst
          rw [List.head?_append_of_ne_nil _ hStarted] at hFirst
          exact hBuffered.start first hFirst
        · intro f hMember
          rw [List.tail_append_of_ne_nil hStarted] at hMember
          rcases List.mem_append.mp hMember with hOld | hNew
          · exact hBuffered.lens f hOld
          · rw [List.mem_singleton.mp hNew]
      · simp [MessageObj.bytes]
    · rw [if_neg hRoom]
      have hMost := hBuffered.room
      refine Or.inl ⟨rfl, ?_⟩
      rw [MessageObj.bytes, length_flatMap_full hFull]
      have hAll :
          msg.elements.length = maxScatterElements := by
        omega
      rw [hAll]
      rfl

end Daemon

end ReplicatedAccount

------------------------------------------------------------
-- Headers and Lengths of Fragments
------------------------------------------------------------

namespace ReplicatedAccount

open Foundations SpreadConnection

namespace Daemon

/- The header of a message is what lies in front. -/
theorem header_of_bytes
    {order : ByteOrder}
    {msg : MessageObj}
    {head : MessageHeader}
    {rest : List Byte}
    (hBytes : msg.bytes = head.memory order ++ rest)
    (hStart :
      ∀ first ∈ msg.elements.head?,
        headerSize ≤ first.buf.length) :
    msg.header order = head := by
  rcases hElements : msg.elements with _ | ⟨first, more⟩
  · have hLength := congrArg List.length hBytes
    simp [MessageObj.bytes, hElements, maxGroupName] at hLength
    omega
  · have hLong := hStart first (by simp [hElements])
    have hPrefix : head.memory order <+: first.buf := by
      refine List.prefix_of_prefix_length_le
        (?_ : _ <+: msg.bytes) ?_ ?_
      · exact ⟨rest, hBytes.symm⟩
      · rw [MessageObj.bytes, hElements, List.flatMap_cons]
        exact List.prefix_append _ _
      · simpa [headerSize] using hLong
    rcases hPrefix with ⟨body, hBody⟩
    rw [MessageObj.header, hElements, List.headD_cons, ← hBody,
      MessageHeader.ofMemory_memory,
      MessageHeader.translate_self]

/- A message is its header and what is behind it. -/
theorem Whole.bytes_eq
    {msg : MessageObj}
    (hWhole : Whole msg)
    (order : ByteOrder) :
    msg.bytes =
      (msg.header order).memory order ++
        msg.bytes.drop headerSize := by
  rcases hWhole.parts with ⟨full, e, hElements, _⟩
  rcases hAll : msg.elements with _ | ⟨first, more⟩
  · rw [hAll] at hElements
    simp at hElements
  · have hLong := hWhole.start first (by simp [hAll])
    have hBytes :
        msg.bytes =
          first.buf ++ more.flatMap ScatElement.buf := by
      rw [MessageObj.bytes, hAll, List.flatMap_cons]
    have hFront :
        msg.bytes.take headerSize =
          first.buf.take headerSize := by
      rw [hBytes, List.take_append_of_le_length hLong]
    rw [MessageObj.header, hAll, List.headD_cons,
      MessageHeader.memory_ofMemory order hLong, ← hFront]
    exact (List.take_append_drop _ _).symm

/- A length changes no buffer. -/
theorem bytes_setLen
    (msg : MessageObj)
    (element len : Nat) :
    (msg.setLen element len).bytes = msg.bytes := by
  unfold MessageObj.bytes MessageObj.setLen
  dsimp only
  rw [List.flatMap_def, List.flatMap_def]
  congr 1
  apply List.ext_getElem?
  intro i
  rw [List.getElem?_map, List.getElem?_map,
    List.getElem?_modify]
  split_ifs <;> cases msg.elements[i]? <;> rfl

/- The last fragment is within the array. -/
theorem last_lt_of_lt_capacity
    {totalSize : Nat}
    (hRoom : totalSize < capacity) :
    ¬ maxScatterElements ≤ totalSize / packetBody := by
  rw [Nat.not_le]
  exact Nat.div_lt_of_lt_mul
    (Nat.mul_comm maxScatterElements packetBody ▸ hRoom)

theorem elementLenFixup_of_full
    {order : ByteOrder}
    {msg : MessageObj}
    (hTotal :
      (msg.header order).bodyLength + headerSize = capacity) :
    msg.elementLenFixup order = none := by
  unfold MessageObj.elementLenFixup
  rw [hTotal]
  exact if_pos (by decide)

/- The length of the only fragment is always set. -/
theorem elementLenFixup_single
    {order : ByteOrder}
    {msg : MessageObj}
    {e : ScatElement}
    (hElements : msg.elements = [e])
    (hTotal :
      (msg.header order).bodyLength + headerSize =
        e.buf.length)
    (hFits : e.buf.length ≤ packetBody) :
    msg.elementLenFixup order =
      some ⟨[{ e with len := e.buf.length }]⟩ := by
  have hSmall : packetBody < capacity := by decide
  unfold MessageObj.elementLenFixup MessageObj.setLen
  rw [hTotal]
  dsimp only
  rw [if_neg (last_lt_of_lt_capacity (hFits.trans_lt hSmall)),
    hElements]
  by_cases hShort : e.buf.length < packetBody
  · simp [hShort, Nat.div_eq_of_lt hShort]
  · have hAll : e.buf.length = packetBody := by
      omega
    simp [hAll, packetBody, maxPacketSize, packetHeaderSize]

/- Of many fragments, the lengths of the first and the last. -/
theorem elementLenFixup_many
    {order : ByteOrder}
    {msg : MessageObj}
    {first e : ScatElement}
    {full : List ScatElement}
    (hElements : msg.elements = first :: (full ++ [e]))
    (hTotal :
      (msg.header order).bodyLength + headerSize =
        (full.length + 1) * packetBody + e.buf.length)
    (hRoom :
      (msg.header order).bodyLength + headerSize < capacity)
    (hFits : e.buf.length ≤ packetBody)
    (hLast : e.len = packetBody) :
    msg.elementLenFixup order =
      some
        ⟨{ first with len := packetBody } ::
          (full ++ [{ e with len := e.buf.length }])⟩ := by
  have hPacket : 0 < packetBody := by decide
  have hLong :
      ¬ (msg.header order).bodyLength + headerSize <
        packetBody := by
    rw [hTotal, Nat.succ_mul]
    omega
  have hRest :
      (msg.header order).bodyLength + headerSize -
          packetBody * (msg.elements.length - 1) =
        e.buf.length := by
    rw [hTotal, hElements]
    simp only [List.length_cons, List.length_append,
      List.length_nil, Nat.add_sub_cancel, Nat.zero_add]
    rw [Nat.mul_comm packetBody]
    omega
  unfold MessageObj.elementLenFixup MessageObj.setLen
  dsimp only
  rw [if_neg (last_lt_of_lt_capacity hRoom), if_neg hLong,
    hRest, hElements]
  simp only [List.modify_zero_cons]
  rw [hTotal, Nat.add_comm, Nat.add_mul_div_right _ _ hPacket]
  by_cases hPartial : e.buf.length < packetBody
  · rw [Nat.div_eq_of_lt hPartial, Nat.zero_add,
      List.modify_succ_cons, modify_last]
  · have hAll : e.buf.length = packetBody := by
      omega
    rw [hAll, Nat.div_self hPacket, Nat.add_comm,
      List.modify_succ_cons, List.modify_eq_self (by simp),
      ← hLast]

theorem bytes_elementLenFixup
    {order : ByteOrder}
    {msg fixed : MessageObj}
    (hFixed : msg.elementLenFixup order = some fixed) :
    fixed.bytes = msg.bytes := by
  unfold MessageObj.elementLenFixup at hFixed
  dsimp only at hFixed
  split_ifs at hFixed <;> cases hFixed <;>
    simp only [bytes_setLen]

/-
  The lengths are right, also where none had to be set, if the
  message does not fill all buffers.
-/
theorem whole_elementLenFixup
    {order : ByteOrder}
    {msg : MessageObj}
    (hFragmented : Fragmented msg)
    (hBuffered : Buffered msg)
    (hTotal :
      msg.bytes.length =
        (msg.header order).bodyLength + headerSize)
    (hCapacity : msg.bytes.length < capacity) :
    ∃ fixed, msg.elementLenFixup order = some fixed ∧
      Whole fixed ∧ fixed.bytes = msg.bytes := by
  have hLens := hBuffered.lens
  have hStart := hBuffered.start
  rcases hFragmented with
    ⟨⟨full, e, hElements, hFull, hPositive, hFits⟩, hRoom⟩
  rw [hElements] at hStart
  have hLength :
      msg.bytes.length =
        full.length * packetBody + e.buf.length := by
    rw [MessageObj.bytes, hElements, List.flatMap_append,
      List.length_append, length_flatMap_full hFull]
    simp
  rw [hTotal] at hLength hCapacity
  rcases full with _ | ⟨first, full⟩
  · rw [List.nil_append] at hElements
    have hFixed :=
      elementLenFixup_single hElements (by simpa using hLength)
        hFits
    refine ⟨_, hFixed,
      ⟨⟨⟨[], _, rfl, by simp, hPositive, hFits⟩,
        (by decide : 1 ≤ maxScatterElements)⟩, ?_, by simp⟩,
      bytes_elementLenFixup hFixed⟩
    simpa using hStart
  · have hFixed :=
      elementLenFixup_many hElements hLength hCapacity hFits
        (hLens e (by simp [hElements]))
    have hFirst := hFull first (by simp)
    refine ⟨_, hFixed, ?_, bytes_elementLenFixup hFixed⟩
    refine
      ⟨⟨⟨{ first with len := packetBody } :: full,
        { e with len := e.buf.length }, rfl, ?_, hPositive,
        hFits⟩, ?_⟩, ?_, ?_⟩
    · intro f hMember
      rcases List.mem_cons.mp hMember with rfl | hOther
      · exact hFirst
      · exact hFull f (by simp [hOther])
    · rw [hElements] at hRoom
      simpa using hRoom
    · simpa using hStart
    · intro f hMember
      rcases List.mem_cons.mp hMember with rfl | hOther
      · exact hFirst.symm
      · rcases List.mem_append.mp hOther with hMiddle | hLast
        · rw [hFull f (by simp [hMiddle])]
          exact hLens f (by simp [hElements, hMiddle])
        · rw [List.mem_singleton.mp hLast]

end Daemon

end ReplicatedAccount
