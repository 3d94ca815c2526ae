import ReplicatedAccount.Spread.Session

/-
  What a daemon is to make of the bytes of a client, without
  calls, buffers and fragments: the bytes are held until they
  are a whole message.

  Key definitions include:
    * `Daemon.acceptedHeader`
    * `Daemon.Parse`
    * `Daemon.Parse.settle`
    * `Daemon.Parse.feedItem`
    * `Daemon.Incomplete`

  Key theorems include:
    * `Daemon.MessageHeader.ofMemory_memory`
    * `Daemon.MessageHeader.memory_ofMemory`
    * `Daemon.Parse.foldl_feed`
-/

------------------------------------------------------------
-- Reading Headers Back
------------------------------------------------------------

namespace ReplicatedAccount

open Foundations SpreadConnection

namespace Daemon

/- A word that was read at an index, written again. -/
theorem encode_wordAt
    (order : ByteOrder)
    {buffer : List Byte}
    {index : Nat}
    (hEnough : index + 4 ≤ buffer.length) :
    order.encode (wordAt order buffer index) =
      (buffer.drop index).take 4 := by
  have h0 : index < buffer.length := by omega
  have h1 : index + 1 < buffer.length := by omega
  have h2 : index + 2 < buffer.length := by omega
  have h3 : index + 3 < buffer.length := by omega
  rw [wordAt, ByteOrder.encode_decode]
  apply List.ext_getElem
  · simp
    omega
  · intro i hLeft hRight
    have hIndex : i = 0 ∨ i = 1 ∨ i = 2 ∨ i = 3 := by
      simp at hLeft
      omega
    rcases hIndex with rfl | rfl | rfl | rfl <;>
      simp [List.getD_eq_getElem?_getD, h0, h1, h2, h3]

/- A word that was written at an index. -/
theorem wordAt_encode
    (written read : ByteOrder)
    (w : Word)
    (before after : List Byte)
    {buffer : List Byte}
    {index : Nat}
    (hBuffer : buffer = before ++ (written.encode w ++ after))
    (hIndex : index = before.length) :
    wordAt read buffer index = written.translate read w := by
  subst hBuffer hIndex
  rcases ByteOrder.decode_encode written read w with
    ⟨b0, b1, b2, b3, hBytes, hWord⟩
  rw [hBytes, ← hWord]
  simp [wordAt]

namespace MessageHeader

/- The fields decide a header. -/
theorem ext_fields
    {a b : MessageHeader}
    (hType : a.type = b.type)
    (hName : a.privateGroupName = b.privateGroupName)
    (hNumGroups : a.numGroups = b.numGroups)
    (hHint : a.hint = b.hint)
    (hDataLen : a.dataLen = b.dataLen) :
    a = b := by
  cases a
  cases b
  simp_all

/- A machine reads the header that another machine wrote. -/
theorem ofMemory_memory
    (written read : ByteOrder)
    (head : MessageHeader)
    (after : List Byte) :
    ofMemory read (head.memory written ++ after) =
      head.translate written read := by
  have hMemory :
      head.memory written ++ after =
        written.encode head.type ++
          (head.privateGroupName ++
            (written.encode head.numGroups ++
              (written.encode head.hint ++
                (written.encode head.dataLen ++ after)))) := by
    simp only [memory, List.append_assoc]
  have hLength := head.nameLength
  apply ext_fields
  · exact wordAt_encode written read head.type [] _
      (by rw [hMemory, List.nil_append]) rfl
  · have hDrop :
        (head.memory written ++ after).drop 4 =
          head.privateGroupName ++
            (written.encode head.numGroups ++
              (written.encode head.hint ++
                (written.encode head.dataLen ++ after))) := by
      rw [hMemory]
      exact List.drop_left' (ByteOrder.length_encode _ _)
    simp only [ofMemory, translate]
    rw [hDrop, List.takeD_eq_take _ (by simp [hLength])]
    exact List.take_left' hLength
  · exact wordAt_encode written read head.numGroups
      (written.encode head.type ++ head.privateGroupName) _
      (by rw [hMemory, List.append_assoc])
      (by simp [hLength])
  · exact wordAt_encode written read head.hint
      (written.encode head.type ++
        (head.privateGroupName ++
          written.encode head.numGroups))
      (written.encode head.dataLen ++ after)
      (by rw [hMemory]; simp only [List.append_assoc])
      (by simp [hLength, maxGroupName])
  · exact wordAt_encode written read head.dataLen
      (written.encode head.type ++
        (head.privateGroupName ++
          (written.encode head.numGroups ++
            written.encode head.hint)))
      after
      (by rw [hMemory]; simp only [List.append_assoc])
      (by simp [hLength, maxGroupName])

/- A header that was read is written as it was. -/
theorem memory_ofMemory
    (order : ByteOrder)
    {buffer : List Byte}
    (hLong : headerSize ≤ buffer.length) :
    (ofMemory order buffer).memory order =
      buffer.take headerSize := by
  have hSplit :
      ∀ n k : Nat,
        buffer.take (n + k) =
          buffer.take n ++ (buffer.drop n).take k :=
    fun _ _ => List.take_add
  simp only [headerSize, maxGroupName] at hLong
  unfold memory ofMemory
  dsimp only [maxGroupName]
  rw [encode_wordAt order (by omega),
    encode_wordAt order (by omega),
    encode_wordAt order (by omega),
    encode_wordAt order (by omega),
    List.takeD_eq_take _ (by simp only [List.length_drop]; omega)]
  have hAll : headerSize = 4 + 32 + 4 + 4 + 4 := rfl
  rw [hAll, hSplit, hSplit, hSplit, hSplit]
  simp

@[simp] theorem translate_self
    (order : ByteOrder)
    (head : MessageHeader) :
    head.translate order order = head := by
  apply ext_fields <;> simp [translate]

end MessageHeader

end Daemon

end ReplicatedAccount

------------------------------------------------------------
-- The Bytes of a Client
------------------------------------------------------------

namespace ReplicatedAccount

open Foundations SpreadConnection

namespace Daemon

/- The header that a session makes of the first bytes. -/
def acceptedHeader
    (session : Session)
    (bytes : List Byte) :
    Option MessageHeader :=
  sessValidateReadHeader session
    (((MessageHeader.ofMemory session.order bytes).correct
      session.order).withEndian session.order)

/- All bytes for which a message has buffers. -/
def capacity : Nat := maxScatterElements * packetBody

/- The messages of a client, and the bytes of the next one. -/
structure Parse where
  held : List Byte
  accepted : List (MessageHeader × List Byte)
  status : SessionStatus

namespace Parse

def start : Parse where
  held := []
  accepted := []
  status := .operational

/- The parse with these bytes of the next message. -/
def hold (p : Parse) (held : List Byte) : Parse :=
  { p with held := held }

/- The bytes are held, rejected, or accepted as a message. -/
def settle
    (session : Session)
    (p : Parse)
    (held : List Byte) :
    Parse :=
  if held.length < headerSize then
    p.hold held
  else
    match acceptedHeader session (held.take headerSize) with
    | none => { p with held := held, status := .killed }
    | some head =>
        if held.length = capacity then
          -- the buffers are full, be it with a whole message
          { p with
            held := held
            status :=
              if held.length = headerSize + head.bodyLength then
                .overrun
              else
                .aborted }
        else if held.length = headerSize + head.bodyLength then
          { p with
            held := []
            accepted :=
              p.accepted ++ [(head, held.drop headerSize)]
            status :=
              if isKillMess head.type then
                .disconnected
              else
                p.status }
        else
          p.hold held

/- One more byte. -/
def feed (session : Session) (p : Parse) (b : Byte) : Parse :=
  if p.status = .operational then
    p.settle session (p.held ++ [b])
  else
    p

/- One more byte, or a reason why there is none. -/
def feedItem
    (session : Session)
    (p : Parse) :
    Byte ⊕ RecvTrouble → Parse
| .inl b => p.feed session b
| .inr .again => p
| .inr .failed =>
    if p.status = .operational then
      { p with status := .killed }
    else
      p

/- A whole stream. -/
def read
    (session : Session)
    (p : Parse)
    (stream : List (Byte ⊕ RecvTrouble)) :
    Parse :=
  stream.foldl (feedItem session) p

variable (session : Session)

@[simp] theorem read_append
    (p : Parse)
    (first second : List (Byte ⊕ RecvTrouble)) :
    p.read session (first ++ second) =
      (p.read session first).read session second :=
  List.foldl_append

/- A session that has ended ignores the stream. -/
theorem read_of_not_operational
    {p : Parse}
    (hEnded : p.status ≠ .operational)
    (stream : List (Byte ⊕ RecvTrouble)) :
    p.read session stream = p := by
  induction stream with
  | nil => rfl
  | cons item stream ih =>
      have hItem : p.feedItem session item = p := by
        rcases item with b | cause
        · simp [feedItem, feed, hEnded]
        · cases cause <;> simp [feedItem, hEnded]
      simp only [read, List.foldl_cons, hItem]
      exact ih

end Parse

------------------------------------------------------------
-- Incomplete Messages
------------------------------------------------------------

/- The bytes are the beginning of a message, and not all. -/
def Incomplete
    (session : Session)
    (held : List Byte) : Prop :=
  headerSize ≤ held.length →
    ∃ head,
      acceptedHeader session (held.take headerSize) =
          some head ∧
        held.length < headerSize + head.bodyLength ∧
          held.length < capacity

variable {session : Session}

theorem Incomplete.of_append
    {held later : List Byte}
    (hIncomplete : Incomplete session (held ++ later)) :
    Incomplete session held := by
  intro hLong
  rcases hIncomplete (by simp; omega) with
    ⟨head, hHead, hMissing, hRoom⟩
  rw [List.take_append_of_le_length hLong] at hHead
  rw [List.length_append] at hMissing hRoom
  exact ⟨head, hHead, by omega, by omega⟩

namespace Parse

/- The beginning of a message is held. -/
theorem settle_of_incomplete
    (p : Parse)
    {held : List Byte}
    (hIncomplete : Incomplete session held) :
    p.settle session held = p.hold held := by
  unfold settle
  by_cases hShort : held.length < headerSize
  · rw [if_pos hShort]
  · rcases hIncomplete (Nat.le_of_not_lt hShort) with
      ⟨head, hHead, hMissing, hRoom⟩
    rw [if_neg hShort, hHead]
    dsimp only
    rw [if_neg (Nat.ne_of_lt hRoom),
      if_neg (Nat.ne_of_lt hMissing)]

@[simp] theorem settle_hold
    (p : Parse)
    (earlier held : List Byte) :
    (p.hold earlier).settle session held =
      p.settle session held := by
  unfold settle hold
  rfl

/-
  Bytes that come one after the other, none of which but the
  last completes anything, are settled together.
-/
theorem foldl_feed
    {p : Parse}
    (hLives : p.status = .operational)
    {content : List Byte}
    (hContent : content ≠ [])
    (hIncomplete :
      Incomplete session (p.held ++ content.dropLast)) :
    content.foldl (feed session) p =
      p.settle session (p.held ++ content) := by
  induction content generalizing p with
  | nil => exact absurd rfl hContent
  | cons b content ih =>
      rw [List.foldl_cons, feed, if_pos hLives]
      rcases content with _ | ⟨c, content⟩
      · rfl
      · have hAll :
            Incomplete session
              ((p.held ++ [b]) ++ (c :: content).dropLast) := by
          simpa using hIncomplete
        have hFirst := hAll.of_append
        rw [settle_of_incomplete p hFirst]
        have hRest := ih (p := p.hold (p.held ++ [b]))
          hLives (List.cons_ne_nil _ _)
          (by simpa [hold] using hIncomplete)
        rw [hRest, settle_hold]
        simp [hold]

theorem read_bytes
    (p : Parse)
    (content : List Byte) :
    p.read session (content.map .inl) =
      content.foldl (feed session) p := by
  unfold read
  rw [List.foldl_map]
  rfl

/- More bytes of a message that has begun. -/
theorem read_content
    {p : Parse}
    (hLives : p.status = .operational)
    {held content : List Byte}
    (hContent : content ≠ [])
    (hIncomplete :
      Incomplete session (held ++ content.dropLast)) :
    (p.hold held).read session (content.map .inl) =
      p.settle session (held ++ content) := by
  rw [read_bytes,
    foldl_feed (p := p.hold held) hLives hContent hIncomplete,
    settle_hold]
  rfl

end Parse

end Daemon

end ReplicatedAccount
