import ReplicatedAccount.Spread.Fragments

/-
  The loop of `Sess_read` over the fragments of a message
  agrees with a parser that is fed byte by byte.

  A call can stop at any byte.  What it leaves in the session
  are exactly the bytes of the next message that have come.

  Key definitions include:
    * `Daemon.Reading`
    * `Daemon.Holds`
    * `Daemon.Reached`
    * `Daemon.Agrees`

  Key theorems include:
    * `Daemon.readBody_agrees`
-/

------------------------------------------------------------
-- Bodies
------------------------------------------------------------

namespace ReplicatedAccount

open Foundations SpreadConnection

namespace Daemon

/- Some bytes of a message whose header is accepted. -/
structure Reading
    (session : Session)
    (head : MessageHeader)
    (read : PartialMessageInfo)
    (msg : MessageObj)
    (held : List Byte) : Prop where
  accepted :
    acceptedHeader session (held.take headerSize) = some head
  long : headerSize ≤ held.length
  bytes :
    msg.bytes =
      head.memory session.order ++ held.drop headerSize
  filledUpTo : FilledUpTo msg read.curElement read.curByte
  buffered : Buffered msg
  total : read.totalBytes + headerSize = held.length
  inBody : read.inMessHead = false

/- A session that has stored exactly these bytes of a message. -/
inductive Holds
    (session : Session)
    (state : ReadState)
    (held : List Byte) : Prop
  | inHeader
      (hRead : state.read = ⟨true, 0, held.length, 0⟩)
      (hShort : held.length < headerSize)
      (hMess :
        (state.readMess.getD .new).elements =
          [⟨held, headerSize⟩])
  | inBody
      (head : MessageHeader)
      (msg : MessageObj)
      (hMess : state.readMess = some msg)
      (hReading : Reading session head state.read msg held)
      (hMissing : held.length < headerSize + head.bodyLength)
      (hRoom : held.length < capacity)

/- The header of a message, and what is behind it. -/
def MessageObj.view
    (order : ByteOrder)
    (msg : MessageObj) :
    MessageHeader × List Byte :=
  (msg.header order, msg.bytes.drop headerSize)

/- The end of a call that has read a whole message. -/
def completed
    (order : ByteOrder)
    (msg : MessageObj) :
    ReadOutcome :=
  match msg.elementLenFixup order with
  | none => .overrun
  | some msg => .complete msg

/- The end of a call to which `recv` has given no bytes. -/
def interrupted (state : ReadState) : RecvTrouble → ReadOutcome
| .again => .returned state
| .failed => .killed

/- The end of a call agrees with the parse of its bytes. -/
inductive Reached
    (session : Session)
    (earlier : List (MessageHeader × List Byte))
    (p : Parse) :
    ReadOutcome → Prop
  | returned
      (state : ReadState)
      (hLives : p.status = .operational)
      (hAccepted : p.accepted = earlier)
      (hHolds : Holds session state p.held) :
      Reached session earlier p (.returned state)
  | complete
      (msg : MessageObj)
      (hStatus :
        p.status =
          if isKillMess (msg.header session.order).type then
            .disconnected
          else
            .operational)
      (hAccepted :
        p.accepted = earlier ++ [msg.view session.order])
      (hHeld : p.held = [])
      (hWhole : Whole msg) :
      Reached session earlier p (.complete msg)
  | killed
      (hKilled : p.status = .killed)
      (hAccepted : p.accepted = earlier) :
      Reached session earlier p .killed
  | aborted
      (hAborted : p.status = .aborted)
      (hAccepted : p.accepted = earlier) :
      Reached session earlier p .aborted
  | overrun
      (hOverrun : p.status = .overrun)
      (hAccepted : p.accepted = earlier) :
      Reached session earlier p .overrun

/-
  A call ends like the parse of the bytes that it has taken.
  Where it needs a byte it takes one, unless there is none.
-/
def Agrees
    (session : Session)
    (earlier : List (MessageHeader × List Byte))
    (p : Parse)
    (needs : Prop)
    (input : SessionInput)
    (result : ReadOutcome × SessionInput) : Prop :=
  ∃ taken,
    items input = taken ++ items result.2 ∧
      Reached session earlier (p.read session taken) result.1 ∧
        (taken = [] → needs → items input = [])

variable {session : Session}
variable {head : MessageHeader}
variable {read : PartialMessageInfo}
variable {msg : MessageObj}
variable {held : List Byte}

namespace Reading

theorem length_bytes
    (hReading : Reading session head read msg held) :
    msg.bytes.length = held.length := by
  have hLong := hReading.long
  rw [hReading.bytes, List.length_append, List.length_drop,
    MessageHeader.length_memory]
  unfold headerSize at *
  omega

theorem header_eq
    (hReading : Reading session head read msg held) :
    msg.header session.order = head :=
  header_of_bytes hReading.bytes hReading.buffered.start

theorem elements_ne_nil
    (hReading : Reading session head read msg held) :
    msg.elements ≠ [] := by
  intro hNone
  have hLength := hReading.length_bytes
  have hLong := hReading.long
  have hPositive : 0 < headerSize := by decide
  simp [MessageObj.bytes, hNone] at hLength
  omega

/- The parse that is settled with more bytes behind. -/
theorem settle_append
    (hReading : Reading session head read msg held)
    (content : List Byte)
    (p : Parse) :
    p.settle session (held ++ content) =
      if held.length + content.length = capacity then
        { p with
          held := held ++ content
          status :=
            if held.length + content.length =
                headerSize + head.bodyLength then
              .overrun
            else
              .aborted }
      else if held.length + content.length =
          headerSize + head.bodyLength then
        { p with
          held := []
          accepted :=
            p.accepted ++
              [(head, (held ++ content).drop headerSize)]
          status :=
            if isKillMess head.type then
              .disconnected
            else
              p.status }
      else
        p.hold (held ++ content) := by
  have hLong := hReading.long
  unfold Parse.settle
  rw [List.length_append, if_neg (by omega),
    List.take_append_of_le_length hLong, hReading.accepted]

theorem incomplete
    (hReading : Reading session head read msg held)
    {content : List Byte}
    (hMissing :
      held.length + content.length <
        headerSize + head.bodyLength)
    (hRoom : held.length + content.length < capacity) :
    Incomplete session (held ++ content) := by
  intro _
  refine ⟨head, ?_, by simpa using hMissing,
    by simpa using hRoom⟩
  rw [List.take_append_of_le_length hReading.long]
  exact hReading.accepted

/- More bytes in the fragment that is being filled. -/
theorem extend
    {msg' : MessageObj}
    {read' : PartialMessageInfo}
    (hReading : Reading session head read msg held)
    (content : List Byte)
    (hBytes : msg'.bytes = msg.bytes ++ content)
    (hBuffered : Buffered msg')
    (hUpTo : FilledUpTo msg' read'.curElement read'.curByte)
    (hTotal :
      read'.totalBytes = read.totalBytes + content.length)
    (hInBody : read'.inMessHead = read.inMessHead) :
    Reading session head read' msg' (held ++ content) where
  accepted := by
    rw [List.take_append_of_le_length hReading.long]
    exact hReading.accepted
  long := by
    rw [List.length_append]
    exact Nat.le_add_right_of_le hReading.long
  bytes := by
    rw [hBytes, hReading.bytes,
      List.drop_append_of_le_length hReading.long,
      List.append_assoc]
  filledUpTo := hUpTo
  buffered := hBuffered
  total := by
    have hBefore := hReading.total
    rw [List.length_append]
    omega
  inBody := hInBody.trans hReading.inBody

/- The message is whole with its last byte. -/
theorem reached_all
    (hReading : Reading session head read msg held)
    {msg' : MessageObj}
    {content : List Byte}
    (hBytes : msg'.bytes = msg.bytes ++ content)
    (hBuffered : Buffered msg')
    (hFragmented : Fragmented msg')
    (hAll :
      held.length + content.length =
        headerSize + head.bodyLength)
    {p : Parse}
    (hLives : p.status = .operational) :
    Reached session p.accepted (p.settle session (held ++ content))
      (completed session.order msg') := by
  have hParts :
      msg'.bytes =
        head.memory session.order ++
          (held ++ content).drop headerSize := by
    rw [hBytes, hReading.bytes,
      List.drop_append_of_le_length hReading.long,
      List.append_assoc]
  have hHeader := header_of_bytes hParts hBuffered.start
  have hLength :
      msg'.bytes.length = held.length + content.length := by
    rw [hBytes, List.length_append, hReading.length_bytes]
  have hTotal :
      msg'.bytes.length =
        (msg'.header session.order).bodyLength + headerSize := by
    rw [hHeader, hLength, hAll, Nat.add_comm]
  rw [hReading.settle_append, completed]
  by_cases hFull : held.length + content.length = capacity
  · rw [if_pos hFull,
      elementLenFixup_of_full (by rw [← hTotal, hLength, hFull])]
    refine .overrun ?_ rfl
    exact if_pos hAll
  · have hMost := hFragmented.length_le_capacity
    rcases whole_elementLenFixup hFragmented hBuffered hTotal
        (by omega) with
      ⟨fixed, hFixed, hWhole, hSame⟩
    rw [hParts] at hSame
    have hFixedHeader := header_of_bytes hSame hWhole.start
    rw [if_neg hFull, if_pos hAll, hFixed]
    refine .complete fixed ?_ ?_ rfl hWhole
    · rw [hFixedHeader, hLives]
    · have hRest :
          (head.memory session.order ++
              (held ++ content).drop headerSize).drop
              headerSize =
            (held ++ content).drop headerSize :=
        List.drop_left' (MessageHeader.length_memory head _)
      rw [MessageObj.view, hFixedHeader, hSame, hRest]

end Reading

end Daemon

end ReplicatedAccount

------------------------------------------------------------
-- The Loop over the Fragments
------------------------------------------------------------

namespace ReplicatedAccount

open Foundations SpreadConnection

namespace Daemon

variable {session : Session}
variable {head : MessageHeader}
variable {read : PartialMessageInfo}
variable {msg : MessageObj}
variable {held : List Byte}

/- A fragment with its last bytes is the last of a message. -/
theorem Filling.fragmented
    {curElement curByte : Nat}
    {full : List ScatElement}
    {e : ScatElement}
    (hFilling : Filling msg curElement curByte full e)
    (hBuffered : Buffered msg)
    (hPositive : 0 < curByte)
    (hFits : curByte ≤ packetBody) :
    Fragmented msg where
  parts :=
    ⟨full, e, hFilling.elements, hFilling.full,
      by rw [hFilling.byte]; exact hPositive,
      by rw [hFilling.byte]; exact hFits⟩
  room := hBuffered.room

/- A fragment that is full lies behind. -/
theorem Filling.filledUpTo_next
    {curElement : Nat}
    {full : List ScatElement}
    {e : ScatElement}
    (hFilling : Filling msg curElement packetBody full e) :
    FilledUpTo msg (curElement + 1) 0 where
  fits := by decide
  parts := by
    refine Or.inr ⟨rfl, hFilling.length_elements, ?_⟩
    intro f hMember
    rw [hFilling.elements] at hMember
    rcases List.mem_append.mp hMember with hFull | hLast
    · exact hFilling.full f hFull
    · rw [List.mem_singleton.mp hLast]
      exact hFilling.byte

/- All fragments together have room for the bytes. -/
theorem Filling.length_le_capacity
    {curElement curByte : Nat}
    {full : List ScatElement}
    {e : ScatElement}
    (hFilling : Filling msg curElement curByte full e)
    (hBuffered : Buffered msg)
    (hFits : curByte ≤ packetBody) :
    msg.bytes.length ≤ capacity := by
  have hMost := hBuffered.room
  rw [hFilling.length_elements] at hMost
  rw [hFilling.length_bytes]
  calc curElement * packetBody + curByte
      ≤ curElement * packetBody + packetBody :=
        Nat.add_le_add_left hFits _
    _ = (curElement + 1) * packetBody :=
        (Nat.succ_mul _ _).symm
    _ ≤ capacity := Nat.mul_le_mul_right _ hMost

theorem Filling.length_lt_capacity
    {curElement curByte : Nat}
    {full : List ScatElement}
    {e : ScatElement}
    (hFilling : Filling msg curElement curByte full e)
    (hBuffered : Buffered msg)
    (hFits : curByte < packetBody) :
    msg.bytes.length < capacity := by
  have hMost := hBuffered.room
  rw [hFilling.length_elements] at hMost
  rw [hFilling.length_bytes]
  calc curElement * packetBody + curByte
      < curElement * packetBody + packetBody :=
        Nat.add_lt_add_left hFits _
    _ = (curElement + 1) * packetBody :=
        (Nat.succ_mul _ _).symm
    _ ≤ capacity := Nat.mul_le_mul_right _ hMost

theorem readBody_zero
    (order : ByteOrder)
    (passes : Nat)
    (read : PartialMessageInfo)
    (msg : MessageObj)
    (input : SessionInput) :
    readBody order (passes + 1) read msg 0 input =
      (completed order msg, input) := by
  unfold readBody completed
  rw [if_pos rfl]
  cases msg.elementLenFixup order <;> rfl

variable {full : List ScatElement}
variable {e : ScatElement}
variable {remain : Nat}
variable {content : List Byte}
variable {p : Parse}

namespace Reading

/- The bytes that are held while some are missing. -/
theorem settle_missing
    (hReading : Reading session head read msg held)
    (hMissing : held.length < headerSize + head.bodyLength)
    (hRoom : held.length < capacity)
    (p : Parse) :
    p.settle session held = p.hold held := by
  have hIncomplete :
      Incomplete session (held ++ []) :=
    hReading.incomplete (by simpa using hMissing)
      (by simpa using hRoom)
  rw [List.append_nil] at hIncomplete
  exact Parse.settle_of_incomplete p hIncomplete

/- There is a fragment for the next byte. -/
theorem allocated
    (hReading : Reading session head read msg held)
    {msg' : MessageObj}
    (hFilling :
      Filling msg' read.curElement read.curByte full e)
    (hBuffered : Buffered msg')
    (hSame : msg'.bytes = msg.bytes) :
    Reading session head read msg' held ∧
      held.length < capacity := by
  have hFits := hReading.filledUpTo.fits
  have hExtended :
      Reading session head read msg' (held ++ []) :=
    hReading.extend [] (by simpa using hSame) hBuffered
      ⟨hFits, Or.inl ⟨full, e, hFilling⟩⟩ rfl rfl
  refine ⟨by simpa using hExtended, ?_⟩
  have hLess := hFilling.length_lt_capacity hBuffered hFits
  rwa [hSame, hReading.length_bytes] at hLess

variable
  (hReading : Reading session head read msg held)
  (hFilling : Filling msg read.curElement read.curByte full e)

include hReading hFilling

theorem length_le_of_write
    (hAtMost :
      content.length ≤ min (packetBody - read.curByte) remain) :
    held.length + content.length ≤ capacity := by
  have hFits := hReading.filledUpTo.fits
  have hAll :=
    (hFilling.write content).length_le_capacity
      (hFilling.buffered_write hReading.buffered content)
      (by omega)
  rwa [hFilling.bytes_write, List.length_append,
    hReading.length_bytes] at hAll

/- The bytes that were received, one by one. -/
theorem read_received
    (hRemain :
      held.length + remain = headerSize + head.bodyLength)
    (hSomething : content ≠ [])
    (hAtMost :
      content.length ≤ min (packetBody - read.curByte) remain)
    (hLives : p.status = .operational) :
    (p.hold held).read session (content.map .inl) =
      p.settle session (held ++ content) := by
  have hMost :=
    hReading.length_le_of_write hFilling hAtMost
  have hPositive := List.length_pos_of_ne_nil hSomething
  apply Parse.read_content hLives hSomething
  apply hReading.incomplete <;> rw [List.length_dropLast] <;>
    omega

/- The socket had less than the fragment needs. -/
theorem reached_partial
    (hRemain :
      held.length + remain = headerSize + head.bodyLength)
    (hLives : p.status = .operational)
    (hLess :
      content.length < min (packetBody - read.curByte) remain) :
    Reached session p.accepted (p.settle session (held ++ content))
      (.returned
        ⟨{ read with
            totalBytes := read.totalBytes + content.length
            curByte := read.curByte + content.length },
          some
            (msg.write read.curElement read.curByte
              content)⟩) := by
  have hWritten := hFilling.write content
  have hBytes := hFilling.bytes_write content
  have hBuffered :=
    hFilling.buffered_write hReading.buffered content
  have hNext :
      Reading session head
        { read with
          totalBytes := read.totalBytes + content.length
          curByte := read.curByte + content.length }
        (msg.write read.curElement read.curByte content)
        (held ++ content) :=
    hReading.extend content hBytes hBuffered
      ⟨by dsimp only; omega, Or.inl ⟨_, _, hWritten⟩⟩ rfl rfl
  have hRoom : held.length + content.length < capacity := by
    have hAll :=
      hWritten.length_lt_capacity hBuffered (by omega)
    rwa [hBytes, List.length_append, hReading.length_bytes]
      at hAll
  have hMissing :
      held.length + content.length <
        headerSize + head.bodyLength := by
    omega
  rw [Parse.settle_of_incomplete p
    (hReading.incomplete hMissing hRoom)]
  exact .returned _ hLives rfl
    (.inBody head _ rfl hNext
      (by simpa only [Parse.hold, List.length_append])
      (by simpa only [Parse.hold, List.length_append]))

/- The last bytes of the message were received. -/
theorem reached_last
    (hRemain :
      held.length + remain = headerSize + head.bodyLength)
    (hSomething : content ≠ [])
    (hAtMost :
      content.length ≤ min (packetBody - read.curByte) remain)
    (hLives : p.status = .operational)
    (hLast : content.length = remain) :
    Reached session p.accepted (p.settle session (held ++ content))
      (completed session.order
        (msg.write read.curElement read.curByte content)) := by
  have hPositive := List.length_pos_of_ne_nil hSomething
  have hFits := hReading.filledUpTo.fits
  have hBuffered :=
    hFilling.buffered_write hReading.buffered content
  exact hReading.reached_all (hFilling.bytes_write content)
    hBuffered
    ((hFilling.write content).fragmented hBuffered (by omega)
      (by omega))
    (by omega) hLives

/- The fragment is full, and bytes are missing. -/
theorem next_fragment
    (hMore : content.length < remain)
    (hFilled :
      content.length = min (packetBody - read.curByte) remain) :
    Reading session head
      { read with
        totalBytes := read.totalBytes + content.length
        curByte := 0
        curElement := read.curElement + 1 }
      (msg.write read.curElement read.curByte content)
      (held ++ content) := by
  have hWritten := hFilling.write content
  have hFull : read.curByte + content.length = packetBody := by
    have hFits := hReading.filledUpTo.fits
    omega
  rw [hFull] at hWritten
  exact hReading.extend content (hFilling.bytes_write content)
    (hFilling.buffered_write hReading.buffered content)
    hWritten.filledUpTo_next rfl rfl

end Reading

/- Bytes that were received, and the end of the call. -/
theorem Agrees.of_received
    {earlier : List (MessageHeader × List Byte)}
    {needs : Prop}
    {input rest : SessionInput}
    {outcome : ReadOutcome}
    (hSomething : content ≠ [])
    (hItems : items input = content.map .inl ++ items rest)
    (hReached :
      Reached session earlier
        (p.read session (content.map .inl)) outcome) :
    Agrees session earlier p needs input (outcome, rest) := by
  refine ⟨content.map .inl, hItems, hReached, fun hNone => ?_⟩
  exact absurd (List.map_eq_nil_iff.mp hNone) hSomething

/- Bytes that were received, and more of the call. -/
theorem Agrees.behind
    {earlier : List (MessageHeader × List Byte)}
    {needs needs' : Prop}
    {input rest : SessionInput}
    {result : ReadOutcome × SessionInput}
    (hSomething : content ≠ [])
    (hItems : items input = content.map .inl ++ items rest)
    (hRest :
      Agrees session earlier
        (p.read session (content.map .inl)) needs' rest
        result) :
    Agrees session earlier p needs input result := by
  rcases hRest with ⟨taken, hTaken, hReached, _⟩
  refine ⟨content.map .inl ++ taken, ?_, ?_, fun hNone => ?_⟩
  · rw [hItems, hTaken, List.append_assoc]
  · rw [Parse.read_append]
    exact hReached
  · have hFirst := (List.append_eq_nil_iff.mp hNone).1
    exact absurd (List.map_eq_nil_iff.mp hFirst) hSomething

/- A socket that has nothing, or nothing any more. -/
theorem Holds.agrees
    {state : ReadState}
    (hHolds : Holds session state p.held)
    (hLives : p.status = .operational)
    {cause : RecvTrouble}
    {input rest : SessionInput}
    (hItems :
      items input = .inr cause :: items rest ∨
        cause = .again ∧ items input = [] ∧ items rest = [])
    (needs : Prop) :
    Agrees session p.accepted p needs input
      (interrupted state cause, rest) := by
  have hReturned :
      Reached session p.accepted p (.returned state) :=
    .returned state hLives rfl hHolds
  rcases hItems with hItems | ⟨rfl, hInput, hRest⟩
  · cases cause with
    | again => exact ⟨[.inr .again], hItems, hReturned, by simp⟩
    | failed =>
        refine ⟨[.inr .failed], hItems, .killed ?_ ?_, by simp⟩
        all_goals simp [Parse.read, Parse.feedItem, hLives]
  · exact ⟨[], by rw [hInput, hRest]; rfl, hReturned,
      fun _ _ => hInput⟩

/- No fragment is left for the bytes that are missing. -/
theorem Reading.agrees_full
    (hReading : Reading session head read msg held)
    (hRemain :
      held.length + remain = headerSize + head.bodyLength)
    (hMissing : 0 < remain)
    (hFull : msg.bytes.length = capacity)
    (input : SessionInput) :
    Agrees session p.accepted (p.settle session held)
      (held.length < capacity) input (.aborted, input) := by
  rw [hReading.length_bytes] at hFull
  have hSettled := hReading.settle_append [] p
  rw [List.append_nil, List.length_nil, Nat.add_zero,
    if_pos hFull, if_neg (by omega)] at hSettled
  rw [hSettled]
  refine ⟨[], rfl, .aborted rfl rfl, fun _ hRoom => ?_⟩
  exact absurd hFull (Nat.ne_of_lt hRoom)

/-
  The loop, from a message in which bytes are missing.  By
  induction on the passes; in each of them a fragment is
  filled, the message is completed, or the call ends.
-/
theorem readBody_agrees
    (passes : Nat)
    (hReading : Reading session head read msg held)
    (hRemain :
      held.length + remain = headerSize + head.bodyLength)
    (hMissing : 0 < remain)
    (hPasses : remain < passes)
    (hLives : p.status = .operational)
    (input : SessionInput) :
    Agrees session p.accepted (p.settle session held)
      (held.length < capacity) input
      (readBody session.order passes read msg remain
        input) := by
  induction passes generalizing remain read msg held input with
  | zero => exact absurd hPasses (Nat.not_lt_zero _)
  | succ passes ih =>
      unfold readBody
      rw [if_neg (Nat.ne_of_gt hMissing)]
      rcases hReading.filledUpTo.allocate hReading.buffered
          hReading.elements_ne_nil with
        ⟨hNone, hFull⟩ |
          ⟨msg', full, e, hSome, hFilling, hBuffered, hSame⟩
      · simp only [hNone]
        exact hReading.agrees_full hRemain hMissing hFull input
      simp only [hSome]
      rcases hReading.allocated hFilling hBuffered hSame with
        ⟨hReading, hRoom⟩
      have hFits := hReading.filledUpTo.fits
      rw [hReading.settle_missing (by omega) hRoom]
      have hCases :=
        recv_cases
          (show 0 < min (packetBody - read.curByte) remain by
            omega)
          input
      rcases hRecv :
          recv (min (packetBody - read.curByte) remain) input
        with ⟨received, rest⟩
      rw [hRecv] at hCases
      rcases hCases with
        ⟨content, hContent, hSomething, hAtMost, hItems⟩ |
          ⟨cause, hTrouble, hItems⟩
      · dsimp only at hContent hItems
        subst hContent
        have hFed :=
          hReading.read_received hFilling hRemain hSomething
            hAtMost hLives
        have hPositive := List.length_pos_of_ne_nil hSomething
        dsimp only
        by_cases hFilled :
            content.length =
              min (packetBody - read.curByte) remain
        · rw [if_pos hFilled]
          by_cases hLast : content.length = remain
          · obtain ⟨k, rfl⟩ : ∃ k, passes = k + 1 :=
              Nat.exists_eq_succ_of_ne_zero (by omega)
            rw [← hFilled, hLast, Nat.sub_self, readBody_zero]
            refine .of_received hSomething hItems ?_
            rw [hFed]
            exact hReading.reached_last hFilling hRemain
              hSomething hAtMost hLives hLast
          · apply Agrees.behind hSomething hItems
            rw [hFed]
            refine ih
              (hReading.next_fragment hFilling (by omega)
                hFilled)
              ?_ (by omega) (by omega) rest
            rw [List.length_append]
            omega
        · rw [if_neg hFilled]
          refine .of_received hSomething hItems ?_
          rw [hFed]
          exact hReading.reached_partial hFilling hRemain hLives
            (by omega)
      · dsimp only at hTrouble hItems
        subst hTrouble
        have hHolds :
            Holds session ⟨read, some msg'⟩ (p.hold held).held :=
          .inBody head msg' rfl hReading
            (by simp only [Parse.hold]; omega) hRoom
        have hAgrees :=
          hHolds.agrees hLives hItems (held.length < capacity)
        cases cause <;> exact hAgrees

end Daemon

end ReplicatedAccount
