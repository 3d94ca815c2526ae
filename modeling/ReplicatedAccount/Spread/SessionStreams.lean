import ReplicatedAccount.Spread.SessionFrames

/-
  The messages that a session accepts of a stream of whole
  messages, and the status it ends in.

  A daemon accepts the messages of a client until the client
  takes its leave.  If one of them needs more buffers than
  there are, the daemon fails an assertion; if it fills them
  exactly, the daemon writes behind the end of an array.

  Key definitions include:
    * `Daemon.leaves`
    * `Daemon.heardFrames`
    * `Daemon.firstLarge`

  Key theorems include:
    * `Daemon.run_of_verdicts`
    * `Daemon.daemon_aborts_iff`
-/

------------------------------------------------------------
-- Streams of Whole Messages
------------------------------------------------------------

namespace ReplicatedAccount

open Foundations SpreadConnection

namespace Daemon

@[simp] theorem contentOf_append
    (first second : List (Byte ⊕ RecvTrouble)) :
    contentOf (first ++ second) =
      contentOf first ++ contentOf second :=
  List.filterMap_append

@[simp] theorem contentOf_bytes
    (bytes : List Byte) :
    contentOf (bytes.map .inl) = bytes := by
  induction bytes with
  | nil => rfl
  | cons b bytes ih =>
      change b :: contentOf (bytes.map .inl) = b :: bytes
      rw [ih]

@[simp] theorem contentOf_again
    (stream : List (Byte ⊕ RecvTrouble)) :
    contentOf (.inr .again :: stream) = contentOf stream :=
  rfl

theorem unbroken_bytes
    (bytes : List Byte) :
    Unbroken (bytes.map .inl) := by
  simp [Unbroken]

variable {session : Session}

/- The session after a stream of whole messages. -/
theorem run_frames
    {frames : List (List Byte)}
    (hAnnounced : ∀ frame ∈ frames, Announced session frame)
    {input : SessionInput}
    (hUnbroken : Unbroken (items input))
    (hBytes : contentOf (items input) = frames.flatten)
    {n : Nat}
    (hMany : (items input).length ≤ n) :
    ((SessionReader.start input).run session n).accepted.map
        (MessageObj.view session.order) =
        (acceptedFrames session frames).filterMap
          (messageOf session) ∧
      ((SessionReader.start input).run session n).status =
        ((frames.map (verdict session)).find?
          (· ≠ .operational)).getD .operational := by
  have hRun : Represents session _ _ :=
    run_represents_read input hMany
  rcases Parse.read_frames (p := .start) rfl rfl hAnnounced with
    ⟨hAccepted, hStatus⟩
  rw [Parse.read_of_unbroken _ hUnbroken, hBytes] at hRun
  refine ⟨?_, hRun.status.trans hStatus⟩
  rw [hRun.accepted, hAccepted]
  rfl

/- A test that a message passes, or that ends the session. -/
theorem first_verdict
    {α : Type}
    {ms : List α}
    {frame : α → List Byte}
    {fits : α → Bool}
    {bad : SessionStatus}
    (hBad : bad ≠ .operational)
    (hStays : bad ≠ .disconnected)
    (hVerdict :
      ∀ m ∈ ms,
        verdict session (frame m) =
          if fits m then .operational else bad) :
    (((ms.map frame).map (verdict session)).find?
        (· ≠ .operational)).getD .operational =
      (if ∀ m ∈ ms, fits m = true then
        .operational
      else
        bad) ∧
      acceptedFrames session (ms.map frame) =
        (ms.takeWhile fits).map frame := by
  induction ms with
  | nil => exact ⟨rfl, rfl⟩
  | cons m ms ih =>
      have hFirst := hVerdict m (by simp)
      rcases ih (fun k hMember => hVerdict k (by simp [hMember]))
        with
        ⟨hFind, hTake⟩
      cases hFits : fits m with
      | true =>
          rw [hFits, if_pos rfl] at hFirst
          simpa [acceptedFrames, hFirst, hFits, hTake]
            using hFind
      | false =>
          rw [hFits] at hFirst
          refine ⟨by simp [hFirst, hFits, hBad], ?_⟩
          rw [List.map_cons, acceptedFrames, hFirst]
          cases bad <;> simp_all

/- The messages before the first that fails the test. -/
theorem run_of_verdicts
    {α : Type}
    {ms : List α}
    {frame : α → List Byte}
    (hAnnounced : ∀ m ∈ ms, Announced session (frame m))
    {fits : α → Bool}
    {bad : SessionStatus}
    (hBad : bad ≠ .operational)
    (hStays : bad ≠ .disconnected)
    (hVerdict :
      ∀ m ∈ ms,
        verdict session (frame m) =
          if fits m then .operational else bad)
    {input : SessionInput}
    (hUnbroken : Unbroken (items input))
    (hBytes : contentOf (items input) = ms.flatMap frame)
    {n : Nat}
    (hMany : (items input).length ≤ n) :
    (((SessionReader.start input).run session n).status = bad ↔
        ∃ m ∈ ms, fits m = false) ∧
      (((SessionReader.start input).run session n).status =
          .operational ↔
        ∀ m ∈ ms, fits m = true) ∧
      ((SessionReader.start input).run session n).accepted.map
          (MessageObj.view session.order) =
        (ms.takeWhile fits).filterMap
          fun m => messageOf session (frame m) := by
  have hFrames :
      ∀ f ∈ ms.map frame, Announced session f := by
    intro f hMember
    rcases List.mem_map.mp hMember with ⟨m, hOld, rfl⟩
    exact hAnnounced m hOld
  rw [List.flatMap_def] at hBytes
  rcases run_frames hFrames hUnbroken hBytes hMany with
    ⟨hAccepted, hStatus⟩
  rcases first_verdict hBad hStays hVerdict with ⟨hFirst, hSame⟩
  rw [hAccepted, hStatus, hFirst, hSame, List.filterMap_map]
  by_cases hAll : ∀ m ∈ ms, fits m = true
  · rw [if_pos hAll]
    refine ⟨?_, by simpa using hAll, rfl⟩
    constructor
    · intro hSameStatus
      exact absurd hSameStatus.symm hBad
    · rintro ⟨m, hMember, hNot⟩
      rw [hAll m hMember] at hNot
      cases hNot
  · rw [if_neg hAll]
    refine ⟨by simpa using hAll, ?_, rfl⟩
    exact ⟨fun hSameStatus => absurd hSameStatus hBad,
      fun h => absurd h hAll⟩

/- The session of a client "7" at a daemon "a". -/
def firstSession : Session where
  order := .littleEndian
  procName := [0x61]
  privateName := [0x37]

/- A header of that client. -/
def firstHeader (type dataLen : Word) : MessageHeader where
  type := setEndian .littleEndian type
  privateGroupName :=
    [0x23, 0x37, 0x23, 0x61] ++ List.replicate 28 0
  numGroups := 0
  hint := 0
  dataLen := dataLen
  nameLength := rfl

/- A message of that client. -/
def firstFrame (type dataLen : Word) : List Byte :=
  (firstHeader type dataLen).memory .littleEndian ++
    List.replicate dataLen.toNat 0

theorem length_firstFrame
    (type dataLen : Word) :
    (firstFrame type dataLen).length =
      headerSize + dataLen.toNat := by
  rw [firstFrame, List.length_append,
    MessageHeader.length_memory, List.length_replicate]
  rfl

theorem announced_firstFrame
    (type dataLen : Word)
    (hBody :
      (acceptedHeader firstSession
          ((firstHeader type dataLen).memory .littleEndian)).map
        MessageHeader.bodyLength =
          some dataLen.toNat) :
    Announced firstSession (firstFrame type dataLen) ∧
      (acceptedHeader firstSession
        ((firstFrame type dataLen).take headerSize)).isSome =
          true := by
  have hTake :
      (firstFrame type dataLen).take headerSize =
        (firstHeader type dataLen).memory .littleEndian :=
    List.take_left' (MessageHeader.length_memory _ _)
  rcases Option.map_eq_some_iff.mp hBody with
    ⟨head, hAccepted, hLength⟩
  rw [Announced, hTake, hAccepted, length_firstFrame]
  refine ⟨⟨Nat.le_add_right _ _, ?_⟩, rfl⟩
  rintro head' hSame
  cases hSame
  rw [hLength]

theorem items_frame
    (frame : List Byte) :
    items [(.chunk frame : Arrival Byte RecvTrouble)] =
      frame.map .inl := by
  rw [items_chunk, items_nil, List.append_nil]

/- A body of 2000 bytes needs a second fragment. -/
theorem accepted_messages_valid_fragments :
    ∃ msg ∈ ((SessionReader.start
        [.chunk (firstFrame 0x00000004 2000)]).run
          firstSession 2048).accepted,
      1 < msg.elements.length ∧
        Valid firstSession (msg.view .littleEndian) ∧
          Whole msg := by
  have hAnnounced :=
    announced_firstFrame 0x00000004 2000 (by decide +kernel)
  have hLength := length_firstFrame 0x00000004 2000
  have hFrames :
      ∀ frame ∈ [firstFrame 0x00000004 2000],
        Announced firstSession frame := by
    simpa using hAnnounced.1
  have hUnbroken :
      Unbroken
        (items [.chunk (firstFrame 0x00000004 2000)]) := by
    rw [items_frame]
    exact unbroken_bytes _
  have hBytes :
      contentOf
          (items [.chunk (firstFrame 0x00000004 2000)]) =
        [firstFrame 0x00000004 2000].flatten := by
    rw [items_frame, contentOf_bytes]
    simp
  have hRun :=
    (run_frames hFrames hUnbroken hBytes (n := 2048)
      (by rw [items_frame, List.length_map, hLength]; decide)).1
  rcases Option.isSome_iff_exists.mp hAnnounced.2 with
    ⟨head, hAccepted⟩
  have hSame := hAnnounced.1.2 head hAccepted
  have hKept :
      acceptedFrames firstSession
          [firstFrame 0x00000004 2000] =
        [firstFrame 0x00000004 2000] := by
    have hVerdict := verdict_of_accepted hAccepted hSame
    rw [hLength] at hVerdict
    simp only [acceptedFrames]
    rw [hVerdict, if_pos (by decide)]
    split_ifs <;> rfl
  rw [hKept, List.filterMap_cons_some (by
    rw [messageOf, hAccepted]; rfl)] at hRun
  rcases List.map_eq_cons_iff.mp hRun with
    ⟨msg, rest, hMessages, hView, _⟩
  have hMember :
      msg ∈ ((SessionReader.start
        [.chunk (firstFrame 0x00000004 2000)]).run
          firstSession 2048).accepted := by
    rw [hMessages]
    exact List.mem_cons_self
  rcases accepted_messages_valid firstSession _ _ msg hMember
    with
    ⟨hValid, hWhole⟩
  refine ⟨msg, hMember, ?_, hValid, hWhole⟩
  by_contra hFew
  have hBytes :=
    congrArg List.length (hWhole.bytes_eq .littleEndian)
  have hBody :
      msg.bytes.drop headerSize =
        (firstFrame 0x00000004 2000).drop headerSize :=
    congrArg Prod.snd hView
  rw [hBody, List.length_append, List.length_drop, hLength,
    MessageHeader.length_memory] at hBytes
  rcases hWhole.parts with
    ⟨full, e, hElements, _, _, hFits⟩
  rw [hElements, List.length_append, List.length_singleton]
    at hFew
  have hNone : full = [] :=
    List.eq_nil_of_length_eq_zero (by omega)
  rw [MessageObj.bytes, hElements, hNone] at hBytes
  revert hBytes
  simp only [List.nil_append, List.flatMap_singleton,
    headerSize, maxGroupName]
  have hSmall : packetBody = 1436 := rfl
  have hBig : (2000 : Word).toNat = 2000 := rfl
  omega

end Daemon

end ReplicatedAccount

------------------------------------------------------------
-- Messages That Are Too Large
------------------------------------------------------------

namespace ReplicatedAccount

open Foundations SpreadConnection

namespace Daemon

variable {session : Session}

/- The client takes its leave with a message. -/
def leaves (session : Session) (frame : List Byte) : Bool :=
  (acceptedHeader session (frame.take headerSize)).any
    fun head => isKillMess head.type

/- The messages of a client until it takes its leave. -/
def heardFrames
    (session : Session) :
    List (List Byte) → List (List Byte)
| [] => []
| frame :: frames =>
    if leaves session frame then
      [frame]
    else
      frame :: heardFrames session frames

/- The first message that fills all buffers, or needs more. -/
def firstLarge
    (session : Session)
    (frames : List (List Byte)) :
    Option (List Byte) :=
  (heardFrames session frames).find?
    fun frame => decide (capacity ≤ frame.length)

/- The verdict about a message with a valid header. -/
theorem verdict_of_valid
    {frame : List Byte}
    (hAnnounced : Announced session frame)
    (hSome :
      (acceptedHeader session
        (frame.take headerSize)).isSome = true) :
    verdict session frame =
      if frame.length < capacity then
        if leaves session frame then
          .disconnected
        else
          .operational
      else if frame.length = capacity then
        .overrun
      else
        .aborted := by
  rcases Option.isSome_iff_exists.mp hSome with
    ⟨head, hAccepted⟩
  rw [verdict_of_accepted hAccepted
    (hAnnounced.2 head hAccepted), leaves, hAccepted]
  rfl

/- Valid messages end a session by their size, or by a leave. -/
theorem ending_of_valid
    {frames : List (List Byte)}
    (hValid :
      ∀ frame ∈ frames, Announced session frame ∧
        (acceptedHeader session
          (frame.take headerSize)).isSome = true) :
    ((frames.map (verdict session)).find?
        (· ≠ .operational)).getD .operational =
      (match firstLarge session frames with
        | some frame =>
            if frame.length = capacity then
              .overrun
            else
              .aborted
        | none =>
            if frames.any (leaves session) then
              .disconnected
            else
              .operational) ∧
      acceptedFrames session frames =
        (heardFrames session frames).takeWhile
          fun frame => decide (frame.length < capacity) := by
  induction frames with
  | nil => exact ⟨rfl, rfl⟩
  | cons frame frames ih =>
      rcases hValid frame (by simp) with ⟨hAnnounced, hSome⟩
      rcases ih fun f hMember => hValid f (by simp [hMember])
        with
        ⟨hStatus, hAccepted⟩
      have hVerdict := verdict_of_valid hAnnounced hSome
      unfold firstLarge at hStatus ⊢
      by_cases hFits : frame.length < capacity
      · have hSmall : ¬ capacity ≤ frame.length :=
          Nat.not_le.mpr hFits
        rw [if_pos hFits] at hVerdict
        cases hLeaves : leaves session frame with
        | true =>
            rw [if_pos hLeaves] at hVerdict
            simp [acceptedFrames, heardFrames, hVerdict,
              hLeaves, hFits, hSmall]
        | false =>
            rw [hLeaves, if_neg Bool.false_ne_true] at hVerdict
            constructor
            · simpa [heardFrames, hVerdict, hLeaves, hSmall]
                using hStatus
            · simp [acceptedFrames, heardFrames, hVerdict,
                hLeaves, hFits, hAccepted]
      · have hLarge : capacity ≤ frame.length :=
          Nat.le_of_not_lt hFits
        rw [if_neg hFits] at hVerdict
        by_cases hSame : frame.length = capacity
        · rw [if_pos hSame] at hVerdict
          cases hLeaves : leaves session frame <;>
            simp [acceptedFrames, heardFrames, hVerdict,
              hLeaves, hSame]
        · rw [if_neg hSame] at hVerdict
          cases hLeaves : leaves session frame <;>
            simp [acceptedFrames, heardFrames, hVerdict,
              hLeaves, hSame, hLarge, hFits]

/-
  A client sends messages with valid headers, and perhaps takes
  its leave with one of them.  Before that, or with it, the
  daemon accepts them all until the first that fills 100
  buffers.  It fails an assertion when that message needs more,
  although the header has passed all checks, and writes behind
  the array of the buffers when it fills them exactly.
-/
theorem daemon_aborts_iff
    (session : Session)
    (frames : List (List Byte))
    (hValid :
      ∀ frame ∈ frames, Announced session frame ∧
        (acceptedHeader session
          (frame.take headerSize)).isSome = true)
    (input : SessionInput)
    (hUnbroken : Unbroken (items input))
    (hBytes : contentOf (items input) = frames.flatten)
    (n : Nat)
    (hMany : (items input).length ≤ n) :
    (((SessionReader.start input).run session n).status =
        .aborted ↔
      ∃ frame, firstLarge session frames = some frame ∧
        capacity < frame.length) ∧
    (((SessionReader.start input).run session n).status =
        .overrun ↔
      ∃ frame, firstLarge session frames = some frame ∧
        frame.length = capacity) ∧
    (((SessionReader.start input).run session n).status =
        .disconnected ↔
      firstLarge session frames = none ∧
        ∃ frame ∈ frames, leaves session frame = true) ∧
    (((SessionReader.start input).run session n).status =
        .operational ↔
      firstLarge session frames = none ∧
        ∀ frame ∈ frames, leaves session frame = false) ∧
    ((SessionReader.start input).run session n).accepted.map
        (MessageObj.view session.order) =
      ((heardFrames session frames).takeWhile fun frame =>
        decide (frame.length < capacity)).filterMap
          (messageOf session) := by
  rcases run_frames (fun frame hMember => (hValid frame hMember).1)
      hUnbroken hBytes hMany with
    ⟨hAccepted, hStatus⟩
  rcases ending_of_valid hValid with ⟨hEnding, hKept⟩
  rw [hStatus, hAccepted, hEnding, hKept]
  refine ⟨?_, ?_, ?_, ?_, rfl⟩
  all_goals
    cases hLarge : firstLarge session frames with
    | none =>
        cases hLeaves : frames.any (leaves session) <;>
          simpa using hLeaves
    | some frame =>
        have hMost : capacity ≤ frame.length := by
          simpa using List.find?_some hLarge
        by_cases hSame : frame.length = capacity
        · simp [hSame]
        · have hMore : capacity < frame.length := by omega
          simp [hSame, hMore]

/-
  A message of 143948 bytes, in front of which nothing was
  said, and behind which the client takes its leave.
-/
theorem daemon_aborts_large :
    ((SessionReader.start
          [.chunk
            (firstFrame 0x00000010 143900 ++
              firstFrame 0x00040000 0)]).run
        firstSession 143996).status =
      .aborted := by
  have hLarge :=
    announced_firstFrame 0x00000010 143900 (by decide +kernel)
  have hLeave :=
    announced_firstFrame 0x00040000 0 (by decide +kernel)
  have hLength := length_firstFrame 0x00000010 143900
  have hStays :
      leaves firstSession (firstFrame 0x00000010 143900) =
        false := by
    have hTake :
        (firstFrame 0x00000010 143900).take headerSize =
          (firstHeader 0x00000010 143900).memory
            .littleEndian :=
      List.take_left' (MessageHeader.length_memory _ _)
    rw [leaves, hTake]
    decide +kernel
  refine (daemon_aborts_iff firstSession
    [firstFrame 0x00000010 143900, firstFrame 0x00040000 0]
    ?_ _ ?_ ?_ _ ?_).1.mpr ?_
  · intro frame hMember
    rcases List.mem_cons.mp hMember with rfl | hLast
    · exact hLarge
    · rw [List.mem_singleton.mp hLast]
      exact hLeave
  · rw [items_frame]
    exact unbroken_bytes _
  · rw [items_frame, contentOf_bytes]
    simp
  · rw [items_frame, List.length_map, List.length_append,
      hLength, length_firstFrame]
    decide
  · have hMore :
        capacity < (firstFrame 0x00000010 143900).length := by
      rw [hLength]
      decide
    refine ⟨_, ?_, hMore⟩
    rw [firstLarge, heardFrames, hStays,
      if_neg Bool.false_ne_true]
    exact List.find?_cons_of_pos
      (decide_eq_true (Nat.le_of_lt hMore))

end Daemon

end ReplicatedAccount
