import ReplicatedAccount.Spread.SessionCalls

/-
  The messages that a daemon accepts from a client, and when
  it ends the session instead.

  A session is killed at a header that is not valid, and ends
  with a message in which its client takes its leave.  A valid
  header can announce more bytes than there are buffers for.

  Key definitions include:
    * `Daemon.Announced`
    * `Daemon.verdict`
    * `Daemon.acceptedFrames`
    * `Daemon.Valid`

  Key theorems include:
    * `Daemon.Parse.read_frames`
    * `Daemon.accepted_messages_valid`
-/

------------------------------------------------------------
-- Sequences of Messages
------------------------------------------------------------

namespace ReplicatedAccount

open Foundations SpreadConnection

namespace Daemon

/- The bytes of a stream that a daemon reads. -/
def contentOf
    (stream : List (Byte ⊕ RecvTrouble)) :
    List Byte :=
  stream.filterMap Sum.getLeft?

/- The stream never breaks off. -/
def Unbroken (stream : List (Byte ⊕ RecvTrouble)) : Prop :=
  .inr .failed ∉ stream

/- The bytes have the length that their header announces. -/
def Announced (session : Session) (frame : List Byte) : Prop :=
  headerSize ≤ frame.length ∧
    ∀ head,
      acceptedHeader session (frame.take headerSize) =
          some head →
        frame.length = headerSize + head.bodyLength

/- The status of a session that has read a message. -/
def verdict
    (session : Session)
    (frame : List Byte) :
    SessionStatus :=
  match acceptedHeader session (frame.take headerSize) with
  | none => .killed
  | some head =>
      if headerSize + head.bodyLength < capacity then
        if isKillMess head.type then
          .disconnected
        else
          .operational
      else if headerSize + head.bodyLength = capacity then
        .overrun
      else
        .aborted

theorem verdict_of_accepted
    {session : Session}
    {frame : List Byte}
    {head : MessageHeader}
    (hAccepted :
      acceptedHeader session (frame.take headerSize) =
        some head)
    (hLength : frame.length = headerSize + head.bodyLength) :
    verdict session frame =
      if frame.length < capacity then
        if isKillMess head.type then
          .disconnected
        else
          .operational
      else if frame.length = capacity then
        .overrun
      else
        .aborted := by
  rw [verdict, hAccepted, hLength]

/- The messages that are accepted, a last leave among them. -/
def acceptedFrames
    (session : Session) :
    List (List Byte) → List (List Byte)
| [] => []
| frame :: frames =>
    match verdict session frame with
    | .operational => frame :: acceptedFrames session frames
    | .disconnected => [frame]
    | _ => []

/- The message that the bytes stand for. -/
def messageOf
    (session : Session)
    (frame : List Byte) :
    Option (MessageHeader × List Byte) :=
  (acceptedHeader session (frame.take headerSize)).map
    fun head => (head, frame.drop headerSize)

namespace Parse

variable {session : Session}

/- Waiting makes no difference. -/
theorem read_of_unbroken
    (p : Parse)
    {stream : List (Byte ⊕ RecvTrouble)}
    (hUnbroken : Unbroken stream) :
    p.read session stream =
      p.read session ((contentOf stream).map .inl) := by
  induction stream generalizing p with
  | nil => rfl
  | cons item stream ih =>
      have hRest : Unbroken stream :=
        fun hMember => hUnbroken (List.mem_cons_of_mem _ hMember)
      cases item with
      | inl b =>
          have hContent :
              contentOf (.inl b :: stream) =
                b :: contentOf stream :=
            rfl
          rw [hContent]
          exact ih (p.feed session b) hRest
      | inr cause =>
          have hContent :
              contentOf (.inr cause :: stream) =
                contentOf stream :=
            rfl
          rw [hContent]
          cases cause with
          | again => exact ih p hRest
          | failed =>
              exact absurd List.mem_cons_self hUnbroken

/- Nothing is decided before the first `n` bytes have come. -/
theorem read_first
    {p : Parse}
    (hLives : p.status = .operational)
    (hHeld : p.held = [])
    {frame : List Byte}
    {n : Nat}
    (hPositive : 0 < n)
    (hEnough : n ≤ frame.length)
    (hIncomplete : Incomplete session (frame.take (n - 1))) :
    p.read session (frame.map .inl) =
      (p.settle session (frame.take n)).read session
        ((frame.drop n).map .inl) := by
  have hSomething : frame.take n ≠ [] := by
    intro hNone
    have hLength := congrArg List.length hNone
    rw [List.length_take_of_le hEnough, List.length_nil]
      at hLength
    omega
  have hBefore :
      (frame.take n).dropLast = frame.take (n - 1) := by
    rw [List.dropLast_eq_take, List.take_take,
      List.length_take_of_le hEnough,
      Nat.min_eq_left (Nat.sub_le n 1)]
  have hRead :
      (p.hold []).read session ((frame.take n).map .inl) =
        p.settle session ([] ++ frame.take n) :=
    read_content hLives hSomething
      (by rw [hBefore]; exact hIncomplete)
  have hSame : p.hold [] = p := by
    rw [hold, ← hHeld]
  rw [hSame, List.nil_append] at hRead
  have hParts :
      frame.map (.inl : Byte → Byte ⊕ RecvTrouble) =
        (frame.take n).map .inl ++ (frame.drop n).map .inl := by
    rw [← List.map_append, List.take_append_drop]
  rw [hParts, read_append, hRead]

/- The beginning of a message that is accepted. -/
theorem incomplete_take
    {frame : List Byte}
    {head : MessageHeader}
    (hAccepted :
      acceptedHeader session (frame.take headerSize) =
        some head)
    (hLength : frame.length = headerSize + head.bodyLength)
    {n : Nat}
    (hShort : n < frame.length)
    (hRoom : n < capacity) :
    Incomplete session (frame.take n) := by
  intro hLong
  rw [List.length_take_of_le (Nat.le_of_lt hShort)] at hLong ⊢
  refine ⟨head, ?_, by omega, hRoom⟩
  rw [List.take_take, Nat.min_eq_left hLong]
  exact hAccepted

/- A message that fits is accepted. -/
theorem read_frame
    {p : Parse}
    (hLives : p.status = .operational)
    (hHeld : p.held = [])
    {frame : List Byte}
    {head : MessageHeader}
    (hAccepted :
      acceptedHeader session (frame.take headerSize) =
        some head)
    (hLength : frame.length = headerSize + head.bodyLength)
    (hFits : frame.length < capacity) :
    p.read session (frame.map .inl) =
      { p with
        accepted :=
          p.accepted ++ [(head, frame.drop headerSize)]
        status :=
          if isKillMess head.type then
            .disconnected
          else
            .operational } := by
  have hPositive : 0 < headerSize := by decide
  rw [read_first hLives hHeld (n := frame.length) (by omega)
    (Nat.le_refl _)
    (incomplete_take hAccepted hLength (by omega) (by omega)),
    List.take_length, List.drop_length, settle,
    if_neg (by omega), hAccepted]
  dsimp only
  rw [if_neg (by omega), if_pos hLength, hHeld, hLives]
  rfl

/- A message that fills all buffers ends the session. -/
theorem read_frame_full
    {p : Parse}
    (hLives : p.status = .operational)
    (hHeld : p.held = [])
    {frame : List Byte}
    {head : MessageHeader}
    (hAccepted :
      acceptedHeader session (frame.take headerSize) =
        some head)
    (hLength : frame.length = headerSize + head.bodyLength)
    (hLarge : capacity ≤ frame.length) :
    p.read session (frame.map .inl) =
      { p with
        held := frame.take capacity
        status :=
          if frame.length = capacity then
            .overrun
          else
            .aborted } := by
  have hCapacity : headerSize < capacity := by decide
  have hTake : (frame.take capacity).length = capacity :=
    List.length_take_of_le hLarge
  rw [read_first hLives hHeld (n := capacity) (by omega)
    hLarge
    (incomplete_take hAccepted hLength (by omega) (by omega)),
    settle, if_neg (by omega), List.take_take,
    Nat.min_eq_left (Nat.le_of_lt hCapacity), hAccepted]
  dsimp only
  rw [if_pos hTake, hTake, hLength]
  by_cases hSame : capacity = headerSize + head.bodyLength
  · rw [if_pos hSame, if_pos hSame.symm]
    exact read_of_not_operational session (by simp) _
  · rw [if_neg hSame, if_neg fun hOther => hSame hOther.symm]
    exact read_of_not_operational session (by simp) _

/- A header that is not accepted kills the session. -/
theorem read_frame_killed
    {p : Parse}
    (hLives : p.status = .operational)
    (hHeld : p.held = [])
    {frame : List Byte}
    (hLong : headerSize ≤ frame.length)
    (hRefused :
      acceptedHeader session (frame.take headerSize) = none) :
    p.read session (frame.map .inl) =
      { p with
        held := frame.take headerSize
        status := .killed } := by
  have hPositive : 0 < headerSize := by decide
  have hTake : (frame.take headerSize).length = headerSize :=
    List.length_take_of_le hLong
  have hIncomplete :
      Incomplete session (frame.take (headerSize - 1)) := by
    intro hMore
    rw [List.length_take_of_le (by omega)] at hMore
    omega
  rw [read_first hLives hHeld hPositive hLong hIncomplete,
    settle, if_neg (by omega), List.take_take, Nat.min_self,
    hRefused]
  exact read_of_not_operational session (by simp) _

/-
  Messages are accepted up to the first that ends the
  session, which is by its verdict.
-/
theorem read_frames
    {p : Parse}
    (hLives : p.status = .operational)
    (hHeld : p.held = [])
    {frames : List (List Byte)}
    (hAnnounced : ∀ frame ∈ frames, Announced session frame) :
    (p.read session (frames.flatten.map .inl)).accepted =
        p.accepted ++
          (acceptedFrames session frames).filterMap
            (messageOf session) ∧
      (p.read session (frames.flatten.map .inl)).status =
        ((frames.map (verdict session)).find?
          (· ≠ .operational)).getD .operational := by
  induction frames generalizing p with
  | nil => simp [acceptedFrames, read, hLives]
  | cons frame frames ih =>
      rcases hAnnounced frame (by simp) with ⟨hLong, hLength⟩
      have hRest :
          ∀ f ∈ frames, Announced session f :=
        fun f hMember => hAnnounced f (by simp [hMember])
      rw [List.flatten_cons, List.map_append, read_append]
      cases hAccepted :
          acceptedHeader session (frame.take headerSize) with
      | none =>
          have hVerdict : verdict session frame = .killed := by
            rw [verdict, hAccepted]
          rw [read_frame_killed hLives hHeld hLong hAccepted,
            read_of_not_operational session (by simp)]
          simp [acceptedFrames, hVerdict]
      | some head =>
          have hWhole := hLength head hAccepted
          have hMessage :
              messageOf session frame =
                some (head, frame.drop headerSize) := by
            rw [messageOf, hAccepted]
            rfl
          have hVerdict :=
            verdict_of_accepted hAccepted hWhole
          by_cases hFits : frame.length < capacity
          · rw [if_pos hFits] at hVerdict
            rw [read_frame hLives hHeld hAccepted hWhole hFits]
            by_cases hKill : isKillMess head.type = true
            · rw [if_pos hKill] at hVerdict ⊢
              rw [read_of_not_operational session (by simp)]
              simp [acceptedFrames, hVerdict, hMessage]
            · rw [if_neg hKill] at hVerdict ⊢
              have hLater := ih
                (p := { p with
                  accepted :=
                    p.accepted ++
                      [(head, frame.drop headerSize)]
                  status := .operational })
                rfl hHeld hRest
              simpa [acceptedFrames, hVerdict, hMessage]
                using hLater
          · rw [if_neg hFits] at hVerdict
            have hEnds : verdict session frame ≠ .operational ∧
                verdict session frame ≠ .disconnected := by
              rw [hVerdict]
              split_ifs <;> simp
            have hNone :
                acceptedFrames session (frame :: frames) = [] := by
              rw [acceptedFrames]
              split <;> simp_all
            rw [read_frame_full hLives hHeld hAccepted hWhole
                (Nat.le_of_not_lt hFits), ← hVerdict,
              read_of_not_operational session hEnds.1, hNone]
            simp [hEnds.1]

end Parse

end Daemon

end ReplicatedAccount

------------------------------------------------------------
-- What Every Accepted Message Satisfies
------------------------------------------------------------

namespace ReplicatedAccount

open Foundations SpreadConnection

namespace Daemon

/- The kinds of packets a message can be sent in. -/
inductive PacketType where
  | reliable
  | fifo
  | agreed
  | safe
deriving DecidableEq, Repr

/- `Message_get_packet_type`; none is the result -1. -/
def messageGetPacketType (type : Word) : Option PacketType :=
  if type.getLsbD 0 then some .reliable
  else if type.getLsbD 1 then some .reliable
  else if type.getLsbD 2 then some .fifo
  else if type.getLsbD 3 || type.getLsbD 4 then some .agreed
  else if type.getLsbD 5 then some .safe
  else if type.getLsbD 16 then some .agreed
  else if type.getLsbD 17 then some .agreed
  else if type.getLsbD 18 then some .agreed
  else none

/- A message in the name of the session, and as long as said. -/
structure Valid
    (session : Session)
    (message : MessageHeader × List Byte) : Prop where
  sender :
    gPrivateToNames message.1.privateGroupName =
      some (session.privateName, session.procName)
  numGroups :
    0 ≤ message.1.numGroups.toInt ∧
      message.1.numGroups.toInt ≤ maxGroupsPerMessage
  dataLen : 0 ≤ message.1.dataLen.toInt
  length :
    (message.2.length : Int) =
      message.1.dataLen.toInt +
        maxGroupName * message.1.numGroups.toInt
  room : headerSize + message.2.length < capacity
  -- one service or one kind of membership change
  kind :
    countBitsSet message.1.type 0 6 +
        countBitsSet message.1.type 16 19 =
      1
  marked : sameEndian session.order message.1.type = true
  packetType :
    (messageGetPacketType message.1.type).isSome = true

/- A bit that is counted is set. -/
theorem exists_of_countBitsSet
    {field : Word}
    {first last : Nat}
    (hCount : 0 < countBitsSet field first last) :
    ∃ i, first ≤ i ∧ i < last ∧ field.getLsbD i = true := by
  rcases List.countP_pos_iff.mp hCount with ⟨k, hIndex, hBit⟩
  rw [List.mem_range] at hIndex
  exact ⟨first + k, by omega, by omega, hBit⟩

/- Nobody takes leave without a kind of membership change. -/
theorem isKillMess_of_countBitsSet
    {type : Word}
    (hNone : countBitsSet type 16 19 = 0) :
    isKillMess type = false := by
  by_contra hKill
  rw [Bool.not_eq_false] at hKill
  have hPositive : 0 < countBitsSet type 16 19 :=
    List.countP_pos_iff.mpr
      ⟨2, by decide, hKill⟩
  omega

/- A type with one of the counted bits is a packet type. -/
theorem isSome_messageGetPacketType
    {type : Word}
    (hBits :
      countBitsSet type 0 6 + countBitsSet type 16 19 = 1) :
    (messageGetPacketType type).isSome = true := by
  have hSome :
      ∃ i, (i < 6 ∨ 16 ≤ i ∧ i < 19) ∧
        type.getLsbD i = true := by
    by_cases hService : 0 < countBitsSet type 0 6
    · rcases exists_of_countBitsSet hService with
        ⟨i, _, hIndex, hBit⟩
      exact ⟨i, Or.inl hIndex, hBit⟩
    · have hRequest : 0 < countBitsSet type 16 19 := by
        omega
      rcases exists_of_countBitsSet hRequest with
        ⟨i, hFrom, hIndex, hBit⟩
      exact ⟨i, Or.inr ⟨hFrom, hIndex⟩, hBit⟩
  rcases hSome with ⟨i, hIndex, hBit⟩
  unfold messageGetPacketType
  split_ifs with h0 h1 h2 h3 h5 h16 h17 h18
  all_goals try rfl
  simp only [Bool.or_eq_true, not_or] at h3
  have hCases :
      i = 0 ∨ i = 1 ∨ i = 2 ∨ i = 3 ∨ i = 4 ∨ i = 5 ∨
        i = 16 ∨ i = 17 ∨ i = 18 := by
    omega
  rcases hCases with
    rfl | rfl | rfl | rfl | rfl | rfl | rfl | rfl | rfl
  all_goals simp_all

/- Every accepted header has passed all the checks. -/
theorem sessValidateReadHeader_eq_some
    {session : Session}
    {head head' : MessageHeader}
    (hAccepted :
      sessValidateReadHeader session head = some head') :
    head' = head.terminated ∧
      countBitsSet head.type 0 6 +
          countBitsSet head.type 16 19 = 1 ∧
        gPrivateToNames head'.privateGroupName =
            some (session.privateName, session.procName) ∧
          (0 ≤ head'.numGroups.toInt ∧
            head'.numGroups.toInt ≤ maxGroupsPerMessage) ∧
          0 ≤ head'.dataLen.toInt := by
  unfold sessValidateReadHeader at hAccepted
  dsimp only at hAccepted
  split at hAccepted
  · cases hAccepted
  · rename_i hBits
    cases hNames :
        gPrivateToNames head.terminated.privateGroupName with
    | none => simp [hNames] at hAccepted
    | some names =>
        rcases names with ⟨privateName, procName⟩
        simp only [hNames] at hAccepted
        split_ifs at hAccepted with hProc hPrivate hGroups hHint
          hData hLong
        cases hAccepted
        rw [not_not] at hProc hPrivate
        subst hProc hPrivate
        refine ⟨rfl, by omega, hNames, by omega, by omega⟩

/- A message is accepted when it is whole and fits. -/
theorem valid_of_settle
    {session : Session}
    {p : Parse}
    {held : List Byte}
    (hValid :
      ∀ message ∈ p.accepted, Valid session message)
    (hHeld : held.length ≤ capacity) :
    ∀ message ∈ (p.settle session held).accepted,
      Valid session message := by
  unfold Parse.settle
  split
  · exact hValid
  · cases hAccepted :
        acceptedHeader session (held.take headerSize) with
    | none => exact hValid
    | some head =>
        dsimp only
        by_cases hFull : held.length = capacity
        · rw [if_pos hFull]
          exact hValid
        rw [if_neg hFull]
        by_cases hAll :
            held.length = headerSize + head.bodyLength
        · rw [if_pos hAll]
          intro message hMember
          rcases List.mem_append.mp hMember with hOld | hNew
          · exact hValid message hOld
          · rw [List.mem_singleton.mp hNew]
            have hChecked := hAccepted
            unfold acceptedHeader at hChecked
            rcases sessValidateReadHeader_eq_some hChecked with
              ⟨hSame, hBits, hNames, hGroups, hData⟩
            have hLength :
                (held.drop headerSize).length =
                  head.bodyLength := by
              rw [List.length_drop]
              omega
            have hType :
                head.type =
                  setEndian session.order
                    ((MessageHeader.ofMemory session.order
                      (held.take headerSize)).correct
                        session.order).type := by
              rw [hSame]
              rfl
            refine
              ⟨hNames, hGroups, hData, ?_, ?_, ?_, ?_, ?_⟩
            · dsimp only
              rw [hLength, MessageHeader.bodyLength,
                Int.toNat_of_nonneg]
              have hPositive : (0 : Int) ≤ maxGroupName := by
                decide
              have hProduct :=
                Int.mul_nonneg hPositive hGroups.1
              omega
            · dsimp only
              rw [hLength]
              omega
            · dsimp only
              rw [hSame]
              exact hBits
            · dsimp only
              rw [hType, sameEndian, setEndian_and_endianType]
              simp
            · apply isSome_messageGetPacketType
              rw [hSame]
              exact hBits
        · rw [if_neg hAll]
          exact hValid

/- What is held while the session lives is not too long. -/
theorem length_held_of_settle
    {session : Session}
    {p : Parse}
    {held : List Byte}
    (hHeld : held.length ≤ capacity)
    (hLives :
      (p.settle session held).status = .operational) :
    (p.settle session held).held.length < capacity := by
  have hSmall : headerSize < capacity := by decide
  have hPositive : 0 < capacity := by decide
  unfold Parse.settle at hLives ⊢
  by_cases hShort : held.length < headerSize
  · rw [if_pos hShort]
    exact Nat.lt_trans hShort hSmall
  · rw [if_neg hShort] at hLives ⊢
    cases hAccepted :
        acceptedHeader session (held.take headerSize) with
    | none => simp [hAccepted] at hLives
    | some head =>
        simp only [hAccepted] at hLives ⊢
        by_cases hFull : held.length = capacity
        · rw [if_pos hFull] at hLives
          dsimp only at hLives
          split_ifs at hLives
        · rw [if_neg hFull]
          by_cases hAll :
              held.length = headerSize + head.bodyLength
          · rw [if_pos hAll]
            exact hPositive
          · rw [if_neg hAll]
            exact Nat.lt_of_le_of_ne hHeld hFull

/- Whatever comes, only valid messages are accepted. -/
theorem Parse.read_valid
    {session : Session}
    {p : Parse}
    (hValid : ∀ message ∈ p.accepted, Valid session message)
    (hHeld :
      p.status = .operational → p.held.length < capacity)
    (stream : List (Byte ⊕ RecvTrouble)) :
    ∀ message ∈ (p.read session stream).accepted,
      Valid session message := by
  induction stream generalizing p with
  | nil => exact hValid
  | cons item stream ih =>
      by_cases hLives : p.status = .operational
      · rcases item with b | cause
        · have hLength :
              (p.held ++ [b]).length ≤ capacity := by
            have hShort := hHeld hLives
            simp
            omega
          have hFeed :
              p.feedItem session (.inl b) =
                p.settle session (p.held ++ [b]) := by
            simp [feedItem, feed, hLives]
          have hNext := ih
            (p := p.settle session (p.held ++ [b]))
            (valid_of_settle hValid hLength)
            (length_held_of_settle hLength)
          rw [← hFeed] at hNext
          exact hNext
        · cases cause with
          | again => exact ih hValid hHeld
          | failed =>
              have hFeed :
                  p.feedItem session (.inr .failed) =
                    { p with status := .killed } := by
                simp [feedItem, hLives]
              have hNext := ih
                (p := { p with status := .killed }) hValid
                (by simp)
              rw [← hFeed] at hNext
              exact hNext
      · rw [read_of_not_operational session hLives]
        exact hValid

/-
  Whatever bytes a client sends, and however they arrive, the
  daemon accepts only messages in the name of this client's
  session, with as many bytes as their header says, and of one
  service or kind of membership change, for which it has
  packets; and all lengths of their fragments are right.
-/
theorem accepted_messages_valid
    (session : Session)
    (input : SessionInput)
    (n : Nat) :
    ∀ msg ∈ ((SessionReader.start input).run session n).accepted,
      Valid session (msg.view session.order) ∧ Whole msg := by
  have hStarts :
      Represents session (.start input) .start :=
    .start input
  rcases run_represents n hStarts with ⟨taken, _, hRun, _⟩
  intro msg hMember
  refine ⟨?_, hRun.whole msg hMember⟩
  apply Parse.read_valid (p := .start) (by simp [Parse.start])
    (by decide) taken
  rw [← hRun.accepted]
  exact List.mem_map_of_mem hMember

end Daemon

end ReplicatedAccount
