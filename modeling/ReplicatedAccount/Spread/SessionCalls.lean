import ReplicatedAccount.Spread.SessionRead

/-
  The calls of `Sess_read` come to the same messages, and to
  the same end of the session, as the parser.

  A call continues in the header or in the body of a message,
  as the one before it has left it.

  Key definitions include:
    * `Daemon.Represents`

  Key theorems include:
    * `Daemon.sessRead_agrees`
    * `Daemon.run_represents`
    * `Daemon.run_represents_read`
-/

------------------------------------------------------------
-- Calls of `Sess_read`
------------------------------------------------------------

namespace ReplicatedAccount

open Foundations SpreadConnection

namespace Daemon

variable {session : Session}
variable {head : MessageHeader}
variable {read : PartialMessageInfo}
variable {msg : MessageObj}
variable {held : List Byte}

/- What is missing behind an accepted header is read. -/
theorem readRemaining_agrees
    (hReading : Reading session head read msg held)
    (hMost : held.length ≤ headerSize + head.bodyLength)
    (hFragmented :
      held.length = headerSize + head.bodyLength →
        Fragmented msg)
    {p : Parse}
    (hLives : p.status = .operational)
    (input : SessionInput) :
    Agrees session p.accepted (p.settle session held)
      (held.length < capacity ∧
        held.length < headerSize + head.bodyLength)
      input (readRemaining session.order read msg input) := by
  have hTotal := hReading.total
  unfold readRemaining
  rw [hReading.header_eq]
  by_cases hMissing :
      held.length < headerSize + head.bodyLength
  · have hRemain :
        held.length + (head.bodyLength - read.totalBytes) =
          headerSize + head.bodyLength := by
      omega
    rcases readBody_agrees
        (head.bodyLength - read.totalBytes + 1) hReading
        hRemain (by omega) (by omega) hLives input with
      ⟨taken, hItems, hReached, hProgress⟩
    exact ⟨taken, hItems, hReached,
      fun hNone hNeeds => hProgress hNone hNeeds.1⟩
  · -- there is no body
    have hAll :
        held.length + ([] : List Byte).length =
          headerSize + head.bodyLength := by
      simp
      omega
    have hNone : head.bodyLength - read.totalBytes = 0 := by
      omega
    have hReached :=
      hReading.reached_all (List.append_nil msg.bytes).symm
        hReading.buffered (hFragmented (by omega)) hAll hLives
    rw [List.append_nil] at hReached
    rw [hNone, readBody_zero]
    exact ⟨[], rfl, hReached,
      fun _ hNeeds => absurd hNeeds.2 hMissing⟩

theorem sessRead_of_inBody
    {state : ReadState}
    (hInBody : state.read.inMessHead = false)
    (input : SessionInput) :
    sessRead session state input =
      readRemaining session.order state.read
        (state.readMess.getD .new) input := by
  simp [sessRead, hInBody]

/- The header has come, and nothing behind it. -/
theorem Reading.of_header
    (hLength : held.length = headerSize)
    (hAccepted : acceptedHeader session held = some head)
    (hElements : msg.elements = [⟨held, headerSize⟩])
    (hRead : read = ⟨false, 0, headerSize, 0⟩) :
    Reading session head read
        (msg.setHeader session.order head) held ∧
      Fragmented (msg.setHeader session.order head) := by
  subst hRead
  have hBuffer :
      (head.memory session.order).length = headerSize :=
    head.length_memory session.order
  have hNew :
      (msg.setHeader session.order head).elements =
        [⟨head.memory session.order, headerSize⟩] := by
    simp [MessageObj.setHeader, hElements,
      List.drop_eq_nil_of_le (Nat.le_of_eq hLength)]
  have hFilling :
      Filling (msg.setHeader session.order head) 0 headerSize []
        ⟨head.memory session.order, headerSize⟩ :=
    ⟨hNew, rfl, by simp, hBuffer⟩
  have hBuffered :
      Buffered (msg.setHeader session.order head) := by
    refine ⟨?_, ?_, ?_⟩ <;> rw [hNew]
    · simpa using Nat.le_of_eq hBuffer.symm
    · simp
    · exact (by decide : 1 ≤ maxScatterElements)
  refine ⟨⟨?_, Nat.le_of_eq hLength.symm, ?_,
    ⟨by decide, Or.inl ⟨_, _, hFilling⟩⟩, hBuffered, ?_, rfl⟩,
    hFilling.fragmented hBuffered (by decide) (by decide)⟩
  · rw [List.take_of_length_le (Nat.le_of_eq hLength)]
    exact hAccepted
  · rw [MessageObj.bytes, hNew,
      List.drop_eq_nil_of_le (Nat.le_of_eq hLength)]
    simp
  · simp [hLength]

/- A call in the middle of a body. -/
theorem sessRead_inBody_agrees
    {state : ReadState}
    {p : Parse}
    (hMess : state.readMess = some msg)
    (hReading : Reading session head state.read msg p.held)
    (hMissing : p.held.length < headerSize + head.bodyLength)
    (hRoom : p.held.length < capacity)
    (hLives : p.status = .operational)
    (input : SessionInput) :
    Agrees session p.accepted p True input
      (sessRead session state input) := by
  have hSettled : p.settle session p.held = p :=
    hReading.settle_missing hMissing hRoom p
  rcases readRemaining_agrees hReading (Nat.le_of_lt hMissing)
      (fun hAll => absurd hAll (Nat.ne_of_lt hMissing))
      hLives input with
    ⟨taken, hItems, hReached, hProgress⟩
  rw [sessRead_of_inBody hReading.inBody, hMess]
  rw [hSettled] at hReached
  exact ⟨taken, hItems, hReached,
    fun hNone _ => hProgress hNone ⟨hRoom, hMissing⟩⟩

/- The bytes of a header that were received, one by one. -/
theorem read_header
    {p : Parse}
    (hLives : p.status = .operational)
    {content : List Byte}
    (hSomething : content ≠ [])
    (hAtMost : p.held.length + content.length ≤ headerSize) :
    p.read session (content.map .inl) =
      p.settle session (p.held ++ content) := by
  have hPositive := List.length_pos_of_ne_nil hSomething
  have hSame : p.hold p.held = p := rfl
  rw [← hSame]
  apply Parse.read_content hLives hSomething
  intro hLong
  rw [List.length_append, List.length_dropLast] at hLong
  omega

/- The validation of a header that has come. -/
theorem validated_header
    (hElements : msg.elements = [⟨held, headerSize⟩]) :
    sessValidateReadHeader session
        (((msg.header session.order).correct
          session.order).withEndian session.order) =
      acceptedHeader session held := by
  rw [MessageObj.header, hElements]
  rfl

/- The last bytes of a header have come. -/
theorem header_agrees
    {p : Parse}
    (hLives : p.status = .operational)
    (hLength : held.length = headerSize)
    (hElements : msg.elements = [⟨held, headerSize⟩])
    (rest : SessionInput) :
    Agrees session p.accepted (p.settle session held) False rest
      (match acceptedHeader session held with
        | none => (.killed, rest)
        | some head =>
            readRemaining session.order ⟨false, 0, headerSize, 0⟩
              (msg.setHeader session.order head) rest) := by
  cases hAccepted : acceptedHeader session held with
  | none =>
      refine ⟨[], rfl, ?_, fun _ hNeeds => hNeeds.elim⟩
      rw [Parse.settle, if_neg (by rw [hLength]; simp),
        List.take_of_length_le (Nat.le_of_eq hLength),
        hAccepted]
      exact .killed rfl rfl
  | some head =>
      rcases Reading.of_header hLength hAccepted hElements rfl
        with ⟨hReading, hFragmented⟩
      rcases readRemaining_agrees hReading
          (by rw [hLength]; exact Nat.le_add_right _ _)
          (fun _ => hFragmented) hLives rest with
        ⟨taken, hItems, hReached, _⟩
      exact ⟨taken, hItems, hReached,
        fun _ hNeeds => hNeeds.elim⟩

/- A call in the middle of a header. -/
theorem sessRead_inHeader_agrees
    {state : ReadState}
    {p : Parse}
    (hRead : state.read = ⟨true, 0, p.held.length, 0⟩)
    (hShort : p.held.length < headerSize)
    (hMess :
      (state.readMess.getD .new).elements =
        [⟨p.held, headerSize⟩])
    (hLives : p.status = .operational)
    (input : SessionInput) :
    Agrees session p.accepted p True input
      (sessRead session state input) := by
  unfold sessRead
  simp only [hRead, if_true]
  have hCases := recv_cases (Nat.sub_pos_of_lt hShort) input
  rcases hRecv : recv (headerSize - p.held.length) input with
    ⟨received, rest⟩
  rw [hRecv] at hCases
  rcases hCases with
    ⟨content, hContent, hSomething, hAtMost, hItems⟩ |
      ⟨cause, hTrouble, hItems⟩
  · dsimp only at hContent hItems
    subst hContent
    have hFed :
        p.read session (content.map .inl) =
          p.settle session (p.held ++ content) :=
      read_header hLives hSomething (by omega)
    have hWritten :
        ((state.readMess.getD .new).write 0 p.held.length
            content).elements =
          [⟨p.held ++ content, headerSize⟩] := by
      simp [MessageObj.write, hMess]
    dsimp only
    by_cases hFilled :
        content.length = headerSize - p.held.length
    · -- the header is complete
      have hLength :
          p.held.length + content.length = headerSize := by
        omega
      rw [if_pos hFilled, validated_header hWritten, hLength]
      apply Agrees.behind hSomething hItems
      rw [hFed]
      exact header_agrees hLives
        (List.length_append.trans hLength) hWritten rest
    · have hStill :
          (p.held ++ content).length < headerSize := by
        rw [List.length_append]
        omega
      rw [if_neg hFilled]
      refine .of_received hSomething hItems ?_
      rw [hFed, Parse.settle, if_pos hStill]
      refine .returned _ hLives rfl (.inHeader ?_ hStill ?_)
      · simp [Parse.hold]
      · exact hWritten
  · dsimp only at hTrouble hItems
    subst hTrouble
    have hHolds :
        Holds session
          ⟨⟨true, 0, p.held.length, 0⟩,
            some (state.readMess.getD .new)⟩ p.held :=
      .inHeader rfl hShort (by simpa using hMess)
    have hAgrees := hHolds.agrees hLives hItems True
    cases cause <;> exact hAgrees

/- A call agrees with the parse, and takes what it can. -/
theorem sessRead_agrees
    {state : ReadState}
    {p : Parse}
    (hHolds : Holds session state p.held)
    (hLives : p.status = .operational)
    (input : SessionInput) :
    Agrees session p.accepted p True input
      (sessRead session state input) := by
  cases hHolds with
  | inBody head msg hMess hReading hMissing hRoom =>
      exact sessRead_inBody_agrees hMess hReading hMissing hRoom
        hLives input
  | inHeader hRead hShort hMess =>
      exact sessRead_inHeader_agrees hRead hShort hMess hLives
        input

end Daemon

end ReplicatedAccount

------------------------------------------------------------
-- Runs
------------------------------------------------------------

namespace ReplicatedAccount

open Foundations SpreadConnection

namespace Daemon

/- A session has accepted and stored what the parse has. -/
structure Represents
    (session : Session)
    (r : SessionReader)
    (p : Parse) : Prop where
  status : r.status = p.status
  accepted :
    r.accepted.map (MessageObj.view session.order) = p.accepted
  whole : ∀ msg ∈ r.accepted, Whole msg
  holds : p.status = .operational → Holds session r.state p.held

variable {session : Session}
variable {r : SessionReader}
variable {p : Parse}

theorem Represents.start
    (input : SessionInput) :
    Represents session (.start input) .start where
  status := rfl
  accepted := rfl
  whole := by simp [SessionReader.start]
  holds := fun _ => .inHeader rfl (by decide) rfl

/- One more call takes more of the stream. -/
theorem Represents.call
    (hRepresents : Represents session r p) :
    ∃ taken,
      items r.input =
          taken ++ items (r.call session).input ∧
        Represents session (r.call session)
          (p.read session taken) ∧
        (taken = [] → items r.input = [] ∨
          r.status ≠ .operational) := by
  by_cases hLives : r.status = .operational
  · have hParse : p.status = .operational :=
      hRepresents.status ▸ hLives
    rcases sessRead_agrees (hRepresents.holds hParse) hParse
        r.input with
      ⟨taken, hItems, hReached, hProgress⟩
    refine ⟨taken, ?_, ?_,
      fun hNone => Or.inl (hProgress hNone trivial)⟩
    · unfold SessionReader.call
      rw [if_neg (not_not_intro hLives)]
      rcases hCall : sessRead session r.state r.input with
        ⟨outcome, rest⟩
      rw [hCall] at hItems
      cases outcome <;> exact hItems
    · unfold SessionReader.call
      rw [if_neg (not_not_intro hLives)]
      rcases hCall : sessRead session r.state r.input with
        ⟨outcome, rest⟩
      rw [hCall] at hReached
      cases hReached with
      | returned state hStill hAccepted hHolds =>
          exact ⟨hLives.trans hStill.symm,
            hRepresents.accepted.trans hAccepted.symm,
            hRepresents.whole, fun _ => hHolds⟩
      | complete msg hStatus hAccepted hHeld hWhole =>
          refine ⟨hStatus.symm, ?_, ?_, fun _ => ?_⟩
          · rw [hAccepted, ← hRepresents.accepted]
            simp
          · intro m hMember
            rcases List.mem_append.mp hMember with hOld | hNew
            · exact hRepresents.whole m hOld
            · rw [List.mem_singleton.mp hNew]
              exact hWhole
          · rw [hHeld]
            exact .inHeader rfl (by decide) rfl
      | killed hKilled hAccepted =>
          refine ⟨hKilled.symm,
            hRepresents.accepted.trans hAccepted.symm,
            hRepresents.whole, fun hStill => ?_⟩
          rw [hKilled] at hStill
          cases hStill
      | aborted hAborted hAccepted =>
          refine ⟨hAborted.symm,
            hRepresents.accepted.trans hAccepted.symm,
            hRepresents.whole, fun hStill => ?_⟩
          rw [hAborted] at hStill
          cases hStill
      | overrun hOverrun hAccepted =>
          refine ⟨hOverrun.symm,
            hRepresents.accepted.trans hAccepted.symm,
            hRepresents.whole, fun hStill => ?_⟩
          rw [hOverrun] at hStill
          cases hStill
  · have hSame : r.call session = r := by
      simp [SessionReader.call, hLives]
    rw [hSame]
    exact ⟨[], rfl, hRepresents, fun _ => Or.inr hLives⟩

/- Any number of calls agree with the parse of what they took. -/
theorem run_represents
    (n : Nat)
    (hRepresents : Represents session r p) :
    ∃ taken,
      items r.input =
          taken ++ items (r.run session n).input ∧
        Represents session (r.run session n)
          (p.read session taken) ∧
        (n ≤ taken.length ∨
          items (r.run session n).input = [] ∨
            (r.run session n).status ≠ .operational) := by
  induction n generalizing r p with
  | zero => exact ⟨[], rfl, hRepresents, Or.inl (Nat.zero_le _)⟩
  | succ n ih =>
      rcases hRepresents.call with
        ⟨first, hFirst, hCall, hProgress⟩
      rcases ih hCall with ⟨later, hLater, hRun, hFar⟩
      have hRunSucc :
          r.run session (n + 1) =
            (r.call session).run session n :=
        rfl
      rw [hRunSucc]
      refine ⟨first ++ later, ?_, ?_, ?_⟩
      · rw [hFirst, hLater, List.append_assoc]
      · rw [Parse.read_append]
        exact hRun
      · rcases first with _ | ⟨item, first⟩
        · rcases hProgress rfl with hNone | hEnded
          · rw [hNone] at hFirst
            rw [List.nil_append] at hFirst
            rw [← hFirst] at hLater
            exact Or.inr (Or.inl
              (List.append_eq_nil_iff.mp hLater.symm).2)
          · apply Or.inr
            apply Or.inr
            have hSame : r.call session = r := by
              simp [SessionReader.call, hEnded]
            have hStays :
                ∀ k, r.run session k = r := by
              intro k
              exact Function.iterate_fixed hSame k
            rw [hSame, hStays]
            exact hEnded
        · refine hFar.imp_left fun hMany => ?_
          rw [List.cons_append, List.length_cons,
            List.length_append]
          omega

/-
  After enough calls the session agrees with the parse of the
  whole stream, however the stream was divided.
-/
theorem run_represents_read
    (input : SessionInput)
    {n : Nat}
    (hMany : (items input).length ≤ n) :
    Represents session
      ((SessionReader.start input).run session n)
      (Parse.start.read session (items input)) := by
  have hStarts :
      Represents session (.start input) .start :=
    .start input
  rcases run_represents n hStarts with
    ⟨taken, hItems, hRun, hFar⟩
  have hStart : (SessionReader.start input).input = input :=
    rfl
  rw [hStart] at hItems
  have hAll :
      Parse.start.read session (items input) =
        Parse.start.read session taken := by
    rw [hItems, Parse.read_append]
    by_cases hLives :
        (Parse.start.read session taken).status = .operational
    · have hNone :
          items
              ((SessionReader.start input).run session n).input =
            [] := by
        rcases hFar with hTaken | hNothing | hEnded
        · have hLength := congrArg List.length hItems
          rw [List.length_append] at hLength
          apply List.eq_nil_of_length_eq_zero
          omega
        · exact hNothing
        · exact absurd (hRun.status.trans hLives) hEnded
      rw [hNone]
      rfl
    · exact Parse.read_of_not_operational session hLives _
  rw [hAll]
  exact hRun

end Daemon

end ReplicatedAccount
