import Mathlib.Logic.Function.Iterate
import ReplicatedAccount.Spread.Accounting

/-
  The thread of the Spread connection that reads messages and
  hands them to the listeners.

  Its socket has a timeout of 100 ms.  A timeout is ignored,
  also when it comes after some bytes of a message: they are
  lost, and the next message is read from the middle of this
  one.

  Key definitions include:
    * `ListenerThread`
    * `ListenerThread.iterate`
    * `ListenerThread.heard`
    * `Intact`

  Key theorems include:
    * `ListenerThread.iterate_of_frame`
    * `ListenerThread.run_of_intact`
    * `heard_iff_intact`
-/

------------------------------------------------------------
-- The Thread
------------------------------------------------------------

namespace ReplicatedAccount

open Foundations Foundations.Method SpreadConnection

/- How the thread ended. -/
inductive ThreadEnd (ε : Type) where
  -- caught at the end of `run`, and printed
  | spreadException (message : String)
  -- thrown by the connection, or by a listener
  | uncaught (cause : SpreadThrown ⊕ ε)
deriving DecidableEq, Repr

/- What all listeners do with a message, in their order. -/
abbrev Listeners (σ ε : Type) : Type :=
  SpreadMessage → σ → σ × Option ε

structure ListenerThread (σ ε : Type) where
  input : SocketInput
  state : σ
  callingListeners : Bool
  ended : Option (ThreadEnd ε)

namespace ListenerThread

variable {σ ε : Type}

def start
    (input : SocketInput)
    (state : σ) :
    ListenerThread σ ε where
  input := input
  state := state
  callingListeners := false
  ended := none

/- Tell the listeners; only their return resets the flag. -/
def tell
    (listeners : Listeners σ ε)
    (t : ListenerThread σ ε)
    (message : SpreadMessage) :
    ListenerThread σ ε :=
  match listeners message t.state with
  | (state, none) =>
      { t with state := state, callingListeners := false }
  | (state, some cause) =>
      { t with
        state := state
        callingListeners := true
        ended := some (.uncaught (.inr cause)) }

/- One iteration of the loop of `run`. -/
def iterate
    (listeners : Listeners σ ε)
    (group : SpreadGroup)
    (t : ListenerThread σ ε) :
    ListenerThread σ ε :=
  if t.ended.isSome then
    t
  else
    let o := (internalReceive true group).run t.input
    let t := { t with input := o.state }
    match o.result with
    | .ok message => t.tell listeners message
    | .error .interruptedRead => t
    | .error (.spreadException message) =>
        { t with ended := some (.spreadException message) }
    | .error thrown =>
        { t with ended := some (.uncaught (.inl thrown)) }

/- The thread after some iterations. -/
def run
    (listeners : Listeners σ ε)
    (group : SpreadGroup)
    (n : Nat)
    (t : ListenerThread σ ε) :
    ListenerThread σ ε :=
  (iterate listeners group)^[n] t

variable (listeners : Listeners σ ε)
variable (group : SpreadGroup)
variable {t : ListenerThread σ ε}

theorem run_succ
    (n : Nat) :
    t.run listeners group (n + 1) =
      (t.iterate listeners group).run listeners group n :=
  rfl

theorem iterate_of_ended
    (hEnded : t.ended.isSome) :
    t.iterate listeners group = t := by
  simp [iterate, hEnded]

theorem run_of_ended
    (hEnded : t.ended.isSome)
    (n : Nat) :
    t.run listeners group n = t := by
  induction n with
  | zero => rfl
  | succ n ih =>
      rw [run_succ, iterate_of_ended listeners group hEnded, ih]

/- A whole message at the front of the stream is told. -/
theorem iterate_of_frame
    (hRunning : t.ended = none)
    (m : RegularMessage)
    (order source : ByteOrder)
    {later : List (Byte ⊕ SocketTrouble)}
    (hInput :
      items t.input =
        (m.frame order source).map .inl ++ later) :
    ∃ rest,
      items rest = later ∧
        t.iterate listeners group =
          { t with input := rest }.tell listeners
            (m.incoming source) := by
  rcases m.internalReceive_frame group order source later
      t.input hInput with
    ⟨rest, hRun, hLater⟩
  refine ⟨rest, hLater, ?_⟩
  simp [iterate, hRunning, hRun]

/- A timeout between two messages does nothing. -/
theorem iterate_of_timeout
    (hRunning : t.ended = none)
    {later : List (Byte ⊕ SocketTrouble)}
    (hInput : items t.input = .inr .timeout :: later) :
    ∃ rest,
      items rest = later ∧
        t.iterate listeners group = { t with input := rest } := by
  have hRead :
      ReadsTo (internalReceive true group)
        (.inr .timeout :: later) (.error .interruptedRead)
        later := by
    unfold internalReceive
    simp only [Bool.not_true, Bool.false_eq_true, if_false]
    exact (ReadsTo.read_of_readItems _ _
      (readItems_interrupted [] .timeout later
        (n := maxGroupName + 16) (by decide))).bind_error
  rcases hRead t.input hInput with ⟨rest, hRun, hLater⟩
  refine ⟨rest, hLater, ?_⟩
  simp [iterate, hRunning, hRun]

end ListenerThread

end ReplicatedAccount

------------------------------------------------------------
-- Streams of Messages
------------------------------------------------------------

namespace ReplicatedAccount

open Foundations Foundations.Method SpreadConnection

/- The bytes of a stream, without the interruptions. -/
def bytesOf
    (stream : List (Byte ⊕ SocketTrouble)) :
    List Byte :=
  stream.filterMap Sum.getLeft?

/-
  The stream consists of the given frames, one after the
  other, and of timeouts before, between and behind them.
-/
inductive Intact :
    List (List Byte) → List (Byte ⊕ SocketTrouble) → Prop
  | nil : Intact [] []
  | timeout
      {frames : List (List Byte)}
      {stream : List (Byte ⊕ SocketTrouble)}
      (rest : Intact frames stream) :
      Intact frames (.inr .timeout :: stream)
  | frame
      (bytes : List Byte)
      {frames : List (List Byte)}
      {stream : List (Byte ⊕ SocketTrouble)}
      (rest : Intact frames stream) :
      Intact (bytes :: frames) (bytes.map .inl ++ stream)

@[simp] theorem bytesOf_nil :
    bytesOf [] = [] :=
  rfl

@[simp] theorem bytesOf_append
    (first second : List (Byte ⊕ SocketTrouble)) :
    bytesOf (first ++ second) =
      bytesOf first ++ bytesOf second :=
  List.filterMap_append

@[simp] theorem bytesOf_bytes
    (bytes : List Byte) :
    bytesOf (bytes.map .inl) = bytes := by
  induction bytes with
  | nil => rfl
  | cons b bytes ih =>
      change b :: bytesOf (bytes.map .inl) = b :: bytes
      rw [ih]

@[simp] theorem bytesOf_interruption
    (trouble : SocketTrouble)
    (stream : List (Byte ⊕ SocketTrouble)) :
    bytesOf (.inr trouble :: stream) = bytesOf stream :=
  rfl

/- All interruptions of the stream are timeouts. -/
def OnlyTimeouts
    (stream : List (Byte ⊕ SocketTrouble)) : Prop :=
  ∀ trouble, .inr trouble ∈ stream → trouble = .timeout

/- Timeouts in front of an intact stream. -/
theorem Intact.prepend
    {frames : List (List Byte)}
    {stream : List (Byte ⊕ SocketTrouble)}
    (hIntact : Intact frames stream)
    {earlier : List (Byte ⊕ SocketTrouble)}
    (hEmpty : bytesOf earlier = [])
    (hTimeouts : OnlyTimeouts earlier) :
    Intact frames (earlier ++ stream) := by
  induction earlier with
  | nil => exact hIntact
  | cons item earlier ih =>
      cases item with
      | inl b => simp [bytesOf] at hEmpty
      | inr trouble =>
          have hTimeout := hTimeouts trouble (by simp)
          subst hTimeout
          exact (ih (by simpa [bytesOf] using hEmpty)
            (fun trouble hMember =>
              hTimeouts trouble (by simp [hMember]))).timeout

/- Before the first timeout there is the whole first frame. -/
theorem Intact.length_le
    {bytes front : List Byte}
    {frames : List (List Byte)}
    {trouble : SocketTrouble}
    {later : List (Byte ⊕ SocketTrouble)}
    (hIntact :
      Intact (bytes :: frames)
        (front.map .inl ++ .inr trouble :: later))
    (hFront : front ≠ []) :
    bytes.length ≤ front.length := by
  generalize hStream :
    front.map .inl ++ .inr trouble :: later = stream
      at hIntact
  cases hIntact with
  | timeout rest =>
      rcases front with _ | ⟨b, front⟩
      · exact absurd rfl hFront
      · simp at hStream
  | frame bytes rest =>
      rcases List.append_eq_append_iff.mp hStream with
        ⟨more, hBytes, hRest⟩ | ⟨more, hMore, hRest⟩
      · rcases more with _ | ⟨item, more⟩
        · have hLength := congrArg List.length hBytes
          simp at hLength
          omega
        · simp only [List.cons_append, List.cons.injEq]
            at hRest
          rcases hRest with ⟨rfl, _⟩
          have hMember :
              (.inr trouble : Byte ⊕ SocketTrouble) ∈
                bytes.map .inl := by
            rw [hBytes]
            simp
          simp at hMember
      · have hLength := congrArg List.length hMore
        simp at hLength
        omega

end ReplicatedAccount

------------------------------------------------------------
-- What Is Heard
------------------------------------------------------------

namespace ReplicatedAccount

open Foundations Foundations.Method SpreadConnection

namespace ListenerThread

/- A listener that writes down what it is told. -/
def recorder : Listeners (List SpreadMessage) Empty :=
  fun message told => (told ++ [message], none)

/- The messages told in the first iterations. -/
def heard
    (group : SpreadGroup)
    (input : SocketInput)
    (n : Nat) :
    List SpreadMessage :=
  ((start input []).run recorder group n).state

variable (group : SpreadGroup)
variable {t : ListenerThread (List SpreadMessage) Empty}

/- One iteration tells a message and takes its bytes, or not. -/
theorem iterate_recorder_cases
    (hRunning : t.ended = none) :
    (∃ (message : SpreadMessage) (content : List Byte)
        (rest : SocketInput),
      items t.input = content.map .inl ++ items rest ∧
        content.length = message.wireLength ∧
          t.iterate recorder group =
            { t with
              input := rest
              state := t.state ++ [message]
              callingListeners := false }) ∨
      ((t.iterate recorder group).state = t.state ∧
        items (t.iterate recorder group).input <:+
          items t.input) := by
  have hPrefix :=
    internalReceive_takesPrefix true group t.input
  rcases hRun : (internalReceive true group).run t.input with
    ⟨rest, events, result⟩
  rw [hRun] at hPrefix
  cases result with
  | ok message =>
      rcases internalReceive_consumes true group t.input rest
          events message hRun with
        ⟨content, hItems, hLength⟩
      refine Or.inl ⟨message, content, rest, hItems, hLength,
        ?_⟩
      simp [iterate, hRunning, hRun, tell, recorder]
  | error thrown =>
      apply Or.inr
      cases thrown <;>
        simpa [iterate, hRunning, hRun] using hPrefix

/- What is told in addition takes bytes of the stream. -/
theorem run_recorder_length
    (n : Nat) :
    ∃ told,
      (t.run recorder group n).state = t.state ++ told ∧
        (told.map SpreadMessage.wireLength).sum ≤
          (bytesOf (items t.input)).length := by
  induction n generalizing t with
  | zero => exact ⟨[], by simp [run]⟩
  | succ n ih =>
      cases hEnded : t.ended with
      | some ending =>
          rw [run_of_ended recorder group (by simp [hEnded])]
          exact ⟨[], by simp⟩
      | none =>
          rw [run_succ]
          rcases iterate_recorder_cases group hEnded with
            ⟨message, content, rest, hItems, hLength, hNext⟩ |
              ⟨hState, hSuffix⟩
          · rcases ih (t := t.iterate recorder group) with
              ⟨told, hTold, hSum⟩
            rw [hNext] at hTold hSum
            refine ⟨message :: told, ?_, ?_⟩
            · rw [hNext, hTold]
              simp
            · rw [hItems]
              simp [hLength] at hSum ⊢
              omega
          · rcases ih (t := t.iterate recorder group) with
              ⟨told, hTold, hSum⟩
            refine ⟨told, by rw [hTold, hState], ?_⟩
            rcases hSuffix with ⟨taken, hTaken⟩
            rw [← hTaken]
            simp
            omega

/-
  When the messages that were told need all the bytes there
  are, no byte was lost at a timeout.
-/
theorem intact_of_run
    (n : Nat)
    (hRunning : t.ended = none)
    (told : List SpreadMessage)
    (hTold :
      (t.run recorder group n).state = t.state ++ told)
    {frames : List (List Byte)}
    (hLengths :
      frames.map List.length =
        told.map SpreadMessage.wireLength)
    (hBytes : bytesOf (items t.input) = frames.flatten)
    (hTimeouts : OnlyTimeouts (items t.input)) :
    Intact frames (items t.input) := by
  induction n generalizing t told frames with
  | zero =>
      have hNone : told = [] :=
        List.append_right_eq_self.mp hTold.symm
      subst hNone
      have hFrames : frames = [] := by simpa using hLengths
      subst hFrames
      simpa using Intact.nil.prepend hBytes hTimeouts
  | succ n ih =>
      rw [run_succ] at hTold
      rcases run_recorder_length group n
          (t := t.iterate recorder group) with
        ⟨later, hLater, hSum⟩
      rcases iterate_recorder_cases group hRunning with
        ⟨message, content, rest, hItems, hLength, hNext⟩ |
          ⟨hState, taken, hTaken⟩
      · -- a message was told, and it is the first of them
        have hAll : told = message :: later := by
          rw [hLater, hNext] at hTold
          simpa using hTold.symm
        subst hAll
        rcases frames with _ | ⟨bytes, frames⟩
        · simp at hLengths
        simp only [List.map_cons, List.cons.injEq]
          at hLengths
        rw [hItems, bytesOf_append, bytesOf_bytes,
          List.flatten_cons] at hBytes
        rcases List.append_inj hBytes
            (by rw [hLength, hLengths.1]) with
          ⟨rfl, hRest⟩
        rw [hItems] at hTimeouts ⊢
        apply Intact.frame
        have hIntact := ih (t := t.iterate recorder group)
          (by rw [hNext]; exact hRunning) later hLater
          hLengths.2
          (by rw [hNext]; exact hRest)
          (by
            rw [hNext]
            exact fun trouble hMember =>
              hTimeouts trouble (by simp [hMember]))
        rw [hNext] at hIntact
        exact hIntact
      · -- nothing was told, so nothing but timeouts was taken
        have hAll : told = later := by
          rw [hLater, hState] at hTold
          simpa using hTold.symm
        subst hAll
        have hTotal :
            (told.map SpreadMessage.wireLength).sum =
              (bytesOf (items t.input)).length := by
          rw [← hLengths, hBytes, List.length_flatten]
        rw [← hTaken] at hTotal hBytes hTimeouts
        have hEmpty : bytesOf taken = [] := by
          rw [bytesOf_append, List.length_append] at hTotal
          apply List.eq_nil_of_length_eq_zero
          omega
        rw [bytesOf_append, hEmpty, List.nil_append] at hBytes
        have hTakenTimeouts : OnlyTimeouts taken :=
          fun trouble hMember =>
            hTimeouts trouble (by simp [hMember])
        rw [← hTaken]
        refine Intact.prepend ?_ hEmpty hTakenTimeouts
        have hRest :
            OnlyTimeouts
              (items (t.iterate recorder group).input) :=
          fun trouble hMember =>
            hTimeouts trouble (by simp [hMember])
        cases hEnded : (t.iterate recorder group).ended with
        | none =>
            exact ih hEnded told hLater hLengths hBytes hRest
        | some ending =>
            have hNone : told = [] := by
              rw [run_of_ended recorder group (by simp [hEnded])]
                at hLater
              exact List.append_right_eq_self.mp hLater.symm
            subst hNone
            have hFrames : frames = [] := by
              simpa using hLengths
            subst hFrames
            simpa using Intact.nil.prepend hBytes hRest

/- On an intact stream every message is told. -/
theorem run_of_intact
    (order : ByteOrder)
    (messages : List (RegularMessage × ByteOrder))
    {stream : List (Byte ⊕ SocketTrouble)}
    (hIntact :
      Intact (messages.map fun m => m.1.frame order m.2)
        stream)
    (hRunning : t.ended = none)
    (hInput : items t.input = stream) :
    ∃ n,
      (t.run recorder group n).state =
        t.state ++ messages.map fun m => m.1.incoming m.2 := by
  generalize hFrames :
    (messages.map fun m => m.1.frame order m.2) = frames
      at hIntact
  induction hIntact generalizing t messages with
  | nil =>
      have hNone : messages = [] := by simpa using hFrames
      exact ⟨0, by simp [run, hNone]⟩
  | timeout rest ih =>
      rcases iterate_of_timeout recorder group hRunning
          hInput with
        ⟨input, hItems, hNext⟩
      rcases ih messages
          (t := t.iterate recorder group)
          (by rw [hNext]; exact hRunning)
          (by rw [hNext]; exact hItems) hFrames with
        ⟨n, hState⟩
      refine ⟨n + 1, ?_⟩
      rw [run_succ, hState, hNext]
  | frame bytes rest ih =>
      rcases messages with _ | ⟨m, messages⟩
      · cases hFrames
      simp only [List.map_cons, List.cons.injEq] at hFrames
      rcases hFrames with ⟨rfl, hFrames⟩
      rcases iterate_of_frame recorder group hRunning m.1
          order m.2 hInput with
        ⟨input, hItems, hNext⟩
      have hTell :
          t.iterate recorder group =
            { t with
              input := input
              state := t.state ++ [m.1.incoming m.2]
              callingListeners := false } := by
        rw [hNext]
        simp [tell, recorder]
      rcases ih messages
          (t := t.iterate recorder group)
          (by rw [hTell]; exact hRunning)
          (by rw [hTell]; exact hItems) hFrames with
        ⟨n, hState⟩
      refine ⟨n + 1, ?_⟩
      rw [run_succ, hState, hTell]
      simp

end ListenerThread

end ReplicatedAccount

------------------------------------------------------------
-- Exactly the Intact Streams Are Heard
------------------------------------------------------------

namespace ReplicatedAccount

open Foundations SpreadConnection

/-
  A daemon writes messages and the socket has timeouts.  The
  listeners are told exactly these messages, in order, if and
  only if no timeout came while a message was being read.
-/
theorem heard_iff_intact
    (group : SpreadGroup)
    (order : ByteOrder)
    (messages : List (RegularMessage × ByteOrder))
    (input : SocketInput)
    (hBytes :
      bytesOf (items input) =
        (messages.map fun m => m.1.frame order m.2).flatten)
    (hTimeouts : OnlyTimeouts (items input)) :
    (∃ n,
      ListenerThread.heard group input n =
        messages.map fun m => m.1.incoming m.2) ↔
      Intact (messages.map fun m => m.1.frame order m.2)
        (items input) := by
  constructor
  · rintro ⟨n, hHeard⟩
    refine ListenerThread.intact_of_run group n
      (t := ListenerThread.start input []) rfl
      (messages.map fun m => m.1.incoming m.2)
      ?_ ?_ hBytes hTimeouts
    · exact hHeard
    · rw [List.map_map, List.map_map]
      exact List.map_congr_left
        (fun m _ => m.1.length_frame order m.2)
  · intro hIntact
    rcases ListenerThread.run_of_intact group order messages
        hIntact (t := ListenerThread.start input []) rfl
        rfl with
      ⟨n, hState⟩
    exact ⟨n, hState⟩

theorem sendable_privateGroup :
    SpreadGroup.Sendable ⟨"#1#localhost"⟩ := by
  constructor <;> simp [maxGroupName, String.length]

theorem sendable_accountGroup :
    ∀ group ∈ [(⟨"Group10"⟩ : SpreadGroup)],
      group.Sendable := by
  simp [SpreadGroup.Sendable, maxGroupName, String.length]

theorem headerBytes_le
    {data : List Byte}
    (hShort : data.length ≤ 100000) :
    headerBytes 1 + data.length ≤ maxMessageLength := by
  simp only [headerBytes, maxMessageLength, maxGroupName]
  omega

/- The message of client 1 on the machine `localhost`. -/
def firstBroadcast
    (data : List Byte)
    (hShort : data.length ≤ 100000) :
    RegularMessage where
  service := ServiceType.fifoMess
  sender := ⟨"#1#localhost"⟩
  groups := [⟨"Group10"⟩]
  type := 0
  data := data
  regular := rfl
  noMembership := rfl
  unmarked := rfl
  senderSendable := sendable_privateGroup
  groupsSendable := sendable_accountGroup
  short := headerBytes_le hShort

/- A timeout after ten bytes loses the message. -/
theorem first_broadcast_lost :
    ¬ ∃ n,
      ListenerThread.heard ⟨"#2#localhost"⟩
          [.chunk (((firstBroadcast [] (by simp)).frame
              .littleEndian .bigEndian).take 10),
            .interruption .timeout,
            .chunk (((firstBroadcast [] (by simp)).frame
              .littleEndian .bigEndian).drop 10)] n =
        [(firstBroadcast [] (by simp)).incoming
          .bigEndian] := by
  have hLength :
      ((firstBroadcast [] (by simp)).frame .littleEndian
        .bigEndian).length = 80 := by
    rw [RegularMessage.length_frame]
    simp [SpreadMessage.wireLength, RegularMessage.incoming,
      firstBroadcast, headerBytes, maxGroupName,
      SpreadMessage.isReject, ServiceType.isReject,
      ServiceType.has, ServiceType.rejectMess,
      ServiceType.fifoMess]
  intro hHeard
  have hIntact :=
    (heard_iff_intact ⟨"#2#localhost"⟩ .littleEndian
      [(firstBroadcast [] (by simp), .bigEndian)] _
      (by
        simp only [items_chunk, items_interruption, items_nil,
          bytesOf_append, bytesOf_bytes, bytesOf_interruption,
          List.append_nil, List.take_append_drop]
        simp)
      (by
        intro trouble hMember
        simp only [items_chunk, items_interruption, items_nil,
          List.append_nil, List.mem_append, List.mem_cons,
          List.mem_map] at hMember
        simpa using hMember)).mp hHeard
  have hWhole := hIntact.length_le (by
    apply List.ne_nil_of_length_pos
    rw [List.length_take, hLength]
    decide)
  rw [List.length_take, hLength] at hWhole
  omega

end ReplicatedAccount
