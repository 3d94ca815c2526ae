import ReplicatedAccount.Spread.Upstream
import ReplicatedAccount.Spread.SessionOutput

/-
  The messages of a daemon at its clients, and the whole way of
  a message from one client to another.

  A daemon corrects the header of a message to its own byte
  order, and writes it to the sessions of the members.  What
  the members hear are the messages of the senders.

  Key definitions include:
    * `Daemon.sessDeliver`
    * `Sender`
    * `Sender.accepted`

  Key theorems include:
    * `RegularMessage.sendable_sessDeliver`
    * `Sender.exists_message`
    * `heard_from_senders_iff_intact`
-/

------------------------------------------------------------
-- Messages Delivered to Sessions
------------------------------------------------------------

namespace ReplicatedAccount

open Foundations SpreadConnection

namespace Daemon

/-
  What `Sess_deliver_message` does to a regular message before
  it is written: the header gets the order of the machine.
-/
def sessDeliver
    (order : ByteOrder)
    (msg : MessageObj) :
    MessageObj :=
  msg.setHeader order
    (((msg.header order).correct order).withEndian order)

theorem elements_setHeader
    (order : ByteOrder)
    (msg : MessageObj)
    (head : MessageHeader)
    {first : ScatElement}
    {elements : List ScatElement}
    (hElements : msg.elements = first :: elements) :
    (msg.setHeader order head).elements =
      { first with
        buf :=
          head.memory order ++ first.buf.drop headerSize } ::
        elements := by
  rw [MessageObj.setHeader, hElements, List.modify_zero_cons]

end Daemon

namespace RegularMessage

open Daemon

variable (m : RegularMessage)

theorem isReject_header
    (order source : ByteOrder) :
    ServiceType.isReject (m.header order source).type =
      false := by
  have hRegular := m.regular
  simp only [ServiceType.isRegular, Bool.and_eq_true,
    Bool.not_eq_true'] at hRegular
  change ServiceType.isReject (setEndian order m.service) = _
  rw [ServiceType.isReject_setEndian]
  exact hRegular.2

/-
  A message that came whole from a daemon of any order is
  written in the order of this daemon.
-/
theorem sendable_sessDeliver
    {msg : MessageObj}
    (hWhole : Whole msg)
    {written source : ByteOrder}
    (hBytes : msg.bytes = m.frame written source)
    (order : ByteOrder) :
    Sendable order (sessDeliver order msg) ∧
      (sessDeliver order msg).bytes =
        m.frame order source := by
  rcases hElements : msg.elements with _ | ⟨first, elements⟩
  · rcases hWhole.parts with ⟨full, e, hParts, _⟩
    rw [hElements] at hParts
    simp at hParts
  have hLong := hWhole.start first (by simp [hElements])
  have hParts :
      msg.bytes = first.buf ++ bytesIn elements := by
    rw [MessageObj.bytes, hElements, List.flatMap_cons]
  have hMemory (w s : ByteOrder) :
      ((m.header w s).memory w).length = headerSize :=
    MessageHeader.length_memory _ _
  have hFront :
      first.buf.take headerSize =
        (m.header written source).memory written := by
    rw [← List.take_append_of_le_length hLong, ← hParts,
      hBytes]
    exact List.take_left' (hMemory written source)
  have hBehind :
      first.buf.drop headerSize ++ bytesIn elements =
        groupsBytes m.groups ++ m.data := by
    rw [← List.drop_append_of_le_length hLong, ← hParts,
      hBytes]
    exact List.drop_left' (hMemory written source)
  have hHeader :
      ((msg.header order).correct order).withEndian order =
        m.header order source := by
    rw [← m.corrected_header order written source
      (first.buf.drop headerSize), ← hFront,
      List.take_append_drop, MessageObj.header, hElements,
      List.headD_cons]
  have hNew :=
    elements_setHeader order msg (m.header order source)
      hElements
  have hSame :
      sessDeliver order msg =
        msg.setHeader order (m.header order source) := by
    rw [sessDeliver, hHeader]
  have hNewBytes :
      (sessDeliver order msg).bytes = m.frame order source := by
    rw [hSame, MessageObj.bytes, hNew, List.flatMap_cons,
      List.append_assoc]
    exact congrArg ((m.header order source).memory order ++ ·)
      hBehind
  have hNewHeader :
      (sessDeliver order msg).header order =
        m.header order source := by
    apply header_of_bytes hNewBytes
    intro f hFirst
    rw [hSame, hNew, List.head?_cons, Option.mem_some] at hFirst
    subst hFirst
    rw [List.length_append, hMemory]
    exact Nat.le_add_right _ _
  refine ⟨⟨⟨_, elements, by rw [hSame]; exact hNew, ?_, ?_⟩,
    ?_⟩, hNewBytes⟩
  · rw [List.length_append, hMemory]
    exact Nat.le_add_right _ _
  · rw [hNewHeader, m.isReject_header]
    exact fun hReject => absurd hReject Bool.false_ne_true
  · intro e hMember
    rw [hSame, hNew] at hMember
    rcases List.mem_cons.mp hMember with rfl | hOther
    · have hLen := hWhole.lens first (by simp [hElements])
      dsimp only
      rw [List.length_append, hMemory, List.length_drop, hLen]
      omega
    · exact hWhole.lens e (by simp [hElements, hOther])

end RegularMessage

end ReplicatedAccount

------------------------------------------------------------
-- From One Client to Another
------------------------------------------------------------

namespace ReplicatedAccount

open Foundations SpreadConnection Daemon

/- A client that multicasts regular messages to its daemon. -/
structure Sender where
  session : Session
  messages : List RegularMessage
  legal : ∀ m ∈ messages, m.From session
  -- what the daemon reads
  input : SessionInput
  unbroken : Unbroken (items input)
  multicast :
    contentOf (items input) =
      messages.flatMap fun m => m.frame .bigEndian .bigEndian

namespace Sender

/- The messages that the daemon has accepted after some calls. -/
def accepted (sender : Sender) (calls : Nat) : List MessageObj :=
  ((SessionReader.start sender.input).run sender.session
    calls).accepted

theorem accepted_prefix_call
    (session : Session)
    (r : SessionReader) :
    r.accepted <+: (r.call session).accepted := by
  unfold SessionReader.call
  split_ifs
  · exact List.prefix_rfl
  · split
    · exact List.prefix_rfl
    · exact List.prefix_append _ _
    · exact List.prefix_rfl
    · exact List.prefix_rfl
    · exact List.prefix_rfl

theorem accepted_prefix_run
    (session : Session)
    (r : SessionReader)
    (n k : Nat) :
    (r.run session n).accepted <+:
      (r.run session (n + k)).accepted := by
  induction k with
  | zero => exact List.prefix_rfl
  | succ k ih =>
      refine ih.trans ?_
      rw [← Nat.add_assoc, SessionReader.run,
        SessionReader.run, Function.iterate_succ_apply']
      exact accepted_prefix_call session _

/- What is accepted are the first messages of the client. -/
theorem accepted_prefix
    (sender : Sender)
    (calls : Nat) :
    (sender.accepted calls).map MessageObj.bytes <+:
      (sender.messages.takeWhile fun m =>
        decide (m.groups.length ≤ maxGroupsPerMessage)).map
          fun m => m.frame sender.session.order .bigEndian := by
  have hAll :=
    (RegularMessage.run_of_multicast sender.legal sender.unbroken
      sender.multicast
      (Nat.le_add_left (items sender.input).length
        calls)).2.2
  rw [← hAll]
  exact (accepted_prefix_run sender.session _ calls _).map _

theorem exists_message
    (sender : Sender)
    {calls : Nat}
    {msg : MessageObj}
    (hMember : msg ∈ sender.accepted calls) :
    Whole msg ∧
      ∃ m ∈ sender.messages,
        m.groups.length ≤ maxGroupsPerMessage ∧
          msg.bytes =
            m.frame sender.session.order .bigEndian := by
  have hStarts :
      Represents sender.session (.start sender.input) .start :=
    .start sender.input
  rcases run_represents calls hStarts with ⟨_, _, hRun, _⟩
  refine ⟨hRun.whole msg hMember, ?_⟩
  have hFrames :=
    (sender.accepted_prefix calls).subset
      (List.mem_map_of_mem hMember)
  rcases List.mem_map.mp hFrames with ⟨m, hTaken, hFrame⟩
  have hFew := List.mem_takeWhile_imp hTaken
  rw [decide_eq_true_eq] at hFew
  exact ⟨m, (List.takeWhile_prefix _).subset hTaken, hFew,
    hFrame.symm⟩

end Sender

/- The message is one of some sender, delivered by a daemon. -/
def DeliveredFrom
    (order : ByteOrder)
    (senders : List Sender)
    (written : MessageObj) : Prop :=
  ∃ sender ∈ senders, ∃ calls, ∃ msg ∈ sender.accepted calls,
    written = sessDeliver order msg

theorem DeliveredFrom.exists_message
    {order : ByteOrder}
    {senders : List Sender}
    {written : MessageObj}
    (hDelivered : DeliveredFrom order senders written) :
    Sendable order written ∧
      ∃ m : RegularMessage,
        (∃ sender ∈ senders, m ∈ sender.messages) ∧
          written.bytes = m.frame order .bigEndian := by
  rcases hDelivered with
    ⟨sender, hSender, calls, msg, hAccepted, rfl⟩
  rcases sender.exists_message hAccepted with
    ⟨hWhole, m, hMessage, _, hBytes⟩
  rcases m.sendable_sessDeliver hWhole hBytes order with
    ⟨hSendable, hNewBytes⟩
  exact ⟨hSendable, m, ⟨sender, hSender, hMessage⟩, hNewBytes⟩

/- The messages of the senders that were written. -/
theorem exists_messages
    {order : ByteOrder}
    {senders : List Sender}
    {written : List MessageObj}
    (hDelivered :
      ∀ msg ∈ written, DeliveredFrom order senders msg) :
    ∃ ms : List RegularMessage,
      (∀ m ∈ ms, ∃ sender ∈ senders, m ∈ sender.messages) ∧
        written.map MessageObj.bytes =
          ms.map fun m => m.frame order .bigEndian := by
  induction written with
  | nil => exact ⟨[], by simp, rfl⟩
  | cons msg written ih =>
      rcases (hDelivered msg (by simp)).exists_message with
        ⟨_, m, hSender, hBytes⟩
      rcases ih fun msg' hMember =>
          hDelivered msg' (by simp [hMember]) with
        ⟨ms, hSenders, hAll⟩
      refine ⟨m :: ms, ?_, by simp [hBytes, hAll]⟩
      intro m' hMember
      rcases List.mem_cons.mp hMember with rfl | hOther
      · exact hSender
      · exact hSenders m' hOther

/-
  A client is written the messages of other clients, from any
  daemons, while its socket takes as little as it likes.  Once
  nothing is waiting, it hears exactly these messages, if and
  only if no timeout came within one of them.
-/
theorem heard_from_senders_iff_intact
    (order : ByteOrder)
    (senders : List Sender)
    (events : List WriteEvent)
    (hDelivered :
      ∀ msg ∈ writtenIn events,
        DeliveredFrom order senders msg)
    (hLives :
      (SessionWriter.run order events).status = .operational)
    (hNone : (SessionWriter.run order events).queue = [])
    (group : SpreadGroup)
    (input : SocketInput)
    (hBytes :
      bytesOf (items input) =
        (SessionWriter.run order events).sent)
    (hTimeouts : OnlyTimeouts (items input)) :
    ∃ ms : List RegularMessage,
      (∀ m ∈ ms, ∃ sender ∈ senders, m ∈ sender.messages) ∧
      ((writtenIn events).map MessageObj.bytes =
        ms.map fun m => m.frame order .bigEndian) ∧
      ((∃ n,
        ListenerThread.heard group input n =
          ms.map fun m => m.incoming .bigEndian) ↔
        Intact ((writtenIn events).map MessageObj.bytes)
          (items input)) := by
  have hConserved :=
    conserved_of_run order events fun msg hMember =>
      (hDelivered msg hMember).exists_message.1
  have hSent := hConserved.bytes hLives
  rw [SessionWriter.pending, hNone, pendingFrom,
    List.append_nil] at hSent
  rcases exists_messages hDelivered with
    ⟨ms, hSenders, hFrames⟩
  refine ⟨ms, hSenders, hFrames, ?_⟩
  have hAll :
      (writtenIn events).map MessageObj.bytes =
        (ms.map fun m => (m, ByteOrder.bigEndian)).map
          fun m => m.1.frame order m.2 := by
    rw [hFrames, List.map_map]
    rfl
  have hTold :
      (ms.map fun m => m.incoming .bigEndian) =
        (ms.map fun m => (m, ByteOrder.bigEndian)).map
          fun m => m.1.incoming m.2 := by
    rw [List.map_map]
    rfl
  rw [hSent, List.flatMap_def] at hBytes
  constructor
  · rintro ⟨n, hHeard⟩
    have hStart :
        ((ListenerThread.start input []).run
            ListenerThread.recorder group n).state =
          [] ++ ms.map fun m => m.incoming .bigEndian :=
      hHeard
    refine ListenerThread.intact_of_run group n rfl _ hStart ?_
      hBytes hTimeouts
    rw [hFrames, List.map_map, List.map_map]
    exact List.map_congr_left
      fun m _ => m.length_frame order .bigEndian
  · intro hIntact
    rw [hAll] at hIntact
    have hStart :
        (ListenerThread.start input
          ([] : List SpreadMessage) :
            ListenerThread _ Empty).ended = none :=
      rfl
    rcases ListenerThread.run_of_intact group order _ hIntact
        hStart rfl with
      ⟨n, hState⟩
    exact ⟨n, hState.trans (by rw [hTold]; rfl)⟩

def localInput : SessionInput :=
  [.chunk ((firstBroadcast [] (Nat.zero_le _)).frame .bigEndian
    .bigEndian)]

theorem unbroken_localInput :
    Unbroken (items localInput) := by
  rw [localInput, items_chunk, items_nil, List.append_nil]
  exact unbroken_bytes _

theorem contentOf_localInput :
    contentOf (items localInput) =
      [firstBroadcast [] (Nat.zero_le _)].flatMap
        fun m => m.frame .bigEndian .bigEndian := by
  rw [localInput, items_chunk, items_nil, List.append_nil,
    contentOf_bytes, List.flatMap_singleton]

theorem from_localSession_firstBroadcast :
    ∀ m ∈ [firstBroadcast [] (Nat.zero_le _)],
      m.From RegularMessage.localSession := by
  intro m hMember
  rw [List.mem_singleton.mp hMember]
  exact RegularMessage.from_localSession rfl rfl

/- Client 1 on the machine `localhost`, with one message. -/
def localSender : Sender where
  session := RegularMessage.localSession
  messages := [firstBroadcast [] (Nat.zero_le _)]
  legal := from_localSession_firstBroadcast
  input := localInput
  unbroken := unbroken_localInput
  multicast := contentOf_localInput

def localMessage : MessageObj :=
  ⟨[⟨(firstBroadcast [] (Nat.zero_le _)).frame .littleEndian
    .bigEndian, 80⟩]⟩

/- The message is written to a client in two pieces. -/
def localEvents : List WriteEvent :=
  [.write (sessDeliver .littleEndian localMessage) [some 10],
    .badger [some 70]]

theorem heard_from_localSender :
    ∃ ms : List RegularMessage,
      ms.length = 1 ∧
        ∃ n,
          ListenerThread.heard ⟨"#2#localhost"⟩
              [.chunk (localMessage.bytes.take 10),
                .chunk (localMessage.bytes.drop 10)] n =
            ms.map fun m => m.incoming .bigEndian := by
  have hAccepted : localMessage ∈ localSender.accepted 1 := by
    decide +kernel
  have hBytes :
      (sessDeliver .littleEndian localMessage).bytes =
        localMessage.bytes := by
    decide +kernel
  have hItems :
      items
          [(.chunk (localMessage.bytes.take 10) :
              Arrival Byte SocketTrouble),
            .chunk (localMessage.bytes.drop 10)] =
        localMessage.bytes.map .inl := by
    rw [items_chunk, items_chunk, items_nil, List.append_nil,
      ← List.map_append, List.take_append_drop]
  rcases heard_from_senders_iff_intact .littleEndian
      [localSender] localEvents
      (by
        intro msg hMember
        have hMsg :
            msg = sessDeliver .littleEndian localMessage := by
          simpa [writtenIn, localEvents] using hMember
        exact ⟨localSender, by simp, 1, localMessage, hAccepted,
          hMsg⟩)
      (by decide +kernel) (by decide +kernel) ⟨"#2#localhost"⟩
      [.chunk (localMessage.bytes.take 10),
        .chunk (localMessage.bytes.drop 10)]
      (by
        rw [hItems, bytesOf_bytes]
        decide +kernel)
      (by
        intro trouble hMember
        rw [hItems] at hMember
        simp at hMember) with
    ⟨ms, _, hWritten, hHeard⟩
  have hOne := congrArg List.length hWritten
  rw [List.length_map, List.length_map] at hOne
  refine ⟨ms, hOne.symm, hHeard.mpr ?_⟩
  rw [hItems, ← List.append_nil (localMessage.bytes.map _)]
  have hFrames :
      (writtenIn localEvents).map MessageObj.bytes =
        [localMessage.bytes] := by
    rw [← hBytes]
    rfl
  rw [hFrames]
  exact .frame _ .nil

end ReplicatedAccount
