import ReplicatedAccount.Spread.SessionStreams
import ReplicatedAccount.Spread.ListenerThread

/-
  The messages of a client at its daemon.

  A message that was built with the setters of the connection
  has one kind of service, and passes the checks of the daemon
  unless it has more than 100 groups.  The connection does not
  check that, and the daemon kills the session.

  Key definitions include:
    * `SpreadMessage.Setter`
    * `SpreadMessage.built`
    * `Daemon.Session.Legal`
    * `RegularMessage.From`

  Key theorems include:
    * `SpreadMessage.multicast_built`
    * `RegularMessage.From.acceptedHeader_frame`
    * `RegularMessage.daemon_accepts_iff_few_groups`
-/

------------------------------------------------------------
-- Messages Built by a Client
------------------------------------------------------------

namespace ReplicatedAccount

open Foundations SpreadConnection

namespace SpreadMessage

/- A call of a client on its new message. -/
inductive Setter where
  | unreliable
  | reliable
  | fifo
  | causal
  | agreed
  | safe
  | selfDiscard (discard : Bool)
  | group (added : SpreadGroup)
  | data (content : List Byte)
  | type (hint : BitVec 16)
deriving DecidableEq, Repr

def Setter.apply : Setter → SpreadMessage → SpreadMessage
| .unreliable => setUnreliable
| .reliable => setReliable
| .fifo => setFifo
| .causal => setCausal
| .agreed => setAgreed
| .safe => setSafe
| .selfDiscard discard => setSelfDiscard discard
| .group added => addGroup added
| .data content => setData content
| .type hint => setType hint

/- The message after the calls, in their order. -/
def built (setters : List Setter) : SpreadMessage :=
  setters.foldl (fun message setter => setter.apply message) new

/- The kinds of service. -/
def kinds : List Word :=
  [ServiceType.unreliableMess, ServiceType.reliableMess,
    ServiceType.fifoMess, ServiceType.causalMess,
    ServiceType.agreedMess, ServiceType.safeMess]

/- What a client can choose as a service type. -/
def services : List Word :=
  kinds ++ kinds.map (· ||| ServiceType.selfDiscard)

theorem built_concat
    (setters : List Setter)
    (setter : Setter) :
    built (setters ++ [setter]) = setter.apply (built setters) := by
  simp [built]

theorem mem_services_setService
    {message : SpreadMessage}
    (hType : message.serviceType ∈ services)
    {service : Word}
    (hService : service ∈ kinds) :
    (message.setService service).serviceType ∈ services := by
  have hAll :
      (services.all fun type => kinds.all fun service =>
        services.contains
          ((type &&& ~~~ServiceType.regularMess) |||
            service)) = true := by
    decide +kernel
  have hOne := List.all_eq_true.mp
    (List.all_eq_true.mp hAll _ hType) service hService
  exact List.contains_iff_mem.mp hOne

theorem mem_services_setSelfDiscard
    {message : SpreadMessage}
    (hType : message.serviceType ∈ services)
    (discard : Bool) :
    (message.setSelfDiscard discard).serviceType ∈
      services := by
  have hAll :
      (services.all fun type =>
        services.contains (type ||| ServiceType.selfDiscard) &&
          services.contains
            (type &&& ~~~ServiceType.selfDiscard)) = true := by
    decide +kernel
  have hBoth := List.all_eq_true.mp hAll _ hType
  rw [Bool.and_eq_true, List.contains_iff_mem,
    List.contains_iff_mem] at hBoth
  cases discard with
  | true => exact hBoth.1
  | false => exact hBoth.2

/- Every setter leaves one kind of service. -/
theorem serviceType_built
    (setters : List Setter) :
    (built setters).serviceType ∈ services := by
  induction setters using List.reverseRecOn with
  | nil => decide +kernel
  | append_singleton setters setter ih =>
      rw [built_concat]
      generalize built setters = message at ih
      cases setter with
      | unreliable =>
          exact mem_services_setService ih (by simp [kinds])
      | reliable =>
          exact mem_services_setService ih (by simp [kinds])
      | fifo =>
          exact mem_services_setService ih (by simp [kinds])
      | causal =>
          exact mem_services_setService ih (by simp [kinds])
      | agreed =>
          exact mem_services_setService ih (by simp [kinds])
      | safe =>
          exact mem_services_setService ih (by simp [kinds])
      | selfDiscard discard =>
          exact mem_services_setSelfDiscard ih discard
      | group added => exact ih
      | data content => exact ih
      | type hint => exact ih

/- The other fields are never those of a received message. -/
theorem fields_built
    (setters : List Setter) :
    (built setters).sender = none ∧
      (built setters).endianMismatch = false ∧
        (built setters).membershipInfo = none ∧
          ∃ groups : List SpreadGroup,
            (built setters).groups = groups.map some := by
  induction setters using List.reverseRecOn with
  | nil => exact ⟨rfl, rfl, rfl, [], rfl⟩
  | append_singleton setters setter ih =>
      rw [built_concat]
      generalize built setters = message at ih
      cases setter with
      | group added =>
          rcases ih with
            ⟨hSender, hMismatch, hInfo, groups, hGroups⟩
          exact ⟨hSender, hMismatch, hInfo, groups ++ [added],
            by simp [Setter.apply, addGroup, hGroups]⟩
      | _ => exact ih

end SpreadMessage

end ReplicatedAccount

------------------------------------------------------------
-- Messages of One Service
------------------------------------------------------------

namespace ReplicatedAccount

open Foundations SpreadConnection

/- What the daemon and the connection ask of a service. -/
def Chosen (service : Word) : Prop :=
  ServiceType.isRegular service = true ∧
    ServiceType.isMembership service = false ∧
      service &&& endianType = 0 ∧
        Daemon.countBitsSet service 0 6 = 1 ∧
          Daemon.countBitsSet service 16 19 = 0

theorem chosen_of_mem_services
    {service : Word}
    (hService : service ∈ SpreadMessage.services) :
    Chosen service := by
  have hAll :
      (SpreadMessage.services.all fun service =>
        ServiceType.isRegular service &&
          (!ServiceType.isMembership service &&
            (service &&& endianType == 0 &&
              (Daemon.countBitsSet service 0 6 == 1 &&
                Daemon.countBitsSet service 16 19 == 0)))) =
        true := by
    decide +kernel
  simpa [Chosen] using List.all_eq_true.mp hAll service hService

/-
  What a client builds with the setters, and the connection
  is ready to send, is written as a frame of a regular message.
-/
theorem SpreadMessage.multicast_built
    (setters : List SpreadMessage.Setter)
    {sender : SpreadGroup}
    (hSender : sender.Sendable)
    (hGroups :
      ∀ group, some group ∈ (built setters).groups →
        group.Sendable)
    (hShort :
      headerBytes (built setters).groups.length +
          (built setters).data.length ≤
        maxMessageLength) :
    ∃ m : RegularMessage,
      m.outgoing = built setters ∧ m.sender = sender ∧
        Chosen m.service ∧
          multicast true sender (built setters) =
            .ok (m.frame .bigEndian .bigEndian) := by
  have hChosen :=
    chosen_of_mem_services (serviceType_built setters)
  have hFields := fields_built setters
  generalize built setters = message
    at hChosen hGroups hShort hFields ⊢
  rcases message with
    ⟨service, groups, source, data, type, mismatch, info⟩
  rcases hFields with
    ⟨hSource, hMismatch, hInfo, names, hNames⟩
  dsimp only at hSource hMismatch hInfo hNames
  subst hSource hMismatch hInfo hNames
  let m : RegularMessage :=
    { service := service
      sender := sender
      groups := names
      type := type
      data := data
      regular := hChosen.1
      noMembership := hChosen.2.1
      unmarked := hChosen.2.2.1
      senderSendable := hSender
      groupsSendable := fun group hMember =>
        hGroups group (List.mem_map_of_mem hMember)
      short := by simpa using hShort }
  exact ⟨m, rfl, rfl, hChosen, m.multicast_outgoing⟩

end ReplicatedAccount

------------------------------------------------------------
-- The Checks of the Daemon
------------------------------------------------------------

namespace ReplicatedAccount

open Foundations SpreadConnection

namespace Daemon

/- The private group of the client of a session. -/
def Session.groupName (session : Session) : List Byte :=
  hashByte ::
    (session.privateName ++ hashByte :: session.procName)

/- A session with names as the daemon gives them. -/
def Session.Legal (session : Session) : Prop :=
  (1 ≤ session.privateName.length ∧
    session.privateName.length ≤ maxPrivateName) ∧
  (1 ≤ session.procName.length ∧
    session.procName.length < maxProcName) ∧
  (session.privateName ++ session.procName).all legalNameByte =
    true

instance
    (session : Session) :
    Decidable session.Legal :=
  inferInstanceAs (Decidable (_ ∧ _))

theorem ne_of_legalNameByte
    {b : Byte}
    (hLegal : legalNameByte b = true) :
    b ≠ 0 ∧ b ≠ hashByte := by
  have hAbove := (of_decide_eq_true hLegal).1
  constructor
  · rintro rfl
    exact absurd hAbove (by decide)
  · rintro rfl
    exact absurd hAbove (by decide)

/- The names of a session are found in its group. -/
theorem gPrivateToNames_groupName
    {session : Session}
    (hLegal : session.Legal)
    (zeros : List Byte) :
    gPrivateToNames (session.groupName ++ 0 :: zeros) =
      some (session.privateName, session.procName) := by
  rcases hLegal with ⟨hPrivate, hProc, hBytes⟩
  have hNames :
      (∀ b ∈ session.privateName, legalNameByte b = true) ∧
        ∀ b ∈ session.procName, legalNameByte b = true := by
    rw [List.all_append, Bool.and_eq_true, List.all_eq_true,
      List.all_eq_true] at hBytes
    exact hBytes
  have hNoZero :
      ∀ b ∈ session.privateName ++ hashByte :: session.procName,
        decide (b ≠ 0) = true := by
    intro b hMember
    rw [decide_eq_true_eq]
    rcases List.mem_append.mp hMember with hFirst | hRest
    · exact (ne_of_legalNameByte (hNames.1 b hFirst)).1
    · rcases List.mem_cons.mp hRest with rfl | hLast
      · decide
      · exact (ne_of_legalNameByte (hNames.2 b hLast)).1
  have hRest :
      ((session.groupName ++ 0 :: zeros).drop 1).takeWhile
          (· ≠ 0) =
        session.privateName ++ hashByte :: session.procName := by
    rw [Session.groupName, List.cons_append, List.drop_one,
      List.tail_cons, List.takeWhile_append_of_pos hNoZero]
    simp
  have hBefore :
      ∀ b ∈ session.privateName,
        decide (b ≠ hashByte) = true := by
    intro b hMember
    rw [decide_eq_true_eq]
    exact (ne_of_legalNameByte (hNames.1 b hMember)).2
  have hFirst :
      (session.privateName ++
          hashByte :: session.procName).takeWhile
          (· ≠ hashByte) =
        session.privateName := by
    rw [List.takeWhile_append_of_pos hBefore]
    simp
  have hSecond :
      ((session.privateName ++
          hashByte :: session.procName).dropWhile
          (· ≠ hashByte)).drop 1 =
        session.procName := by
    rw [List.dropWhile_append_of_pos hBefore]
    simp
  unfold gPrivateToNames
  simp only [hRest, hFirst, hSecond]
  rw [if_pos]
  exact ⟨by simp, rfl, hPrivate.1, hPrivate.2, hProc.1,
    hProc.2, hBytes⟩

end Daemon

end ReplicatedAccount

------------------------------------------------------------
-- Headers of Regular Messages
------------------------------------------------------------

namespace ReplicatedAccount

open Foundations SpreadConnection

namespace Daemon

/- The bits of an order do not count. -/
theorem countBitsSet_setEndian
    (order : ByteOrder)
    (type : Word)
    {first last : Nat}
    (hLast : last ≤ 32)
    (hClear :
      ∀ i, first ≤ i → i < last → endianType.getLsbD i = false) :
    countBitsSet (setEndian order type) first last =
      countBitsSet type first last := by
  unfold countBitsSet
  apply List.countP_congr
  intro k hIndex
  rw [List.mem_range] at hIndex
  have hBit := hClear (first + k) (by omega) (by omega)
  have hArch :
      (archEndian order).getLsbD (first + k) = false := by
    cases order with
    | bigEndian => exact BitVec.getLsbD_zero
    | littleEndian => exact hBit
  have hIn : first + k < 32 := by
    omega
  rw [setEndian, BitVec.getLsbD_or, BitVec.getLsbD_and,
    BitVec.getLsbD_not, hBit, hArch]
  simp [hIn]

theorem countBitsSet_marked
    (order : ByteOrder)
    (type : Word) :
    countBitsSet (setEndian order type) 0 6 =
        countBitsSet type 0 6 ∧
      countBitsSet (setEndian order type) 16 19 =
        countBitsSet type 16 19 := by
  have hLow : ∀ i < 6, endianType.getLsbD i = false := by
    decide
  have hHigh :
      ∀ i < 19, 16 ≤ i → endianType.getLsbD i = false := by
    decide
  refine ⟨countBitsSet_setEndian order type (by decide) ?_,
    countBitsSet_setEndian order type (by decide) ?_⟩
  · exact fun i _ hLast => hLow i hLast
  · exact fun i hFirst hLast => hHigh i hLast hFirst

/- A hint in either order has only the bits of a hint. -/
theorem translated_hint_allowed
    (source order : ByteOrder)
    (type : BitVec 16) :
    source.translate order
          (setEndian source (hintOfType type)) &&&
        ~~~(0x80000080 ||| 0x00ffff00) =
      0 := by
  have hArch :
      archEndian source &&& ~~~(0x80000080 ||| 0x00ffff00) =
        0 := by
    cases source <;> decide
  have hMasks :
      (0x00FFFF00 : Word) &&&
          (~~~endianType &&& ~~~(0x80000080 ||| 0x00ffff00)) =
        0 := by
    decide
  have hMarked :
      setEndian source (hintOfType type) &&&
          ~~~(0x80000080 ||| 0x00ffff00) =
        0 := by
    have hParts :
        setEndian source (hintOfType type) &&&
            ~~~(0x80000080 ||| 0x00ffff00) =
          (hintOfType type &&&
              (~~~endianType &&&
                ~~~(0x80000080 ||| 0x00ffff00))) |||
            (archEndian source &&&
              ~~~(0x80000080 ||| 0x00ffff00)) := by
      apply BitVec.eq_of_getLsbD_eq
      intro i hIndex
      simp only [setEndian, BitVec.getLsbD_or,
        BitVec.getLsbD_and]
      grind
    rw [hParts, hArch, hintOfType, BitVec.and_assoc, hMasks]
    simp
  unfold ByteOrder.translate
  split_ifs
  · exact hMarked
  · have hMask :
        (~~~(0x80000080 ||| 0x00ffff00) : Word) =
          (~~~(0x80000080 ||| 0x00ffff00) : Word).reverseBytes := by
      decide
    rw [hMask, ← Word.reverseBytes_and, hMarked]
    decide

end Daemon

namespace RegularMessage

open Daemon

variable (m : RegularMessage)

/- The message is in the name of the client of a session. -/
structure From (session : Session) : Prop where
  legal : session.Legal
  sender :
    m.sender.name.toList.map latin1Byte = session.groupName
  chosen : Chosen m.service

/- The header of a message, read and corrected by a daemon. -/
theorem corrected_header
    (order written source : ByteOrder)
    (body : List Byte) :
    ((MessageHeader.ofMemory order
        ((m.header written source).memory written ++
          body)).correct order).withEndian order =
      m.header order source := by
  have hMarked :
      (m.header written source).withEndian written =
        m.header written source := by
    apply MessageHeader.ext_fields <;>
      simp [MessageHeader.withEndian, header]
  have hHint :
      written.translate order
          (source.translate written
            (setEndian source (hintOfType m.type))) =
        source.translate order
          (setEndian source (hintOfType m.type)) := by
    cases written <;> cases order <;> cases source <;>
      simp [ByteOrder.translate]
  have hCorrect :=
    (m.header written source).correct_translate written order
  rw [hMarked] at hCorrect
  rw [MessageHeader.ofMemory_memory, hCorrect]
  apply MessageHeader.ext_fields <;>
    simp [MessageHeader.withEndian, header, hHint]

/- The name of the sender already ends with a zero. -/
theorem terminated_header
    (order source : ByteOrder) :
    (m.header order source).terminated =
      m.header order source := by
  have hZero :
      (groupBytes m.sender).set (maxGroupName - 1) 0 =
        groupBytes m.sender := by
    have hLength := m.senderSendable.1
    rw [← String.length_toList] at hLength
    have hKept :
        ((m.sender.name.toList.map latin1Byte).take
          maxGroupName).length ≤ maxGroupName - 1 := by
      simp only [List.length_take, List.length_map]
      omega
    unfold groupBytes
    dsimp only
    rw [List.set_append_right _ _ hKept, List.set_replicate_self]
  exact MessageHeader.ext_fields rfl hZero rfl rfl rfl

theorem toInt_lengths :
    (m.header .bigEndian .bigEndian).numGroups.toInt =
        m.groups.length ∧
      (m.header .bigEndian .bigEndian).dataLen.toInt =
        m.data.length := by
  have hShort := m.groups_short
  have hInt :
      ∀ n : Nat, n < 2 ^ 31 →
        (BitVec.ofNat 32 n).toInt = n := by
    intro n hSmall
    have hNat : (BitVec.ofNat 32 n).toNat = n := by
      rw [BitVec.toNat_ofNat]
      omega
    rw [BitVec.toInt_eq_toNat_of_lt (by omega), hNat]
  have hGroups :
      m.groups.length ≤ m.groups.length * maxGroupName :=
    Nat.le_mul_of_pos_right _ (by decide)
  exact ⟨hInt _ (by omega), hInt _ (by omega)⟩

theorem bodyLength_header
    (order source : ByteOrder) :
    (m.header order source).bodyLength =
      (groupsBytes m.groups ++ m.data).length := by
  have hGroups :
      (m.header order source).numGroups.toInt =
        m.groups.length :=
    m.toInt_lengths.1
  have hData :
      (m.header order source).dataLen.toInt =
        m.data.length :=
    m.toInt_lengths.2
  rw [MessageHeader.bodyLength, hGroups, hData,
    List.length_append, length_groupsBytes]
  have hComm := Nat.mul_comm maxGroupName m.groups.length
  omega

variable {m}
variable {session : Session}

/- The daemon accepts a header with at most 100 groups. -/
theorem From.acceptedHeader_frame
    (hFrom : m.From session)
    (written source : ByteOrder) :
    acceptedHeader session
        ((m.frame written source).take headerSize) =
      if m.groups.length ≤ maxGroupsPerMessage then
        some (m.header session.order source)
      else
        none := by
  have hTake :
      (m.frame written source).take headerSize =
        (m.header written source).memory written ++ [] := by
    rw [List.append_nil]
    exact List.take_left' (MessageHeader.length_memory _ _)
  have hGroups :
      (m.header session.order source).numGroups.toInt =
        m.groups.length :=
    m.toInt_lengths.1
  have hData :
      (m.header session.order source).dataLen.toInt =
        m.data.length :=
    m.toInt_lengths.2
  have hType :
      (m.header session.order source).type =
        setEndian session.order m.service :=
    rfl
  have hHint :
      (m.header session.order source).hint =
        source.translate session.order
          (setEndian source (hintOfType m.type)) :=
    rfl
  have hNames :
      gPrivateToNames
          (m.header session.order source).privateGroupName =
        some (session.privateName, session.procName) := by
    rcases groupBytes_of_sendable m.senderSendable with
      ⟨zeros, hBytes⟩
    have hName :
        (m.header session.order source).privateGroupName =
          groupBytes m.sender :=
      rfl
    rw [hName, hBytes, hFrom.sender]
    exact gPrivateToNames_groupName hFrom.legal zeros
  rcases hFrom.chosen with ⟨_, _, _, hOne, hNone⟩
  rcases countBitsSet_marked session.order m.service with
    ⟨hLow, hHigh⟩
  have hShort := m.short
  simp only [headerBytes, maxMessageLength] at hShort
  rw [acceptedHeader, hTake, m.corrected_header,
    sessValidateReadHeader]
  simp only [m.terminated_header, hType, hLow, hHigh, hOne,
    hNone, hNames, hGroups, hData, hHint,
    translated_hint_allowed]
  rw [if_neg (by decide), if_neg (by simp), if_neg (by simp)]
  by_cases hFew : m.groups.length ≤ maxGroupsPerMessage
  · -- the lengths are within the limits of the connection
    simp only [maxGroupName] at hShort
    rw [if_pos hFew, if_neg (by omega), if_neg (by simp),
      if_neg, if_neg]
    · simp only [maxMessageBodyLen, maxScatterElements,
        maxPacketSize, headerSize, maxGroupName]
      omega
    · simp only [maxMessageBodyLen, maxScatterElements,
        maxPacketSize]
      omega
  · rw [if_neg hFew, if_pos (by omega)]

end RegularMessage

end ReplicatedAccount

------------------------------------------------------------
-- What a Daemon Accepts from a Client
------------------------------------------------------------

namespace ReplicatedAccount

open Foundations SpreadConnection Daemon

namespace RegularMessage

variable {session : Session}

@[simp] theorem length_frame_eq
    (m : RegularMessage)
    (order source : ByteOrder) :
    (m.frame order source).length =
      headerSize + (groupsBytes m.groups ++ m.data).length := by
  rw [frame, List.length_append,
    Daemon.MessageHeader.length_memory]
  rfl

/- A message that a connection sends fits into the buffers. -/
theorem length_frame_lt_capacity
    (m : RegularMessage)
    (order source : ByteOrder) :
    (m.frame order source).length < capacity := by
  have hShort := m.short
  simp only [headerBytes, maxMessageLength] at hShort
  have hComm := Nat.mul_comm maxGroupName m.groups.length
  rw [length_frame_eq, List.length_append, length_groupsBytes]
  simp only [headerSize, capacity, maxScatterElements,
    packetBody, maxPacketSize, packetHeaderSize]
  simp only [maxGroupName] at *
  omega

theorem From.announced
    {m : RegularMessage}
    (hFrom : m.From session)
    (written source : ByteOrder) :
    Announced session (m.frame written source) := by
  refine ⟨?_, ?_⟩
  · rw [length_frame_eq]
    exact Nat.le_add_right _ _
  · intro head hAccepted
    rw [hFrom.acceptedHeader_frame] at hAccepted
    split_ifs at hAccepted
    cases hAccepted
    rw [length_frame_eq, m.bodyLength_header]

/- With these messages the client does not take its leave. -/
theorem From.not_isKillMess
    {m : RegularMessage}
    (hFrom : m.From session)
    (order source : ByteOrder) :
    isKillMess (m.header order source).type = false := by
  rcases hFrom.chosen with ⟨_, _, _, _, hNone⟩
  apply isKillMess_of_countBitsSet
  rw [← hNone]
  exact (countBitsSet_marked order m.service).2

theorem From.verdict_frame
    {m : RegularMessage}
    (hFrom : m.From session)
    (written source : ByteOrder) :
    verdict session (m.frame written source) =
      if m.groups.length ≤ maxGroupsPerMessage then
        .operational
      else
        .killed := by
  have hFits := m.length_frame_lt_capacity written source
  rw [length_frame_eq] at hFits
  rw [verdict, hFrom.acceptedHeader_frame]
  by_cases hFew : m.groups.length ≤ maxGroupsPerMessage
  · simp only [if_pos hFew]
    rw [m.bodyLength_header, if_pos hFits,
      hFrom.not_isKillMess]
    rfl
  · simp only [if_neg hFew]

theorem From.messageOf_frame
    {m : RegularMessage}
    (hFrom : m.From session)
    (hFew : m.groups.length ≤ maxGroupsPerMessage)
    (written source : ByteOrder) :
    messageOf session (m.frame written source) =
      some (m.header session.order source,
        groupsBytes m.groups ++ m.data) := by
  rw [messageOf, hFrom.acceptedHeader_frame, if_pos hFew,
    Option.map_some]
  congr 2
  exact List.drop_left' (MessageHeader.length_memory _ _)

/- The bytes of the messages that a session accepted. -/
theorem accepted_bytes
    (input : SessionInput)
    {n : Nat}
    (hMany : (items input).length ≤ n) :
    ((SessionReader.start input).run session n).accepted.map
        MessageObj.bytes =
      (((SessionReader.start input).run session n).accepted.map
        (MessageObj.view session.order)).map
          fun view => view.1.memory session.order ++ view.2 := by
  have hRun : Represents session _ _ :=
    run_represents_read input hMany
  rw [List.map_map]
  apply List.map_congr_left
  intro msg hMember
  exact (hRun.whole msg hMember).bytes_eq session.order

/- How a session fares with the messages of its client. -/
theorem run_of_multicast
    {ms : List RegularMessage}
    (hFrom : ∀ m ∈ ms, m.From session)
    {input : SessionInput}
    (hUnbroken : Unbroken (items input))
    (hBytes :
      contentOf (items input) =
        ms.flatMap fun m => m.frame .bigEndian .bigEndian)
    {n : Nat}
    (hMany : (items input).length ≤ n) :
    (((SessionReader.start input).run session n).status =
        .killed ↔
      ∃ m ∈ ms, maxGroupsPerMessage < m.groups.length) ∧
    (((SessionReader.start input).run session n).status =
        .operational ↔
      ∀ m ∈ ms, m.groups.length ≤ maxGroupsPerMessage) ∧
    ((SessionReader.start input).run session n).accepted.map
        MessageObj.bytes =
      (ms.takeWhile fun m =>
        decide (m.groups.length ≤ maxGroupsPerMessage)).map
          fun m => m.frame session.order .bigEndian := by
  have hVerdict :
      ∀ m ∈ ms,
        verdict session (m.frame .bigEndian .bigEndian) =
          if decide (m.groups.length ≤ maxGroupsPerMessage) then
            .operational
          else
            .killed := by
    intro m hMember
    rw [(hFrom m hMember).verdict_frame]
    simp
  rcases run_of_verdicts
      (fun m hMember => (hFrom m hMember).announced _ _)
      (by simp) (by simp) hVerdict hUnbroken hBytes hMany with
    ⟨hKilled, hLives, hAccepted⟩
  refine ⟨?_, ?_, ?_⟩
  · rw [hKilled]
    simp
  · rw [hLives]
    simp
  · rw [accepted_bytes input hMany, hAccepted]
    have hKept :
        ∀ m ∈ ms.takeWhile fun m =>
            decide (m.groups.length ≤ maxGroupsPerMessage),
          messageOf session (m.frame .bigEndian .bigEndian) =
            some (m.header session.order .bigEndian,
              groupsBytes m.groups ++ m.data) := by
      intro m hMember
      have hFew := List.mem_takeWhile_imp hMember
      rw [decide_eq_true_eq] at hFew
      exact
        (hFrom m ((List.takeWhile_prefix _).subset
          hMember)).messageOf_frame hFew _ _
    rw [List.filterMap_congr hKept, List.filterMap_eq_map',
      List.map_map]
    rfl

/-
  What the client of a session sends is accepted, however it
  arrives, up to the first message with more than 100 groups:
  the connection sends it, and the daemon kills the session.
  An accepted message is in the byte order of the daemon.
-/
theorem daemon_accepts_iff_few_groups
    (session : Session)
    (ms : List RegularMessage)
    (hFrom : ∀ m ∈ ms, m.From session)
    (input : SessionInput)
    (hUnbroken : Unbroken (items input))
    (hBytes :
      contentOf (items input) =
        ms.flatMap fun m => m.frame .bigEndian .bigEndian)
    (n : Nat)
    (hMany : (items input).length ≤ n) :
    (((SessionReader.start input).run session n).status =
        .operational ↔
      ∀ m ∈ ms, m.groups.length ≤ maxGroupsPerMessage) ∧
    (((SessionReader.start input).run session n).status =
        .killed ↔
      ∃ m ∈ ms, maxGroupsPerMessage < m.groups.length) ∧
    ((SessionReader.start input).run session n).accepted.map
        MessageObj.bytes =
      (ms.takeWhile fun m =>
        decide (m.groups.length ≤ maxGroupsPerMessage)).map
          fun m => m.frame session.order .bigEndian := by
  rcases run_of_multicast hFrom hUnbroken hBytes hMany with
    ⟨hKilled, hLives, hAccepted⟩
  exact ⟨hLives, hKilled, hAccepted⟩

/- The session of client 1 on the machine `localhost`. -/
def localSession : Session where
  order := .littleEndian
  procName := "localhost".toList.map latin1Byte
  privateName := "1".toList.map latin1Byte

theorem sendable_manyGroups :
    ∀ group ∈ List.replicate 101 (⟨"Group10"⟩ : SpreadGroup),
      group.Sendable := by
  intro group hMember
  rw [List.eq_of_mem_replicate hMember]
  exact sendable_accountGroup _ (List.mem_singleton_self _)

theorem headerBytes_manyGroups :
    headerBytes
          (List.replicate 101
            (⟨"Group10"⟩ : SpreadGroup)).length +
        ([] : List Byte).length ≤
      maxMessageLength := by
  decide

theorem isRegular_fifoMess :
    ServiceType.isRegular ServiceType.fifoMess = true :=
  rfl

theorem isMembership_fifoMess :
    ServiceType.isMembership ServiceType.fifoMess = false :=
  rfl

theorem fifoMess_unmarked :
    ServiceType.fifoMess &&& endianType = 0 :=
  rfl

/- A message of client 1 to more groups than are allowed. -/
def manyGroups : RegularMessage where
  service := ServiceType.fifoMess
  sender := ⟨"#1#localhost"⟩
  groups := List.replicate 101 ⟨"Group10"⟩
  type := 0
  data := []
  regular := isRegular_fifoMess
  noMembership := isMembership_fifoMess
  unmarked := fifoMess_unmarked
  senderSendable := sendable_privateGroup
  groupsSendable := sendable_manyGroups
  short := headerBytes_manyGroups

theorem from_localSession
    {m : RegularMessage}
    (hSender : m.sender = ⟨"#1#localhost"⟩)
    (hService : m.service = ServiceType.fifoMess) :
    m.From localSession where
  legal := by decide +kernel
  sender := by
    rw [hSender]
    decide +kernel
  chosen := by
    rw [hService]
    exact chosen_of_mem_services (by decide +kernel)

/-
  The first message arrives in two pieces and is accepted; the
  second one ends the session.
-/
theorem daemon_kills_many_groups :
    ((SessionReader.start
          [.chunk (((firstBroadcast [] (by simp)).frame
              .bigEndian .bigEndian).take 10),
            .interruption .again,
            .chunk (((firstBroadcast [] (by simp)).frame
                .bigEndian .bigEndian).drop 10 ++
              manyGroups.frame .bigEndian .bigEndian)]).run
        localSession 3361).status =
      .killed := by
  have hFirst :
      ((firstBroadcast [] (by simp)).frame .bigEndian
        .bigEndian).length = 80 := by
    rw [length_frame_eq, List.length_append, length_groupsBytes]
    rfl
  have hSecond :
      (manyGroups.frame .bigEndian .bigEndian).length =
        3280 := by
    rw [length_frame_eq, List.length_append, length_groupsBytes]
    rfl
  refine (daemon_accepts_iff_few_groups localSession
    [firstBroadcast [] (by simp), manyGroups] ?_ _ ?_ ?_ _
      ?_).2.1.mpr ?_
  · intro m hMember
    rcases List.mem_pair.mp hMember with rfl | rfl <;>
      exact from_localSession rfl rfl
  · intro hMember
    simp only [items_chunk, items_interruption, items_nil,
      List.mem_append, List.mem_cons, List.mem_map] at hMember
    simp at hMember
  · simp only [items_chunk, items_interruption, items_nil,
      List.append_nil, contentOf_append, contentOf_again,
      contentOf_bytes]
    rw [← List.append_assoc, List.take_append_drop]
    simp
  · simp only [items_chunk, items_interruption, items_nil,
      List.length_append, List.length_cons, List.length_map,
      List.length_nil, List.length_take, List.length_drop,
      hFirst, hSecond]
    decide
  · exact ⟨manyGroups, by simp, by decide⟩

end RegularMessage

end ReplicatedAccount
