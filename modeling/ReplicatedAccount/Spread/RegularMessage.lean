import ReplicatedAccount.Spread.RoundTrip

/-
  Regular messages that the connection accepts and reads back
  as they were.

  Key definitions include:
    * `RegularMessage`
    * `RegularMessage.frame`
    * `RegularMessage.incoming`

  Key theorems include:
    * `RegularMessage.multicast_outgoing`
    * `RegularMessage.internalReceive_frame`
-/

------------------------------------------------------------
-- Regular Messages
------------------------------------------------------------

namespace ReplicatedAccount

open Foundations SpreadConnection

/-
  A regular message that is short enough to be sent, and
  whose names can be read back.
-/
structure RegularMessage where
  service : Word
  sender : SpreadGroup
  groups : List SpreadGroup
  type : BitVec 16
  data : List Byte
  regular : ServiceType.isRegular service = true
  noMembership : ServiceType.isMembership service = false
  unmarked : service &&& endianType = 0
  senderSendable : sender.Sendable
  groupsSendable : ∀ group ∈ groups, group.Sendable
  short :
    headerBytes groups.length + data.length ≤ maxMessageLength

namespace RegularMessage

variable (m : RegularMessage)

/-
  The header of the message in a daemon.  The hint is as the
  machine of the sender wrote it.
-/
def header (order source : ByteOrder) :
    Daemon.MessageHeader where
  type := Daemon.setEndian order m.service
  privateGroupName := groupBytes m.sender
  numGroups := BitVec.ofNat 32 m.groups.length
  hint :=
    source.translate order
      (Daemon.setEndian source (hintOfType m.type))
  dataLen := BitVec.ofNat 32 m.data.length
  nameLength := length_groupBytes m.sender

/- The header as the connection of a client reads it. -/
def headerRead (order source : ByteOrder) :
    SpreadConnection.Header where
  serviceType := Daemon.setEndian order m.service
  sender := some m.sender
  numGroups := BitVec.ofNat 32 m.groups.length
  hint :=
    source.translate .bigEndian
      (Daemon.setEndian source (hintOfType m.type))
  dataLen := BitVec.ofNat 32 m.data.length
  daemonEndianMismatch := decide (order ≠ .bigEndian)

/- The bytes a daemon of this order writes to a client. -/
def frame (order source : ByteOrder) : List Byte :=
  (m.header order source).memory order ++
    (groupsBytes m.groups ++ m.data)

/- The message as the client hands it to the connection. -/
def outgoing : SpreadMessage where
  serviceType := m.service
  groups := m.groups.map some
  sender := none
  data := m.data
  type := m.type
  endianMismatch := false
  membershipInfo := none

/- The message as the connection of a member receives it. -/
def incoming (source : ByteOrder) : SpreadMessage where
  serviceType := m.service
  groups := m.groups.map some
  sender := some m.sender
  data := m.data
  type := m.type
  endianMismatch := decide (source ≠ .bigEndian)
  membershipInfo := none

end RegularMessage

end ReplicatedAccount

------------------------------------------------------------
-- Writing and Reading
------------------------------------------------------------

namespace ReplicatedAccount

open Foundations Foundations.Method SpreadConnection

theorem ServiceType.has_setEndian
    (order : ByteOrder)
    (service mask : Word)
    (hDisjoint : mask &&& endianType = 0) :
    has mask (Daemon.setEndian order service) =
      has mask service := by
  unfold has
  rw [Daemon.setEndian_and order service mask hDisjoint]

theorem ServiceType.isReject_setEndian
    (order : ByteOrder)
    (service : Word) :
    isReject (Daemon.setEndian order service) =
      isReject service :=
  has_setEndian order service rejectMess (by decide)

theorem ServiceType.isRegular_setEndian
    (order : ByteOrder)
    (service : Word) :
    isRegular (Daemon.setEndian order service) =
      isRegular service := by
  unfold isRegular
  rw [isReject_setEndian,
    has_setEndian order service regularMess (by decide)]

theorem Daemon.setEndian_bigEndian
    {service : Word}
    (hUnmarked : service &&& endianType = 0) :
    setEndian .bigEndian service = service := by
  have hParts :
      (service &&& ~~~endianType) |||
          (service &&& endianType) =
        service := by
    apply BitVec.eq_of_getLsbD_eq
    intro i hIndex
    simp only [BitVec.getLsbD_or, BitVec.getLsbD_and,
      BitVec.getLsbD_not]
    grind
  rw [hUnmarked] at hParts
  exact hParts

theorem hintOfType_unmarked
    (type : BitVec 16) :
    hintOfType type &&& endianType = 0 := by
  have hMask : (0x00FFFF00 : Word) &&& endianType = 0 := by
    decide
  rw [hintOfType, BitVec.and_assoc, hMask]
  exact BitVec.and_zero

namespace RegularMessage

variable (m : RegularMessage)

theorem groups_short :
    m.groups.length * maxGroupName + m.data.length <
      2 ^ 31 := by
  have hShort := m.short
  simp only [headerBytes, maxMessageLength] at hShort
  have hComm := Nat.mul_comm maxGroupName m.groups.length
  omega

/- What the connection writes is a frame of its own order. -/
theorem multicast_outgoing :
    multicast true m.sender m.outgoing =
      .ok (m.frame .bigEndian .bigEndian) := by
  have hNames :
      (m.groups.map some).mapM groupBytes? =
        (.ok (m.groups.map groupBytes) :
          Except SpreadThrown _) := by
    induction m.groups with
    | nil => rfl
    | cons group groups ih =>
        simp [List.mapM_cons, groupBytes?, ih]
  have hShort := m.short
  unfold multicast
  simp only [outgoing, Bool.not_true, Bool.false_eq_true,
    if_false, List.length_map]
  rw [if_neg (Nat.not_lt.mpr hShort), hNames]
  simp only [except_ok_bind, except_pure, frame, header,
    Daemon.MessageHeader.memory, intBytes_eq_encode,
    Daemon.setEndian_bigEndian m.unmarked,
    Daemon.setEndian_bigEndian (hintOfType_unmarked m.type),
    ByteOrder.translate_self, List.append_assoc,
    groupsBytes, List.flatMap_def]

/-
  A frame is read as the message it was made of, whatever the
  byte orders of the daemon and of the sender.
-/
theorem internalReceive_frame
    (group : SpreadGroup)
    (order source : ByteOrder)
    (later : List (Byte ⊕ SocketTrouble)) :
    ReadsTo (internalReceive true group)
      ((m.frame order source).map .inl ++ later)
      (.ok (m.incoming source)) later := by
  have hHint :
      order.translate .bigEndian
          (source.translate order
            (Daemon.setEndian source (hintOfType m.type))) =
        source.translate .bigEndian
          (Daemon.setEndian source (hintOfType m.type)) := by
    cases order <;> cases source <;>
      simp [ByteOrder.translate]
  have hLength : (groupsBytes m.groups).length < 2 ^ 31 := by
    have hShort := m.groups_short
    rw [length_groupsBytes]
    omega
  have hCount :
      (groupsBytes m.groups).length / maxGroupName =
        m.groups.length := by
    rw [length_groupsBytes]
    exact Nat.mul_div_cancel _ (by decide)
  have hService :
      clearEndian (Daemon.setEndian order m.service) =
        m.service := by
    rw [Daemon.clearEndian_setEndian]
    have hBig := Daemon.setEndian_bigEndian m.unmarked
    simpa [Daemon.setEndian, Daemon.archEndian, clearEndian]
      using hBig
  have hRegular :
      ServiceType.isRegular
        (Daemon.setEndian order m.service) = true := by
    rw [ServiceType.isRegular_setEndian]
    exact m.regular
  have hReject :
      ServiceType.isReject
        (Daemon.setEndian order m.service) = false := by
    have hBoth := hRegular
    simp only [ServiceType.isRegular, Bool.and_eq_true,
      Bool.not_eq_true'] at hBoth
    exact hBoth.2
  have hMessage :
      received group (m.headerRead order source)
          (groupsBytes m.groups) m.data =
        .ok (m.incoming source) := by
    simp [received, headerRead,
      Daemon.typeOfHint_hintOfType source _ hRegular,
      hService, readMembership, m.noMembership,
      groupsOf_groupsBytes m.groupsSendable, incoming,
      Except.map]
  have hHeader :=
    Daemon.readHeader_memory order (m.header order source)
      m.service rfl m.senderSendable rfl
  simp only [header, hHint] at hHeader
  have hRest :
      ReadsTo
        (readRest group (m.headerRead order source))
        ((groupsBytes m.groups ++ m.data).map .inl ++ later)
        (.ok (m.incoming source)) later := by
    rw [← hMessage]
    exact readRest_readsTo group hReject
      (groupsBytes m.groups) m.data (by rw [hCount]; rfl)
      (by simp) hLength rfl
      (by have hShort := m.groups_short; omega) later
  unfold internalReceive
  simp only [Bool.not_true, Bool.false_eq_true, if_false]
  rw [frame, List.map_append, List.append_assoc]
  refine (readBuffer_readsTo _ _ _
    (Daemon.MessageHeader.length_memory _ _) _).bind ?_
  simp only [header, hHeader]
  exact (ReadsTo.ofExcept _ _).bind hRest

end RegularMessage

end ReplicatedAccount
