import ReplicatedAccount.Spread.Header

/-
  What the connection receives is what was written.

  A regular message arrives with the same groups, data, type
  and service, whichever byte orders its sender and the
  daemon of its receiver have, and however its bytes are
  divided on the way.

  Key definitions include:
    * `SpreadConnection.received`

  Key theorems include:
    * `SpreadConnection.readRest_readsTo`
    * `readHeader_memory`
-/

------------------------------------------------------------
-- Buffers of Groups
------------------------------------------------------------

namespace ReplicatedAccount

open Foundations Foundations.Method

namespace SpreadConnection

/- The names of all groups, one field after the other. -/
def groupsBytes (groups : List SpreadGroup) : List Byte :=
  groups.flatMap groupBytes

@[simp] theorem length_groupsBytes
    (groups : List SpreadGroup) :
    (groupsBytes groups).length =
      groups.length * maxGroupName := by
  induction groups with
  | nil => simp [groupsBytes]
  | cons group groups ih =>
      have hRest :
          (groups.flatMap groupBytes).length =
            groups.length * maxGroupName :=
        ih
      simp only [groupsBytes, List.flatMap_cons,
        List.length_append, length_groupBytes, hRest,
        List.length_cons, Nat.succ_mul]
      omega

/- A field of the buffer lies behind the fields before it. -/
theorem toGroup_groupsBytes
    {groups : List SpreadGroup}
    (hSendable : ∀ group ∈ groups, group.Sendable)
    (before after : List Byte)
    (i : Nat)
    (hIndex : i < groups.length) :
    toGroup (before ++ (groupsBytes groups ++ after))
        (before.length + i * maxGroupName) =
      some groups[i] := by
  induction groups generalizing before i with
  | nil => exact absurd hIndex (Nat.not_lt_zero i)
  | cons group groups ih =>
      have hFirst := hSendable group (by simp)
      have hBytes :
          groupsBytes (group :: groups) ++ after =
            groupBytes group ++ (groupsBytes groups ++ after) := by
        simp [groupsBytes]
      rw [hBytes]
      cases i with
      | zero =>
          simpa using
            toGroup_of_groupBytes hFirst before
              (groupsBytes groups ++ after)
      | succ i =>
          have hLater := ih
            (fun g hMember => hSendable g (by simp [hMember]))
            (before ++ groupBytes group) i
            (by simpa using hIndex)
          rw [List.append_assoc, List.length_append,
            length_groupBytes] at hLater
          rw [Nat.succ_mul, Nat.add_comm (i * maxGroupName),
            ← Nat.add_assoc]
          exact hLater

theorem groupsOf_groupsBytes
    {groups : List SpreadGroup}
    (hSendable : ∀ group ∈ groups, group.Sendable) :
    groupsOf (groupsBytes groups) = groups.map some := by
  have hCount :
      (groupsBytes groups).length / maxGroupName =
        groups.length := by
    rw [length_groupsBytes]
    exact Nat.mul_div_cancel _ (by decide)
  rw [groupsOf, hCount]
  apply List.ext_getElem (by simp)
  intro i hLeft hRight
  have hIndex : i < groups.length := by simpa using hRight
  have hField :=
    toGroup_groupsBytes hSendable [] [] i hIndex
  simpa using hField

end SpreadConnection

end ReplicatedAccount

------------------------------------------------------------
-- Reading What Follows a Header
------------------------------------------------------------

namespace ReplicatedAccount

open Foundations Foundations.Method

namespace SpreadConnection

theorem readBuffer_readsTo
    {length : Nat}
    (closed failed : String)
    (content : List Byte)
    (hLength : content.length = length)
    (later : List (Byte ⊕ SocketTrouble)) :
    ReadsTo (readBuffer length closed failed)
      (content.map .inl ++ later) (.ok content) later := by
  subst hLength
  exact ReadsTo.read_complete _ _ content later

/- The message made of the parts that were read. -/
def received
    (group : SpreadGroup)
    (header : Header)
    (names data : List Byte) :
    Except SpreadThrown SpreadMessage :=
  let hinted := typeOfHint header.serviceType header.hint
  let serviceType := clearEndian header.serviceType
  (readMembership group serviceType (groupsOf names)
    header.sender data header.daemonEndianMismatch
      hinted.1).map fun found =>
        { serviceType := serviceType
          groups := groupsOf names
          sender := header.sender
          data := data
          type := found.2
          endianMismatch := hinted.2
          membershipInfo := found.1 }

/-
  The rest of a message that is no reject message.  The group
  names and the data have the lengths the header says.
-/
theorem readRest_readsTo
    (group : SpreadGroup)
    {header : Header}
    (hReject : ServiceType.isReject header.serviceType = false)
    (names data : List Byte)
    (hNames :
      header.numGroups = BitVec.ofNat 32 (names.length / maxGroupName))
    (hWhole : maxGroupName ∣ names.length)
    (hShort : names.length < 2 ^ 31)
    (hData : header.dataLen = BitVec.ofNat 32 data.length)
    (hDataShort : data.length < 2 ^ 31)
    (later : List (Byte ⊕ SocketTrouble)) :
    ReadsTo (readRest group header)
      ((names ++ data).map .inl ++ later)
      (received group header names data) later := by
  have hSize :
      header.numGroups * BitVec.ofNat 32 maxGroupName =
        BitVec.ofNat 32 names.length := by
    rw [hNames, ← BitVec.ofNat_mul,
      Nat.div_mul_cancel hWhole]
  have hInt :
      ∀ n : Nat, n < 2 ^ 31 →
        (BitVec.ofNat 32 n).toInt = n ∧
          (BitVec.ofNat 32 n).toNat = n := by
    intro n hSmall
    have hNat : (BitVec.ofNat 32 n).toNat = n := by
      rw [BitVec.toNat_ofNat]
      omega
    refine ⟨?_, hNat⟩
    rw [BitVec.toInt_eq_toNat_of_lt (by omega), hNat]
  have hCount := hInt (names.length / maxGroupName)
    (Nat.lt_of_le_of_lt (Nat.div_le_self _ _) hShort)
  have hNamesInt := hInt names.length hShort
  have hDataInt := hInt data.length hDataShort
  have hValid :
      ¬ (header.numGroups.toInt < 0 ∨
        header.dataLen.toInt < 0) := by
    rw [hNames, hData, hCount.1, hDataInt.1]
    omega
  have hGroups :
      ReadsTo (readGroups header.numGroups)
        (names.map .inl ++ (data.map .inl ++ later))
        (.ok (groupsOf names)) (data.map .inl ++ later) := by
    unfold readGroups
    simp only [hSize, hNamesInt.1, hNamesInt.2]
    rw [if_neg (by omega)]
    exact (readBuffer_readsTo _ _ names rfl _).bind
      (ReadsTo.pure _ _)
  have hRead :
      ReadsTo
        (readBuffer header.dataLen.toNat
          "Connection close while reading data" "read():")
        (data.map .inl ++ later) (.ok data) later := by
    apply readBuffer_readsTo
    rw [hData, hDataInt.2]
  unfold readRest
  rw [if_neg hValid, List.map_append, List.append_assoc]
  simp only [readOldType, hReject, Bool.false_eq_true,
    if_false, pure_bind]
  refine hGroups.bind (hRead.bind ?_)
  unfold received
  cases hMembership :
      readMembership group (clearEndian header.serviceType)
        (groupsOf names) header.sender data
        header.daemonEndianMismatch
        (typeOfHint header.serviceType header.hint).1 with
  | error e =>
      simp only [hMembership]
      exact (ReadsTo.ofExcept _ _).bind_error
  | ok result =>
      simp only [hMembership]
      exact (ReadsTo.ofExcept _ _).bind (ReadsTo.pure _ _)

end SpreadConnection

end ReplicatedAccount

------------------------------------------------------------
-- Reading a Header
------------------------------------------------------------

namespace ReplicatedAccount

open Foundations SpreadConnection

namespace Daemon

theorem toInt_at
    (order : ByteOrder)
    (w : Word)
    (before after : List Byte)
    {buffer : List Byte}
    {index : Nat}
    (hBuffer : buffer = before ++ (order.encode w ++ after))
    (hIndex : index = before.length) :
    toInt buffer index =
      .ok (order.translate .bigEndian w) := by
  subst hBuffer hIndex
  exact toInt_of_encode order w before after

/- A header that bears the byte order of its daemon. -/
theorem readHeader_memory
    (order : ByteOrder)
    (head : MessageHeader)
    (service : Word)
    (hType : head.type = setEndian order service)
    {sender : SpreadGroup}
    (hSender : sender.Sendable)
    (hName : head.privateGroupName = groupBytes sender) :
    readHeader (head.memory order) =
      .ok
        { serviceType := setEndian order service
          sender := some sender
          numGroups := head.numGroups
          hint := order.translate .bigEndian head.hint
          dataLen := head.dataLen
          daemonEndianMismatch :=
            decide (order ≠ .bigEndian) } := by
  have hMemory :
      head.memory order =
        order.encode head.type ++
          (groupBytes sender ++
            (order.encode head.numGroups ++
              (order.encode head.hint ++
                order.encode head.dataLen))) := by
    rw [MessageHeader.memory, hName]
  have hServiceType :
      toInt (head.memory order) 0 =
        .ok (order.translate .bigEndian head.type) :=
    toInt_at order head.type [] _ (by rw [hMemory]; rfl) rfl
  have hGroup :
      toGroup (head.memory order) 4 = some sender := by
    rw [hMemory]
    simpa using
      toGroup_of_groupBytes hSender (order.encode head.type)
        (order.encode head.numGroups ++
          (order.encode head.hint ++
            order.encode head.dataLen))
  have hNumGroups :
      toInt (head.memory order) (4 + maxGroupName) =
        .ok (order.translate .bigEndian head.numGroups) :=
    toInt_at order head.numGroups
      (order.encode head.type ++ groupBytes sender)
      (order.encode head.hint ++ order.encode head.dataLen)
      (by rw [hMemory, List.append_assoc])
      (by simp)
  have hHint :
      toInt (head.memory order) (8 + maxGroupName) =
        .ok (order.translate .bigEndian head.hint) :=
    toInt_at order head.hint
      (order.encode head.type ++
        (groupBytes sender ++ order.encode head.numGroups))
      (order.encode head.dataLen)
      (by rw [hMemory]; simp only [List.append_assoc])
      (by simp [maxGroupName])
  have hDataLen :
      toInt (head.memory order) (12 + maxGroupName) =
        .ok (order.translate .bigEndian head.dataLen) :=
    toInt_at order head.dataLen
      (order.encode head.type ++
        (groupBytes sender ++
          (order.encode head.numGroups ++
            order.encode head.hint)))
      []
      (by rw [hMemory]; simp only [List.append_assoc,
        List.append_nil])
      (by simp [maxGroupName])
  have hBits :
      SpreadConnection.sameEndian
          (order.translate .bigEndian head.type) =
        decide (order = .bigEndian) := by
    rw [hType]
    exact sameEndian_translate order .bigEndian service
  simp only [readHeader, hServiceType, hGroup, hNumGroups,
    hHint, hDataLen, except_ok_bind, hBits]
  by_cases hSame : order = .bigEndian
  · subst hSame
    simp [hType]
  · simp [hSame, flip_translate hSame, hType]

/- The type and the mismatch that a hint stands for. -/
theorem typeOfHint_hintOfType
    (source : ByteOrder)
    (serviceType : Word)
    (hRegular : ServiceType.isRegular serviceType = true)
    (type : BitVec 16) :
    typeOfHint serviceType
        (source.translate .bigEndian
          (setEndian source (hintOfType type))) =
      (type, decide (source ≠ .bigEndian)) := by
  have hBits :
      SpreadConnection.sameEndian
          (source.translate .bigEndian
            (setEndian source (hintOfType type))) =
        decide (source = .bigEndian) :=
    sameEndian_translate source .bigEndian _
  have hUnmarked :
      clearEndian (hintOfType type) = hintOfType type := by
    apply BitVec.eq_of_getLsbD_eq
    intro i hIndex
    have hMask :
        ∀ i < 32,
          (0x00FFFF00 : Word).getLsbD i = true →
            (~~~endianType).getLsbD i = true := by
      decide
    have hBit := hMask i hIndex
    simp only [clearEndian, hintOfType, BitVec.getLsbD_and]
    grind
  have hValue :
      (((hintOfType type).sshiftRight 8) &&&
        0x0000FFFF).setWidth 16 = type := by
    apply BitVec.eq_of_getLsbD_eq
    intro i hIndex
    have hHigh :
        ∀ i < 32,
          (0x00FFFF00 : Word).getLsbD i =
            decide (8 ≤ i ∧ i < 24) := by
      decide
    have hLow :
        ∀ i < 32,
          (0x0000FFFF : Word).getLsbD i = decide (i < 16) := by
      decide
    have hFirst := hHigh (8 + i) (by omega)
    have hSecond := hLow i (by omega)
    simp only [hintOfType, BitVec.getLsbD_setWidth,
      BitVec.getLsbD_and, BitVec.getLsbD_sshiftRight,
      BitVec.getLsbD_shiftLeft, BitVec.getLsbD_signExtend]
    grind
  have hMarked :=
    clearEndian_setEndian source (hintOfType type)
  unfold typeOfHint
  rw [hRegular]
  by_cases hSame : source = .bigEndian
  · subst hSame
    simp only [ByteOrder.translate_self] at hBits
    simpa [hBits, hMarked, hUnmarked] using hValue
  · simpa [hBits, hSame, flip_translate hSame, hMarked,
      hUnmarked] using hValue

end Daemon

end ReplicatedAccount
