import ReplicatedAccount.Foundations.SegmentedStream
import ReplicatedAccount.Spread.Message

/-
  What the Spread connection writes to its socket for a
  message, and how it reads the next message from it.

  Key definitions include:
    * `SpreadConnection.multicast`
    * `SpreadConnection.Header`
    * `SpreadConnection.internalReceive`
-/

------------------------------------------------------------
-- Sending
------------------------------------------------------------

namespace ReplicatedAccount

open Foundations

namespace SpreadConnection

/- The type of a message, where its receiver looks for it. -/
def hintOfType (type : BitVec 16) : Word :=
  ((type.signExtend 32) <<< 8) &&& 0x00FFFF00

/- `toBytes` of a group that may be null. -/
def groupBytes? :
    Option SpreadGroup → Except SpreadThrown (List Byte)
| some group => .ok (groupBytes group)
| none => .error .nullPointer

/- The bytes `multicast` writes for the private group. -/
def multicast
    (connected : Bool)
    (group : SpreadGroup)
    (message : SpreadMessage) :
    Except SpreadThrown (List Byte) :=
  if !connected then
    .error (.spreadException "Not connected.")
  else if headerBytes message.groups.length +
      message.data.length > maxMessageLength then
    .error (.spreadException
      "Message is too long for a Spread Message")
  else do
    let names ← message.groups.mapM groupBytes?
    pure
      (intBytes message.serviceType ++
        groupBytes group ++
          intBytes (BitVec.ofNat 32 message.groups.length) ++
            intBytes (hintOfType message.type) ++
              intBytes (BitVec.ofNat 32 message.data.length) ++
                (names.flatten ++ message.data))

end SpreadConnection

end ReplicatedAccount

------------------------------------------------------------
-- Receiving
------------------------------------------------------------

namespace ReplicatedAccount

open Foundations Foundations.Method

/- Why a `read` of the socket may end without bytes. -/
inductive SocketTrouble where
  -- the socket timeout of 100 ms expires
  | timeout
  | failure (description : String)
deriving DecidableEq, Repr

/- What is still to come on the socket. -/
abbrev SocketInput : Type :=
  List (Arrival Byte SocketTrouble)

namespace SpreadConnection

/- A method that reads from the socket. -/
abbrev Reading (α : Type) : Type :=
  Method SocketInput Empty SpreadThrown α

/-
  The loops around `read`.  A timeout is thrown on; bytes that
  were read before it are lost with their buffer.
-/
def readBuffer
    (length : Nat)
    (closed failed : String) :
    Reading (List Byte) :=
  Method.read length (.spreadException closed) fun
    | .timeout => .interruptedRead
    | .failure description =>
        .spreadException (failed ++ description)

structure Header where
  serviceType : Word
  sender : Option SpreadGroup
  numGroups : Word
  hint : Word
  dataLen : Word
  daemonEndianMismatch : Bool
deriving DecidableEq, Repr

/- The fields of the header, flipped where they have to be. -/
def readHeader
    (header : List Byte) :
    Except SpreadThrown Header := do
  let serviceType ← toInt header 0
  let sender := toGroup header 4
  let numGroups ← toInt header (4 + maxGroupName)
  let hint ← toInt header (8 + maxGroupName)
  let dataLen ← toInt header (12 + maxGroupName)
  if sameEndian serviceType = false then
    pure
      { serviceType := flip serviceType
        sender := sender
        numGroups := flip numGroups
        hint := hint
        dataLen := flip dataLen
        daemonEndianMismatch := true }
  else
    pure
      { serviceType := serviceType
        sender := sender
        numGroups := numGroups
        hint := hint
        dataLen := dataLen
        daemonEndianMismatch := false }

/- The type in the hint, and whether its sender differs. -/
def typeOfHint
    (serviceType hint : Word) :
    BitVec 16 × Bool :=
  if ServiceType.isRegular serviceType ||
      ServiceType.isReject serviceType then
    let endianMismatch := !sameEndian hint
    let hint := if endianMismatch then flip hint else hint
    ((((clearEndian hint).sshiftRight 8) &&&
      0x0000FFFF).setWidth 16, endianMismatch)
  else
    (-1, false)

/- A reject message carries the service type it had before. -/
def readOldType
    (serviceType : Word) :
    Reading Word :=
  if ServiceType.isReject serviceType then do
    let oldtypeBuffer ←
      readBuffer 4 "Connection closed while reading groups"
        "read(): "
    let oldType ← ofExcept (toInt oldtypeBuffer 0)
    let oldType :=
      if sameEndian serviceType = false then
        flip oldType
      else
        oldType
    pure (ServiceType.rejectMess ||| oldType)
  else
    pure serviceType

/- The names in the buffer, one for each 32 bytes. -/
def groupsOf
    (buffer : List Byte) :
    List (Option SpreadGroup) :=
  (List.range (buffer.length / maxGroupName)).map
    fun i => toGroup buffer (i * maxGroupName)

/- The size of the buffer is an int and may wrap. -/
def readGroups
    (numGroups : Word) :
    Reading (List (Option SpreadGroup)) := do
  let size := numGroups * BitVec.ofNat 32 maxGroupName
  if size.toInt < 0 then
    throw .negativeArraySize
  else
    let buffer ←
      readBuffer size.toNat
        "Connection closed while reading groups" "read(): "
    pure (groupsOf buffer)

/- `Vector.indexOf` of the group of the connection. -/
def indexOf
    (group : SpreadGroup) :
    List (Option SpreadGroup) →
      Except SpreadThrown (BitVec 16)
| groups =>
    match groups.findIdx? (fun g => g.all (· == group)) with
    | none => .ok (-1)
    | some i =>
        match groups[i]? with
        | some (some _) => .ok (BitVec.ofNat 16 i)
        | _ => .error .nullPointer

/-
  The membership information of a membership message, and its
  type, which for a regular one is the place of the group.
-/
def readMembership
    (group : SpreadGroup)
    (serviceType : Word)
    (groups : List (Option SpreadGroup))
    (sender : Option SpreadGroup)
    (data : List Byte)
    (daemonEndianMismatch : Bool)
    (type : BitVec 16) :
    Except SpreadThrown
      (Option MembershipInfo × BitVec 16) :=
  if ServiceType.isMembership serviceType then do
    let info ←
      MembershipInfo.read serviceType groups sender data
        daemonEndianMismatch
    if info.isRegularMembership then
      let index ← indexOf group groups
      pure (some info, index)
    else
      pure (some info, type)
  else
    .ok (none, type)

/- What follows the header. -/
def readRest
    (group : SpreadGroup)
    (header : Header) :
    Reading SpreadMessage :=
  if header.numGroups.toInt < 0 ∨
      header.dataLen.toInt < 0 then
    throw
      (.spreadException "Illegal Message: Message Dropped")
  else do
    let (type, endianMismatch) :=
      typeOfHint header.serviceType header.hint
    let serviceType ← readOldType header.serviceType
    let groups ← readGroups header.numGroups
    let serviceType := clearEndian serviceType
    let data ←
      readBuffer header.dataLen.toNat
        "Connection close while reading data" "read():"
    let (membershipInfo, type) ←
      ofExcept
        (readMembership group serviceType groups header.sender
          data header.daemonEndianMismatch type)
    pure
      { serviceType := serviceType
        groups := groups
        sender := header.sender
        data := data
        type := type
        endianMismatch := endianMismatch
        membershipInfo := membershipInfo }

/- `internal_receive` of the connection with this group. -/
def internalReceive
    (connected : Bool)
    (group : SpreadGroup) :
    Reading SpreadMessage :=
  if !connected then
    throw (.spreadException "Not connected.")
  else do
    let buffer ←
      readBuffer (maxGroupName + 16)
        "Connection closed while reading header" "read(): "
    let header ← ofExcept (readHeader buffer)
    readRest group header

end SpreadConnection

end ReplicatedAccount
