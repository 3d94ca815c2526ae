import ReplicatedAccount.Spread.Bytes

/-
  Messages of the Spread connection: their service types, and
  what the connection reads out of a membership message.

  Key definitions include:
    * `ServiceType.isRegular`
    * `MembershipInfo`
    * `MembershipInfo.read`
    * `SpreadMessage`
    * `SpreadMessage.setService`
-/

------------------------------------------------------------
-- Service Types
------------------------------------------------------------

namespace ReplicatedAccount

open Foundations

/- The bit fields of `SpreadMessage`. -/
namespace ServiceType

def unreliableMess : Word := 0x00000001
def reliableMess : Word := 0x00000002
def fifoMess : Word := 0x00000004
def causalMess : Word := 0x00000008
def agreedMess : Word := 0x00000010
def safeMess : Word := 0x00000020
def regularMess : Word := 0x0000003f
def selfDiscard : Word := 0x00000040
def regMembMess : Word := 0x00001000
def membershipMess : Word := 0x00003f00
def rejectMess : Word := 0x00400000

/- `(serviceType & mask) != 0`. -/
def has (mask serviceType : Word) : Bool :=
  serviceType &&& mask != 0

def isReject : Word → Bool :=
  has rejectMess

def isRegular (serviceType : Word) : Bool :=
  has regularMess serviceType && !isReject serviceType

def isMembership (serviceType : Word) : Bool :=
  has membershipMess serviceType && !isReject serviceType

end ServiceType

end ReplicatedAccount

------------------------------------------------------------
-- Membership Information
------------------------------------------------------------

namespace ReplicatedAccount

open Foundations SpreadConnection

/- Members are null where no name could be read. -/
abbrev VirtualSynchronySet : Type :=
  List (Option SpreadGroup)

structure MembershipInfo where
  serviceType : Word
  group : Option SpreadGroup
  members : List (Option SpreadGroup)
  virtualSynchronySets : Option (List VirtualSynchronySet)
  myVirtualSynchronySet : Option VirtualSynchronySet
deriving DecidableEq, Repr

namespace MembershipInfo

/- An int in the byte order of the daemon. -/
def daemonInt
    (daemonEndianMismatch : Bool)
    (data : List Byte)
    (dataIndex : Nat) :
    Except SpreadThrown Word := do
  let i ← toInt data dataIndex
  pure (if daemonEndianMismatch then flip i else i)

/- The members of one set, from the given index on. -/
def readMembers
    (data : List Byte)
    (dataIndex numMembers : Nat) :
    VirtualSynchronySet :=
  (List.range numMembers).map
    fun j => toGroup data (dataIndex + j * maxGroupName)

/- Which set begins at the offset, and all sets in order. -/
def readSets
    (daemonEndianMismatch : Bool)
    (data : List Byte)
    (byteOffsetToLocalSet : Word)
    (byteIndexOfFirstSet : Nat) :
    Nat → Nat →
      Except SpreadThrown
        (Option VirtualSynchronySet × List VirtualSynchronySet)
| 0, _ => .ok (none, [])
| numSets + 1, dataIndex => do
    let numMembers ←
      daemonInt daemonEndianMismatch data dataIndex
    if numMembers.toInt < 0 then
      throw .negativeArraySize
    else
      let set :=
        readMembers data (dataIndex + 4) numMembers.toNat
      let isLocal :=
        byteOffsetToLocalSet.toInt =
          (dataIndex : Int) - byteIndexOfFirstSet
      let (later, sets) ←
        readSets daemonEndianMismatch data byteOffsetToLocalSet
          byteIndexOfFirstSet numSets
          (dataIndex + 4 + numMembers.toNat * maxGroupName)
      pure
        (later <|> (if isLocal then some set else none),
          set :: sets)

/- The data of a regular membership message. -/
def readData
    (daemonEndianMismatch : Bool)
    (data : List Byte) :
    Except SpreadThrown
      (Option VirtualSynchronySet ×
        List VirtualSynchronySet) := do
  -- the number of the group, which nobody asks for
  let _ ← daemonInt daemonEndianMismatch data 0
  let _ ← daemonInt daemonEndianMismatch data 4
  let _ ← daemonInt daemonEndianMismatch data 8
  let numSets ← daemonInt daemonEndianMismatch data 12
  let byteOffsetToLocalSet ←
    daemonInt daemonEndianMismatch data 16
  if numSets.toInt < 0 then
    throw .negativeArraySize
  else
    readSets daemonEndianMismatch data byteOffsetToLocalSet
      20 numSets.toNat 20

/- The constructor. -/
def read
    (serviceType : Word)
    (groups : List (Option SpreadGroup))
    (sender : Option SpreadGroup)
    (data : List Byte)
    (daemonEndianMismatch : Bool) :
    Except SpreadThrown MembershipInfo := do
  if ServiceType.has ServiceType.regMembMess serviceType then
    let (mySet, sets) ←
      readData daemonEndianMismatch data
    pure
      { serviceType := serviceType
        group := sender
        members := groups
        virtualSynchronySets := some sets
        myVirtualSynchronySet := mySet }
  else
    pure
      { serviceType := serviceType
        group := sender
        members := groups
        virtualSynchronySets := none
        myVirtualSynchronySet := none }

def isRegularMembership (info : MembershipInfo) : Bool :=
  ServiceType.has ServiceType.regMembMess info.serviceType

end MembershipInfo

end ReplicatedAccount

------------------------------------------------------------
-- Messages
------------------------------------------------------------

namespace ReplicatedAccount

open Foundations

/- A message to be sent, or one that was received. -/
structure SpreadMessage where
  serviceType : Word
  groups : List (Option SpreadGroup)
  sender : Option SpreadGroup
  data : List Byte
  type : BitVec 16
  endianMismatch : Bool
  membershipInfo : Option MembershipInfo
deriving DecidableEq, Repr

namespace SpreadMessage

open ServiceType

/- A new outgoing message is reliable. -/
def new : SpreadMessage where
  serviceType := reliableMess
  groups := []
  sender := none
  data := []
  type := 0
  endianMismatch := false
  membershipInfo := none

def isReject (message : SpreadMessage) : Bool :=
  ServiceType.isReject message.serviceType

/- The kind of service is replaced, the other bits stay. -/
def setService
    (service : Word)
    (message : SpreadMessage) :
    SpreadMessage :=
  { message with
    serviceType :=
      (message.serviceType &&& ~~~regularMess) ||| service }

def setUnreliable : SpreadMessage → SpreadMessage :=
  setService unreliableMess

def setReliable : SpreadMessage → SpreadMessage :=
  setService reliableMess

def setFifo : SpreadMessage → SpreadMessage :=
  setService fifoMess

def setCausal : SpreadMessage → SpreadMessage :=
  setService causalMess

def setAgreed : SpreadMessage → SpreadMessage :=
  setService agreedMess

def setSafe : SpreadMessage → SpreadMessage :=
  setService safeMess

def setSelfDiscard
    (discard : Bool)
    (message : SpreadMessage) :
    SpreadMessage :=
  { message with
    serviceType :=
      if discard then
        message.serviceType ||| selfDiscard
      else
        message.serviceType &&& ~~~selfDiscard }

def addGroup
    (group : SpreadGroup)
    (message : SpreadMessage) :
    SpreadMessage :=
  { message with groups := message.groups ++ [some group] }

def setData
    (data : List Byte)
    (message : SpreadMessage) :
    SpreadMessage :=
  { message with data := data }

def setType
    (type : BitVec 16)
    (message : SpreadMessage) :
    SpreadMessage :=
  { message with type := type }

end SpreadMessage

end ReplicatedAccount
