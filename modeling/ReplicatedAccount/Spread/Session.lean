import ReplicatedAccount.Spread.RegularMessage

/-
  How a daemon reads the messages of a client from a socket
  that does not block.

  `Sess_read` is called when there is something to read.  It
  returns as soon as the socket has nothing more, and goes on
  at the next call where it stopped: in the header, or in one
  of the fragments of the body.

  Key definitions include:
    * `Daemon.recv`
    * `Daemon.gPrivateToNames`
    * `Daemon.sessValidateReadHeader`
    * `Daemon.MessageObj`
    * `Daemon.sessRead`
    * `Daemon.SessionReader`
-/

------------------------------------------------------------
-- Sockets That Do Not Block
------------------------------------------------------------

namespace ReplicatedAccount

open Foundations SpreadConnection

namespace Daemon

/- Why `recv` returns no bytes. -/
inductive RecvTrouble where
  -- `EINTR`, `EAGAIN` or `EWOULDBLOCK`
  | again
  -- the end of the stream, or another error
  | failed
deriving DecidableEq, Repr

abbrev SessionInput : Type :=
  List (Arrival Byte RecvTrouble)

inductive Received where
  | bytes (content : List Byte)
  | trouble (cause : RecvTrouble)
deriving DecidableEq, Repr

/- `recv` of at most `n` bytes, as many as lie together. -/
def recv (n : Nat) : SessionInput → Received × SessionInput
| [] => (.trouble .again, [])
| .interruption cause :: rest => (.trouble cause, rest)
| .chunk content :: rest =>
    if content = [] then
      recv n rest
    else
      (.bytes (content.take n), .chunk (content.drop n) :: rest)

------------------------------------------------------------
-- Limits
------------------------------------------------------------

def maxPacketSize : Nat := 1472

/- `sizeof(packet_header)`. -/
def packetHeaderSize : Nat := 36

/- `sizeof(packet_body)`. -/
def packetBody : Nat := maxPacketSize - packetHeaderSize

def maxScatterElements : Nat := 100

/- The source takes a packet header for 32 bytes here. -/
def maxMessageBodyLen : Nat :=
  maxScatterElements * (maxPacketSize - 32)

def maxGroupsPerMessage : Nat := 100

def maxPrivateName : Nat := 10

/- Including the terminating zero. -/
def maxProcName : Nat := 20

/- `sizeof(message_header)`. -/
def headerSize : Nat := maxGroupName + 16

end Daemon

end ReplicatedAccount

------------------------------------------------------------
-- Headers in Memory
------------------------------------------------------------

namespace ReplicatedAccount

open Foundations SpreadConnection

namespace Daemon

/- The word that a machine finds at an index. -/
def wordAt
    (order : ByteOrder)
    (buffer : List Byte)
    (index : Nat) :
    Word :=
  order.decode (buffer.getD index 0)
    (buffer.getD (index + 1) 0) (buffer.getD (index + 2) 0)
      (buffer.getD (index + 3) 0)

/- The first bytes of a buffer, as a header. -/
def MessageHeader.ofMemory
    (order : ByteOrder)
    (buffer : List Byte) :
    MessageHeader where
  type := wordAt order buffer 0
  privateGroupName := (buffer.drop 4).takeD maxGroupName 0
  numGroups := wordAt order buffer (4 + maxGroupName)
  hint := wordAt order buffer (8 + maxGroupName)
  dataLen := wordAt order buffer (12 + maxGroupName)
  nameLength := List.takeD_length _ _ _

/- The bits of a field from one index to another. -/
def countBitsSet
    (field : Word)
    (firstIndex lastIndex : Nat) :
    Nat :=
  (List.range (lastIndex - firstIndex)).countP
    fun i => field.getLsbD (firstIndex + i)

/- A character that a name may have: not below `'$'`. -/
def legalNameByte (b : Byte) : Bool :=
  decide ('#'.toNat < b.toNat ∧ b.toNat ≤ '~'.toNat)

def hashByte : Byte := BitVec.ofNat 8 '#'.toNat

/-
  The private name and the daemon of a private group, which
  stand behind one `#` each.
-/
def gPrivateToNames
    (privateGroupName : List Byte) :
    Option (List Byte × List Byte) :=
  let rest := (privateGroupName.drop 1).takeWhile (· ≠ 0)
  let privateName := rest.takeWhile (· ≠ hashByte)
  let procName := (rest.dropWhile (· ≠ hashByte)).drop 1
  if rest.contains hashByte ∧
      privateGroupName.head? = some hashByte ∧
      1 ≤ privateName.length ∧
      privateName.length ≤ maxPrivateName ∧
      1 ≤ procName.length ∧ procName.length < maxProcName ∧
      (privateName ++ procName).all legalNameByte then
    some (privateName, procName)
  else
    none

/- The part of a daemon's session that reading depends on. -/
structure Session where
  -- the byte order of the daemon's machine
  order : ByteOrder
  -- `My.name`
  procName : List Byte
  -- the name of the session
  privateName : List Byte
deriving DecidableEq, Repr

/- The last byte of the name is set to zero. -/
def MessageHeader.terminated
    (head : MessageHeader) :
    MessageHeader where
  type := head.type
  privateGroupName :=
    head.privateGroupName.set (maxGroupName - 1) 0
  numGroups := head.numGroups
  hint := head.hint
  dataLen := head.dataLen
  nameLength := by
    rw [List.length_set, head.nameLength]

/- A validated header, or the reason to kill the session. -/
def sessValidateReadHeader
    (session : Session)
    (head : MessageHeader) :
    Option MessageHeader :=
  let typeBits := countBitsSet head.type 0 6
  let membBits := countBitsSet head.type 16 19
  if typeBits > 1 ∨ membBits > 1 ∨ typeBits + membBits ≠ 1 then
    none
  else
    let head := head.terminated
    match gPrivateToNames head.privateGroupName with
    | none => none
    | some (privateName, procName) =>
        if procName ≠ session.procName then
          none
        else if privateName ≠ session.privateName then
          none
        else if head.numGroups.toInt < 0 ∨
            head.numGroups.toInt > maxGroupsPerMessage then
          none
        else if head.hint &&& ~~~(0x80000080 ||| 0x00ffff00) ≠
            0 then
          none
        else if head.dataLen.toInt < 0 ∨
            head.dataLen.toInt > maxMessageBodyLen then
          none
        else if head.dataLen.toInt +
              maxGroupName * head.numGroups.toInt >
            maxMessageBodyLen - headerSize then
          none
        else
          some head

/- The length of everything behind a header. -/
def MessageHeader.bodyLength (head : MessageHeader) : Nat :=
  (head.dataLen.toInt +
    maxGroupName * head.numGroups.toInt).toNat

end Daemon

end ReplicatedAccount

------------------------------------------------------------
-- Messages in Fragments
------------------------------------------------------------

namespace ReplicatedAccount

open Foundations SpreadConnection

namespace Daemon

/- A buffer, by the bytes that were written to it. -/
structure ScatElement where
  buf : List Byte
  len : Nat
deriving DecidableEq, Repr

structure MessageObj where
  elements : List ScatElement
deriving DecidableEq, Repr

namespace MessageObj

/- `Message_new_message`. -/
def new : MessageObj where
  elements := [⟨[], headerSize⟩]

/- All bytes of the message, the header in front. -/
def bytes (msg : MessageObj) : List Byte :=
  msg.elements.flatMap ScatElement.buf

/- `Message_get_message_header`. -/
def header
    (order : ByteOrder)
    (msg : MessageObj) :
    MessageHeader :=
  MessageHeader.ofMemory order
    ((msg.elements.headD ⟨[], 0⟩).buf)

/- Bytes are written to the buffer of an element. -/
def write
    (msg : MessageObj)
    (element byte : Nat)
    (content : List Byte) :
    MessageObj where
  elements :=
    msg.elements.modify element fun e =>
      { e with buf := e.buf.take byte ++ content }

/- The header is changed where it lies. -/
def setHeader
    (order : ByteOrder)
    (msg : MessageObj)
    (head : MessageHeader) :
    MessageObj where
  elements :=
    msg.elements.modify 0 fun e =>
      { e with
        buf := head.memory order ++ e.buf.drop headerSize }

/- `Message_add_scat_element`; none is a failed assertion. -/
def addScatElement (msg : MessageObj) : Option MessageObj :=
  if msg.elements.length < maxScatterElements then
    some ⟨msg.elements ++ [⟨[], packetBody⟩]⟩
  else
    none

def setLen
    (msg : MessageObj)
    (element len : Nat) :
    MessageObj where
  elements := msg.elements.modify element fun e => { e with len }

/-
  `Message_element_len_fixup`; none is a write behind the end
  of the array.  An element of the array behind the last one in
  use is not part of the message.
-/
def elementLenFixup
    (order : ByteOrder)
    (msg : MessageObj) :
    Option MessageObj :=
  let totalSize := (msg.header order).bodyLength + headerSize
  let sumSize := packetBody * (msg.elements.length - 1)
  let last := totalSize / packetBody
  if maxScatterElements ≤ last then
    none
  else if totalSize < packetBody then
    some (msg.setLen last totalSize)
  else
    some
      ((msg.setLen 0 packetBody).setLen last
        (totalSize - sumSize))

end MessageObj

end Daemon

end ReplicatedAccount

------------------------------------------------------------
-- Reading a Message
------------------------------------------------------------

namespace ReplicatedAccount

open Foundations SpreadConnection

namespace Daemon

/- `struct partial_message_info`. -/
structure PartialMessageInfo where
  inMessHead : Bool
  curElement : Nat
  curByte : Nat
  totalBytes : Nat
deriving DecidableEq, Repr

/- The fields `read` and `read_mess` of a session. -/
structure ReadState where
  read : PartialMessageInfo
  readMess : Option MessageObj
deriving DecidableEq, Repr

/- Nothing has been read of the next message. -/
def ReadState.empty : ReadState where
  read := ⟨true, 0, 0, 0⟩
  readMess := none

/- How a call of `Sess_read` ends. -/
inductive ReadOutcome where
  -- the message is not complete
  | returned (state : ReadState)
  | complete (msg : MessageObj)
  -- `Sess_kill`
  | killed
  -- an assertion of the daemon failed
  | aborted
  -- the daemon wrote behind the end of an array
  | overrun
deriving DecidableEq, Repr

/-
  The loop over the fragments.  Every pass takes bytes, so
  that the number of the missing bytes bounds the passes.
-/
def readBody
    (order : ByteOrder) :
    Nat → PartialMessageInfo → MessageObj → Nat →
      SessionInput → ReadOutcome × SessionInput
| 0, read, msg, _, input =>
    (.returned ⟨read, some msg⟩, input)
| passes + 1, read, msg, remain, input =>
    if remain = 0 then
      match msg.elementLenFixup order with
      | none => (.overrun, input)
      | some msg => (.complete msg, input)
    else
      let allocated :=
        if msg.elements.length ≤ read.curElement then
          msg.addScatElement
        else
          some msg
      match allocated with
      | none => (.aborted, input)
      | some msg =>
          let toRead := min (packetBody - read.curByte) remain
          match recv toRead input with
          | (.bytes content, rest) =>
              let msg :=
                msg.write read.curElement read.curByte content
              let read :=
                { read with
                  totalBytes :=
                    read.totalBytes + content.length }
              if content.length = toRead then
                readBody order passes
                  { read with
                    curByte := 0
                    curElement := read.curElement + 1 }
                  msg (remain - toRead) rest
              else
                (.returned
                  ⟨{ read with
                    curByte := read.curByte + content.length },
                    some msg⟩,
                  rest)
          | (.trouble .again, rest) =>
              (.returned ⟨read, some msg⟩, rest)
          | (.trouble .failed, rest) => (.killed, rest)

/- What is missing of the body is read. -/
def readRemaining
    (order : ByteOrder)
    (read : PartialMessageInfo)
    (msg : MessageObj)
    (input : SessionInput) :
    ReadOutcome × SessionInput :=
  let remain := (msg.header order).bodyLength - read.totalBytes
  readBody order (remain + 1) read msg remain input

/- The first part of `Sess_read`: a message is read. -/
def sessRead
    (session : Session)
    (state : ReadState)
    (input : SessionInput) :
    ReadOutcome × SessionInput :=
  let read := state.read
  let msg := state.readMess.getD MessageObj.new
  if read.inMessHead then
    let remain := headerSize - read.curByte
    match recv remain input with
    | (.bytes content, rest) =>
        let msg := msg.write 0 read.curByte content
        let read :=
          { read with curByte := read.curByte + content.length }
        if content.length = remain then
          let head :=
            ((msg.header session.order).correct
              session.order).withEndian session.order
          match sessValidateReadHeader session head with
          | none => (.killed, rest)
          | some head =>
              readRemaining session.order
                { read with inMessHead := false }
                (msg.setHeader session.order head) rest
        else
          (.returned ⟨read, some msg⟩, rest)
    | (.trouble .again, rest) =>
        (.returned ⟨read, some msg⟩, rest)
    | (.trouble .failed, rest) => (.killed, rest)
  else
    readRemaining session.order read msg input

end Daemon

end ReplicatedAccount

------------------------------------------------------------
-- A Session That Is Read
------------------------------------------------------------

namespace ReplicatedAccount

open Foundations

namespace Daemon

/- `Is_kill_mess`. -/
def isKillMess (type : Word) : Bool :=
  type.getLsbD 18

inductive SessionStatus where
  | operational
  | killed
  -- the client has taken its leave
  | disconnected
  | aborted
  -- nothing is known of what the daemon does
  | overrun
deriving DecidableEq, Repr

/- A session, with the messages that were read so far. -/
structure SessionReader where
  state : ReadState
  input : SessionInput
  accepted : List MessageObj
  status : SessionStatus
deriving DecidableEq, Repr

namespace SessionReader

def start (input : SessionInput) : SessionReader where
  state := .empty
  input := input
  accepted := []
  status := .operational

/-
  One call of `Sess_read` while the session lives.  The mailbox
  is closed when the message is a `KILL_MESS`.
-/
def call
    (session : Session)
    (r : SessionReader) :
    SessionReader :=
  if r.status ≠ .operational then
    r
  else
    match sessRead session r.state r.input with
    | (.returned state, rest) =>
        { r with state := state, input := rest }
    | (.complete msg, rest) =>
        { r with
          state := .empty
          input := rest
          accepted := r.accepted ++ [msg]
          status :=
            if isKillMess (msg.header session.order).type then
              .disconnected
            else
              .operational }
    | (.killed, rest) =>
        { r with input := rest, status := .killed }
    | (.aborted, rest) =>
        { r with input := rest, status := .aborted }
    | (.overrun, rest) =>
        { r with input := rest, status := .overrun }

/- The session after some calls. -/
def run
    (session : Session)
    (n : Nat)
    (r : SessionReader) :
    SessionReader :=
  (call session)^[n] r

end SessionReader

end Daemon

end ReplicatedAccount
