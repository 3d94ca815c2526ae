import ReplicatedAccount.Spread.SessionFrames

/-
  How a daemon writes messages to a client that may be slow.

  `Sess_write` sends a message at once when nothing is waiting.
  What the socket does not take is put into a queue, and
  `Sess_badger` goes on from there, each time it is called.

  Key definitions include:
    * `Daemon.Socket.send`
    * `Daemon.sessBadger`
    * `Daemon.sessWrite`
    * `Daemon.SessionWriter.pending`

  Key theorems include:
    * `Daemon.badgered_badgerElements`
    * `Daemon.badgerMessage_cases`
-/

------------------------------------------------------------
-- Sockets That Are Written
------------------------------------------------------------

namespace ReplicatedAccount

open Foundations SpreadConnection

namespace Daemon

/- A socket, by what it took and what it will take. -/
structure Socket where
  sent : List Byte
  -- the bytes that the next calls take, or an error
  room : List (Option Nat)
deriving DecidableEq, Repr

namespace Socket

/- `send`, and the value it returns; none stands for -1. -/
def send
    (content : List Byte)
    (socket : Socket) :
    Option Nat × Socket :=
  match socket.room with
  | [] => (none, socket)
  | none :: room => (none, { socket with room := room })
  | some n :: room =>
      (some (min n content.length),
        ⟨socket.sent ++ content.take n, room⟩)

/- Some of the bytes are sent, and counted. -/
theorem send_takes
    (socket : Socket)
    (content : List Byte) :
    ((socket.send content).1.getD 0) ≤ content.length ∧
      (socket.send content).2.sent =
        socket.sent ++
          content.take ((socket.send content).1.getD 0) := by
  unfold send
  rcases socket.room with _ | ⟨_ | n, room⟩
  · simp
  · simp
  · refine ⟨Nat.min_le_right _ _, ?_⟩
    simp [List.take_eq_take_min]

end Socket

------------------------------------------------------------
-- Parts of a Message
------------------------------------------------------------

/- `Message_get_first_data_len`. -/
def MessageObj.firstDataLen
    (order : ByteOrder)
    (msg : MessageObj) :
    Nat :=
  if ServiceType.isReject (msg.header order).type then
    0
  else
    (msg.elements.headD ⟨[], 0⟩).len - headerSize

/- `Message_get_first_data_ptr`. -/
def MessageObj.firstData
    (order : ByteOrder)
    (msg : MessageObj) :
    List Byte :=
  if ServiceType.isReject (msg.header order).type then
    (msg.elements.getD 1 ⟨[], 0⟩).buf
  else
    (msg.elements.headD ⟨[], 0⟩).buf.drop headerSize

/- `Message_reset_current_location`. -/
def PartialMessageInfo.reset : PartialMessageInfo where
  inMessHead := false
  curElement := 0
  curByte := 0
  totalBytes := 0

/- The loop of `Message_calculate_current_location`. -/
def locate : List ScatElement → Nat → Nat → Nat × Nat
| [], i, len => (i, len)
| e :: elements, i, len =>
    if len < e.len then
      (i, len)
    else
      locate elements (i + 1) (len - e.len)

/- `Message_calculate_current_location`. -/
def MessageObj.calculateCurrentLocation
    (msg : MessageObj)
    (lenSent : Nat)
    (write : PartialMessageInfo) :
    PartialMessageInfo where
  inMessHead := false
  curElement := (locate msg.elements 0 lenSent).1
  curByte := (locate msg.elements 0 lenSent).2
  totalBytes := write.totalBytes

/- The length that `Sess_write` wants to send. -/
def MessageObj.totalToSend (msg : MessageObj) : Nat :=
  (msg.elements.map ScatElement.len).sum

end Daemon

end ReplicatedAccount

------------------------------------------------------------
-- `Sess_write` and `Sess_badger`
------------------------------------------------------------

namespace ReplicatedAccount

open Foundations SpreadConnection

namespace Daemon

/- The loop over the elements in `Sess_write`. -/
def sendElements :
    List ScatElement → Nat → Socket → Nat × Socket
| [], lenSent, socket => (lenSent, socket)
| e :: elements, lenSent, socket =>
    match socket.send (e.buf.take e.len) with
    | (ret, socket) =>
        let lenSent := lenSent + ret.getD 0
        if ret = some e.len then
          sendElements elements lenSent socket
        else
          (lenSent, socket)

/- A message is sent as far as the socket takes it. -/
def sendMessage
    (order : ByteOrder)
    (msg : MessageObj)
    (socket : Socket) :
    Nat × Socket :=
  let head := (msg.elements.headD ⟨[], 0⟩).buf.take headerSize
  match socket.send head with
  | (ret, socket) =>
      let lenSent := ret.getD 0
      if ret ≠ some headerSize then
        (lenSent, socket)
      else
        let firstDataLen := msg.firstDataLen order
        match
          socket.send ((msg.firstData order).take firstDataLen)
        with
        | (ret, socket) =>
            let lenSent := lenSent + ret.getD 0
            if ret ≠ some firstDataLen then
              (lenSent, socket)
            else
              sendElements (msg.elements.drop 1) lenSent socket

/- What is left of the header, in `Sess_badger`. -/
def badgerHead
    (msg : MessageObj)
    (write : PartialMessageInfo)
    (socket : Socket) :
    Bool × PartialMessageInfo × Socket :=
  if write.inMessHead then
    let start := write.curByte
    let bytesToSend := headerSize - start
    let head := (msg.elements.headD ⟨[], 0⟩).buf
    match socket.send ((head.drop start).take bytesToSend) with
    | (ret, socket) =>
        if ret = some bytesToSend then
          (true, { write with inMessHead := false }, socket)
        else
          (false,
            { write with curByte := start + ret.getD 0 },
            socket)
  else
    (true, write, socket)

/- The loop over the elements in `Sess_badger`. -/
def badgerElements :
    List ScatElement → PartialMessageInfo → Socket →
      Bool × PartialMessageInfo × Socket
| [], write, socket => (true, write, socket)
| e :: elements, write, socket =>
    let start := write.curByte
    let bytesToSend := e.len - start
    match socket.send ((e.buf.drop start).take bytesToSend) with
    | (ret, socket) =>
        if ret = some bytesToSend then
          badgerElements elements
            { write with
              curByte := 0
              curElement := write.curElement + 1 }
            socket
        else
          (false,
            { write with
              curByte := write.curByte + ret.getD 0 },
            socket)

/- Whether the rest of a message was sent. -/
def badgerMessage
    (msg : MessageObj)
    (write : PartialMessageInfo)
    (socket : Socket) :
    Bool × PartialMessageInfo × Socket :=
  match badgerHead msg write socket with
  | (false, write, socket) => (false, write, socket)
  | (true, write, socket) =>
      badgerElements (msg.elements.drop write.curElement) write
        socket

/- The loop over the messages in `Sess_badger`. -/
def badgerMessages :
    List MessageObj → PartialMessageInfo → Socket →
      List MessageObj × PartialMessageInfo × Socket
| [], write, socket => ([], write, socket)
| msg :: queue, write, socket =>
    match badgerMessage msg write socket with
    | (true, _, socket) => badgerMessages queue .reset socket
    | (false, write, socket) => (msg :: queue, write, socket)

def maxSessionMessages : Nat := 1000

/- The part of a session that writing depends on. -/
structure SessionWriter where
  -- the messages from `first` to `last`
  queue : List MessageObj
  -- where in the first of them
  write : PartialMessageInfo
  status : SessionStatus
  -- all bytes that the socket took
  sent : List Byte
deriving DecidableEq, Repr

namespace SessionWriter

def start : SessionWriter where
  queue := []
  write := .reset
  status := .operational
  sent := []

/- `Sess_kill`, which forgets what is waiting. -/
def sessKill (w : SessionWriter) : SessionWriter :=
  { w with queue := [], status := .killed }

end SessionWriter

/- `Sess_badger`, and the room that is left. -/
def sessBadger
    (room : List (Option Nat))
    (w : SessionWriter) :
    SessionWriter × List (Option Nat) :=
  if w.status ≠ .operational then
    (w, room)
  else
    match badgerMessages w.queue w.write ⟨w.sent, room⟩ with
    | (queue, write, socket) =>
        ({ w with
            queue := queue
            write := write
            sent := socket.sent },
          socket.room)

/- `Sess_write`, with the room that its calls find. -/
def sessWrite
    (order : ByteOrder)
    (msg : MessageObj)
    (room : List (Option Nat))
    (w : SessionWriter) :
    SessionWriter :=
  if w.status ≠ .operational then
    w
  else if w.queue.length ≥ maxSessionMessages then
    w.sessKill
  else
    -- `Sess_badger` does nothing when nothing is waiting
    match sessBadger room w with
    | (w, room) =>
        if w.queue = [] then
          match sendMessage order msg ⟨w.sent, room⟩ with
          | (lenSent, socket) =>
              let w := { w with sent := socket.sent }
              if lenSent < msg.totalToSend then
                { w with
                  queue := [msg]
                  write :=
                    msg.calculateCurrentLocation lenSent w.write }
              else
                w
        else if 0 < msg.totalToSend then
          { w with queue := w.queue ++ [msg] }
        else
          w

end Daemon

end ReplicatedAccount

------------------------------------------------------------
-- What Is Left of a Message
------------------------------------------------------------

namespace ReplicatedAccount

open Foundations SpreadConnection

namespace Daemon

/- The bytes of elements that lie together. -/
abbrev bytesIn (elements : List ScatElement) : List Byte :=
  elements.flatMap ScatElement.buf

theorem bytesIn_cons
    (e : ScatElement)
    (elements : List ScatElement) :
    bytesIn (e :: elements) = e.buf ++ bytesIn elements :=
  List.flatMap_cons

/- A place in the first of the elements, if there are any. -/
structure Inside
    (elements : List ScatElement)
    (curByte : Nat) : Prop where
  lens : ∀ e ∈ elements, e.len = e.buf.length
  fits : ∀ e ∈ elements.head?, curByte ≤ e.len
  atEnd : elements = [] → curByte = 0

theorem Inside.drop_bytesIn
    {e : ScatElement}
    {elements : List ScatElement}
    {curByte : Nat}
    (hInside : Inside (e :: elements) curByte) :
    (bytesIn (e :: elements)).drop curByte =
      e.buf.drop curByte ++ bytesIn elements := by
  have hLen := hInside.lens e (by simp)
  have hFits := hInside.fits e (by simp)
  rw [bytesIn_cons, List.drop_append_of_le_length (by omega)]

/- What `Sess_badger` sends of an element is its rest. -/
theorem Inside.toSend
    {e : ScatElement}
    {elements : List ScatElement}
    {curByte : Nat}
    (hInside : Inside (e :: elements) curByte) :
    (e.buf.drop curByte).take (e.len - curByte) =
        e.buf.drop curByte ∧
      (e.buf.drop curByte).length = e.len - curByte := by
  have hLen := hInside.lens e (by simp)
  have hLength :
      (e.buf.drop curByte).length = e.len - curByte := by
    rw [List.length_drop, hLen]
  exact ⟨List.take_of_length_le (Nat.le_of_eq hLength), hLength⟩

theorem inside_zero
    {elements : List ScatElement}
    (hLens : ∀ e ∈ elements, e.len = e.buf.length) :
    Inside elements 0 where
  lens := hLens
  fits := fun _ _ => Nat.zero_le _
  atEnd := fun _ => rfl

/- How the loop over the elements of a message ends. -/
inductive Badgered
    (elements : List ScatElement)
    (write : PartialMessageInfo)
    (socket : Socket) :
    Bool × PartialMessageInfo × Socket → Prop
  | all
      (write' : PartialMessageInfo)
      (socket' : Socket)
      (hSent :
        socket'.sent =
          socket.sent ++
            (bytesIn elements).drop write.curByte) :
      Badgered elements write socket (true, write', socket')
  | part
      (taken : List Byte)
      (k : Nat)
      (write' : PartialMessageInfo)
      (socket' : Socket)
      (hSent : socket'.sent = socket.sent ++ taken)
      (hElement : write'.curElement = write.curElement + k)
      (hHead : write'.inMessHead = write.inMessHead)
      (hInside : Inside (elements.drop k) write'.curByte)
      (hRest :
        (bytesIn elements).drop write.curByte =
          taken ++
            (bytesIn (elements.drop k)).drop write'.curByte) :
      Badgered elements write socket (false, write', socket')

/-
  By induction on the elements.  Each one is sent from the
  current byte on, and the loop stops in the first one that
  the socket does not take whole.
-/
theorem badgered_badgerElements
    {elements : List ScatElement}
    {write : PartialMessageInfo}
    (hInside : Inside elements write.curByte)
    (socket : Socket) :
    Badgered elements write socket
      (badgerElements elements write socket) := by
  induction elements generalizing write socket with
  | nil =>
      exact .all write socket (by simp)
  | cons e elements ih =>
      rcases hInside.toSend with ⟨hContent, hLength⟩
      have hTakes := socket.send_takes (e.buf.drop write.curByte)
      unfold badgerElements
      simp only [hContent]
      rcases hSend : socket.send (e.buf.drop write.curByte) with
        ⟨ret, socket'⟩
      rw [hSend] at hTakes
      rcases hTakes with ⟨hMost, hSent⟩
      dsimp only at hMost hSent
      by_cases hAll : ret = some (e.len - write.curByte)
      · -- the whole rest of the element was taken
        simp only [if_pos hAll]
        rw [hAll, Option.getD_some, ← hLength,
          List.take_length] at hSent
        have hNext :
            Inside elements
              (PartialMessageInfo.curByte
                { write with
                  curByte := 0
                  curElement := write.curElement + 1 }) :=
          inside_zero
            (fun f hMember => hInside.lens f (by simp [hMember]))
        have hBadgered := ih hNext socket'
        generalize badgerElements elements _ socket' = result
          at hBadgered
        cases hBadgered with
        | all write'' socket'' hSent' =>
            refine .all _ _ ?_
            rw [hSent', hSent, hInside.drop_bytesIn,
              List.append_assoc, List.drop_zero]
        | part taken k write'' socket'' hSent' hElement hHead
            hInside' hRest =>
            refine .part (e.buf.drop write.curByte ++ taken)
              (k + 1) _ _ ?_ ?_ hHead hInside' ?_
            · rw [hSent', hSent, List.append_assoc]
            · rw [hElement]
              dsimp only
              omega
            · rw [List.drop_zero] at hRest
              rw [hInside.drop_bytesIn, hRest,
                List.append_assoc, List.drop_succ_cons]
      · simp only [if_neg hAll]
        have hFits := hInside.fits e (by simp)
        refine .part _ 0 _ _ hSent rfl rfl ?_ ?_
        · refine ⟨hInside.lens, ?_, fun hNone => by simp at hNone⟩
          intro f hFirst
          rw [List.drop_zero, List.head?_cons, Option.mem_some]
            at hFirst
          subst hFirst
          dsimp only
          omega
        · have hStill :
              Inside (e :: elements)
                (write.curByte + ret.getD 0) := by
            refine ⟨hInside.lens, ?_, by simp⟩
            intro f hFirst
            rw [List.head?_cons, Option.mem_some] at hFirst
            subst hFirst
            omega
          rw [List.drop_zero, hStill.drop_bytesIn,
            hInside.drop_bytesIn, ← List.append_assoc]
          congr 1
          rw [← List.drop_drop, List.take_append_drop]

/- What is left of a message at a place. -/
def MessageObj.rest
    (msg : MessageObj)
    (write : PartialMessageInfo) :
    List Byte :=
  (bytesIn (msg.elements.drop write.curElement)).drop
    write.curByte

/- A place in a message, behind which it is to be sent. -/
structure At
    (msg : MessageObj)
    (write : PartialMessageInfo) : Prop where
  inBody : write.inMessHead = false
  inside :
    Inside (msg.elements.drop write.curElement) write.curByte

/- A message that can be sent element after element. -/
structure Sendable
    (order : ByteOrder)
    (msg : MessageObj) : Prop where
  start :
    ∃ first elements,
      msg.elements = first :: elements ∧
        headerSize ≤ first.buf.length ∧
          (ServiceType.isReject (msg.header order).type = true →
            first.buf.length = headerSize)
  lens : ∀ e ∈ msg.elements, e.len = e.buf.length

theorem at_reset
    {msg : MessageObj}
    (hLens : ∀ e ∈ msg.elements, e.len = e.buf.length) :
    At msg .reset where
  inBody := rfl
  inside := inside_zero hLens

/- A message is finished, or left at a place further on. -/
theorem badgerMessage_cases
    {msg : MessageObj}
    {write : PartialMessageInfo}
    (hAt : At msg write)
    (socket : Socket) :
    (∃ write' socket',
      badgerMessage msg write socket =
          (true, write', socket') ∧
        socket'.sent = socket.sent ++ msg.rest write) ∨
      (∃ taken write' socket',
        badgerMessage msg write socket =
            (false, write', socket') ∧
          socket'.sent = socket.sent ++ taken ∧
            At msg write' ∧
              msg.rest write = taken ++ msg.rest write') := by
  have hElements := badgered_badgerElements hAt.inside socket
  have hSame :
      badgerMessage msg write socket =
        badgerElements (msg.elements.drop write.curElement) write
          socket := by
    simp [badgerMessage, badgerHead, hAt.inBody]
  rw [hSame]
  generalize
    badgerElements (msg.elements.drop write.curElement) write
      socket = result at hElements
  cases hElements with
  | all write' socket' hSent =>
      exact Or.inl ⟨write', socket', rfl, hSent⟩
  | part taken k write' socket' hSent hElement hHead hInside
      hRest =>
      rw [List.drop_drop, ← hElement] at hInside hRest
      exact Or.inr ⟨taken, write', socket', rfl, hSent,
        ⟨hHead.trans hAt.inBody, hInside⟩, hRest⟩

end Daemon

end ReplicatedAccount
