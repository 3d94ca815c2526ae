import ReplicatedAccount.Spread.SessionFrames
import Mathlib.Logic.Function.Basic

/-
  The ring protocol of a daemon, while its membership stands.

  A token goes round the daemons.  Its holder sends new
  packets, answers the requests on it and adds its own.  A
  packet is delivered when all before it have been received,
  and a safe one when all daemons have received it.

  Key definitions include:
    * `ProtocolState`
    * `protNewMessage`
    * `protHandleBcast`
    * `protHandleToken`
    * `protTokenHurry`
-/

------------------------------------------------------------
-- Packets and Tokens
------------------------------------------------------------

namespace ReplicatedAccount

namespace Protocol

open Daemon (PacketType)

def maxPacketsInStruct : Nat := 8192

def packetMask : Nat := 0x1fff

def maxSeqGap : Nat := 1600

def maxPacketSize : Nat := 1472

def archScatterSize : Nat := 1024

/- Sizes of `packet_header`, `token_body` and `ring_rtr`. -/
def packetHeaderSize : Nat := 36

def tokenBodySize : Nat := 1440

def ringRtrSize : Nat := 16

/- An element of a scatter, with what is in its buffer. -/
structure Fragment (Body : Type) where
  len : Nat
  buf : Body
deriving DecidableEq, Repr

structure Packet (n : Nat) (Body : Type) where
  type : PacketType
  procId : Fin n
  seq : Nat
  -- the place in the message, negative for the last packet
  packetIndex : Int
  dataLen : Nat
  body : Body
deriving DecidableEq, Repr

/- A reliable message of one packet is not ordered. -/
def Packet.isSingle
    {n : Nat}
    {Body : Type}
    (p : Packet n Body) :
    Bool :=
  p.type = .reliable && p.packetIndex = -1

/- Whom a packet is sent to. -/
inductive Target (n : Nat) where
  | all
  | segment (index : Nat)
  | proc (id : Fin n)
deriving DecidableEq, Repr

/- A packet in the network, and who has sent it there. -/
structure Transmission (n : Nat) (Body : Type) where
  transmiterId : Fin n
  packet : Packet n Body
  target : Target n
deriving DecidableEq, Repr

/- A slot of `Packets`; `exist` is 2 for a delivered one. -/
structure PacketInfo (n : Nat) (Body : Type) where
  packet : Packet n Body
  delivered : Bool
deriving DecidableEq, Repr

/- A message of a session; its header is in an element. -/
structure DownLink (Body : Type) where
  type : PacketType
  mess : List (Fragment Body)
  mess_ne : mess ≠ []
deriving DecidableEq, Repr

/- The messages that are not sent, the first one in part. -/
structure DownQueue (Body : Type) where
  links : List (DownLink Body)
  curElement : Nat
deriving DecidableEq, Repr

/- Requests, and whom to answer; none stands for -1. -/
structure RingRtr (n : Nat) where
  procId : Option (Fin n)
  segIndex : Option Nat
  seqs : List Nat
deriving DecidableEq, Repr

/- To whom the answers to some requests go. -/
def RingRtr.target
    {n : Nat}
    (rtr : RingRtr n) :
    Target n :=
  match rtr.procId, rtr.segIndex with
  | some id, _ => .proc id
  | none, some index => .segment index
  | none, none => .all

structure Token (n : Nat) where
  arq : Nat
  retrans : Nat
  seq : Nat
  aru : Nat
  aruLastId : Option (Fin n)
  -- an int16
  flowControl : Int
  rtr : List (RingRtr n)
deriving DecidableEq, Repr

/- What a daemon knows of itself. -/
structure Proc (n : Nat) where
  id : Fin n
  segIndex : Nat
deriving DecidableEq, Repr

/- The first daemon of the membership leads it. -/
def Proc.isLeader
    {n : Nat}
    (me : Proc n) :
    Bool :=
  me.id.val = 0

end Protocol

end ReplicatedAccount

------------------------------------------------------------
-- Delivery
------------------------------------------------------------

namespace ReplicatedAccount

namespace Protocol

variable {n : Nat}
variable {Body : Type}

/- The slot of a sequence number. -/
def packEntry (seq : Nat) : Nat :=
  seq &&& packetMask

/-
  The packets a daemon holds and what it has delivered.  The
  queue without a daemon is the one of single packets.
-/
structure Delivery (n : Nat) (Body : Type) where
  packets : Nat → Option (PacketInfo n Body)
  upQueue : Option (Fin n) → Option (List (Fragment Body))
  lastDiscarded : Nat
  lastDelivered : Nat
  -- the messages given to `Sess_deliver_message`, each with
  -- its last packet
  delivered : List (Packet n Body × List (Fragment Body))

/- The entry of `Up_queue` that a packet is chained to. -/
def Packet.queue (p : Packet n Body) : Option (Fin n) :=
  if p.isSingle then none else some p.procId

/- `Deliver_packet`; none stands for `Alarm( EXIT, ... )`. -/
def deliverPacket
    (h : Delivery n Body)
    (entry : Nat) :
    Option (Delivery n Body) :=
  match h.packets entry with
  | none => none
  | some info =>
      let p := info.packet
      let mess := (h.upQueue p.queue).getD []
      if mess.length + 1 ≠ p.packetIndex.natAbs then
        none
      else
        let whole := mess ++ [⟨p.dataLen, p.body⟩]
        let packets :=
          Function.update h.packets entry (some ⟨p, true⟩)
        if p.packetIndex < 0 then
          some { h with
            packets := packets
            upQueue := Function.update h.upQueue p.queue none
            delivered := h.delivered ++ [(p, whole)] }
        else
          some { h with
            packets := packets
            upQueue :=
              Function.update h.upQueue p.queue (some whole) }

/- The loop of `Deliver_reliable_packets`. -/
def deliverReliableLoop :
    Nat → Nat → Delivery n Body → Option (Delivery n Body)
| 0, _, h => some h
| k + 1, i, h =>
    match h.packets (packEntry i) with
    | none => deliverReliableLoop k (i + 1) h
    | some info =>
        if !info.delivered && info.packet.isSingle then
          match deliverPacket h (packEntry i) with
          | none => none
          | some h' => deliverReliableLoop k (i + 1) h'
        else
          deliverReliableLoop k (i + 1) h

def deliverReliablePackets
    (startSeq numPackets : Nat)
    (h : Delivery n Body) :
    Option (Delivery n Body) :=
  let first :=
    if startSeq ≤ h.lastDelivered then
      h.lastDelivered + 1
    else
      startSeq
  deliverReliableLoop (startSeq + numPackets - first) first h

/- The loop of `Deliver_agreed_packets`. -/
def deliverAgreedLoop :
    Nat → Delivery n Body → Option (Delivery n Body)
| 0, h => some h
| k + 1, h =>
    match h.packets (packEntry (h.lastDelivered + 1)) with
    | none => none
    | some info =>
        if info.delivered then
          -- it was delivered as a single one
          deliverAgreedLoop k
            { h with lastDelivered := h.lastDelivered + 1 }
        else if info.packet.type = .safe then
          some h
        else
          match deliverPacket h
              (packEntry (h.lastDelivered + 1)) with
          | none => none
          | some h' =>
              deliverAgreedLoop k
                { h' with
                  lastDelivered := h'.lastDelivered + 1 }

def deliverAgreedPackets
    (myAru : Nat)
    (h : Delivery n Body) :
    Option (Delivery n Body) :=
  if myAru ≤ h.lastDelivered then
    some h
  else
    deliverAgreedLoop (myAru - h.lastDelivered) h

/- The loop of `Discard_packets`. -/
def discardLoop :
    Nat → Nat → Delivery n Body → Option (Delivery n Body)
| 0, _, h => some h
| k + 1, i, h =>
    match h.packets (packEntry i) with
    | none => none
    | some info =>
        match
          if info.delivered then some h
          else deliverPacket h (packEntry i) with
        | none => none
        | some h' =>
            discardLoop k (i + 1)
              { h' with
                packets :=
                  Function.update h'.packets (packEntry i)
                    none }

def discardPackets
    (aru : Nat)
    (h : Delivery n Body) :
    Option (Delivery n Body) :=
  if aru ≤ h.lastDiscarded then
    some h
  else
    match discardLoop (aru - h.lastDiscarded)
        (h.lastDiscarded + 1) h with
    | none => none
    | some h' =>
        some { h' with
          lastDiscarded := aru
          lastDelivered := max h'.lastDelivered aru }

end Protocol

end ReplicatedAccount

------------------------------------------------------------
-- The State of a Daemon
------------------------------------------------------------

namespace ReplicatedAccount

namespace Protocol

variable {n : Nat}
variable {Body : Type}

structure ProtocolState (n : Nat) (Body : Type) where
  highestSeq : Nat
  myAru : Nat
  aru : Nat
  -- none stands for -1
  setAru : Option Nat
  delivery : Delivery n Body
  downQueue : DownQueue Body
  lastToken : Token n
  tokenCounter : Nat
  lastNumRetrans : Nat
  lastNumSent : Nat

/- `Prot_new_message`, without its request for the token. -/
def protNewMessage
    (d : ProtocolState n Body)
    (link : DownLink Body) :
    ProtocolState n Body :=
  { d with
    downQueue :=
      { d.downQueue with
        links := d.downQueue.links ++ [link] } }

/- Counts up `My_aru` while the next packet is there. -/
def advanceAru
    (packets : Nat → Option (PacketInfo n Body)) :
    Nat → Nat → Nat
| 0, aru => aru
| k + 1, aru =>
    if (packets (packEntry (aru + 1))).isSome then
      advanceAru packets k (aru + 1)
    else
      aru

/- One turn of the last loop of `Prot_handle_bcast`. -/
def handlePacket
    (d : ProtocolState n Body)
    (p : Packet n Body) :
    Option (ProtocolState n Body) :=
  if p.seq ≤ d.aru then
    some d
  else if (d.delivery.packets (packEntry p.seq)).isSome then
    some d
  else
    let packets :=
      Function.update d.delivery.packets (packEntry p.seq)
        (some ⟨p, false⟩)
    let inserted := { d.delivery with packets := packets }
    let highestSeq := max d.highestSeq p.seq
    if p.seq = d.myAru + 1 then
      let myAru :=
        advanceAru packets (highestSeq - d.myAru) d.myAru
      match deliverAgreedPackets myAru inserted with
      | none => none
      | some h =>
          some { d with
            highestSeq := highestSeq
            myAru := myAru
            delivery := h }
    else
      match deliverReliablePackets p.seq 1 inserted with
      | none => none
      | some h =>
          some { d with
            highestSeq := highestSeq
            delivery := h }

/- `Prot_handle_bcast` for the packets of a datagram. -/
def protHandleBcast
    (d : ProtocolState n Body) :
    List (Packet n Body) → Option (ProtocolState n Body)
| [] => some d
| p :: packets =>
    match handlePacket d p with
    | none => none
    | some d' => protHandleBcast d' packets

end Protocol

end ReplicatedAccount

------------------------------------------------------------
-- Sending
------------------------------------------------------------

namespace ReplicatedAccount

namespace Protocol

variable {n : Nat}
variable {Body : Type}

/- The packets that wait to be sent in one datagram. -/
structure NetQueue where
  queuedBytes : Nat
  numElements : Nat
deriving DecidableEq, Repr

/- `Net_flush_bcast`, and whether it has sent a datagram. -/
def netFlushBcast (queue : NetQueue) : NetQueue × Bool :=
  if queue.queuedBytes = 0 then
    (queue, false)
  else
    (⟨0, 0⟩, true)

/- `Net_queue_bcast` for a header and a body. -/
def netQueueBcast
    (queue : NetQueue)
    (newBytes : Nat) :
    NetQueue × Bool :=
  let numElements :=
    if queue.queuedBytes = 0 then 0 else queue.numElements
  let alignBytes := (4 - queue.queuedBytes % 4) % 4
  let alignNumScatter := if alignBytes = 0 then 0 else 1
  if maxPacketSize <
        queue.queuedBytes + newBytes + alignBytes ∨
      archScatterSize < numElements + 2 + alignNumScatter then
    (⟨newBytes, 2⟩, (netFlushBcast queue).2)
  else
    (⟨queue.queuedBytes + alignBytes + newBytes,
      numElements + alignNumScatter + 2⟩, false)

/- `FC_allowed`, with the windows of `FC_init`. -/
def fcAllowed
    (highestSeq aru : Nat)
    (flowControl : Int) :
    Nat :=
  if aru + maxSeqGap < highestSeq then
    0
  else
    (min (min (max (60 + 15 - flowControl) 0) 60) 15).toNat

/- What `Answer_retrans` has found out so far. -/
structure Answer (n : Nat) (Body : Type) where
  numRetrans : Nat
  procId : Option (Fin n)
  segIndex : Option Nat
  queue : NetQueue
  -- what has been sent, or waits in the queue
  sends : List (Transmission n Body)
deriving DecidableEq, Repr

/- One request; the answer goes to one, a segment or all. -/
def answerRequest
    (me : Proc n)
    (d : ProtocolState n Body)
    (rtr : RingRtr n)
    (answer : Answer n Body)
    (seq : Nat) :
    Option (Answer n Body) :=
  if seq < d.aru then
    none
  else
    match d.delivery.packets (packEntry seq) with
    | none =>
        some { answer with
          procId := none
          segIndex :=
            if rtr.segIndex = some me.segIndex then
              answer.segIndex
            else
              none }
    | some info =>
        let sends :=
          answer.sends ++ [⟨me.id, info.packet, rtr.target⟩]
        if rtr.procId.isSome || rtr.segIndex.isSome then
          some { answer with
            numRetrans := answer.numRetrans + 1
            sends := sends }
        else
          let queued :=
            netQueueBcast answer.queue
              (packetHeaderSize + info.packet.dataLen)
          some { answer with
            numRetrans := answer.numRetrans + queued.2.toNat
            queue := queued.1
            sends := sends }

def answerRequests
    (me : Proc n)
    (d : ProtocolState n Body)
    (rtr : RingRtr n) :
    Answer n Body → List Nat → Option (Answer n Body)
| answer, [] => some answer
| answer, seq :: seqs =>
    match answerRequest me d rtr answer seq with
    | none => none
    | some answer' => answerRequests me d rtr answer' seqs

def answerRings
    (me : Proc n)
    (d : ProtocolState n Body) :
    Answer n Body → List (RingRtr n) → Option (Answer n Body)
| answer, [] => some answer
| answer, rtr :: rest =>
    match answerRequests me d rtr answer rtr.seqs with
    | none => none
    | some answer' => answerRings me d answer' rest

/- `Answer_retrans`; all requests are from this ring. -/
def answerRetrans
    (me : Proc n)
    (d : ProtocolState n Body)
    (rtr : List (RingRtr n)) :
    Option (Answer n Body) :=
  match answerRings me d
      ⟨0, some me.id, some me.segIndex, ⟨0, 0⟩, []⟩ rtr with
  | none => none
  | some answer =>
      some { answer with
        numRetrans :=
          answer.numRetrans +
            (netFlushBcast answer.queue).2.toNat
        queue := (netFlushBcast answer.queue).1 }

/- What `Send_new_packets` has done so far. -/
structure Sending (n : Nat) (Body : Type) where
  state : ProtocolState n Body
  packets : List (Packet n Body)
  queue : NetQueue
  numSent : Nat

/- The next packet of the first message. -/
def newPacket
    (me : Proc n)
    (d : ProtocolState n Body)
    (link : DownLink Body)
    (element : Fragment Body) :
    Packet n Body where
  type := link.type
  procId := me.id
  seq := d.highestSeq + 1
  packetIndex :=
    if d.downQueue.curElement + 1 < link.mess.length then
      d.downQueue.curElement + 1
    else
      -(link.mess.length : Int)
  dataLen := element.len
  body := element.buf

/- The packet is sent, and inserted as received. -/
def Sending.push
    (s : Sending n Body)
    (me : Proc n)
    (link : DownLink Body)
    (rest : List (DownLink Body))
    (element : Fragment Body) :
    Sending n Body :=
  let d := s.state
  let p := newPacket me d link element
  let queued :=
    netQueueBcast s.queue (packetHeaderSize + element.len)
  { state :=
      { d with
        highestSeq := d.highestSeq + 1
        downQueue :=
          if d.downQueue.curElement + 1 < link.mess.length then
            ⟨link :: rest, d.downQueue.curElement + 1⟩
          else
            ⟨rest, 0⟩
        delivery :=
          { d.delivery with
            packets :=
              Function.update d.delivery.packets
                (packEntry p.seq) (some ⟨p, false⟩) } }
    packets := s.packets ++ [p]
    queue := queued.1
    numSent := s.numSent + queued.2.toNat }

/- One turn of the loop of `Send_new_packets`. -/
def sendNext
    (me : Proc n)
    (s : Sending n Body) :
    Option (Sending n Body) :=
  match s.state.downQueue.links with
  | [] => some s
  | link :: rest =>
      match link.mess[s.state.downQueue.curElement]? with
      | none => none
      | some element =>
          if (s.state.delivery.packets
              (packEntry (s.state.highestSeq + 1))).isSome then
            none
          else
            some (s.push me link rest element)

def sendLoop
    (me : Proc n)
    (numAllowed : Nat) :
    Nat → Sending n Body → Option (Sending n Body)
| 0, s => some s
| k + 1, s =>
    if s.numSent < numAllowed ∧
        s.state.downQueue.links ≠ [] then
      match sendNext me s with
      | none => none
      | some s' => sendLoop me numAllowed k s'
    else
      some s

/- As many turns as the queue can have packets. -/
def DownQueue.turns (queue : DownQueue Body) : Nat :=
  (queue.links.map fun link => link.mess.length + 1).sum

def sendNewPackets
    (me : Proc n)
    (d : ProtocolState n Body)
    (queue : NetQueue)
    (numAllowed : Nat) :
    Option (Sending n Body) :=
  match sendLoop me numAllowed d.downQueue.turns
      ⟨d, [], queue, 0⟩ with
  | none => none
  | some s =>
      some { s with
        queue := (netFlushBcast s.queue).1
        numSent :=
          s.numSent + (netFlushBcast s.queue).2.toNat }

end Protocol

end ReplicatedAccount

------------------------------------------------------------
-- Handling the Token
------------------------------------------------------------

namespace ReplicatedAccount

namespace Protocol

variable {n : Nat}
variable {Body : Type}

/-
  A state, with the answers, the new packets and the token it
  has sent.
-/
structure Handled (n : Nat) (Body : Type) where
  state : ProtocolState n Body
  answers : List (Transmission n Body)
  packets : List (Packet n Body)
  token : Option (Token n)

/- `Prot_token_hurry`. -/
def protTokenHurry
    (me : Proc n)
    (d : ProtocolState n Body) :
    Handled n Body :=
  let lastToken :=
    { d.lastToken with
      retrans :=
        if me.isLeader then
          (d.lastToken.retrans + 1) % 0x10
        else
          d.lastToken.retrans
      rtr := [] }
  ⟨{ d with lastToken := lastToken }, [], [], some lastToken⟩

inductive Arrival where
  | swallow
  | resend
  | accept
deriving DecidableEq, Repr

/- The first part of `Prot_handle_token`. -/
def arrival
    (me : Proc n)
    (lastToken token : Token n) :
    Arrival :=
  if me.isLeader then
    if token.arq = lastToken.arq then .accept else .swallow
  else if token.arq = lastToken.arq then
    if lastToken.retrans < token.retrans then
      .resend
    else
      .swallow
  else if token.arq = (lastToken.arq + 1) % 0x10 then
    .accept
  else
    .swallow

/- The requested numbers; `k` is `retrans_allowed`. -/
def missingSeqs
    (packets : Nat → Option (PacketInfo n Body)) :
    Nat → Nat → List Nat
| 0, _ => []
| k + 1, i =>
    if (packets (packEntry i)).isSome then
      missingSeqs packets k (i + 1)
    else
      i :: missingSeqs packets k (i + 1)

def retransRequests
    (d : ProtocolState n Body)
    (answer : Answer n Body) :
    List (RingRtr n) :=
  if d.myAru < d.highestSeq then
    [⟨answer.procId, answer.segIndex,
      missingSeqs d.delivery.packets
        (min ((tokenBodySize - ringRtrSize) / 4)
          (d.highestSeq - d.myAru))
        (d.myAru + 1)⟩]
  else
    []

/- The new `aru` and its setter, and the new `Set_aru`. -/
def tokenAru
    (me : Proc n)
    (d : ProtocolState n Body)
    (token : Token n) :
    Nat × Option (Fin n) × Option Nat :=
  if some token.aru = d.setAru ∨
      token.aruLastId = some me.id ∨
      token.aru = token.seq then
    (d.myAru, some me.id,
      if d.myAru < d.highestSeq then some d.myAru else none)
  else if d.myAru < token.aru then
    (d.myAru, some me.id, some d.myAru)
  else
    (token.aru, token.aruLastId, none)

/- The token that is sent, after new packets were sent. -/
def nextToken
    (me : Proc n)
    (d : ProtocolState n Body)
    (answer : Answer n Body)
    (numSent : Nat)
    (token : Token n) :
    Token n where
  arq :=
    if me.isLeader then (token.arq + 1) % 0x10 else token.arq
  retrans := if me.isLeader then 0 else token.retrans
  seq := d.highestSeq
  aru := (tokenAru me d token).1
  aruLastId := (tokenAru me d token).2.1
  flowControl :=
    Int.bmod
      (token.flowControl - d.lastNumRetrans - d.lastNumSent +
        answer.numRetrans + numSent)
      0x10000
  rtr := retransRequests d answer

/- `To_hold_token`. -/
def toHoldToken (d : ProtocolState n Body) : Bool :=
  d.lastToken.retrans ≤ 1 && d.aru = d.highestSeq &&
    1 < d.tokenCounter

/- The state before the packets are delivered. -/
def ProtocolState.passed
    (d : ProtocolState n Body)
    (setAru : Option Nat)
    (numRetrans numSent : Nat)
    (next : Token n) :
    ProtocolState n Body :=
  let aru := min next.aru d.lastToken.aru
  { d with
    aru := aru
    setAru := setAru
    lastToken := next
    tokenCounter :=
      if d.highestSeq = aru then d.tokenCounter + 1 else 0
    lastNumRetrans := numRetrans
    lastNumSent := numSent }

/- The end of `Prot_handle_token`. -/
def deliverPackets
    (d : ProtocolState n Body)
    (numSent : Nat) :
    Option (ProtocolState n Body) :=
  match discardPackets d.aru d.delivery with
  | none => none
  | some h =>
      match deliverAgreedPackets d.myAru h with
      | none => none
      | some h' =>
          match deliverReliablePackets
              (d.highestSeq + 1 - numSent) numSent h' with
          | none => none
          | some h'' => some { d with delivery := h'' }

/- The state when the token has told of other packets. -/
def ProtocolState.heard
    (d : ProtocolState n Body)
    (token : Token n) :
    ProtocolState n Body :=
  { d with highestSeq := max d.highestSeq token.seq }

/- The state when the received packets were counted. -/
def ProtocolState.advanced
    (d : ProtocolState n Body) :
    ProtocolState n Body :=
  { d with
    myAru :=
      advanceAru d.delivery.packets (d.highestSeq - d.myAru)
        d.myAru }

/- The rest of `Prot_handle_token`, for an accepted token. -/
def acceptToken
    (me : Proc n)
    (d : ProtocolState n Body)
    (token : Token n) :
    Option (Handled n Body) :=
  let heard := d.heard token
  match answerRetrans me heard token.rtr with
  | none => none
  | some answer =>
      match sendNewPackets me heard answer.queue
          (fcAllowed heard.highestSeq heard.aru
            token.flowControl) with
      | none => none
      | some sending =>
          let d' := sending.state.advanced
          let next :=
            nextToken me d' answer sending.numSent token
          match deliverPackets
              (d'.passed (tokenAru me d' token).2.2
                answer.numRetrans sending.numSent next)
              sending.numSent with
          | none => none
          | some delivered =>
              some
                ⟨delivered, answer.sends, sending.packets,
                  if me.isLeader && toHoldToken d' then
                    none
                  else
                    some next⟩

/- `Prot_handle_token`, for a regular token. -/
def protHandleToken
    (me : Proc n)
    (d : ProtocolState n Body)
    (token : Token n) :
    Option (Handled n Body) :=
  match arrival me d.lastToken token with
  | .swallow => some ⟨d, [], [], none⟩
  | .resend =>
      some
        (protTokenHurry me
          { d with
            lastToken :=
              { d.lastToken with retrans := token.retrans } })
  | .accept => acceptToken me d token

end Protocol

end ReplicatedAccount
