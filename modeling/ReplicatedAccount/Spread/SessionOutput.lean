import ReplicatedAccount.Spread.SessionWrite
import ReplicatedAccount.Spread.SessionStreams

/-
  What a session has sent and what waits are together what was
  written to it, however much the socket takes each time.

  A session ends by its own reading or when too many messages
  wait, and in no other way.

  Key definitions include:
    * `Daemon.Conserved`

  Key theorems include:
    * `Daemon.Sendable.sendMessage_takes`
    * `Daemon.conserved_of_run`
    * `Daemon.session_loses_nothing`
-/

------------------------------------------------------------
-- A Message That Is Sent at Once
------------------------------------------------------------

namespace ReplicatedAccount

open Foundations SpreadConnection

namespace Daemon

theorem length_bytesIn
    {elements : List ScatElement}
    (hLens : ∀ e ∈ elements, e.len = e.buf.length) :
    (bytesIn elements).length =
      (elements.map ScatElement.len).sum := by
  rw [bytesIn, List.length_flatMap]
  congr 1
  apply List.map_congr_left
  intro e hMember
  exact (hLens e hMember).symm

/- The place of a byte is behind all bytes before it. -/
theorem locate_inside
    {elements : List ScatElement}
    (hLens : ∀ e ∈ elements, e.len = e.buf.length)
    (i : Nat)
    {len : Nat}
    (hLen : len < (bytesIn elements).length) :
    ∃ k, (locate elements i len).1 = i + k ∧
      Inside (elements.drop k) (locate elements i len).2 ∧
        (bytesIn (elements.drop k)).drop
            (locate elements i len).2 =
          (bytesIn elements).drop len := by
  induction elements generalizing i len with
  | nil => simp at hLen
  | cons e elements ih =>
      have hSame := hLens e (by simp)
      unfold locate
      by_cases hHere : len < e.len
      · rw [if_pos hHere]
        refine ⟨0, rfl, ⟨hLens, ?_, by simp⟩, rfl⟩
        intro f hFirst
        rw [List.drop_zero, List.head?_cons, Option.mem_some]
          at hFirst
        subst hFirst
        exact Nat.le_of_lt hHere
      · rw [if_neg hHere]
        rw [bytesIn_cons, List.length_append] at hLen
        have hLen' : len - e.len < (bytesIn elements).length := by
          omega
        rcases ih (fun f hMember => hLens f (by simp [hMember]))
            (i + 1) hLen' with
          ⟨k, hIndex, hInside, hDrop⟩
        refine ⟨k + 1, by rw [hIndex]; omega, hInside, ?_⟩
        have hBehind : e.buf.drop len = [] :=
          List.drop_eq_nil_of_le (by omega)
        rw [List.drop_succ_cons, hDrop, bytesIn_cons,
          List.drop_append, hBehind, hSame, List.nil_append]

/- The elements are sent up to some byte, and it is counted. -/
theorem sendElements_takes
    {elements : List ScatElement}
    (hLens : ∀ e ∈ elements, e.len = e.buf.length)
    (lenSent : Nat)
    (socket : Socket) :
    ∃ n, n ≤ (bytesIn elements).length ∧
      (sendElements elements lenSent socket).1 = lenSent + n ∧
        (sendElements elements lenSent socket).2.sent =
          socket.sent ++ (bytesIn elements).take n := by
  induction elements generalizing lenSent socket with
  | nil => exact ⟨0, Nat.zero_le _, rfl, by simp [sendElements]⟩
  | cons e elements ih =>
      have hSame := hLens e (by simp)
      have hContent : e.buf.take e.len = e.buf :=
        List.take_of_length_le (Nat.le_of_eq hSame.symm)
      have hTakes := socket.send_takes e.buf
      unfold sendElements
      rw [hContent]
      rcases hSend : socket.send e.buf with ⟨ret, socket'⟩
      rw [hSend] at hTakes
      rcases hTakes with ⟨hMost, hSent⟩
      dsimp only at hMost hSent ⊢
      rw [bytesIn_cons, List.length_append]
      by_cases hAll : ret = some e.len
      · rw [if_pos hAll]
        rcases ih (fun f hMember => hLens f (by simp [hMember]))
            (lenSent + ret.getD 0) socket' with
          ⟨n, hLeast, hCount, hSent'⟩
        rw [hAll, Option.getD_some] at hCount hSent hSent' ⊢
        refine ⟨e.len + n, by omega, by rw [hCount]; omega, ?_⟩
        rw [hSent', hSent, hSame, List.take_length,
          List.take_length_add_append, List.append_assoc]
      · rw [if_neg hAll]
        refine ⟨ret.getD 0, by omega, rfl, ?_⟩
        rw [hSent, List.take_append_of_le_length hMost]

namespace Sendable

variable {order : ByteOrder}
variable {msg : MessageObj}

/- The header, what is behind it, and the other elements. -/
theorem bytes_eq
    (hSendable : Sendable order msg) :
    ((msg.elements.headD ⟨[], 0⟩).buf.take headerSize).length =
        headerSize ∧
      ((msg.firstData order).take
          (msg.firstDataLen order)).length =
        msg.firstDataLen order ∧
      msg.bytes =
        (msg.elements.headD ⟨[], 0⟩).buf.take headerSize ++
          ((msg.firstData order).take (msg.firstDataLen order) ++
            bytesIn (msg.elements.drop 1)) := by
  rcases hSendable.start with
    ⟨first, elements, hElements, hLong, hReject⟩
  have hLen := hSendable.lens first (by simp [hElements])
  have hHead :
      (first.buf.take headerSize).length = headerSize :=
    List.length_take_of_le hLong
  have hBytes :
      msg.bytes = first.buf ++ bytesIn elements := by
    rw [MessageObj.bytes, hElements, List.flatMap_cons]
  unfold MessageObj.firstData MessageObj.firstDataLen
  rw [hBytes, hElements, List.headD_cons, List.drop_one,
    List.tail_cons]
  refine ⟨hHead, ?_, ?_⟩
  · split_ifs
    · simp
    · rw [List.length_take, List.length_drop, hLen,
        Nat.min_self]
  · split_ifs with hIs
    · -- the first element is the header only
      rw [List.take_zero, List.nil_append,
        List.take_of_length_le (Nat.le_of_eq (hReject hIs))]
    · have hRest :
          (first.buf.drop headerSize).take
              (first.len - headerSize) =
            first.buf.drop headerSize := by
        apply List.take_of_length_le
        rw [List.length_drop, hLen]
      rw [hRest, ← List.append_assoc, List.take_append_drop]

theorem totalToSend_eq
    (hSendable : Sendable order msg) :
    msg.totalToSend = msg.bytes.length :=
  (length_bytesIn hSendable.lens).symm

theorem totalToSend_pos
    (hSendable : Sendable order msg) :
    0 < msg.totalToSend := by
  have hLength := congrArg List.length hSendable.bytes_eq.2.2
  rw [List.length_append, hSendable.bytes_eq.1] at hLength
  rw [hSendable.totalToSend_eq, hLength]
  exact Nat.lt_of_lt_of_le (by decide) (Nat.le_add_right _ _)

/- A message is sent up to some byte, and it is counted. -/
theorem sendMessage_takes
    (hSendable : Sendable order msg)
    (socket : Socket) :
    (sendMessage order msg socket).1 ≤ msg.bytes.length ∧
      (sendMessage order msg socket).2.sent =
        socket.sent ++
          msg.bytes.take (sendMessage order msg socket).1 := by
  rcases hSendable.bytes_eq with ⟨hHead, hData, hBytes⟩
  have hLens :
      ∀ e ∈ msg.elements.drop 1, e.len = e.buf.length :=
    fun e hMember =>
      hSendable.lens e (List.mem_of_mem_drop hMember)
  rw [hBytes]
  unfold sendMessage
  dsimp only
  generalize
    (msg.elements.headD ⟨[], 0⟩).buf.take headerSize = head
      at hHead
  generalize
    (msg.firstData order).take (msg.firstDataLen order) = data
      at hData
  have hTakes := socket.send_takes head
  rcases hSend : socket.send head with ⟨ret, socket₁⟩
  rw [hSend] at hTakes
  rcases hTakes with ⟨hMost, hSent⟩
  dsimp only at hMost hSent ⊢
  by_cases hWhole : ret = some headerSize
  · rw [if_neg (not_not.mpr hWhole)]
    rw [hWhole, Option.getD_some] at hMost hSent ⊢
    rw [← hHead, List.take_length] at hSent
    have hTakes := socket₁.send_takes data
    rcases hSend₁ : socket₁.send data with ⟨ret₁, socket₂⟩
    rw [hSend₁] at hTakes
    rcases hTakes with ⟨hMost₁, hSent₁⟩
    dsimp only at hMost₁ hSent₁ ⊢
    by_cases hWhole₁ : ret₁ = some (msg.firstDataLen order)
    · rw [if_neg (not_not.mpr hWhole₁)]
      rw [hWhole₁, Option.getD_some] at hMost₁ hSent₁ ⊢
      rw [← hData, List.take_length] at hSent₁
      rcases sendElements_takes hLens
          (headerSize + msg.firstDataLen order) socket₂ with
        ⟨n, hLeast, hCount, hSent₂⟩
      rw [hCount, hSent₂, hSent₁, hSent, ← hHead, ← hData]
      refine ⟨?_, ?_⟩
      · simp only [List.length_append]
        omega
      · rw [Nat.add_assoc, List.take_length_add_append,
          List.take_length_add_append]
        simp only [List.append_assoc]
    · rw [if_pos hWhole₁]
      rw [hSent₁, hSent, ← hHead]
      refine ⟨?_, ?_⟩
      · simp only [List.length_append]
        omega
      · rw [List.take_length_add_append,
          List.take_append_of_le_length hMost₁,
          List.append_assoc]
  · rw [if_pos hWhole, hSent]
    refine ⟨?_, ?_⟩
    · simp only [List.length_append]
      omega
    · rw [List.take_append_of_le_length hMost]

/- Where the rest of a message is found. -/
theorem at_calculateCurrentLocation
    (hSendable : Sendable order msg)
    {lenSent : Nat}
    (hLess : lenSent < msg.bytes.length)
    (write : PartialMessageInfo) :
    At msg (msg.calculateCurrentLocation lenSent write) ∧
      msg.rest (msg.calculateCurrentLocation lenSent write) =
        msg.bytes.drop lenSent := by
  rcases locate_inside hSendable.lens 0 hLess with
    ⟨k, hIndex, hInside, hDrop⟩
  rw [Nat.zero_add] at hIndex
  unfold MessageObj.rest MessageObj.calculateCurrentLocation
  dsimp only
  rw [hIndex]
  exact ⟨⟨rfl, hInside⟩, hDrop⟩

end Sendable

end Daemon

end ReplicatedAccount

------------------------------------------------------------
-- Nothing Is Lost, Repeated or Reordered
------------------------------------------------------------

namespace ReplicatedAccount

open Foundations SpreadConnection

namespace Daemon

/- The bytes that wait behind a place in the first message. -/
def pendingFrom
    (write : PartialMessageInfo) :
    List MessageObj → List Byte
| [] => []
| msg :: queue =>
    msg.rest write ++ queue.flatMap MessageObj.bytes

def SessionWriter.pending (w : SessionWriter) : List Byte :=
  pendingFrom w.write w.queue

/- Messages that wait, the first one from some place on. -/
structure Waiting
    (order : ByteOrder)
    (queue : List MessageObj)
    (write : PartialMessageInfo) : Prop where
  sendable : ∀ msg ∈ queue, Sendable order msg
  place : ∀ msg ∈ queue.head?, At msg write

variable {order : ByteOrder}

theorem waiting_reset
    {queue : List MessageObj}
    (hSendable : ∀ msg ∈ queue, Sendable order msg) :
    Waiting order queue .reset where
  sendable := hSendable
  place := fun msg hFirst =>
    at_reset (hSendable msg (List.mem_of_mem_head? hFirst)).lens

theorem pendingFrom_reset
    (queue : List MessageObj) :
    pendingFrom .reset queue =
      queue.flatMap MessageObj.bytes := by
  cases queue <;> rfl

/- A message that is put behind those that wait. -/
theorem Waiting.concat
    {queue : List MessageObj}
    {write : PartialMessageInfo}
    (hWaiting : Waiting order queue write)
    (hSome : queue ≠ [])
    {msg : MessageObj}
    (hSendable : Sendable order msg) :
    Waiting order (queue ++ [msg]) write ∧
      pendingFrom write (queue ++ [msg]) =
        pendingFrom write queue ++ msg.bytes := by
  rcases queue with _ | ⟨first, queue⟩
  · exact absurd rfl hSome
  · refine ⟨⟨?_, hWaiting.place⟩, ?_⟩
    · intro m hMember
      rcases List.mem_append.mp hMember with hOld | hNew
      · exact hWaiting.sendable m hOld
      · rw [List.mem_singleton.mp hNew]
        exact hSendable
    · simp [pendingFrom]

/-
  The bytes that `Sess_badger` sends are the first ones that
  wait.  By induction on the queue; the first message is sent
  from its place on, and every other one from its start.
-/
theorem badgerMessages_takes
    {queue : List MessageObj}
    {write : PartialMessageInfo}
    (hWaiting : Waiting order queue write)
    (socket : Socket) :
    ∃ taken queue' write' socket',
      badgerMessages queue write socket =
          (queue', write', socket') ∧
        socket'.sent = socket.sent ++ taken ∧
          pendingFrom write queue =
              taken ++ pendingFrom write' queue' ∧
            Waiting order queue' write' ∧ queue' <:+ queue := by
  induction queue generalizing write socket with
  | nil =>
      exact ⟨[], [], write, socket, rfl, by simp, rfl,
        ⟨by simp, by simp⟩, List.suffix_rfl⟩
  | cons msg queue ih =>
      have hOthers :
          ∀ m ∈ queue, Sendable order m :=
        fun m hMember =>
          hWaiting.sendable m (List.mem_cons_of_mem _ hMember)
      unfold badgerMessages
      rcases badgerMessage_cases
          (hWaiting.place msg (by simp)) socket with
        ⟨write', socket', hDone, hSent⟩ |
          ⟨taken, write', socket', hPart, hSent, hAt, hRest⟩
      · simp only [hDone]
        rcases ih (waiting_reset hOthers) socket' with
          ⟨taken, queue'', write'', socket'', hRun, hSent',
            hPending, hWaiting', hSuffix⟩
        refine ⟨msg.rest write ++ taken, queue'', write'',
          socket'', hRun, ?_, ?_, hWaiting',
          hSuffix.trans (List.suffix_cons _ _)⟩
        · rw [hSent', hSent, List.append_assoc]
        · rw [pendingFrom_reset] at hPending
          rw [pendingFrom, hPending, List.append_assoc]
      · simp only [hPart]
        refine ⟨taken, msg :: queue, write', socket', rfl, hSent,
          ?_, ⟨hWaiting.sendable, ?_⟩, List.suffix_rfl⟩
        · rw [pendingFrom, pendingFrom, hRest,
            List.append_assoc]
        · intro first hFirst
          rw [List.head?_cons, Option.mem_some] at hFirst
          exact hFirst ▸ hAt

/- What a session has done with the messages written to it. -/
structure Conserved
    (order : ByteOrder)
    (written : List MessageObj)
    (w : SessionWriter) : Prop where
  bytes :
    w.status = .operational →
      w.sent ++ w.pending = written.flatMap MessageObj.bytes
  sent : w.sent <+: written.flatMap MessageObj.bytes
  queued : w.queue <:+ written
  waiting : Waiting order w.queue w.write
  room : w.queue.length ≤ maxSessionMessages
  dropped : w.status ≠ .operational → w.queue = []

variable {written : List MessageObj}
variable {w : SessionWriter}

namespace Conserved

theorem start :
    Conserved order [] .start where
  bytes := fun _ => rfl
  sent := List.nil_prefix
  queued := List.suffix_rfl
  waiting := ⟨by simp [SessionWriter.start],
    by simp [SessionWriter.start]⟩
  room := Nat.zero_le _
  dropped := fun _ => rfl

/- Only the messages that were written are sent. -/
theorem kill
    (hConserved : Conserved order written w) :
    Conserved order written w.sessKill where
  bytes := fun hLives => nomatch hLives
  sent := hConserved.sent
  queued := List.nil_suffix
  waiting := ⟨by simp [SessionWriter.sessKill],
    by simp [SessionWriter.sessKill]⟩
  room := Nat.zero_le _
  dropped := fun _ => rfl

/- `Sess_badger` takes bytes from the front. -/
theorem badger
    (hConserved : Conserved order written w)
    (room : List (Option Nat)) :
    Conserved order written (sessBadger room w).1 := by
  unfold sessBadger
  split_ifs with hEnded
  · exact hConserved
  · have hLives : w.status = .operational := by
      simpa using hEnded
    rcases badgerMessages_takes hConserved.waiting
        ⟨w.sent, room⟩ with
      ⟨taken, queue, write, socket, hRun, hSent, hPending,
        hWaiting, hSuffix⟩
    have hAll :
        socket.sent ++ pendingFrom write queue =
          written.flatMap MessageObj.bytes := by
      rw [hSent, List.append_assoc, ← hPending]
      exact hConserved.bytes hLives
    simp only [hRun]
    exact
      { bytes := fun _ => hAll
        sent := ⟨_, hAll⟩
        queued := hSuffix.trans hConserved.queued
        waiting := hWaiting
        room := hSuffix.length_le.trans hConserved.room
        dropped := fun hDead => absurd hLives hDead }

end Conserved

theorem status_sessBadger
    (room : List (Option Nat))
    (w : SessionWriter) :
    (sessBadger room w).1.status = w.status := by
  unfold sessBadger
  split_ifs <;> rfl

/- A session is killed when too many messages are waiting. -/
theorem status_sessWrite
    (order : ByteOrder)
    (msg : MessageObj)
    (room : List (Option Nat))
    (w : SessionWriter) :
    (sessWrite order msg room w).status = .operational ↔
      w.status = .operational ∧
        w.queue.length < maxSessionMessages := by
  have hBadger := status_sessBadger room w
  unfold sessWrite
  by_cases hEnded : w.status ≠ .operational
  · rw [if_pos hEnded]
    exact ⟨fun hLives => absurd hLives hEnded,
      fun hBoth => hBoth.1⟩
  rw [if_neg hEnded]
  have hLives : w.status = .operational := by
    simpa using hEnded
  by_cases hFull : w.queue.length ≥ maxSessionMessages
  · rw [if_pos hFull]
    exact ⟨fun hKilled => (nomatch hKilled),
      fun hBoth => absurd hBoth.2 (Nat.not_lt.mpr hFull)⟩
  · rw [if_neg hFull]
    have hStatus :
        (sessBadger room w).1.status = .operational := by
      rw [hBadger, hLives]
    dsimp only
    split_ifs <;>
      simp [hStatus, hLives, Nat.lt_of_not_ge hFull]

theorem Conserved.length_queue_sessBadger
    (hConserved : Conserved order written w)
    (room : List (Option Nat)) :
    (sessBadger room w).1.queue.length ≤ w.queue.length := by
  unfold sessBadger
  split_ifs with hEnded
  · exact Nat.le_refl _
  · rcases badgerMessages_takes hConserved.waiting
        ⟨w.sent, room⟩ with
      ⟨_, queue, write, socket, hRun, _, _, _, hSuffix⟩
    simp only [hRun]
    exact hSuffix.length_le

section

variable {msg : MessageObj}

theorem flatMap_bytes_concat
    (written : List MessageObj)
    (msg : MessageObj) :
    (written ++ [msg]).flatMap MessageObj.bytes =
      written.flatMap MessageObj.bytes ++ msg.bytes := by
  simp

namespace Conserved

/- A session that has ended sends no further message. -/
theorem ended
    (hConserved : Conserved order written w)
    (hEnded : w.status ≠ .operational) :
    Conserved order (written ++ [msg]) w where
  bytes := fun hLives => absurd hLives hEnded
  sent := by
    rw [flatMap_bytes_concat]
    exact hConserved.sent.trans (List.prefix_append _ _)
  queued := by
    rw [hConserved.dropped hEnded]
    exact List.nil_suffix
  waiting := hConserved.waiting
  room := hConserved.room
  dropped := hConserved.dropped

/- The message waits behind the others. -/
theorem enqueued
    (hConserved : Conserved order written w)
    (hLives : w.status = .operational)
    (hSome : w.queue ≠ [])
    (hRoom : w.queue.length < maxSessionMessages)
    (hSendable : Sendable order msg) :
    Conserved order (written ++ [msg])
      { w with queue := w.queue ++ [msg] } := by
  rcases hConserved.waiting.concat hSome hSendable with
    ⟨hWaiting, hPending⟩
  have hAll :
      w.sent ++ pendingFrom w.write (w.queue ++ [msg]) =
        (written ++ [msg]).flatMap MessageObj.bytes := by
    rw [flatMap_bytes_concat, hPending, ← List.append_assoc]
    exact congrArg (· ++ msg.bytes) (hConserved.bytes hLives)
  rcases hConserved.queued with ⟨done, hDone⟩
  exact
    { bytes := fun _ => hAll
      sent := ⟨_, hAll⟩
      queued := ⟨done, by rw [← hDone, List.append_assoc]⟩
      waiting := hWaiting
      room := by
        rw [List.length_append, List.length_singleton]
        exact hRoom
      dropped := fun hDead => absurd hLives hDead }

theorem bytes_of_empty
    (hConserved : Conserved order written w)
    (hLives : w.status = .operational)
    (hEmpty : w.queue = []) :
    w.sent = written.flatMap MessageObj.bytes := by
  have hBytes := hConserved.bytes hLives
  rwa [SessionWriter.pending, hEmpty, pendingFrom,
    List.append_nil] at hBytes

/- The message is sent at once, and as a whole. -/
theorem sent_whole
    (hConserved : Conserved order written w)
    (hLives : w.status = .operational)
    (hEmpty : w.queue = []) :
    Conserved order (written ++ [msg])
      { w with sent := w.sent ++ msg.bytes } := by
  have hAll :
      w.sent ++ msg.bytes =
        (written ++ [msg]).flatMap MessageObj.bytes := by
    rw [flatMap_bytes_concat,
      hConserved.bytes_of_empty hLives hEmpty]
  exact
    { bytes := fun _ => by
        rw [SessionWriter.pending, hEmpty, pendingFrom,
          List.append_nil]
        exact hAll
      sent := ⟨[], by rw [List.append_nil, hAll]⟩
      queued := by
        rw [hEmpty]
        exact List.nil_suffix
      waiting := hConserved.waiting
      room := hConserved.room
      dropped := fun _ => hEmpty }

/- The first bytes of the message are sent at once. -/
theorem sent_part
    (hConserved : Conserved order written w)
    (hLives : w.status = .operational)
    (hEmpty : w.queue = [])
    (hSendable : Sendable order msg)
    {lenSent : Nat}
    (hPart : lenSent < msg.bytes.length) :
    Conserved order (written ++ [msg])
      { w with
        sent := w.sent ++ msg.bytes.take lenSent
        queue := [msg]
        write :=
          msg.calculateCurrentLocation lenSent w.write } := by
  rcases hSendable.at_calculateCurrentLocation hPart w.write
    with ⟨hAt, hRest⟩
  have hAll :
      (w.sent ++ msg.bytes.take lenSent) ++
          pendingFrom
            (msg.calculateCurrentLocation lenSent w.write)
            [msg] =
        (written ++ [msg]).flatMap MessageObj.bytes := by
    rw [flatMap_bytes_concat, pendingFrom, hRest,
      hConserved.bytes_of_empty hLives hEmpty,
      List.flatMap_nil, List.append_nil, List.append_assoc,
      List.take_append_drop]
  exact
    { bytes := fun _ => hAll
      sent := ⟨_, hAll⟩
      queued := List.suffix_append _ _
      waiting := ⟨by simpa using hSendable, by simpa using hAt⟩
      room := (by decide : 1 ≤ maxSessionMessages)
      dropped := fun hDead => absurd hLives hDead }

/- A message is sent behind all others, or waits behind them. -/
theorem write
    (hConserved : Conserved order written w)
    (hSendable : Sendable order msg)
    (room : List (Option Nat)) :
    Conserved order (written ++ [msg])
      (sessWrite order msg room w) := by
  unfold sessWrite
  by_cases hEnded : w.status ≠ .operational
  · rw [if_pos hEnded]
    exact hConserved.ended hEnded
  rw [if_neg hEnded]
  by_cases hFull : w.queue.length ≥ maxSessionMessages
  · -- the session is killed for not reading
    rw [if_pos hFull]
    exact hConserved.kill.ended nofun
  rw [if_neg hFull]
  have hBadgered := hConserved.badger room
  have hStatus := status_sessBadger room w
  have hShorter := hConserved.length_queue_sessBadger room
  rcases hAfter : sessBadger room w with ⟨w', room'⟩
  rw [hAfter] at hBadgered hStatus hShorter
  dsimp only at hBadgered hStatus hShorter ⊢
  have hLives : w'.status = .operational :=
    hStatus.trans (not_not.mp hEnded)
  by_cases hEmpty : w'.queue = []
  · rw [if_pos hEmpty, hSendable.totalToSend_eq]
    have hSent :=
      (hSendable.sendMessage_takes ⟨w'.sent, room'⟩).2
    rcases hTaken : sendMessage order msg ⟨w'.sent, room'⟩ with
      ⟨lenSent, socket⟩
    rw [hTaken] at hSent
    dsimp only at hSent ⊢
    rw [hSent]
    split_ifs with hPart
    · exact hBadgered.sent_part hLives hEmpty hSendable hPart
    · rw [List.take_of_length_le (Nat.le_of_not_lt hPart)]
      exact hBadgered.sent_whole hLives hEmpty
  · rw [if_neg hEmpty, if_pos hSendable.totalToSend_pos]
    exact hBadgered.enqueued hLives hEmpty (by omega) hSendable

end Conserved

end

end Daemon

end ReplicatedAccount

------------------------------------------------------------
-- Runs of a Session
------------------------------------------------------------

namespace ReplicatedAccount

open Foundations SpreadConnection

namespace Daemon

/- The calls that change what a session sends. -/
inductive WriteEvent where
  -- a message is delivered to it
  | write (msg : MessageObj) (room : List (Option Nat))
  -- it is called to write what is waiting
  | badger (room : List (Option Nat))
  -- reading has ended it
  | kill
deriving DecidableEq, Repr

/- The messages that are delivered to a session. -/
def writtenIn (events : List WriteEvent) : List MessageObj :=
  events.filterMap fun
    | .write msg _ => some msg
    | _ => none

namespace SessionWriter

def handle
    (order : ByteOrder)
    (w : SessionWriter) :
    WriteEvent → SessionWriter
| .write msg room => sessWrite order msg room w
| .badger room => (sessBadger room w).1
| .kill => w.sessKill

def run
    (order : ByteOrder)
    (events : List WriteEvent) :
    SessionWriter :=
  events.foldl (handle order) start

end SessionWriter

theorem conserved_of_run
    (order : ByteOrder)
    (events : List WriteEvent)
    (hSendable :
      ∀ msg ∈ writtenIn events, Sendable order msg) :
    Conserved order (writtenIn events)
      (SessionWriter.run order events) := by
  induction events using List.reverseRecOn with
  | nil => exact .start
  | append_singleton events event ih =>
      have hParts :
          writtenIn (events ++ [event]) =
            writtenIn events ++ writtenIn [event] :=
        List.filterMap_append
      rw [hParts] at hSendable ⊢
      have hBefore :=
        ih fun msg hMember =>
          hSendable msg (List.mem_append_left _ hMember)
      rw [SessionWriter.run, List.foldl_append]
      cases event with
      | write msg room =>
          exact hBefore.write
            (hSendable msg (by simp [writtenIn])) room
      | badger room =>
          have hNone : writtenIn [.badger room] = [] := rfl
          rw [hNone, List.append_nil]
          exact hBefore.badger room
      | kill =>
          have hNone : writtenIn [.kill] = [] := rfl
          rw [hNone, List.append_nil]
          exact hBefore.kill

/- A session lives until reading ends it, or it is full. -/
theorem session_lives_iff
    (order : ByteOrder)
    (events : List WriteEvent) :
    (SessionWriter.run order events).status = .operational ↔
      .kill ∉ events ∧
        ∀ earlier msg room later,
          events = earlier ++ .write msg room :: later →
            (SessionWriter.run order earlier).queue.length <
              maxSessionMessages := by
  induction events using List.reverseRecOn with
  | nil => simp [SessionWriter.run, SessionWriter.start]
  | append_singleton events event ih =>
      have hRun :
          SessionWriter.run order (events ++ [event]) =
            (SessionWriter.run order events).handle order
              event := by
        simp [SessionWriter.run]
      have hWrites :
          (∀ earlier msg room later,
            events ++ [event] =
                earlier ++ .write msg room :: later →
              (SessionWriter.run order earlier).queue.length <
                maxSessionMessages) ↔
            (∀ earlier msg room later,
              events = earlier ++ .write msg room :: later →
                (SessionWriter.run order
                    earlier).queue.length <
                  maxSessionMessages) ∧
              ∀ msg room,
                event = .write msg room →
                  (SessionWriter.run order
                      events).queue.length <
                    maxSessionMessages := by
        constructor
        · intro hAll
          refine ⟨?_, ?_⟩
          · rintro earlier msg room later rfl
            exact hAll earlier msg room (later ++ [event])
              (by simp)
          · rintro msg room rfl
            exact hAll events msg room [] rfl
        · rintro ⟨hBefore, hLast⟩ earlier msg room later hParts
          rcases List.eq_nil_or_concat later with
            rfl | ⟨later, last, rfl⟩
          · rcases List.append_inj' hParts rfl with
              ⟨rfl, hEvent⟩
            exact hLast msg room (List.cons_eq_cons.mp hEvent).1
          · rw [List.concat_eq_append, ← List.cons_append,
              ← List.append_assoc] at hParts
            rcases List.append_inj' hParts rfl with ⟨hEvents, _⟩
            exact hBefore earlier msg room later hEvents
      rw [hRun, hWrites, List.mem_append, not_or,
        and_and_and_comm, ← ih]
      cases event with
      | write msg room =>
          have hRoom :
              ((SessionWriter.run order events).handle order
                  (.write msg room)).status = .operational ↔
                (SessionWriter.run order events).status =
                    .operational ∧
                  (SessionWriter.run order
                      events).queue.length <
                    maxSessionMessages := by
            rw [SessionWriter.handle, status_sessWrite]
          simp [hRoom]
      | badger room =>
          rw [SessionWriter.handle, status_sessBadger]
          simp
      | kill => simp [SessionWriter.handle, SessionWriter.sessKill]

/-
  Whatever the socket takes at each call, what it took and what
  is waiting are together the messages written to the session,
  in order; a session that is killed has sent a part of them.
-/
theorem session_loses_nothing
    (order : ByteOrder)
    (events : List WriteEvent)
    (hSendable :
      ∀ msg ∈ writtenIn events, Sendable order msg) :
    ((SessionWriter.run order events).status = .operational →
      (SessionWriter.run order events).sent ++
          (SessionWriter.run order events).pending =
        (writtenIn events).flatMap MessageObj.bytes) ∧
    (SessionWriter.run order events).sent <+:
      (writtenIn events).flatMap MessageObj.bytes ∧
    (SessionWriter.run order events).queue <:+
      writtenIn events ∧
    (SessionWriter.run order events).queue.length ≤
      maxSessionMessages ∧
    ((SessionWriter.run order events).status = .operational ↔
      .kill ∉ events ∧
        ∀ earlier msg room later,
          events = earlier ++ .write msg room :: later →
            (SessionWriter.run order earlier).queue.length <
              maxSessionMessages) := by
  have hConserved := conserved_of_run order events hSendable
  exact ⟨hConserved.bytes, hConserved.sent, hConserved.queued,
    hConserved.room, session_lives_iff order events⟩

/- A message that is sent in three pieces, and one behind it. -/
def slowEvents : List WriteEvent :=
  [.write ⟨[⟨(firstHeader 0x00000004 0).memory .littleEndian, 48⟩]⟩ [some 10],
    .write ⟨[⟨(firstHeader 0x00000004 0).memory .littleEndian, 48⟩]⟩
      [some 20, none],
    .badger [some 30, some 5]]

theorem session_loses_nothing_slow :
    (SessionWriter.run .littleEndian slowEvents).sent ++
        (SessionWriter.run .littleEndian slowEvents).pending =
      (writtenIn slowEvents).flatMap MessageObj.bytes := by
  refine (session_loses_nothing .littleEndian slowEvents
    ?_).1 (by decide +kernel)
  intro msg hMember
  have hMsg :
      msg =
        ⟨[⟨(firstHeader 0x00000004 0).memory .littleEndian, 48⟩]⟩ := by
    simpa [writtenIn, slowEvents] using hMember
  subst hMsg
  exact
    ⟨⟨_, [], rfl, by decide +kernel, by decide +kernel⟩,
      by decide +kernel⟩

end Daemon

end ReplicatedAccount
