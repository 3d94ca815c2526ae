import ReplicatedAccount.Spread.Broadcast
import ReplicatedAccount.Spread.Window

/-
  The packets that a daemon sends are the messages of its
  sessions, one after another.

  Key definitions include:
    * `messagesOf`
    * `Serves`
    * `Loads`

  Key theorems include:
    * `Serves.push`
    * `exists_sendNewPackets`
-/

------------------------------------------------------------
-- Messages and their Packets
------------------------------------------------------------

namespace ReplicatedAccount

namespace Protocol

open Foundations
open Daemon (PacketType)

variable {n : Nat}
variable {Body : Type}

/- The parts of the first message that were sent. -/
def DownQueue.begun
    (queue : DownQueue Body) :
    List (Fragment Body) :=
  match queue.links with
  | [] => []
  | link :: _ => link.mess.take queue.curElement

/- The first message of the queue is not sent completely. -/
def DownQueue.Valid (queue : DownQueue Body) : Prop :=
  match queue.links with
  | [] => queue.curElement = 0
  | link :: _ => queue.curElement < link.mess.length

/- What a session wants to be delivered. -/
def DownLink.message
    (link : DownLink Body) :
    PacketType × List (Fragment Body) :=
  (link.type, link.mess)

/- What was delivered of the messages of a daemon. -/
def messagesOf
    (i : Fin n)
    (messages : List (Packet n Body × List (Fragment Body))) :
    List (PacketType × List (Fragment Body)) :=
  (messages.filter fun m => m.1.procId = i).map
    fun m => (m.1.type, m.2)

theorem messagesOf_append
    (i : Fin n)
    (ms ms' : List (Packet n Body × List (Fragment Body))) :
    messagesOf i (ms ++ ms') =
      messagesOf i ms ++ messagesOf i ms' := by
  simp [messagesOf]

/-
  The whole messages of a daemon in the packets that were sent
  are those it was given before the ones that still wait.
-/
structure Serves
    (a : Assembly (Packet n Body) (Option (Fin n))
      (Fragment Body))
    (i : Fin n)
    (submitted : List (DownLink Body))
    (queue : DownQueue Body) : Prop where
  messages :
    ∃ done, submitted = done ++ queue.links ∧
      messagesOf i a.whole = done.map DownLink.message
  parts : a.parts (some i) = queue.begun
  valid : queue.Valid

/- A message that waits changes nothing of what was sent. -/
theorem Serves.submit
    {a : Assembly (Packet n Body) (Option (Fin n))
      (Fragment Body)}
    {i : Fin n}
    {submitted : List (DownLink Body)}
    {d : ProtocolState n Body}
    (hServes : Serves a i submitted d.downQueue)
    (link : DownLink Body) :
    Serves a i (submitted ++ [link])
      (protNewMessage d link).downQueue := by
  have hValid := hServes.valid
  have hParts := hServes.parts
  rcases hServes.messages with ⟨done, hSubmitted, hDone⟩
  refine ⟨⟨done, ?_, hDone⟩, ?_, ?_⟩
  · rw [hSubmitted, List.append_assoc]
    rfl
  · rw [hParts]
    cases hLinks : d.downQueue.links with
    | nil =>
        simp only [DownQueue.Valid, hLinks] at hValid
        simp [DownQueue.begun, protNewMessage, hLinks, hValid]
    | cons first rest =>
        simp [DownQueue.begun, protNewMessage, hLinks]
  · cases hLinks : d.downQueue.links with
    | nil =>
        simp only [DownQueue.Valid, hLinks] at hValid
        simp only [DownQueue.Valid, protNewMessage, hLinks,
          List.nil_append, hValid]
        exact List.length_pos_of_ne_nil link.mess_ne
    | cons first rest =>
        simp only [DownQueue.Valid, protNewMessage, hLinks,
          List.cons_append] at hValid ⊢
        exact hValid

section

variable {a : Assembly (Packet n Body) (Option (Fin n))
  (Fragment Body)}
variable {me : Proc n}
variable {d : ProtocolState n Body}
variable {link : DownLink Body}
variable {element : Fragment Body}

/- The queue of the next packet has the parts before it. -/
theorem parts_newPacket
    (hNone : a.parts none = [])
    (hParts :
      a.parts (some me.id) =
        link.mess.take d.downQueue.curElement)
    (hLess : d.downQueue.curElement < link.mess.length) :
    a.parts (newPacket me d link element).queue =
      link.mess.take d.downQueue.curElement := by
  by_cases hSingle : (newPacket me d link element).isSingle
  · rcases Packet.eq_of_isSingle hSingle with
      ⟨_, hIndex, hQueue⟩
    have hFirst : d.downQueue.curElement = 0 := by
      simp only [newPacket] at hIndex
      split_ifs at hIndex <;> omega
    rw [hQueue, hNone, hFirst, List.take_zero]
  · rw [Packet.queue, if_neg hSingle]
    exact hParts

theorem natAbs_packetIndex
    (hLess : d.downQueue.curElement < link.mess.length) :
    (newPacket me d link element).packetIndex.natAbs =
      d.downQueue.curElement + 1 := by
  simp only [newPacket]
  split_ifs <;> omega

/- The next packet fits, and adds its element. -/
theorem newPacket_fits
    (hNone : a.parts none = [])
    (hParts :
      a.parts (some me.id) =
        link.mess.take d.downQueue.curElement)
    (hElement :
      link.mess[d.downQueue.curElement]? = some element) :
    packetFraming.Fits a (newPacket me d link element) ∧
      packetFraming.extend a (newPacket me d link element) =
        link.mess.take (d.downQueue.curElement + 1) := by
  have hLess := (List.getElem?_eq_some_iff.mp hElement).1
  have hBefore :
      a.parts (newPacket me d link element).queue =
        link.mess.take d.downQueue.curElement :=
    parts_newPacket hNone hParts hLess
  constructor
  · simp only [Framing.Fits, packetFraming, hBefore,
      natAbs_packetIndex hLess, List.length_take]
    omega
  · simp only [Framing.extend, packetFraming, hBefore]
    rw [List.take_add_one, hElement]
    rfl

/- The daemon serves its messages with the next packet. -/
theorem Serves.push
    {submitted : List (DownLink Body)}
    {rest : List (DownLink Body)}
    (hServes : Serves a me.id submitted d.downQueue)
    (hNone : a.parts none = [])
    (hLinks : d.downQueue.links = link :: rest)
    (hElement :
      link.mess[d.downQueue.curElement]? = some element) :
    packetFraming.Fits a (newPacket me d link element) ∧
      Serves
        (packetFraming.accept a (newPacket me d link element))
        me.id submitted
        (if d.downQueue.curElement + 1 < link.mess.length then
          ⟨link :: rest, d.downQueue.curElement + 1⟩
        else
          ⟨rest, 0⟩) := by
  have hParts := hServes.parts
  rw [DownQueue.begun, hLinks] at hParts
  rcases newPacket_fits hNone hParts hElement with
    ⟨hFits, hExtend⟩
  refine ⟨hFits, ?_⟩
  have hLess := (List.getElem?_eq_some_iff.mp hElement).1
  rcases hServes.messages with ⟨done, hSubmitted, hDone⟩
  by_cases hMore :
      d.downQueue.curElement + 1 < link.mess.length
  · have hLast :
        packetFraming.isLast (newPacket me d link element) =
          false := by
      simp only [packetFraming, newPacket, if_pos hMore]
      exact decide_eq_false (by omega)
    have hQueue :
        (newPacket me d link element).queue = some me.id := by
      refine if_neg ?_
      intro hSingle
      have hIndex := (Packet.eq_of_isSingle hSingle).2.1
      simp only [newPacket, if_pos hMore] at hIndex
      omega
    rw [Framing.accept, hLast, if_neg Bool.false_ne_true,
      hExtend, if_pos hMore]
    refine ⟨⟨done, ?_, hDone⟩, ?_, hMore⟩
    · rw [hSubmitted, hLinks]
    · exact (congrArg _ hQueue.symm).trans
        (Function.update_self _ _ _)
  · have hAll :
        d.downQueue.curElement + 1 = link.mess.length := by
      omega
    have hLast :
        packetFraming.isLast (newPacket me d link element) =
          true := by
      simp only [packetFraming, newPacket, if_neg hMore]
      exact decide_eq_true (by omega)
    rw [Framing.accept, hLast, if_pos rfl, hExtend,
      if_neg hMore, hAll, List.take_length]
    refine ⟨⟨done ++ [link], ?_, ?_⟩, ?_, ?_⟩
    · rw [hSubmitted, hLinks, List.append_assoc]
      rfl
    · rw [messagesOf_append, hDone, List.map_append]
      simp [messagesOf, newPacket, DownLink.message]
    · -- no part of the next message was sent
      have hEmpty : DownQueue.begun ⟨rest, 0⟩ = [] := by
        cases rest <;> rfl
      rw [hEmpty]
      by_cases hSingle :
          (newPacket me d link element).isSingle
      · rcases Packet.eq_of_isSingle hSingle with
          ⟨_, hIndex, hQueue⟩
        have hFirst : d.downQueue.curElement = 0 := by
          simp only [newPacket, if_neg hMore] at hIndex
          omega
        have hOther :
            some me.id ≠
              packetFraming.source
                (newPacket me d link element) := by
          rw [show packetFraming.source
            (newPacket me d link element) = none from hQueue]
          exact Option.some_ne_none _
        dsimp only
        rw [Function.update_of_ne hOther, hParts, hFirst]
        exact List.take_zero
      · have hQueue :
            packetFraming.source
                (newPacket me d link element) =
              some me.id :=
          if_neg hSingle
        dsimp only
        rw [hQueue, Function.update_self]
    · cases hRest : rest with
      | nil => rfl
      | cons next _ =>
          exact List.length_pos_of_ne_nil next.mess_ne

/- The messages of the other daemons are not changed. -/
theorem Serves.other
    {j : Fin n}
    {submitted : List (DownLink Body)}
    {queue : DownQueue Body}
    (hServes : Serves a j submitted queue)
    {p : Packet n Body}
    (hOther : j ≠ p.procId) :
    Serves (packetFraming.accept a p) j submitted queue := by
  have hQueue : some j ≠ packetFraming.source p := by
    simp only [packetFraming, Packet.queue]
    split_ifs
    · exact Option.some_ne_none j
    · exact fun hSame => hOther (Option.some.inj hSame)
  have hNew :
      messagesOf j [(p, packetFraming.extend a p)] = [] := by
    simp [messagesOf, hOther.symm]
  rcases hServes.messages with ⟨done, hSubmitted, hDone⟩
  rw [Framing.accept]
  split_ifs
  · refine ⟨⟨done, hSubmitted, ?_⟩, ?_, hServes.valid⟩
    · rw [messagesOf_append, hNew, List.append_nil]
      exact hDone
    · exact (Function.update_of_ne hQueue _ _).trans
        hServes.parts
  · exact ⟨⟨done, hSubmitted, hDone⟩,
      (Function.update_of_ne hQueue _ _).trans hServes.parts,
      hServes.valid⟩

end

end Protocol

end ReplicatedAccount

------------------------------------------------------------
-- All Packets
------------------------------------------------------------

namespace ReplicatedAccount

namespace Protocol

open Foundations

variable {n : Nat}
variable {Body : Type}

/- All packets, and what every daemon has left to send. -/
structure Served
    (sent : List (Packet n Body))
    (submitted : Fin n → List (DownLink Body))
    (queues : Fin n → DownQueue Body) : Prop where
  seq : ∀ k p, sent[k]? = some p → p.seq = k + 1
  serves :
    ∃ a, packetFraming.assemble sent = some a ∧
      ∀ j, Serves a j (submitted j) (queues j)

variable {sent : List (Packet n Body)}
variable {submitted : Fin n → List (DownLink Body)}
variable {queues : Fin n → DownQueue Body}
variable {me : Proc n}
variable {d : ProtocolState n Body}

theorem Served.sound
    (hServed : Served sent submitted queues) :
    Sound sent := by
  rcases hServed.serves with ⟨a, hAll, _⟩
  exact ⟨hServed.seq, a, hAll⟩

theorem Served.push
    (hServed : Served sent submitted queues)
    (hQueue : queues me.id = d.downQueue)
    (hHighest : d.highestSeq = sent.length)
    {link : DownLink Body}
    {rest : List (DownLink Body)}
    (hLinks : d.downQueue.links = link :: rest)
    {element : Fragment Body}
    (hElement :
      link.mess[d.downQueue.curElement]? = some element) :
    Served (sent ++ [newPacket me d link element]) submitted
      (Function.update queues me.id
        (if d.downQueue.curElement + 1 < link.mess.length then
          ⟨link :: rest, d.downQueue.curElement + 1⟩
        else
          ⟨rest, 0⟩)) := by
  constructor
  · intro k p hPlace
    rw [List.getElem?_append] at hPlace
    split_ifs at hPlace with hOld
    · exact hServed.seq k p hPlace
    · rw [List.getElem?_singleton] at hPlace
      split_ifs at hPlace with hLast
      cases hPlace
      simp only [newPacket]
      omega
  · rcases hServed.serves with ⟨a, hAll, hServes⟩
    have hMine := hServes me.id
    rw [hQueue] at hMine
    rcases hMine.push (parts_none hAll) hLinks hElement with
      ⟨hFits, hPush⟩
    refine ⟨_, packetFraming.assemble_concat_iff.mpr
      ⟨a, hAll, hFits, rfl⟩, ?_⟩
    intro j
    by_cases hMe : j = me.id
    · subst hMe
      rw [Function.update_self]
      exact hPush
    · rw [Function.update_of_ne hMe]
      exact (hServes j).other hMe

/- The daemons whose queue has its next element. -/
theorem Served.exists_element
    (hServed : Served sent submitted queues)
    (hQueue : queues me.id = d.downQueue)
    {link : DownLink Body}
    {rest : List (DownLink Body)}
    (hLinks : d.downQueue.links = link :: rest) :
    ∃ element,
      link.mess[d.downQueue.curElement]? = some element := by
  rcases hServed.serves with ⟨a, _, hServes⟩
  have hValid := (hServes me.id).valid
  rw [hQueue, DownQueue.Valid, hLinks] at hValid
  exact ⟨_, List.getElem?_eq_getElem hValid⟩

/- What holds of all packets while a daemon sends. -/
structure Loads
    (sent : List (Packet n Body))
    (submitted : Fin n → List (DownLink Body))
    (queues : Fin n → DownQueue Body)
    (me : Proc n)
    (d : ProtocolState n Body)
    (s : Sending n Body) : Prop where
  sends : Sends d s
  packed : Packed s
  numSent_le : s.numSent ≤ 15
  served :
    Served (sent ++ s.packets) submitted
      (Function.update queues me.id s.state.downQueue)
  tracks :
    Tracks (sent ++ s.packets) d.myAru d.aru s.state.delivery

section

variable {s : Sending n Body}
variable (hLoads : Loads sent submitted queues me d s)

include hLoads

theorem Loads.highestSeq_eq
    (hHighest : d.highestSeq = sent.length) :
    s.state.highestSeq = (sent ++ s.packets).length := by
  rw [hLoads.sends.highestSeq_eq, hHighest,
    List.length_append]

/- There is room for the next packet. -/
theorem Loads.length_lt
    (hLength :
      sent.length ≤ d.delivery.lastDiscarded + 3 * window) :
    (sent ++ s.packets).length + 1 ≤
      s.state.delivery.lastDiscarded + maxPacketsInStruct := by
  have hPackets := hLoads.packed.length_le hLoads.numSent_le
  rw [hLoads.sends.lastDiscarded_eq, List.length_append]
  simp only [window, maxSeqGap, maxPacketsPerToken,
    maxPacketsInStruct] at *
  omega

theorem Loads.free
    (hHighest : d.highestSeq = sent.length)
    (hLength :
      sent.length ≤ d.delivery.lastDiscarded + 3 * window) :
    s.state.delivery.packets
        (packEntry (s.state.highestSeq + 1)) = none := by
  have hRoom := hLoads.length_lt hLength
  have hDiscarded := hLoads.tracks.discarded_le
  have hDelivered := hLoads.tracks.delivered_le
  have hCounted := hLoads.tracks.myAru_le
  rw [hLoads.highestSeq_eq hHighest]
  by_contra hTaken
  rcases Option.ne_none_iff_exists'.mp hTaken with
    ⟨info, hInfo⟩
  have hSent := (hLoads.tracks.stored _ info hInfo).1
  have hSeq :=
    hLoads.tracks.seq_of_slot hLoads.served.sound
      (by omega) hRoom hInfo
  have hLess := (hLoads.served.sound.bounds hSent).2.1
  omega

theorem Loads.push
    (hHighest : d.highestSeq = sent.length)
    (hLength :
      sent.length ≤ d.delivery.lastDiscarded + 3 * window)
    {link : DownLink Body}
    {rest : List (DownLink Body)}
    (hLinks : s.state.downQueue.links = link :: rest)
    {element : Fragment Body}
    (hElement :
      link.mess[s.state.downQueue.curElement]? = some element)
    (hLimit : s.numSent < 15) :
    Loads sent submitted queues me d
      (s.push me link rest element) := by
  have hSeq := hLoads.highestSeq_eq hHighest
  have hDiscarded := hLoads.tracks.discarded_le
  have hDelivered := hLoads.tracks.delivered_le
  have hCounted := hLoads.tracks.myAru_le
  have hServed :=
    hLoads.served.push (Function.update_self _ _ _) hSeq hLinks
      hElement
  rw [Function.update_idem, List.append_assoc] at hServed
  have hTracks :
      Tracks
        (sent ++ (s.packets ++ [newPacket me s.state link element]))
        d.myAru d.aru s.state.delivery := by
    have hExtend :
        Tracks
          (sent ++ s.packets ++ [newPacket me s.state link element])
          d.myAru d.aru s.state.delivery :=
      hLoads.tracks.extend
        (by rw [List.append_assoc]; exact hServed.sound)
        (by
          rw [List.length_append, List.length_singleton]
          exact hLoads.length_lt hLength)
    rw [List.append_assoc] at hExtend
    exact hExtend
  exact
    { sends := hLoads.sends.push me link rest element
      packed := hLoads.packed.push me link rest element
      numSent_le := by
        have hOne :=
          Bool.toNat_le
            (netQueueBcast s.queue
              (packetHeaderSize + element.len)).2
        simp only [Sending.push]
        omega
      served := hServed
      tracks := by
        refine hTracks.insert (by simp) ?_
          (hLoads.free hHighest hLength)
        simp only [newPacket]
        omega }

end

/- The loop ends well, if every turn can send its packet. -/
theorem exists_sendLoop
    {numAllowed : Nat}
    {P : Sending n Body → Prop}
    (hStep :
      ∀ s link rest,
        P s → s.numSent < numAllowed →
          s.state.downQueue.links = link :: rest →
            ∃ element,
              link.mess[s.state.downQueue.curElement]? =
                  some element ∧
                s.state.delivery.packets
                    (packEntry (s.state.highestSeq + 1)) =
                  none ∧
                P (s.push me link rest element))
    {k : Nat}
    {s : Sending n Body}
    (hStart : P s) :
    ∃ s', sendLoop me numAllowed k s = some s' ∧ P s' := by
  induction k generalizing s with
  | zero => exact ⟨s, rfl, hStart⟩
  | succ k ih =>
      rw [sendLoop]
      split_ifs with hMore
      · rcases List.exists_cons_of_ne_nil hMore.2 with
          ⟨link, rest, hLinks⟩
        rcases hStep s link rest hStart hMore.1 hLinks with
          ⟨element, hElement, hFree, hNext⟩
        have hSend :
            sendNext me s = some (s.push me link rest element) := by
          simp [sendNext, hLinks, hElement, hFree]
        rw [hSend]
        exact ih hNext
      · exact ⟨s, rfl, hStart⟩

theorem exists_sendNewPackets
    (hServed : Served sent submitted queues)
    (hQueue : queues me.id = d.downQueue)
    (hTracks : Tracks sent d.myAru d.aru d.delivery)
    (hHighest : d.highestSeq = sent.length)
    (hLength :
      sent.length ≤ d.delivery.lastDiscarded + 3 * window)
    (queue : NetQueue)
    (highestSeq aru : Nat)
    (flowControl : Int) :
    ∃ s,
      sendNewPackets me d queue
          (fcAllowed highestSeq aru flowControl) =
        some s ∧
      Served (sent ++ s.packets) submitted
        (Function.update queues me.id s.state.downQueue) ∧
      Tracks (sent ++ s.packets) d.myAru d.aru
        s.state.delivery ∧
      Sends d s := by
  have hAllowed := fcAllowed_le highestSeq aru flowControl
  have hStart :
      Loads sent submitted queues me d ⟨d, [], queue, 0⟩ :=
    { sends := ⟨rfl, by simp⟩
      packed :=
        ⟨0, Nat.zero_le _, Nat.zero_le _,
          Or.inl (Nat.zero_le _)⟩
      numSent_le := Nat.zero_le _
      served := by
        rw [List.append_nil, ← hQueue,
          Function.update_eq_self]
        exact hServed
      tracks := by
        rw [List.append_nil]
        exact hTracks }
  have hLoop :
      ∃ s,
        sendLoop me (fcAllowed highestSeq aru flowControl)
            d.downQueue.turns ⟨d, [], queue, 0⟩ =
          some s ∧ Loads sent submitted queues me d s := by
    refine exists_sendLoop ?_ hStart
    intro s link rest hLoads hLess hLinks
    rcases hLoads.served.exists_element
        (Function.update_self _ _ _) hLinks with
      ⟨element, hElement⟩
    exact ⟨element, hElement, hLoads.free hHighest hLength,
      hLoads.push hHighest hLength hLinks hElement
        (by omega)⟩
  rcases hLoop with ⟨s, hSending, hLoads⟩
  rw [sendNewPackets, hSending]
  exact ⟨_, rfl, hLoads.served, hLoads.tracks,
    hLoads.sends.same, hLoads.sends.seqs⟩

end Protocol

end ReplicatedAccount
