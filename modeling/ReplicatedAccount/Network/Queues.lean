import ReplicatedAccount.Foundations.Retransmission
import ReplicatedAccount.Network.Identifiers

/-
  Under FIFO delivery, every client is a sender that keeps
  its transactions in a queue until its own messages take
  them off again.

  Key definitions include:
    * `Network.queue`
    * `Network.coveredBy`

  Key theorems include:
    * `queue_refines`
    * `received_isPrefix_of_run`
    * `ordered_of_run`
-/

------------------------------------------------------------
-- Clients as Senders
------------------------------------------------------------

namespace ReplicatedAccount

open Foundations

variable {ι D : Type} [DecidableEq ι]

/- The client as a sender that retransmits its queue. -/
def Network.queue
    (σ : Network ι D)
    (client : ι) :
    SendQueue Transaction where
  issued := σ.issued client
  outstanding := (σ.replica client).client.outstandingCollection
  sent := σ.sent client
  returned := (σ.received client client).length

variable [DoubleArithmetic D]

namespace Network

variable {settings : ι → Settings}
variable {σ σ' : Network ι D}
variable {a : NetworkAction ι}

/- What others do does not show in the queue of a client. -/
omit [DoubleArithmetic D] in
theorem queue_congr
    {client : ι}
    (hReplica : σ'.replica client = σ.replica client)
    (hReceived :
      σ'.received client client = σ.received client client) :
    σ'.queue client = σ.queue client := by
  unfold queue issued sent
  rw [hReplica, hReceived]

/- A local action issues, multicasts or changes nothing. -/
theorem Sound.queue_of_local
    (hSound : σ.Sound settings)
    {client : ι}
    {b : ReplicaAction}
    (hLocal : ∀ batch, b ≠ .deliver batch)
    (hReplica :
      σ'.replica client = (σ.replica client).act b)
    (hReceived :
      σ'.received client client = σ.received client client) :
    σ'.queue client = σ.queue client ∨
      ∃ step,
        (sendQueueSystem (reached D)).step (σ.queue client)
          step = some (σ'.queue client) := by
  have hEffect :=
    (σ.replica client).act_effect b
      (hSound.books client).idsPresent
      (fun batch hAction => absurd hAction (hLocal batch))
  rw [← hReplica] at hEffect
  unfold queue issued sent
  rw [hReceived]
  cases hEffect with
  | enqueues command hClient hTrace hCommand =>
      refine Or.inr
        ⟨.issue ((σ.replica client).client.nextTransaction
          command), ?_⟩
      simp [sendQueueSystem, SendQueue.step, hClient, hTrace,
        Client.afterEnqueue]
  | cleans hClient hTrace =>
      apply Or.inl
      rw [hClient, hTrace]
  | multicasts hClient hTrace hAction =>
      refine Or.inr ⟨.multicast, ?_⟩
      simp [sendQueueSystem, SendQueue.step, hClient, hTrace]
  | quiet events hClient hTrace hQuiet hAction =>
      apply Or.inl
      rcases hQuiet.projections with
        ⟨hEnqueued, _, _, _, hMulticasts, _⟩
      simp [hClient, hTrace, hEnqueued, hMulticasts]
  | absorbs batch events hAction hClient hTrace hLog =>
      exact absurd hAction (hLocal batch)

/- A delivery only changes what is outstanding. -/
theorem Sound.queue_of_delivery
    (hSound : σ.Sound settings)
    {client sender : ι}
    {batch : List Transaction}
    (hSent : batch ∈ σ.sent sender)
    (hReplica :
      σ'.replica client =
        (σ.replica client).act (.deliver batch)) :
    σ'.queue client =
      { σ.queue client with
        outstanding :=
          ((σ.replica client).client.absorb
            (reached D batch)).outstandingCollection
        returned := (σ'.received client client).length } := by
  rcases Client.regularMessageReceived_outcome batch
      (σ.replica client).client
      (hSound.books client).idsPresent
      (hSound.sent_ids hSent) with
    ⟨events, hCall, hLog⟩
  unfold queue issued sent
  rw [hReplica]
  simp [Replica.act, Replica.call, hCall, hLog.enqueued,
    hLog.multicasts]

/- An own message takes exactly its elements off the queue. -/
omit [DecidableEq ι] in
theorem Sound.outstanding_of_own_message
    (hSound : σ.Sound settings)
    (hClients : Function.Injective fun i => (settings i).id)
    (hCounters : σ.CountersDistinct)
    {client : ι}
    {batch : List Transaction}
    (hSent : batch ∈ σ.sent client) :
    ((σ.replica client).client.absorb
        (reached D batch)).outstandingCollection =
      (σ.replica client).client.outstandingCollection.filter
        (· ∉ reached D batch) := by
  apply List.filter_congr
  intro localTx hLocal
  have hIssued := (hSound.books client).outstanding hLocal
  have hIff :
      localTx.uniqueId ∈
          (reached D batch).map (·.uniqueId) ↔
        localTx ∈ reached D batch := by
    constructor
    · intro hId
      rcases List.mem_map.mp hId with ⟨tx, hTx, hEq⟩
      have hOwn : tx ∈ σ.issued client :=
        (hSound.books client).multicasts batch hSent
          (mem_of_mem_reached D hTx)
      have hSame :=
        (hSound.eq_of_uniqueId_eq hClients hCounters hOwn
          hIssued hEq).2
      exact hSame ▸ hTx
    · exact fun hTx => List.mem_map_of_mem hTx
  exact decide_eq_decide.mpr (not_congr hIff)

end Network

end ReplicatedAccount

------------------------------------------------------------
-- Refinement of Send Queues
------------------------------------------------------------

namespace ReplicatedAccount

open Foundations

variable {ι D : Type} [DecidableEq ι] [DoubleArithmetic D]

namespace Network

variable {settings : ι → Settings}
variable {σ σ' : Network ι D}
variable {a : NetworkAction ι}

/- A step with the next message of the sender, if any. -/
theorem StepCases.received_of_other
    (hCases : StepCases σ a σ')
    (receiver sender : ι)
    (hOther : ∀ index, a ≠ .deliver receiver sender index) :
    σ'.received receiver sender =
      σ.received receiver sender := by
  unfold received
  cases hCases with
  | acts client b hAction hLocal hReplica hDelivered =>
      rw [hDelivered]
  | receives receiver' sender' index batch hAction hSent
      hReplica hDelivered =>
      rw [hDelivered]
      by_cases hReceiver : receiver = receiver'
      · subst hReceiver
        have hSender : sender' ≠ sender := by
          rintro rfl
          exact hOther index hAction
        simp [hSender]
      · rw [Function.update_of_ne hReceiver]

/- In a FIFO step a client shows as a sender. -/
theorem Sound.queue_step
    (hSound : σ.Sound settings)
    (hClients : Function.Injective fun i => (settings i).id)
    (hCounters : σ.CountersDistinct)
    (hFifo : σ.Fifo a)
    (hCases : StepCases σ a σ')
    (client : ι) :
    σ'.queue client = σ.queue client ∨
      ∃ step,
        (sendQueueSystem (reached D)).step (σ.queue client)
          step = some (σ'.queue client) := by
  have hOthers := hCases.received_of_other client client
  cases hCases with
  | acts actor b hAction hLocal hReplica hDelivered =>
      have hReceived := hOthers (hAction client client)
      by_cases hActor : client = actor
      · subst hActor
        exact hSound.queue_of_local hLocal
          (by rw [hReplica, Function.update_self]) hReceived
      · exact Or.inl (queue_congr
          (by rw [hReplica, Function.update_of_ne hActor])
          hReceived)
  | receives receiver sender index batch hAction hSent
      hReplica hDelivered =>
      have hMember := List.mem_of_getElem? hSent
      by_cases hReceiver : client = receiver
      · subst hReceiver
        have hQueue :=
          hSound.queue_of_delivery hMember
            (show σ'.replica client = _ by
              rw [hReplica, Function.update_self])
        by_cases hOwn : sender = client
        · -- the next own message comes back
          subst hOwn
          refine Or.inr ⟨.takeBack, ?_⟩
          subst hAction
          have hIndex :
              index = (σ.received sender sender).length :=
            hFifo
          rw [hIndex] at hSent
          have hCount :
              (σ'.received sender sender).length =
                (σ.received sender sender).length + 1 := by
            simp [received, hDelivered]
          rw [hQueue, hCount,
            hSound.outstanding_of_own_message hClients
              hCounters hMember]
          simp [sendQueueSystem, SendQueue.step, hSent, queue]
        · -- a message of somebody else removes nothing
          apply Or.inl
          rw [hQueue, hOthers (by simp [hAction, hOwn]),
            hSound.outstanding_of_other_sender hClients
              hCounters (Ne.symm hOwn) hMember]
          rfl
      · exact Or.inl (queue_congr
          (by rw [hReplica, Function.update_of_ne hReceiver])
          (hOthers (by simp [hAction, Ne.symm hReceiver])))

end Network

/- The steps of the FIFO system are ordered network steps. -/
theorem fifo_run_iff
    (settings : ι → Settings)
    (actions : List (NetworkAction ι))
    (σ : Network ι D) :
    (fifoSystem D settings).run actions = some σ ↔
      (networkSystem D settings).run actions = some σ ∧
        (networkSystem D settings).EveryStep Network.Fifo
          actions :=
  (networkSystem D settings).run_restrict_iff Network.Fifo
    actions σ

theorem sound_of_fifo_run
    {settings : ι → Settings}
    {actions : List (NetworkAction ι)}
    {σ : Network ι D}
    (hRun : (fifoSystem D settings).run actions = some σ) :
    σ.Sound settings :=
  sound_of_run ((fifo_run_iff settings actions σ).mp hRun).1

/-
  Refinement: seen from one client, every run of the network
  under FIFO delivery is a run of a retransmitting sender.
-/
theorem queue_refines
    {settings : ι → Settings}
    (hClients : Function.Injective fun i => (settings i).id)
    {actions : List (NetworkAction ι)}
    {σ : Network ι D}
    (hRun : (fifoSystem D settings).run actions = some σ)
    (hCounters : σ.CountersDistinct)
    (client : ι) :
    ∃ steps,
      (sendQueueSystem (reached D)).run steps =
        some (σ.queue client) := by
  apply (fifoSystem D settings).run_of_simulation
    (sendQueueSystem (reached D))
    (fun s => s.queue client) (G := Network.CountersDistinct)
    ?_ rfl ?_ hRun hCounters
  · intro s a s' hStep hCounters i
    rcases
        ((networkSystem D settings).step_restrict_iff
          Network.Fifo s a s').mp hStep with
      ⟨_, hNext⟩
    exact Nat.le_trans
      ((Network.step_cases hNext).issued_isPrefix i).length_le
      (hCounters i)
  · intro as s a s' hBefore hStep hCounters
    rcases
        ((networkSystem D settings).step_restrict_iff
          Network.Fifo s a s').mp hStep with
      ⟨hFifo, hNext⟩
    have hCases := Network.step_cases hNext
    have hEarlier : s.CountersDistinct := fun i =>
      Nat.le_trans (hCases.issued_isPrefix i).length_le
        (hCounters i)
    exact (sound_of_fifo_run hBefore).queue_step hClients
      hEarlier hFifo hCases client

end ReplicatedAccount

------------------------------------------------------------
-- Ordered States
------------------------------------------------------------

namespace ReplicatedAccount

open Foundations

variable {ι D : Type} [DecidableEq ι] [DoubleArithmetic D]

namespace Network

variable {settings : ι → Settings}
variable {σ σ' : Network ι D}
variable {a : NetworkAction ι}

/-
  What a replica has received from a sender is the first part
  of what the sender sent.
-/
theorem StepCases.received_isPrefix
    (hCases : StepCases σ a σ')
    (hFifo : σ.Fifo a)
    (receiver sender : ι)
    (hBefore : σ.received receiver sender <+: σ.sent sender) :
    σ'.received receiver sender <+: σ'.sent sender := by
  have hGrown := hBefore.trans (hCases.sent_isPrefix sender)
  by_cases hNext : ∃ index, a = .deliver receiver sender index
  · rcases hNext with ⟨index, rfl⟩
    have hSentPrefix := hCases.sent_isPrefix sender
    cases hCases with
    | acts client b hAction hLocal hReplica hDelivered =>
        exact absurd rfl (hAction receiver sender index)
    | receives receiver' sender' index' batch hAction hSent
        hReplica hDelivered =>
        cases hAction
        have hReceived :
            σ'.received receiver sender =
              σ.received receiver sender ++ [batch] := by
          simp [received, hDelivered]
        have hIndex :
            index = (σ.received receiver sender).length :=
          hFifo
        have hInside := (List.getElem?_eq_some_iff.mp hSent).1
        have hTake :
            (σ.sent sender).take (index + 1) =
              σ.received receiver sender ++ [batch] := by
          rw [List.take_add_one, hSent, hIndex,
            ← List.prefix_iff_eq_take.mp hBefore]
          rfl
        rw [hReceived, ← hTake]
        exact (List.take_prefix _ _).trans hSentPrefix
  · rw [hCases.received_of_other receiver sender
      (fun index hAction => hNext ⟨index, hAction⟩)]
    exact hGrown

/- What holds in the reachable states of the FIFO system. -/
structure Ordered
    (settings : ι → Settings)
    (σ : Network ι D) : Prop where
  sound : σ.Sound settings
  counters : σ.CountersDistinct
  windowed : ∀ i, (σ.queue i).Windowed (reached D)
  received : ∀ i j, σ.received i j <+: σ.sent j

end Network

theorem received_isPrefix_of_run
    {settings : ι → Settings}
    {actions : List (NetworkAction ι)}
    {σ : Network ι D}
    (hRun : (fifoSystem D settings).run actions = some σ)
    (i j : ι) :
    σ.received i j <+: σ.sent j := by
  apply (fifoSystem D settings).invariant
    (I := fun s => s.received i j <+: s.sent j) ?_ ?_ hRun
  · exact List.nil_prefix
  · intro s a s' hBefore hStep
    rcases
        ((networkSystem D settings).step_restrict_iff
          Network.Fifo s a s').mp hStep with
      ⟨hFifo, hNext⟩
    exact (Network.step_cases hNext).received_isPrefix hFifo i j
      hBefore

/- Every reachable state of the FIFO system is ordered. -/
theorem ordered_of_run
    {settings : ι → Settings}
    (hClients : Function.Injective fun i => (settings i).id)
    {actions : List (NetworkAction ι)}
    {σ : Network ι D}
    (hRun : (fifoSystem D settings).run actions = some σ)
    (hCounters : σ.CountersDistinct) :
    σ.Ordered settings := by
  have hSound := sound_of_fifo_run hRun
  refine ⟨hSound, hCounters, ?_, received_isPrefix_of_run hRun⟩
  intro i
  rcases queue_refines hClients hRun hCounters i with
    ⟨steps, hSteps⟩
  exact windowed_of_run (reached_isPrefix D) hSteps
    (hSound.issued_nodup hCounters i)

end ReplicatedAccount

------------------------------------------------------------
-- Covered Transactions
------------------------------------------------------------

namespace ReplicatedAccount

open Foundations

variable {ι D : Type} [DecidableEq ι] [DoubleArithmetic D]

namespace Network

variable {settings : ι → Settings}
variable {σ : Network ι D}

/- What a replica has looked at in the batches of a sender. -/
def coveredBy
    (σ : Network ι D)
    (receiver sender : ι) :
    List Transaction :=
  covered (reached D) (σ.received receiver sender)

/-
  The transactions of one client among the processed ones
  come from the batches of that client alone.
-/
theorem Sound.processed_of_client
    (hSound : σ.Sound settings)
    (hClients : Function.Injective fun i => (settings i).id)
    (hCounters : σ.CountersDistinct)
    (receiver client : ι) :
    (ReplicatedAccount.processed
        (σ.replica receiver).trace).filter
          (· ∈ σ.issued client) =
      σ.coveredBy receiver client := by
  rw [hSound.processed receiver]
  unfold coveredBy covered received
  have hOrigins := hSound.origins receiver
  generalize σ.delivered receiver = messages at hOrigins ⊢
  induction messages with
  | nil => rfl
  | cons message rest ih =>
      have hSent := hOrigins message (by simp)
      have hIssued :
          ∀ tx ∈ reached D message.2,
            tx ∈ σ.issued message.1 :=
        fun tx hTx =>
          (hSound.books message.1).multicasts _ hSent
            (mem_of_mem_reached D hTx)
      rw [List.flatMap_cons, List.filter_append,
        ih (fun m hm => hOrigins m (by simp [hm]))]
      by_cases hOwn : message.1 = client
      · have hAll :
            (reached D message.2).filter
              (· ∈ σ.issued client) =
                reached D message.2 := by
          apply List.filter_eq_self.mpr
          intro tx hTx
          simpa [hOwn] using hIssued tx hTx
        rw [hAll]
        simp [hOwn]
      · have hNone :
            (reached D message.2).filter
              (· ∈ σ.issued client) = [] := by
          apply List.filter_eq_nil_iff.mpr
          intro tx hTx hMember
          exact hOwn
            (hSound.eq_of_uniqueId_eq hClients hCounters
              (hIssued tx hTx) (by simpa using hMember)
              rfl).1
        rw [hNone]
        simp [hOwn]

/- The covered transactions come in the order issued. -/
theorem Ordered.coveredBy_isPrefix
    (hOrdered : σ.Ordered settings)
    (receiver client : ι) :
    (σ.coveredBy receiver client).eraseDups <+:
      σ.issued client :=
  (hOrdered.windowed client).covered_isPrefix
    (reached_isPrefix D)
    (hOrdered.sound.issued_nodup hOrdered.counters client)
    (hOrdered.received receiver client)

/- At the issuer, the rest of the issued is outstanding. -/
theorem Ordered.issued_eq
    (hOrdered : σ.Ordered settings)
    (client : ι) :
    σ.issued client =
      (σ.coveredBy client client).eraseDups ++
        (σ.replica client).client.outstandingCollection := by
  have hIssued := (hOrdered.windowed client).issued
  have hTake :=
    List.prefix_iff_eq_take.mp
      (hOrdered.received client client)
  unfold coveredBy
  rw [hTake]
  exact hIssued

/- What has been executed was looked at, and conversely. -/
theorem Sound.mem_applied_iff
    (hSound : σ.Sound settings)
    (hClients : Function.Injective fun i => (settings i).id)
    (hCounters : σ.CountersDistinct)
    (receiver : ι)
    {client : ι}
    {tx : Transaction}
    (hIssued : tx ∈ σ.issued client) :
    tx ∈ applied (σ.replica receiver).trace ↔
      tx ∈ σ.coveredBy receiver client ∧ executable D tx := by
  rw [(hSound.chronicles receiver).applied_eq,
    List.mem_filter,
    ← hSound.processed_of_client hClients hCounters,
    List.mem_filter]
  simp [hIssued]

end Network

end ReplicatedAccount
