import ReplicatedAccount.Client.Disposition

/-
  What the delivery of a whole batch does to a client.

  A batch is processed up to and including its first
  aborting transaction.  On a client without null ids these
  reached transactions determine the new client, the log and
  the way the delivery ends.

  Key definitions include:
    * `reached`
    * `batchResult`
    * `Client.absorb`
    * `Client.BatchOutcome`

  Key theorems include:
    * `Client.forEach_processTransaction`
    * `Client.processReceivedTransactions_outcome`
-/

------------------------------------------------------------
-- Reached Transactions
------------------------------------------------------------

namespace ReplicatedAccount

variable (D : Type) [DoubleArithmetic D]

/- The batch up to and including its first aborting member. -/
def reached : List Transaction → List Transaction
| [] => []
| tx :: rest =>
    tx :: if aborting D tx then [] else reached rest

/- How the processing of the batch ends. -/
def batchResult :
    List Transaction → Except JavaException Unit
| [] => .ok ()
| tx :: rest =>
    match disposition (D := D) tx with
    | .abort e => .error e
    | _ => batchResult rest

theorem reached_isPrefix
    (batch : List Transaction) :
    reached D batch <+: batch := by
  induction batch with
  | nil => exact List.prefix_rfl
  | cons tx rest ih =>
      unfold reached
      by_cases hAborting : aborting D tx
      · simp [hAborting]
      · simpa [hAborting] using ih

theorem mem_of_mem_reached
    {batch : List Transaction}
    {tx : Transaction}
    (hMember : tx ∈ reached D batch) :
    tx ∈ batch :=
  (reached_isPrefix D batch).subset hMember

/- A batch without aborting members is reached completely. -/
theorem reached_of_not_aborting
    {batch : List Transaction}
    (hBatch : ∀ tx ∈ batch, aborting D tx = false) :
    reached D batch = batch := by
  induction batch with
  | nil => rfl
  | cons tx rest ih =>
      have hHead := hBatch tx (by simp)
      have hRest :=
        ih (fun t ht => hBatch t (by simp [ht]))
      simp [reached, hHead, hRest]

end ReplicatedAccount

------------------------------------------------------------
-- Absorbing Transactions
------------------------------------------------------------

namespace ReplicatedAccount

namespace Client

variable {D : Type} [DoubleArithmetic D]

/- The client after processing the given transactions. -/
def absorb
    (c : Client D)
    (txs : List Transaction) :
    Client D :=
  { c with
    balance := replay c.balance txs
    orderCounter :=
      c.orderCounter +
        Int32.ofNat (txs.filter (executable D)).length
    executedList :=
      c.executedList ++ txs.filter (executable D)
    outstandingCollection :=
      c.outstandingCollection.filter fun localTx =>
        localTx.uniqueId ∉ txs.map (·.uniqueId) }

@[simp] theorem absorb_nil
    (c : Client D) :
    c.absorb [] = c := by
  simp [absorb]

theorem absorb_append
    (c : Client D)
    (txs later : List Transaction) :
    c.absorb (txs ++ later) =
      (c.absorb txs).absorb later := by
  simp [absorb, List.filter_append, List.filter_filter,
    Int32.add_assoc, Bool.and_comm, not_or]

/- The effect of one transaction is to absorb it. -/
theorem state_effect
    (tx : Transaction)
    (c : Client D) :
    (effect tx c).state = c.absorb [tx] := by
  unfold effect settle absorb withoutLocal executed
  cases hDisposition : disposition (D := D) tx with
  | execute operation =>
      simp [hDisposition, executable, applyTransaction]
  | answer issuer =>
      by_cases hOwn : issuer = c.id <;>
        simp [hDisposition, executable, applyTransaction,
          hOwn]
  | skip =>
      simp [hDisposition, executable, applyTransaction]
  | abort e =>
      simp [hDisposition, executable, applyTransaction]

theorem idsPresent_absorb
    {c : Client D}
    (hIds : c.IdsPresent)
    {txs : List Transaction}
    (hTxs : ∀ tx ∈ txs, tx.uniqueId ≠ none) :
    (c.absorb txs).IdsPresent := by
  intro tx hMember
  simp only [absorb, List.mem_append,
    List.mem_filter] at hMember
  rcases hMember with (hExecuted | hNew) | hLocal
  · exact hIds tx (by simp [hExecuted])
  · exact hTxs tx hNew.1
  · exact hIds tx (by simp [hLocal.1])

end Client

end ReplicatedAccount

------------------------------------------------------------
-- Batches
------------------------------------------------------------

namespace ReplicatedAccount

namespace Client

open Foundations Foundations.Method

variable {D : Type} [DoubleArithmetic D]

/- What processing transactions leaves in the log. -/
structure LogOf
    (id : Int32)
    (txs : List Transaction)
    (events : List (Event D)) : Prop where
  processed : processed events = txs
  applied : applied events = txs.filter (executable D)
  answered : answered events = txs.filter (requests D id)
  enqueued : enqueued events = []
  multicasts : multicasts events = []
  endings : endings events = []

theorem LogOf.nil
    (id : Int32) :
    LogOf id [] ([] : List (Event D)) := by
  constructor <;> rfl

theorem LogOf.append
    {id : Int32}
    {txs later : List Transaction}
    {events more : List (Event D)}
    (hEvents : LogOf id txs events)
    (hMore : LogOf id later more) :
    LogOf id (txs ++ later) (events ++ more) := by
  constructor
  · simp [hEvents.processed, hMore.processed]
  · simp [hEvents.applied, hMore.applied]
  · simp [hEvents.answered, hMore.answered]
  · simp [hEvents.enqueued, hMore.enqueued]
  · simp [hEvents.multicasts, hMore.multicasts]
  · simp [hEvents.endings, hMore.endings]

/- Quiet events add nothing to the log of transactions. -/
theorem LogOf.append_quiet
    {id : Int32}
    {txs : List Transaction}
    {events more : List (Event D)}
    (hEvents : LogOf id txs events)
    (hQuiet : Quiet more) :
    LogOf id txs (events ++ more) := by
  have hMore : LogOf id [] more := by
    rcases hQuiet.projections with
      ⟨hEnq, hProc, hApp, hAns, hMulti, hEnd⟩
    exact ⟨hProc, hApp, hAns, hEnq, hMulti, hEnd⟩
  simpa using hEvents.append hMore

theorem logOf_effect
    (tx : Transaction)
    (c : Client D) :
    LogOf c.id [tx] (effect tx c).events := by
  unfold effect settle withoutLocal
  cases hDisposition : disposition (D := D) tx with
  | execute operation =>
      constructor <;>
        simp [hDisposition, executable, requests]
  | answer issuer =>
      by_cases hOwn : issuer = c.id
      · constructor <;>
          simp [hDisposition, executable, requests,
            hOwn]
      · constructor <;>
          simp [hDisposition, executable, requests,
            hOwn]
  | skip =>
      constructor <;>
        simp [hDisposition, executable, requests]
  | abort e =>
      constructor <;>
        simp [hDisposition, executable, requests]

/- The complete outcome of processing a batch. -/
structure BatchOutcome
    (batch : List Transaction)
    (c : Client D)
    (o : Outcome (Client D) (Event D) JavaException Unit) :
    Prop where
  state : o.state = c.absorb (reached D batch)
  log : LogOf c.id (reached D batch) o.events
  result : o.result = batchResult D batch

/- An iteration throws exactly on an aborting transaction. -/
theorem result_effect
    (tx : Transaction)
    (c : Client D) :
    (effect tx c).result =
      match disposition (D := D) tx with
      | .abort e => .error e
      | _ => .ok () := by
  unfold effect settle
  cases hDisposition : disposition (D := D) tx with
  | answer issuer =>
      by_cases hOwn : issuer = (c.withoutLocal tx).id <;>
        simp [hOwn]
  | execute operation => rfl
  | skip => rfl
  | abort e => rfl

/- The loop over the received transactions. -/
theorem forEach_processTransaction
    (batch : List Transaction)
    (c : Client D)
    (hIds : c.IdsPresent)
    (hBatch : ∀ tx ∈ batch, tx.uniqueId ≠ none) :
    BatchOutcome batch c
      ((forEach processTransaction batch).run c) := by
  induction batch generalizing c with
  | nil =>
      exact ⟨by simp [reached], LogOf.nil c.id, rfl⟩
  | cons tx rest ih =>
      have hRun := processTransaction_eq tx hIds
      have hState := state_effect tx c
      have hLog := logOf_effect tx c
      have hResult := result_effect tx c
      rcases hEffect : effect tx c with
        ⟨s', events, result⟩
      rw [hEffect] at hRun hState hLog hResult
      dsimp only at hState hLog hResult
      by_cases hAborting : aborting D tx
      · -- the batch ends here
        have hReached : reached D (tx :: rest) = [tx] := by
          simp [reached, hAborting]
        unfold aborting at hAborting
        cases hDisposition : disposition (D := D) tx with
        | abort e =>
            simp only [hDisposition] at hResult
            subst hResult
            rw [run_forEach_error hRun]
            refine ⟨?_, ?_, ?_⟩
            · rw [hReached]
              exact hState
            · rw [hReached]
              exact hLog
            · simp [batchResult, hDisposition]
        | execute operation => simp [hDisposition] at hAborting
        | answer issuer => simp [hDisposition] at hAborting
        | skip => simp [hDisposition] at hAborting
      · -- the loop goes on with the absorbed client
        have hReached :
            reached D (tx :: rest) =
              [tx] ++ reached D rest := by
          simp [reached, hAborting]
        have hOk : result = .ok () ∧
            batchResult D (tx :: rest) =
              batchResult D rest := by
          unfold aborting at hAborting
          cases hDisposition : disposition (D := D) tx <;>
            simp_all [batchResult]
        rcases hOk with ⟨rfl, hRest⟩
        have hNext :=
          ih s'
            (hState ▸ idsPresent_absorb hIds
              (by simpa using hBatch tx (by simp)))
            (fun t ht => hBatch t (by simp [ht]))
        rw [run_forEach_ok hRun]
        refine ⟨?_, ?_, ?_⟩
        · rw [hReached, absorb_append, Outcome.state_after,
            hNext.state, hState]
        · rw [hReached]
          have hSame : s'.id = c.id := by
            rw [hState]
            rfl
          exact hLog.append (hSame ▸ hNext.log)
        · rw [hRest]
          exact hNext.result

/- The final notification does not touch the client. -/
omit [DoubleArithmetic D] in
theorem notifyIfEmpty_quiet
    (c : Client D) :
    ∃ events,
      notifyIfEmpty.run c = ⟨c, events, .ok ()⟩ ∧
        Quiet events := by
  unfold notifyIfEmpty
  rw [run_get_bind]
  by_cases hEmpty :
      (c.outstandingCollection.isEmpty &&
        c.naiveSyncBalance) = true
  · rw [if_pos hEmpty]
    exact ⟨[.notifyAll], rfl, by simp [Quiet, Event.isQuiet]⟩
  · rw [if_neg hEmpty]
    exact ⟨[], rfl, by simp [Quiet]⟩

theorem processReceivedTransactions_outcome
    (batch : List Transaction)
    (c : Client D)
    (hIds : c.IdsPresent)
    (hBatch : ∀ tx ∈ batch, tx.uniqueId ≠ none) :
    BatchOutcome batch c
      ((processReceivedTransactions batch).run c) := by
  have hLoop := forEach_processTransaction batch c hIds hBatch
  rcases hRun : (forEach processTransaction batch).run c with
    ⟨s', events, result⟩
  rw [hRun] at hLoop
  unfold processReceivedTransactions
  cases result with
  | error e =>
      rw [run_bind_error hRun]
      exact hLoop
  | ok _ =>
      rcases notifyIfEmpty_quiet s' with
        ⟨more, hNotify, hQuiet⟩
      rw [run_bind_ok hRun, hNotify]
      exact ⟨hLoop.state, hLoop.log.append_quiet hQuiet,
        hLoop.result⟩

end Client

end ReplicatedAccount
