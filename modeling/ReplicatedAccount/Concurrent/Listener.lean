import ReplicatedAccount.Client.Acceptance

/-
  The processing of a received message, cut at the points
  where the other threads of the client can run.

  None of the steps between two such points holds the lock
  of the outstanding collection: the removal of a received
  transaction from the collection, its execution, and its
  recording are three steps, and the notification at the end
  is a fourth.

  Key definitions include:
    * `Client.removeReceived`
    * `Client.applyReceived`
    * `Position`
    * `Position.advance`
    * `ListenerState`

  Key theorems include:
    * `Client.processTransaction_eq_steps`
    * `Client.run_removeReceived`
    * `Client.run_applyReceived`
    * `Position.rest_eq_advance`
    * `Position.mem_successors`
-/

------------------------------------------------------------
-- Steps of an Iteration
------------------------------------------------------------

namespace ReplicatedAccount

namespace Client

open Foundations Foundations.JavaText Foundations.Method

variable {D : Type} [DoubleArithmetic D]

/-
  The two searches and the removal from the outstanding
  collection.  The result is the flag that skips the rest of
  the iteration.
-/
def removeReceived
    (tx : Transaction) :
    ClientMethod D Bool := do
  emit (.processing tx)
  let client ← get
  let txAlreadyExecuted ←
    ofExcept (alreadyExecuted tx client.executedList)
  let kept ←
    ofExcept (removeLocal tx client.outstandingCollection)
  modify fun c => { c with outstandingCollection := kept }
  pure txAlreadyExecuted

/-
  A deposit or an addInterest changes the balance.  The
  result says whether the transaction is still to be recorded.
-/
def applyCommand
    (tx : Transaction) :
    ClientMethod D Bool := do
  let command ← ofExcept (dereference tx.command)
  let commandParts := split command
  let name ← ofExcept (arrayElement commandParts 0)
  if name = "setBalance" then
    let newBalance ← ofExcept (commandValue commandParts)
    handleSetBalance newBalance
    pure false
  else if name = "deposit" then
    let amount ← ofExcept (commandValue commandParts)
    deposit amount
    emit (.applied tx)
    pure true
  else if name = "addInterest" then
    let percent ← ofExcept (commandValue commandParts)
    addInterest percent
    emit (.applied tx)
    pure true
  else
    pure false

/- Answer a balance request, or execute the command. -/
def applyReceived
    (tx : Transaction) :
    ClientMethod D Bool := do
  let forBalance ←
    ofExcept (stringEquals tx.command (some "getSyncedBalance"))
  if forBalance then
    answerRequest tx
    pure false
  else
    applyCommand tx

theorem executeCommand_eq_steps
    (tx : Transaction) :
    (executeCommand tx : ClientMethod D Unit) =
      (do
        if ← applyCommand tx then
          recordExecuted tx
        else
          pure ()) := by
  unfold executeCommand applyCommand
  simp only [bind_assoc]
  apply bind_congr
  intro command
  apply bind_congr
  intro name
  split_ifs <;> simp

/- An iteration is its three steps, one after the other. -/
theorem processTransaction_eq_steps
    (tx : Transaction) :
    (processTransaction tx : ClientMethod D Unit) =
      (do
        if ← removeReceived tx then
          pure ()
        else if ← applyReceived tx then
          recordExecuted tx
        else
          pure ()) := by
  unfold processTransaction removeReceived applyReceived
  simp only [bind_assoc, pure_bind]
  apply bind_congr
  intro _
  apply bind_congr
  intro client
  apply bind_congr
  intro txAlreadyExecuted
  apply bind_congr
  intro kept
  apply bind_congr
  intro _
  cases txAlreadyExecuted with
  | true => simp
  | false =>
      simp only [Bool.false_eq_true, if_false]
      apply bind_congr
      intro forBalance
      cases forBalance with
      | true => simp
      | false => simp [executeCommand_eq_steps]

end Client

end ReplicatedAccount

------------------------------------------------------------
-- What the Steps Do
------------------------------------------------------------

namespace ReplicatedAccount

namespace Client

open Foundations Foundations.JavaText Foundations.Method

variable {D : Type} [DoubleArithmetic D]

/- The client after the balance update of an operation. -/
def credited
    (c : Client D)
    (operation : Operation D) :
    Client D :=
  { c with balance := operation.apply c.balance }

/- The client after counting and saving a transaction. -/
def recorded
    (c : Client D)
    (tx : Transaction) :
    Client D :=
  { c with
    orderCounter := c.orderCounter + 1
    executedList := c.executedList ++ [tx] }

/- What a disposition does before anything is recorded. -/
def perform
    (d : Disposition D)
    (tx : Transaction)
    (c : Client D) :
    Outcome (Client D) (Event D) JavaException Bool :=
  match d with
  | .execute operation =>
      ⟨c.credited operation, [.applied tx], .ok true⟩
  | .answer issuer =>
      if issuer = c.id then
        ⟨c,
          [.println
            (.balance "Correct Synced Balance: " c.balance),
            .answered tx],
          .ok false⟩
      else
        ⟨c, [], .ok false⟩
  | .skip => ⟨c, [], .ok false⟩
  | .abort e => ⟨c, [], .error e⟩

omit [DoubleArithmetic D] in
theorem run_removeReceived
    (tx : Transaction)
    {c : Client D}
    (hIds : c.IdsPresent) :
    (removeReceived tx).run c =
      ⟨c.withoutLocal tx, [.processing tx], .ok false⟩ := by
  have hExecuted :=
    alreadyExecuted_of_idsPresent tx
      (fun t ht => hIds t (List.mem_append_left _ ht))
  have hLocal :=
    removeLocal_of_idsPresent tx
      (fun t ht => hIds t (List.mem_append_right _ ht))
  simp [removeReceived, hExecuted, hLocal, withoutLocal,
    Except.map]

omit [DoubleArithmetic D] in
theorem run_recordExecuted
    (tx : Transaction)
    (c : Client D) :
    (recordExecuted tx : ClientMethod D Unit).run c =
      ⟨c.recorded tx, [], .ok ()⟩ := by
  simp [recordExecuted, recorded]

/- Requests are performed as they are settled. -/
theorem run_answerRequest_pure
    (tx : Transaction)
    (c : Client D) :
    (do
      answerRequest tx
      pure false : ClientMethod D Bool).run c =
      perform (requestDisposition tx.uniqueId) tx c := by
  have hRun := answerRequest_eq (D := D) tx c
  unfold perform
  unfold settle at hRun
  rw [bind_pure_comp, run_map]
  cases hDisposition :
      (requestDisposition tx.uniqueId : Disposition D) with
  | execute operation =>
      exact (requestDisposition_ne_execute _ _
        hDisposition).elim
  | answer issuer =>
      simp only [hDisposition] at hRun
      rw [hRun]
      by_cases hOwn : issuer = c.id <;>
        simp [hOwn, Except.map]
  | skip =>
      simp only [hDisposition] at hRun
      rw [hRun]
      rfl
  | abort e =>
      simp only [hDisposition] at hRun
      rw [hRun]
      rfl

theorem run_applyCommand
    (tx : Transaction)
    (command : String)
    (c : Client D)
    (hCommand : tx.command = some command) :
    (applyCommand tx).run c =
      perform (commandDisposition (split command)) tx c := by
  unfold applyCommand commandDisposition valueDisposition
  rw [hCommand]
  simp only [dereference, run_ofExcept_ok_bind]
  cases arrayElement (split command) 0 with
  | error e => simp [perform]
  | ok name =>
      simp only [run_ofExcept_ok_bind]
      cases commandValue (D := D) (split command) with
      | error e => split_ifs <;> simp [perform]
      | ok v =>
          split_ifs <;>
            simp [perform, handleSetBalance, deposit,
              addInterest, credited, Operation.apply,
              Except.map]

/- A received transaction is performed as it is disposed of. -/
theorem run_applyReceived
    (tx : Transaction)
    (c : Client D) :
    (applyReceived tx).run c =
      perform (disposition tx) tx c := by
  unfold applyReceived disposition
  cases hCommand : tx.command with
  | none => simp [perform]
  | some command =>
      by_cases hRequest : command = "getSyncedBalance"
      · subst hRequest
        simpa using run_answerRequest_pure tx c
      · simpa [hRequest] using
          run_applyCommand tx command c hCommand

end Client

end ReplicatedAccount

------------------------------------------------------------
-- Positions in a Delivery
------------------------------------------------------------

namespace ReplicatedAccount

open Foundations Foundations.Method

/- Where the processing of a batch stands. -/
inductive Position where
  -- at the head of the loop, with the rest of the batch
  | next (todo : List Transaction)
  -- removed from the outstanding collection, not executed
  | removed (tx : Transaction) (todo : List Transaction)
  -- applied to the balance, not recorded
  | applied (tx : Transaction) (todo : List Transaction)
deriving DecidableEq, Repr

/- Either no message is processed, or a batch at a point. -/
inductive ListenerState where
  | idle
  | busy (batch : List Transaction) (position : Position)
deriving DecidableEq, Repr

variable {D : Type} [DoubleArithmetic D]

/- One step; without a next position the method returns. -/
def Position.advance :
    Position → ClientMethod D (Option Position)
| .next [] => do
    Client.notifyIfEmpty
    pure none
| .next (tx :: todo) => do
    if ← Client.removeReceived tx then
      pure (some (.next todo))
    else
      pure (some (.removed tx todo))
| .removed tx todo => do
    if ← Client.applyReceived tx then
      pure (some (.applied tx todo))
    else
      pure (some (.next todo))
| .applied tx todo => do
    Client.recordExecuted tx
    pure (some (.next todo))

/- The transactions that a delivery still has to do with. -/
@[simp] def Position.pending : Position → List Transaction
| .next todo => todo
| .removed tx todo => tx :: todo
| .applied tx todo => tx :: todo

@[simp] def ListenerState.pending :
    ListenerState → List Transaction
| .idle => []
| .busy _ position => position.pending

/- The transaction that is removed and not yet executed. -/
@[simp] def ListenerState.unapplied :
    ListenerState → Option Transaction
| .busy _ (.removed tx _) => some tx
| _ => none

end ReplicatedAccount

------------------------------------------------------------
-- What Each Position Does
------------------------------------------------------------

namespace ReplicatedAccount

open Foundations Foundations.Method

variable {D : Type} [DoubleArithmetic D]

namespace Position

/- The end of the loop, with or without a notification. -/
theorem run_advance_nil
    (c : Client D) :
    (next []).advance.run c =
      ⟨c,
        if c.outstandingCollection = [] ∧
            c.naiveSyncBalance = true then
          [.notifyAll]
        else
          [],
        .ok none⟩ := by
  unfold advance Client.notifyIfEmpty
  by_cases hEmpty : c.outstandingCollection = []
  · by_cases hNaive : c.naiveSyncBalance <;>
      simp [hEmpty, hNaive, Except.map]
  · simp [hEmpty]

theorem run_advance_next
    (tx : Transaction)
    (todo : List Transaction)
    {c : Client D}
    (hIds : c.IdsPresent) :
    (next (tx :: todo)).advance.run c =
      ⟨c.withoutLocal tx, [.processing tx],
        .ok (some (.removed tx todo))⟩ := by
  unfold advance
  rw [run_bind_ok (Client.run_removeReceived tx hIds)]
  simp

/- The disposition decides how the processing goes on. -/
theorem run_advance_removed
    (tx : Transaction)
    (todo : List Transaction)
    (c : Client D) :
    (removed tx todo).advance.run c =
      ⟨(Client.perform (disposition tx) tx c).state,
        (Client.perform (disposition tx) tx c).events,
        (Client.perform (disposition tx) tx c).result.map
          fun toRecord =>
            if toRecord then
              some (.applied tx todo)
            else
              some (.next todo)⟩ := by
  have hApply := Client.run_applyReceived tx c
  unfold advance
  rcases hRun : Client.perform (disposition tx) tx c with
    ⟨s', events, result⟩
  rw [hRun] at hApply
  cases result with
  | error e =>
      rw [run_bind_error hApply]
      rfl
  | ok toRecord =>
      rw [run_bind_ok hApply]
      cases toRecord <;> simp [Except.map]

theorem run_advance_applied
    (tx : Transaction)
    (todo : List Transaction)
    (c : Client D) :
    (applied tx todo).advance.run c =
      ⟨c.recorded tx, [], .ok (some (.next todo))⟩ := by
  unfold advance
  rw [run_bind_ok (Client.run_recordExecuted tx c)]
  simp

/- What remains to be done from a position, in one go. -/
def rest : Position → ClientMethod D Unit
| .next todo => Client.processReceivedTransactions todo
| .removed tx todo => do
    if ← Client.applyReceived tx then
      Client.recordExecuted tx
    else
      pure ()
    Client.processReceivedTransactions todo
| .applied tx todo => do
    Client.recordExecuted tx
    Client.processReceivedTransactions todo

/- A step does the first part of what remains. -/
theorem rest_eq_advance
    (position : Position) :
    (position.rest : ClientMethod D Unit) =
      (do
        match ← position.advance with
        | none => pure ()
        | some later => later.rest) := by
  cases position with
  | next todo =>
      cases todo with
      | nil =>
          simp [rest, advance, Client.processReceivedTransactions,
            forEach]
      | cons tx todo =>
          have hSplit :
              (Client.processReceivedTransactions (tx :: todo) :
                ClientMethod D Unit) =
                (do
                  Client.processTransaction tx
                  Client.processReceivedTransactions todo) := by
            simp [Client.processReceivedTransactions, forEach]
          simp only [rest, advance]
          rw [hSplit, Client.processTransaction_eq_steps]
          simp only [bind_assoc]
          apply bind_congr
          intro txAlreadyExecuted
          cases txAlreadyExecuted with
          | true => simp
          | false =>
              simp only [Bool.false_eq_true, if_false,
                bind_assoc, pure_bind]
              apply bind_congr
              intro toRecord
              cases toRecord <;> simp
  | removed tx todo =>
      simp only [rest, advance, bind_assoc]
      apply bind_congr
      intro toRecord
      cases toRecord <;> simp
  | applied tx todo => simp [rest, advance]

/- The positions that a step can lead to. -/
def successors : Position → List Position
| .next [] => []
| .next (tx :: todo) => [.removed tx todo, .next todo]
| .removed tx todo => [.applied tx todo, .next todo]
| .applied _ todo => [.next todo]

theorem mem_successors
    {position later : Position}
    {c : Client D}
    (hLater :
      (position.advance.run c).result = .ok (some later)) :
    later ∈ position.successors := by
  cases position with
  | next todo =>
      cases todo with
      | nil => simp [run_advance_nil] at hLater
      | cons tx todo =>
          simp only [advance] at hLater
          rcases hRun : (Client.removeReceived tx).run c with
            ⟨s', events, result⟩
          cases result with
          | error e => simp [run_bind_error hRun] at hLater
          | ok txAlreadyExecuted =>
              cases txAlreadyExecuted <;>
                simp [run_bind_ok hRun] at hLater <;>
                simp [successors, ← hLater]
  | removed tx todo =>
      rw [run_advance_removed] at hLater
      cases hResult :
          (Client.perform (disposition tx) tx c).result with
      | error e => simp [hResult, Except.map] at hLater
      | ok toRecord =>
          cases toRecord <;>
            simp [hResult, Except.map] at hLater <;>
            simp [successors, ← hLater]
  | applied tx todo =>
      simp only [run_advance_applied, Except.ok.injEq,
        Option.some.injEq] at hLater
      simp [successors, ← hLater]

/- No step of the listener ends the virtual machine. -/
theorem not_exited
    (position : Position)
    (c : Client D) :
    hasExited (position.advance.run c).events = false := by
  cases position with
  | next todo =>
      cases todo with
      | nil =>
          rw [run_advance_nil]
          split_ifs <;> rfl
      | cons tx todo =>
          simp only [advance, Client.removeReceived]
          cases hExecuted :
              Client.alreadyExecuted tx c.executedList with
          | error e => simp [hExecuted, hasExited]
          | ok found =>
              cases hKept :
                  Client.removeLocal tx
                    c.outstandingCollection with
              | error e => simp [hExecuted, hKept, hasExited]
              | ok kept =>
                  cases found <;>
                    simp [hExecuted, hKept, hasExited]
  | removed tx todo =>
      rw [run_advance_removed]
      cases disposition (D := D) tx with
      | answer issuer =>
          simp only [Client.perform]
          split_ifs <;> rfl
      | _ => rfl
  | applied tx todo => rfl

end Position

end ReplicatedAccount
