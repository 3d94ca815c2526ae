import ReplicatedAccount.Client.BadTransactions
import ReplicatedAccount.Client.ExactArithmetic

/-
  Which of the commands that a client enqueues are executed
  by a replica.

  The issuing side tests how a command begins and how many
  parts it has; the executing side compares the first part
  and parses the second.

  Key definitions include:
    * `Operation.RequestedBy`
    * `Client.Executes`

  Key theorems include:
    * `Client.executes_iff`
    * `executed_iff_wellFormed`
-/

------------------------------------------------------------
-- Execution at the Replicas
------------------------------------------------------------

namespace ReplicatedAccount

open Foundations Foundations.JavaText Foundations.Method

variable {D : Type} [DoubleArithmetic D]

/-
  The operation the issuer asked for: the command begins with
  its name, and its second part is the value.
-/
def Operation.RequestedBy
    (operation : Operation D)
    (command : String) : Prop :=
  match operation with
  | .deposit amount =>
      startsWith command "deposit" ∧
        ∃ argument, (split command)[1]? = some argument ∧
          DoubleArithmetic.parseDouble argument = some amount
  | .addInterest percent =>
      startsWith command "addInterest" ∧
        ∃ argument, (split command)[1]? = some argument ∧
          DoubleArithmetic.parseDouble argument =
            some percent

theorem requestedBy_of_ofCommand
    {operation : Operation D}
    {command : String}
    (hOperation : operation.OfCommand command) :
    operation.RequestedBy command := by
  cases operation with
  | deposit amount =>
      exact ⟨startsWith_first_part hOperation.1,
        hOperation.2⟩
  | addInterest percent =>
      exact ⟨startsWith_first_part hOperation.1,
        hOperation.2⟩

/-
  A batch with only this transaction returns normally, applies
  the value of the command, counts the transaction and appends
  it to the executed list.
-/
def Client.Executes
    (c : Client D)
    (tx : Transaction) : Prop :=
  let o := (Client.processReceivedTransactions [tx]).run c
  o.result = .ok () ∧
    (∃ command, tx.command = some command ∧
      ∃ operation : Operation D,
        operation.RequestedBy command ∧
          o.state.balance = operation.apply c.balance) ∧
    o.state.orderCounter = c.orderCounter + 1 ∧
    o.state.executedList = c.executedList ++ [tx]

theorem Client.harmless_of_executable
    {c : Client D}
    {tx : Transaction}
    (hExecutable : executable D tx)
    (hSearchable : c.Searchable tx) :
    c.Harmless tx := by
  rcases (executable_iff tx).mp hExecutable with
    ⟨operation, hDisposition⟩
  exact ⟨by simp [aborting, hDisposition], hSearchable⟩

/- An executable transaction that can be searched for. -/
theorem Client.executes_of_executable
    {c : Client D}
    {tx : Transaction}
    (hId : tx.uniqueId ≠ none)
    (hExecutable : executable D tx)
    (hSearchable : c.Searchable tx) :
    c.Executes tx := by
  rcases (executable_iff tx).mp hExecutable with
    ⟨operation, hDisposition⟩
  rcases (disposition_eq_execute_iff tx operation).mp
      hDisposition with
    ⟨command, hCommand, hOperation⟩
  have hHarmless : ∀ t ∈ [tx], c.Harmless t := by
    simpa using harmless_of_executable hExecutable hSearchable
  rcases result_processReceivedTransactions_iff [tx] c
      (by simpa using hId) with
    ⟨hReturns, hAbsorbs⟩
  refine ⟨hReturns.mpr hHarmless,
    ⟨command, hCommand, operation,
      requestedBy_of_ofCommand hOperation, ?_⟩, ?_, ?_⟩
  · rw [hAbsorbs hHarmless]
    simp [absorb, applyTransaction, hDisposition]
  · rw [hAbsorbs hHarmless]
    simp [absorb, hExecutable]
  · rw [hAbsorbs hHarmless]
    simp [absorb, hExecutable]

/-
  What is executed was searched for and is executable: any
  other transaction is not appended to the executed list.
-/
theorem Client.executes_iff
    {c : Client D}
    {tx : Transaction}
    (hId : tx.uniqueId ≠ none) :
    c.Executes tx ↔ executable D tx ∧ c.Searchable tx := by
  constructor
  · rintro ⟨hResult, _, _, hList⟩
    rcases result_processReceivedTransactions_iff [tx] c
        (by simpa using hId) with
      ⟨hReturns, hAbsorbs⟩
    have hHarmless := hReturns.mp hResult
    refine ⟨?_, (hHarmless tx (by simp)).2⟩
    rw [hAbsorbs hHarmless] at hList
    cases hExecutable : executable D tx with
    | true => rfl
    | false => simp [absorb, hExecutable] at hList
  · rintro ⟨hExecutable, hSearchable⟩
    exact executes_of_executable hId hExecutable hSearchable

/- What a command enqueues carries the command and an id. -/
omit [DoubleArithmetic D] in
theorem enqueued_value_command
    {input : String}
    {issuer : Client D}
    {tx : Transaction}
    (hEnqueued :
      ((Client.processCommand input).run issuer).events =
        [.enqueued tx])
    (hValue : tx.command ≠ some "getSyncedBalance") :
    tx.command = some (trim input) ∧ tx.uniqueId ≠ none := by
  have hEffect := Client.processCommand_effect input issuer
  cases hEffect with
  | enqueues command hState hEvents hResult hCommand =>
      have hTx : issuer.nextTransaction command = tx := by
        simpa [hEvents] using hEnqueued
      rcases hCommand with ⟨hTrim, _⟩ | ⟨hRequest, _⟩
      · simp [← hTx, Client.nextTransaction, hTrim]
      · simp [← hTx, Client.nextTransaction, hRequest]
          at hValue
  | cleans hState hEvents => simp [hEnqueued] at hEvents
  | quiet hState hQuiet =>
      rw [hEnqueued] at hQuiet
      simp [Quiet] at hQuiet

/-
  A client executes the transaction of a deposit or addInterest
  exactly when the trimmed command is well formed and neither of
  the client's searches fails at a missing id.
-/
theorem executed_iff_wellFormed
    (input : String)
    (issuer : Client D)
    (tx : Transaction)
    (hEnqueued :
      ((Client.processCommand input).run issuer).events =
        [.enqueued tx])
    (hValue : tx.command ≠ some "getSyncedBalance")
    (c : Client D) :
    c.Executes tx ↔
      WellFormed D (trim input) ∧ c.Searchable tx := by
  rcases enqueued_value_command hEnqueued hValue with
    ⟨hCommand, hId⟩
  rw [← executable_iff_wellFormed hCommand]
  exact Client.executes_iff hId

/- A well-formed deposit, and a client with a history. -/
theorem executed_iff_wellFormed_deposit :
    ({ (Client.new 3 "" false : Client Decimal) with
        executedList := [⟨some "deposit 9", some "3 0"⟩] } :
      Client Decimal).Executes
        ⟨some "deposit 5", some "7 0"⟩ ↔
      WellFormed Decimal (trim " deposit 5") ∧
        ({ (Client.new 3 "" false : Client Decimal) with
            executedList :=
              [⟨some "deposit 9", some "3 0"⟩] } :
          Client Decimal).Searchable
            ⟨some "deposit 5", some "7 0"⟩ :=
  executed_iff_wellFormed " deposit 5"
    (Client.new 7 "" false) ⟨some "deposit 5", some "7 0"⟩
    (by decide +kernel) (by decide) _

/-
  The command `depositX 5` is enqueued and then dropped by a
  replica, and `deposit abc` is enqueued and ends the batch
  with an exception.
-/
theorem enqueued_but_not_executed :
    ((Client.processCommand "depositX 5").run
        (Client.new 7 "" false : Client Decimal)).events =
          [.enqueued ⟨some "depositX 5", some "7 0"⟩] ∧
      ¬ (Client.new 3 "" false : Client Decimal).Executes
          ⟨some "depositX 5", some "7 0"⟩ ∧
      ((Client.processCommand "deposit abc").run
        (Client.new 7 "" false : Client Decimal)).events =
          [.enqueued ⟨some "deposit abc", some "7 0"⟩] ∧
      ¬ (Client.new 3 "" false : Client Decimal).Executes
          ⟨some "deposit abc", some "7 0"⟩ := by
  refine ⟨by decide +kernel, ?_, by decide +kernel, ?_⟩
  · rw [Client.executes_iff (by decide)]
    rintro ⟨hExecutable, _⟩
    revert hExecutable
    decide +kernel
  · rw [Client.executes_iff (by decide)]
    rintro ⟨hExecutable, _⟩
    revert hExecutable
    decide +kernel

end ReplicatedAccount
