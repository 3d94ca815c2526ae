import ReplicatedAccount.Client.Delivery
import ReplicatedAccount.Client.Trace

/-
  What a client does with one received transaction depends,
  apart from null ids, on the transaction alone.  This file
  states that decision as a pure function, its effect on the
  client, and that the code computes exactly this effect.

  Key definitions include:
    * `Operation`
    * `Disposition`
    * `disposition`
    * `replay`
    * `Client.effect`
    * `Client.IdsPresent`

  Key theorems include:
    * `disposition_eq_answer_iff`
    * `Client.processTransaction_eq`
    * `Client.processTransaction_cases`
-/

------------------------------------------------------------
-- Operations and Dispositions
------------------------------------------------------------

namespace ReplicatedAccount

open Foundations Foundations.JavaText DoubleArithmetic

/- A change of the account. -/
inductive Operation (D : Type) where
  | deposit (amount : D)
  | addInterest (percent : D)
deriving DecidableEq, Repr

/- The balance after an operation. -/
def Operation.apply
    {D : Type} [DoubleArithmetic D] :
    Operation D → D → D
| .deposit amount, balance => add balance amount
| .addInterest percent, balance =>
    add balance (mul balance (div percent hundred))

/-
  What becomes of a received transaction: it is executed, it
  asks its issuer for the balance, it is skipped, or it ends
  the whole batch with an exception.
-/
inductive Disposition (D : Type) where
  | execute (operation : Operation D)
  | answer (issuer : Int32)
  | skip
  | abort (e : JavaException)
deriving DecidableEq, Repr

variable {D : Type} [DoubleArithmetic D]

/- The disposition of a command that carries a value. -/
def valueDisposition
    (commandParts : List String)
    (onValue : D → Disposition D) :
    Disposition D :=
  match Client.commandValue commandParts with
  | .error e => .abort e
  | .ok v => onValue v

/- The disposition of a command split at its spaces. -/
def commandDisposition
    (commandParts : List String) :
    Disposition D :=
  match arrayElement commandParts 0 with
  | .error e => .abort e
  | .ok name =>
      if name = "setBalance" then
        valueDisposition commandParts fun _ => .skip
      else if name = "deposit" then
        valueDisposition commandParts fun amount =>
          .execute (.deposit amount)
      else if name = "addInterest" then
        valueDisposition commandParts fun percent =>
          .execute (.addInterest percent)
      else
        .skip

/- The disposition of a balance request, by its id. -/
def requestDisposition
    (uniqueId : Option String) :
    Disposition D :=
  match uniqueId with
  | none => .abort .nullPointer
  | some transactionId =>
      match arrayElement (split transactionId) 0 with
      | .error e => .abort e
      | .ok issuerText =>
          match parseInt issuerText with
          | none => .abort .numberFormat
          | some issuer => .answer issuer

/- The disposition of a received transaction. -/
def disposition (tx : Transaction) : Disposition D :=
  match tx.command with
  | none => .abort .nullPointer
  | some command =>
      if command = "getSyncedBalance" then
        requestDisposition tx.uniqueId
      else
        commandDisposition (split command)

/- The balance after a transaction has been executed. -/
def applyTransaction (balance : D) (tx : Transaction) : D :=
  match disposition (D := D) tx with
  | .execute operation => operation.apply balance
  | _ => balance

/- Execute transactions from the left. -/
def replay (balance : D) (history : List Transaction) : D :=
  history.foldl applyTransaction balance

@[simp] theorem replay_nil
    (balance : D) :
    replay balance [] = balance :=
  rfl

@[simp] theorem replay_cons
    (balance : D)
    (tx : Transaction)
    (rest : List Transaction) :
    replay balance (tx :: rest) =
      replay (applyTransaction balance tx) rest :=
  rfl

@[simp] theorem replay_append
    (balance : D)
    (history later : List Transaction) :
    replay balance (history ++ later) =
      replay (replay balance history) later :=
  List.foldl_append

end ReplicatedAccount

------------------------------------------------------------
-- Decidable Kinds of Transactions
------------------------------------------------------------

namespace ReplicatedAccount

variable (D : Type) [DoubleArithmetic D]

/-
  A well-formed deposit or addInterest: the first token is
  exactly the command name and the value is accepted.
-/
def executable (tx : Transaction) : Bool :=
  match disposition (D := D) tx with
  | .execute _ => true
  | _ => false

/- The transaction ends its batch with an exception. -/
def aborting (tx : Transaction) : Bool :=
  match disposition (D := D) tx with
  | .abort _ => true
  | _ => false

/- The transaction asks the given client for its balance. -/
def requests (id : Int32) (tx : Transaction) : Bool :=
  match disposition (D := D) tx with
  | .answer issuer => issuer = id
  | _ => false

variable {D}

theorem executable_iff
    (tx : Transaction) :
    executable D tx ↔
      ∃ operation : Operation D,
        disposition tx = .execute operation := by
  unfold executable
  cases disposition (D := D) tx <;> simp

theorem requests_iff
    (id : Int32)
    (tx : Transaction) :
    requests D id tx ↔
      disposition (D := D) tx = .answer id := by
  unfold requests
  cases disposition (D := D) tx <;> simp

theorem commandDisposition_ne_answer
    (commandParts : List String)
    (issuer : Int32) :
    commandDisposition (D := D) commandParts ≠
      .answer issuer := by
  unfold commandDisposition valueDisposition
  cases arrayElement commandParts 0 with
  | error e => simp
  | ok name =>
      cases Client.commandValue (D := D) commandParts <;>
      · dsimp only
        split_ifs <;> simp

/- Only balance requests ask for an answer. -/
theorem disposition_eq_answer_iff
    (tx : Transaction)
    (issuer : Int32) :
    disposition (D := D) tx = .answer issuer ↔
      tx.command = some "getSyncedBalance" ∧
        requestDisposition (D := D) tx.uniqueId =
          .answer issuer := by
  unfold disposition
  cases hCommand : tx.command with
  | none => simp
  | some command =>
      by_cases hRequest : command = "getSyncedBalance"
      · simp [hRequest]
      · simp [hRequest, commandDisposition_ne_answer]

theorem not_aborting_of_executable
    {tx : Transaction}
    (hExecutable : executable D tx) :
    aborting D tx = false := by
  rcases (executable_iff tx).mp hExecutable with
    ⟨operation, hDisposition⟩
  simp [aborting, hDisposition]

/- A transaction that is not executed leaves the balance. -/
theorem applyTransaction_of_not_executable
    (balance : D)
    {tx : Transaction}
    (hNot : executable D tx = false) :
    applyTransaction balance tx = balance := by
  unfold executable at hNot
  unfold applyTransaction
  cases hDisposition : disposition (D := D) tx <;>
    simp_all

end ReplicatedAccount

------------------------------------------------------------
-- The Effect of One Transaction
------------------------------------------------------------

namespace ReplicatedAccount

namespace Client

open Foundations

variable {D : Type}

/-
  No transaction in the lists of the client has a null id.
  The client creates its own transactions with an id, so
  only a received null id can violate this.
-/
def IdsPresent (c : Client D) : Prop :=
  ∀ tx ∈ c.executedList ++ c.outstandingCollection,
    tx.uniqueId ≠ none

/- The client without local transactions of the given id. -/
def withoutLocal
    (c : Client D)
    (tx : Transaction) :
    Client D :=
  { c with
    outstandingCollection :=
      c.outstandingCollection.filter
        fun localTx => localTx.uniqueId ≠ tx.uniqueId }

variable [DoubleArithmetic D]

/- The client after an executed transaction. -/
def executed
    (c : Client D)
    (operation : Operation D)
    (tx : Transaction) :
    Client D :=
  { c with
    balance := operation.apply c.balance
    orderCounter := c.orderCounter + 1
    executedList := c.executedList ++ [tx] }

/- What a disposition does to the client. -/
def settle
    (d : Disposition D)
    (tx : Transaction)
    (c : Client D) :
    Outcome (Client D) (Event D) JavaException Unit :=
  match d with
  | .execute operation =>
      ⟨c.executed operation tx, [.applied tx], .ok ()⟩
  | .answer issuer =>
      if issuer = c.id then
        ⟨c,
          [.println
            (.balance "Correct Synced Balance: " c.balance),
            .answered tx],
          .ok ()⟩
      else
        ⟨c, [], .ok ()⟩
  | .skip => ⟨c, [], .ok ()⟩
  | .abort e => ⟨c, [], .error e⟩

/- What an iteration over a transaction amounts to. -/
def effect
    (tx : Transaction)
    (c : Client D) :
    Outcome (Client D) (Event D) JavaException Unit :=
  (settle (disposition tx) tx (c.withoutLocal tx)).after
    [.processing tx]

end Client

end ReplicatedAccount

------------------------------------------------------------
-- The Code Computes the Effect
------------------------------------------------------------

namespace ReplicatedAccount

namespace Client

open Foundations Foundations.JavaText Foundations.Method

variable {D : Type} [DoubleArithmetic D]

/-
  The duplicate check never reports a duplicate; it can only
  fail on an executed transaction without an id.
-/
theorem alreadyExecuted_cases
    (tx : Transaction)
    (executedList : List Transaction) :
    alreadyExecuted tx executedList = .ok false ∨
      alreadyExecuted tx executedList =
        .error .nullPointer := by
  induction executedList with
  | nil => exact Or.inl rfl
  | cons executedTx rest ih =>
      cases hId : executedTx.uniqueId with
      | none =>
          apply Or.inr
          simp [alreadyExecuted, hId]
      | some executedId =>
          by_cases hSame : some executedId = tx.uniqueId
          · apply Or.inl
            simp [alreadyExecuted, hId, ← hSame]
          · simpa [alreadyExecuted, hId, hSame] using ih

theorem alreadyExecuted_of_idsPresent
    (tx : Transaction)
    {executedList : List Transaction}
    (hIds : ∀ t ∈ executedList, t.uniqueId ≠ none) :
    alreadyExecuted tx executedList = .ok false := by
  induction executedList with
  | nil => rfl
  | cons executedTx rest ih =>
      have hRest := ih (fun t ht => hIds t (by simp [ht]))
      cases hId : executedTx.uniqueId with
      | none => exact (hIds executedTx (by simp) hId).elim
      | some executedId =>
          simp [alreadyExecuted, hId, hRest]

/- Removing the local transactions of an id, or failing. -/
theorem removeLocal_cases
    (tx : Transaction)
    (outstanding : List Transaction) :
    removeLocal tx outstanding =
        .ok (outstanding.filter
          fun localTx => localTx.uniqueId ≠ tx.uniqueId) ∨
      removeLocal tx outstanding =
        .error .nullPointer := by
  induction outstanding with
  | nil => exact Or.inl rfl
  | cons localTx rest ih =>
      cases hId : localTx.uniqueId with
      | none =>
          apply Or.inr
          simp [removeLocal, hId]
      | some localId =>
          rcases ih with hKept | hNull
          · apply Or.inl
            by_cases hSame : some localId = tx.uniqueId
            · simp [removeLocal, hId, hKept, ← hSame]
            · simp [removeLocal, hId, hKept, hSame]
          · apply Or.inr
            simp [removeLocal, hId, hNull]

theorem removeLocal_of_idsPresent
    (tx : Transaction)
    {outstanding : List Transaction}
    (hIds : ∀ t ∈ outstanding, t.uniqueId ≠ none) :
    removeLocal tx outstanding =
      .ok (outstanding.filter
        fun localTx => localTx.uniqueId ≠ tx.uniqueId) := by
  induction outstanding with
  | nil => rfl
  | cons localTx rest ih =>
      have hRest := ih (fun t ht => hIds t (by simp [ht]))
      cases hId : localTx.uniqueId with
      | none => exact (hIds localTx (by simp) hId).elim
      | some localId =>
          by_cases hSame : some localId = tx.uniqueId
          · simp [removeLocal, hId, hRest, ← hSame]
          · simp [removeLocal, hId, hRest, hSame]

theorem answerRequest_eq
    (tx : Transaction)
    (c : Client D) :
    (answerRequest tx).run c =
      settle (requestDisposition tx.uniqueId) tx c := by
  unfold answerRequest requestDisposition
  cases tx.uniqueId with
  | none => simp [dereference, settle]
  | some uniqueId =>
      simp only [dereference, run_ofExcept_ok_bind]
      cases arrayElement (split uniqueId) 0 with
      | error e => simp [settle]
      | ok issuerText =>
          simp only [run_ofExcept_ok_bind]
          cases parseInt issuerText with
          | none => simp [parsed, settle]
          | some issuer =>
              by_cases hOwn : issuer = c.id
              · simp [parsed, settle, hOwn]
              · simp [parsed, settle, hOwn]

/- An executed transaction is counted and saved. -/
theorem recordExecuted_after_deposit
    (tx : Transaction)
    (amount : D)
    (c : Client D) :
    (do
      deposit amount
      emit (.applied tx)
      recordExecuted tx : ClientMethod D Unit).run c =
      settle (.execute (.deposit amount)) tx c := by
  simp [deposit, recordExecuted, settle, executed,
    Operation.apply]

theorem recordExecuted_after_addInterest
    (tx : Transaction)
    (percent : D)
    (c : Client D) :
    (do
      addInterest percent
      emit (.applied tx)
      recordExecuted tx : ClientMethod D Unit).run c =
      settle (.execute (.addInterest percent)) tx c := by
  simp [addInterest, recordExecuted, settle, executed,
    Operation.apply]

theorem executeCommand_eq
    (tx : Transaction)
    (command : String)
    (c : Client D)
    (hCommand : tx.command = some command) :
    (executeCommand tx).run c =
      settle (commandDisposition (split command)) tx c := by
  unfold executeCommand commandDisposition valueDisposition
  rw [hCommand]
  simp only [dereference, run_ofExcept_ok_bind]
  cases arrayElement (split command) 0 with
  | error e => simp [settle]
  | ok name =>
      simp only [run_ofExcept_ok_bind]
      cases commandValue (D := D) (split command) with
      | error e =>
          split_ifs <;> simp [settle]
      | ok v =>
          split_ifs
          · simp only [run_ofExcept_ok_bind,
              handleSetBalance, run_pure, settle]
          · exact recordExecuted_after_deposit tx v c
          · exact recordExecuted_after_addInterest tx v c
          · simp [settle]

/-
  Once neither search fails, the iteration has exactly the
  effect that the disposition prescribes.
-/
theorem processTransaction_of_searches
    (tx : Transaction)
    (c : Client D)
    (hExecuted :
      alreadyExecuted tx c.executedList = .ok false)
    (hLocal :
      removeLocal tx c.outstandingCollection =
        .ok (c.withoutLocal tx).outstandingCollection) :
    (processTransaction tx).run c = effect tx c := by
  have hRemoved :
      { c with
        outstandingCollection :=
          (c.withoutLocal tx).outstandingCollection } =
        c.withoutLocal tx := rfl
  unfold processTransaction effect disposition
  simp only [run_emit_bind, run_get_bind, hExecuted,
    run_ofExcept_ok_bind, hLocal, run_modify_bind, hRemoved]
  cases hCommand : tx.command with
  | none => simp [settle]
  | some command =>
      by_cases hRequest : command = "getSyncedBalance"
      · subst hRequest
        simp [answerRequest_eq]
      · simp [hRequest,
          executeCommand_eq tx command _ hCommand]

/- With all ids present, an iteration has its effect. -/
theorem processTransaction_eq
    (tx : Transaction)
    {c : Client D}
    (hIds : c.IdsPresent) :
    (processTransaction tx).run c = effect tx c := by
  apply processTransaction_of_searches
  · exact alreadyExecuted_of_idsPresent tx
      (fun t ht => hIds t (by simp [ht]))
  · exact removeLocal_of_idsPresent tx
      (fun t ht => hIds t (by simp [ht]))

/-
  In general an iteration has its effect, or it ends at once
  with a null pointer exception and changes nothing.
-/
theorem processTransaction_cases
    (tx : Transaction)
    (c : Client D) :
    (processTransaction tx).run c = effect tx c ∨
      (processTransaction tx).run c =
        ⟨c, [.processing tx], .error .nullPointer⟩ := by
  rcases alreadyExecuted_cases tx c.executedList with
    hExecuted | hExecuted
  · rcases removeLocal_cases tx c.outstandingCollection with
      hLocal | hLocal
    · exact Or.inl
        (processTransaction_of_searches tx c
          hExecuted hLocal)
    · apply Or.inr
      simp [processTransaction, hExecuted, hLocal]
  · apply Or.inr
    simp [processTransaction, hExecuted]

end Client

end ReplicatedAccount
