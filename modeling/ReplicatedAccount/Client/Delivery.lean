import ReplicatedAccount.Client.Basic

/-
  Processing the transactions of a received message.

  Key definitions include:
    * `Client.alreadyExecuted`
    * `Client.removeLocal`
    * `Client.answerRequest`
    * `Client.executeCommand`
    * `Client.processTransaction`
    * `Client.processReceivedTransactions`
    * `Client.regularMessageReceived`
-/

------------------------------------------------------------
-- Searching the Executed and the Local List
------------------------------------------------------------

namespace ReplicatedAccount

namespace Client

open Foundations Foundations.Method

variable {D : Type}

/-
  The search for an executed transaction with the same id.
  On a match the source assigns `false` to the flag that it
  has initialised with `false`.
-/
def alreadyExecuted
    (tx : Transaction) :
    List Transaction → Except JavaException Bool
| [] => .ok false
| executedTx :: rest => do
    if ← stringEquals executedTx.uniqueId tx.uniqueId then
      pure false
    else
      alreadyExecuted tx rest

/-
  `removeIf` on the outstanding collection.  The predicate is
  evaluated on every element before anything is removed.
-/
def removeLocal
    (tx : Transaction) :
    List Transaction →
      Except JavaException (List Transaction)
| [] => .ok []
| localTx :: rest => do
    let remove ← stringEquals localTx.uniqueId tx.uniqueId
    let kept ← removeLocal tx rest
    if remove then
      pure kept
    else
      pure (localTx :: kept)

end Client

end ReplicatedAccount

------------------------------------------------------------
-- Executing One Transaction
------------------------------------------------------------

namespace ReplicatedAccount

namespace Client

open Foundations Foundations.JavaText Foundations.Method
open DoubleArithmetic

variable {D : Type} [DoubleArithmetic D]

def deposit (amount : D) : ClientMethod D Unit :=
  modify fun c => { c with balance := add c.balance amount }

def addInterest (percent : D) : ClientMethod D Unit :=
  modify fun c =>
    { c with
      balance :=
        add c.balance
          (mul c.balance (div percent hundred)) }

/- The body is still to be written in the source. -/
def handleSetBalance (_balance : D) : ClientMethod D Unit :=
  pure ()

/- `Double.parseDouble(commandParts[1])`. -/
def commandValue
    (commandParts : List String) :
    Except JavaException D := do
  let argument ← arrayElement commandParts 1
  parsed (parseDouble argument)

/- Count an executed transaction and save it to history. -/
def recordExecuted
    (tx : Transaction) :
    ClientMethod D Unit := do
  modify fun c =>
    { c with orderCounter := c.orderCounter + 1 }
  modify fun c =>
    { c with executedList := c.executedList ++ [tx] }

/- Print the balance if the request is the client's own. -/
def answerRequest
    (tx : Transaction) :
    ClientMethod D Unit := do
  let uniqueId ← ofExcept (dereference tx.uniqueId)
  let issuerText ←
    ofExcept (arrayElement (split uniqueId) 0)
  let issuer ← ofExcept (parsed (parseInt issuerText))
  let client ← get
  if issuer = client.id then
    emit (.println
      (.balance "Correct Synced Balance: " client.balance))
    emit (.answered tx)
  else
    pure ()

/-
  Execute a deposit or an addInterest; skip other commands.
  The source guards `split` with a handler that skips the
  transaction, but `split` cannot throw here.
-/
def executeCommand
    (tx : Transaction) :
    ClientMethod D Unit := do
  let command ← ofExcept (dereference tx.command)
  let commandParts := split command
  let name ← ofExcept (arrayElement commandParts 0)
  if name = "setBalance" then
    let newBalance ← ofExcept (commandValue commandParts)
    handleSetBalance newBalance
  else if name = "deposit" then
    let amount ← ofExcept (commandValue commandParts)
    deposit amount
    emit (.applied tx)
    recordExecuted tx
  else if name = "addInterest" then
    let percent ← ofExcept (commandValue commandParts)
    addInterest percent
    emit (.applied tx)
    recordExecuted tx
  else
    pure ()

/- One iteration over the received transactions. -/
def processTransaction
    (tx : Transaction) :
    ClientMethod D Unit := do
  emit (.processing tx)
  let client ← get
  let txAlreadyExecuted ←
    ofExcept (alreadyExecuted tx client.executedList)
  -- removed before the transaction is looked at any further
  let kept ←
    ofExcept (removeLocal tx client.outstandingCollection)
  modify fun c => { c with outstandingCollection := kept }
  if txAlreadyExecuted then
    pure ()
  else
    let forBalance ←
      ofExcept
        (stringEquals tx.command (some "getSyncedBalance"))
    if forBalance then
      answerRequest tx
    else
      executeCommand tx

end Client

end ReplicatedAccount

------------------------------------------------------------
-- Executing a Batch
------------------------------------------------------------

namespace ReplicatedAccount

namespace Client

open Foundations Foundations.Method

variable {D : Type} [DoubleArithmetic D]

/- Wake the naive readers when nothing is outstanding. -/
def notifyIfEmpty : ClientMethod D Unit := do
  let client ← get
  if client.outstandingCollection.isEmpty &&
      client.naiveSyncBalance then
    emit .notifyAll
  else
    pure ()

def processReceivedTransactions
    (receivedTransactions : List Transaction) :
    ClientMethod D Unit := do
  forEach processTransaction receivedTransactions
  notifyIfEmpty

/- The exception a call ended with, if any. -/
def exceptionOf :
    Except JavaException Unit → Option JavaException
| .ok () => none
| .error e => some e

/-
  The listener hands the batch to the client.  It catches no
  exception that the processing of a batch can raise; the
  delivery ends with what the processing ends with.
-/
def regularMessageReceived
    (batch : List Transaction)
    (client : Client D) :
    Outcome (Client D) (Event D) JavaException Unit :=
  let outcome := (processReceivedTransactions batch).run client
  { outcome with
    events :=
      outcome.events ++
        [.delivered batch (exceptionOf outcome.result)] }

end Client

end ReplicatedAccount
