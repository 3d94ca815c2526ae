import ReplicatedAccount.Client.Trace

/-
  The commands of the local user and the periodic broadcast.

  Key definitions include:
    * `Client.processCommand`
    * `Client.enqueue`
    * `Client.getTxStatus`
    * `Client.broadcastOutstanding`
    * `Client.CommandEffect`
    * `Client.statusOf`

  A command either enqueues a transaction, cleans the
  history, or leaves the client as it is; the theorem
  `Client.processCommand_effect` says so once for all later
  invariants.
-/

------------------------------------------------------------
-- Enqueueing
------------------------------------------------------------

namespace ReplicatedAccount

namespace Client

open Foundations Foundations.JavaText Foundations.Method

variable {D : Type}

/- The transaction the client would enqueue next. -/
def nextTransaction
    (client : Client D)
    (command : String) :
    Transaction where
  command := some command
  uniqueId :=
    some (uniqueIdOf client.id client.outstandingCounter)

/-
  Create a transaction with the next id and add it to the
  outstanding collection.
-/
def enqueue (command : String) : ClientMethod D Unit := do
  let client ← get
  let tx := client.nextTransaction command
  modify fun c =>
    { c with outstandingCounter := c.outstandingCounter + 1 }
  modify fun c =>
    { c with
      outstandingCollection :=
        c.outstandingCollection ++ [tx] }
  emit (.enqueued tx)

end Client

end ReplicatedAccount

------------------------------------------------------------
-- Commands
------------------------------------------------------------

namespace ReplicatedAccount

namespace Client

open Foundations Foundations.JavaText Foundations.Method

variable {D : Type}

def println (line : Line D) : ClientMethod D Unit :=
  emit (.println line)

def getQuickBalance : ClientMethod D Unit := do
  let client ← get
  println (.balance "Quick balance: " client.balance)

/- Start a thread that waits and then prints the balance. -/
def getSyncedBalanceNaive : ClientMethod D Unit :=
  emit .threadStarted

def getSyncedBalanceCorrect : ClientMethod D Unit :=
  enqueue "getSyncedBalance"

/- The listing itself is still to be written in the source. -/
def getHistory : ClientMethod D Unit :=
  println (.text "History: ")

/- Does the list hold a transaction with the given id? -/
def containsId
    (transactionId : String) :
    List Transaction → Except JavaException Bool
| [] => .ok false
| tx :: rest => do
    if ← stringEquals tx.uniqueId (some transactionId) then
      pure true
    else
      containsId transactionId rest

def getTxStatus
    (client : Client D)
    (transactionId : String) :
    Except JavaException String := do
  if ← containsId transactionId client.executedList then
    pure "Executed"
  else if
      ← containsId transactionId
        client.outstandingCollection then
    pure "In queue"
  else
    pure "Not Found"

def printTxStatus
    (transactionId : String) :
    ClientMethod D Unit := do
  let client ← get
  let status ← ofExcept (client.getTxStatus transactionId)
  emit (.errPrintln
    ("Transaction with ID " ++ transactionId ++
      " has status: " ++ status))

def cleanHistory : ClientMethod D Unit :=
  modify fun c => { c with executedList := [] }

def memberInfo : ClientMethod D Unit :=
  println (.text "Current members are: ")

/-
  `Thread.sleep` rejects negative durations; the product is
  computed with 32-bit ints before it is widened.
-/
def sleep (duration : Int32) : ClientMethod D Unit := do
  let client ← get
  if client.fileName = "" then
    pure ()
  else if duration * 1000 < 0 then
    throw .illegalArgument
  else
    emit (.slept (duration * 1000))

/- Disconnect and end the virtual machine. -/
def exit : ClientMethod D Unit :=
  emit .exited

def processCommand
    (input : String) :
    ClientMethod D Unit := do
  let command := trim input
  if startsWith command "deposit" ||
      startsWith command "addInterest" ||
      startsWith command "checkTxStatus" ||
      startsWith command "sleep" then
    if (split command).length ≠ 2 then
      println (.text
        "Invalid argument for command, should follow syntax '<command_name> <value>'")
    else if startsWith command "deposit" ||
        startsWith command "addInterest" then
      enqueue command
    else if startsWith command "checkTxStatus" then
      let transactionId ←
        ofExcept (arrayElement (split command) 1)
      printTxStatus transactionId
    else if startsWith command "sleep" then
      let argument ←
        ofExcept (arrayElement (split command) 1)
      let duration ← ofExcept (parsed (parseInt argument))
      sleep duration
    else
      pure ()
  else if startsWith command "getSynchedBalance" then
    let client ← get
    if client.naiveSyncBalance then
      getSyncedBalanceNaive
    else
      getSyncedBalanceCorrect
  else if command = "getQuickBalance" then
    getQuickBalance
  else if command = "getHistory" then
    getHistory
  else if command = "cleanHistory" then
    cleanHistory
  else if command = "memberInfo" then
    memberInfo
  else if command = "exit" then
    exit
  else
    println (.text "Invalid command")

end Client

end ReplicatedAccount

------------------------------------------------------------
-- Broadcasting
------------------------------------------------------------

namespace ReplicatedAccount

namespace Client

open Foundations Foundations.Method

variable {D : Type}

/-
  Multicast a serialised copy of the outstanding collection,
  which stays as it is.  When the connection refuses the
  message, the `SpreadException` is caught and printed.
-/
def sendOutstanding
    (accepted : Bool) :
    ClientMethod D Unit := do
  let client ← get
  if accepted then
    emit (.multicast client.outstandingCollection)
  else
    emit .stackTrace

/- One tick of the broadcast scheduler. -/
def broadcastOutstanding
    (accepted : Bool) :
    ClientMethod D Unit := do
  let client ← get
  if client.clientSyncronising then
    pure ()
  else
    sendOutstanding accepted

end Client

end ReplicatedAccount

------------------------------------------------------------
-- What Commands and Ticks Do
------------------------------------------------------------

namespace ReplicatedAccount

namespace Client

open Foundations Foundations.JavaText Foundations.Method

variable {D : Type}

/- The client after enqueueing one transaction. -/
def afterEnqueue
    (c : Client D)
    (command : String) :
    Client D :=
  { c with
    outstandingCounter := c.outstandingCounter + 1
    outstandingCollection :=
      c.outstandingCollection ++
        [c.nextTransaction command] }

theorem run_enqueue
    (command : String)
    (c : Client D) :
    (enqueue command : ClientMethod D Unit).run c =
      ⟨c.afterEnqueue command,
        [.enqueued (c.nextTransaction command)], .ok ()⟩ := by
  simp [enqueue, afterEnqueue]

/-
  The commands that become transactions as they are: the
  dispatcher looks at the beginning of the command and at
  the number of its space-separated parts.
-/
def acceptsValue (command : String) : Bool :=
  (startsWith command "deposit" ||
      startsWith command "addInterest") &&
    (split command).length = 2

/- What one command can do to a client. -/
inductive CommandEffect
    (input : String)
    (c : Client D)
    (o : Outcome (Client D) (Event D) JavaException Unit) :
    Prop
  | enqueues
      (command : String)
      (hState : o.state = c.afterEnqueue command)
      (hEvents :
        o.events = [.enqueued (c.nextTransaction command)])
      (hResult : o.result = .ok ())
      (hCommand :
        (command = trim input ∧ acceptsValue command) ∨
          (command = "getSyncedBalance" ∧
            c.naiveSyncBalance = false))
  | cleans
      (hState : o.state = { c with executedList := [] })
      (hEvents : o.events = [])
  | quiet
      (hState : o.state = c)
      (hQuiet : Quiet o.events)

/- An event that only reports leaves the client as it is. -/
theorem CommandEffect.of_emit
    {input : String}
    {c : Client D}
    {event : Event D}
    (hEvent : event.isQuiet) :
    CommandEffect input c ((emit event).run c) :=
  .quiet rfl (by simpa [Quiet] using hEvent)

theorem printTxStatus_effect
    (input transactionId : String)
    (c : Client D) :
    CommandEffect input c
      ((printTxStatus transactionId).run c) := by
  unfold printTxStatus
  rw [run_get_bind]
  cases c.getTxStatus transactionId with
  | error e => exact .quiet rfl (by simp [Quiet])
  | ok status => exact .of_emit rfl

theorem sleep_effect
    (input : String)
    (duration : Int32)
    (c : Client D) :
    CommandEffect input c ((sleep duration).run c) := by
  unfold sleep
  rw [run_get_bind]
  split_ifs
  · exact .quiet rfl (by simp [Quiet])
  · exact .quiet rfl (by simp [Quiet])
  · exact .of_emit rfl

/- A command that takes an argument. -/
theorem argument_effect
    (input : String)
    {α : Type}
    (argument : Except JavaException α)
    (rest : α → ClientMethod D Unit)
    (c : Client D)
    (hRest : ∀ a, CommandEffect input c ((rest a).run c)) :
    CommandEffect input c
      ((ofExcept argument >>= rest).run c) := by
  cases argument with
  | error e => exact .quiet rfl (by simp [Quiet])
  | ok a => exact hRest a

/- Every command enqueues, cleans, or only reports. -/
theorem processCommand_effect
    (input : String)
    (c : Client D) :
    CommandEffect input c ((processCommand input).run c) := by
  unfold processCommand
  dsimp only
  split_ifs with hValue hParts hEnqueue hStatus hSleep
    hRequest hQuick hHistory hClean hMembers hExit
  · exact .of_emit rfl
  · rw [run_enqueue]
    refine .enqueues (trim input) rfl rfl rfl (Or.inl ⟨rfl, ?_⟩)
    simp only [acceptsValue, hEnqueue, Bool.true_and,
      decide_eq_true_eq]
    omega
  · exact argument_effect input _ _ c
      (fun transactionId =>
        printTxStatus_effect input transactionId c)
  · exact argument_effect input _ _ c
      (fun argument => argument_effect input _ _ c
        (fun duration => sleep_effect input duration c))
  · exact .quiet rfl (by simp [Quiet])
  · rw [run_get_bind]
    by_cases hNaive : c.naiveSyncBalance
    · rw [if_pos hNaive]
      exact .of_emit rfl
    · rw [if_neg hNaive, getSyncedBalanceCorrect, run_enqueue]
      exact .enqueues "getSyncedBalance" rfl rfl rfl
        (Or.inr ⟨rfl, by simpa using hNaive⟩)
  · exact .of_emit rfl
  · exact .of_emit rfl
  · exact .cleans rfl rfl
  · exact .of_emit rfl
  · exact .of_emit rfl
  · exact .of_emit rfl

/- A tick multicasts the whole collection or does nothing. -/
theorem broadcastOutstanding_cases
    (accepted : Bool)
    (c : Client D) :
    (broadcastOutstanding accepted).run c =
        ⟨c, [.multicast c.outstandingCollection], .ok ()⟩ ∨
      ∃ events,
        (broadcastOutstanding accepted).run c =
            ⟨c, events, .ok ()⟩ ∧
          Quiet events := by
  unfold broadcastOutstanding sendOutstanding
  rw [run_get_bind]
  by_cases hSync : c.clientSyncronising
  · rw [if_pos hSync]
    exact Or.inr ⟨[], rfl, by simp [Quiet]⟩
  · rw [if_neg hSync, run_get_bind]
    cases accepted with
    | true => exact Or.inl rfl
    | false =>
        exact Or.inr ⟨[.stackTrace], rfl,
          by simp [Quiet, Event.isQuiet]⟩

end Client

end ReplicatedAccount

------------------------------------------------------------
-- Looking Up a Status
------------------------------------------------------------

namespace ReplicatedAccount

namespace Client

open Foundations

variable {D : Type}

/- The list holds a transaction with the given id. -/
def Carries
    (txs : List Transaction)
    (transactionId : String) : Prop :=
  ∃ tx ∈ txs, tx.uniqueId = some transactionId

instance
    (txs : List Transaction)
    (transactionId : String) :
    Decidable (Carries txs transactionId) :=
  inferInstanceAs (Decidable (∃ _ ∈ _, _))

@[simp] theorem carries_cons
    (tx : Transaction)
    (rest : List Transaction)
    (transactionId : String) :
    Carries (tx :: rest) transactionId ↔
      tx.uniqueId = some transactionId ∨
        Carries rest transactionId := by
  simp [Carries]

theorem containsId_of_searchSucceeds
    {transactionId : String}
    {txs : List Transaction}
    (hSearch : SearchSucceeds (some transactionId) txs) :
    containsId transactionId txs =
      .ok (decide (Carries txs transactionId)) := by
  induction txs with
  | nil => rfl
  | cons tx rest ih =>
      rcases (searchSucceeds_cons _ _ _).mp hSearch with
        ⟨hPresent, hRest⟩
      cases hId : tx.uniqueId with
      | none => exact (hPresent hId).elim
      | some txId =>
          by_cases hFound : txId = transactionId
          · simp [containsId, hId, hFound]
          · have hTail :=
              ih (hRest.resolve_left (by simp [hId, hFound]))
            simp [containsId, hId, hFound, hTail]

theorem containsId_of_not_searchSucceeds
    {transactionId : String}
    {txs : List Transaction}
    (hSearch : ¬ SearchSucceeds (some transactionId) txs) :
    containsId transactionId txs = .error .nullPointer := by
  induction txs with
  | nil => exact (hSearch (searchSucceeds_nil _)).elim
  | cons tx rest ih =>
      cases hId : tx.uniqueId with
      | none => simp [containsId, hId]
      | some txId =>
          simp only [searchSucceeds_cons, hId, ne_eq,
            reduceCtorEq, not_false_eq_true, true_and,
            not_or] at hSearch
          have hTail := ih hSearch.2
          have hOther : txId ≠ transactionId := by
            simpa using hSearch.1
          simpa [containsId, hId, hOther] using hTail

/- What the user is to be told about a transaction. -/
def statusOf
    (c : Client D)
    (transactionId : String) : String :=
  if Carries c.executedList transactionId then
    "Executed"
  else if Carries c.outstandingCollection transactionId then
    "In queue"
  else
    "Not Found"

/- No search of the lookup stops at a missing id. -/
def StatusKnown
    (c : Client D)
    (transactionId : String) : Prop :=
  SearchSucceeds (some transactionId) c.executedList ∧
    (Carries c.executedList transactionId ∨
      SearchSucceeds (some transactionId)
        c.outstandingCollection)

theorem getTxStatus_of_statusKnown
    {c : Client D}
    {transactionId : String}
    (hKnown : c.StatusKnown transactionId) :
    c.getTxStatus transactionId =
      .ok (c.statusOf transactionId) := by
  unfold getTxStatus statusOf
  rw [containsId_of_searchSucceeds hKnown.1, except_ok_bind]
  by_cases hExecuted : Carries c.executedList transactionId
  · simp [hExecuted]
  · have hSearch := hKnown.2.resolve_left hExecuted
    simp only [hExecuted, decide_false, Bool.false_eq_true,
      if_false, containsId_of_searchSucceeds hSearch,
      except_ok_bind]
    by_cases hQueued :
        Carries c.outstandingCollection transactionId <;>
      simp [hQueued]

theorem getTxStatus_of_not_statusKnown
    {c : Client D}
    {transactionId : String}
    (hUnknown : ¬ c.StatusKnown transactionId) :
    c.getTxStatus transactionId = .error .nullPointer := by
  unfold getTxStatus
  by_cases hSearch :
      SearchSucceeds (some transactionId) c.executedList
  · have hRest :
        ¬ Carries c.executedList transactionId ∧
          ¬ SearchSucceeds (some transactionId)
            c.outstandingCollection := by
      simpa [StatusKnown, hSearch] using hUnknown
    simp [containsId_of_searchSucceeds hSearch, hRest.1,
      containsId_of_not_searchSucceeds hRest.2]
  · simp [containsId_of_not_searchSucceeds hSearch]

end Client

end ReplicatedAccount
