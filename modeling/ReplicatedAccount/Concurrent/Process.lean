import ReplicatedAccount.Client.Replica
import ReplicatedAccount.Concurrent.Listener
import ReplicatedAccount.Foundations.Monitor

/-
  One client with all its threads: the commands of the user,
  the ticks of the scheduler, the listener that processes a
  message step by step, and the threads that print the naive
  synchronised balance.

  Every synchronized section on the outstanding collection
  is one step; a thread that waits has ended its section.  One
  step of the listener, too, are the searches for a received
  transaction with its removal: the source does not keep other
  threads from an `add` or `clear` in the middle of them, and
  the exception this can raise there is left out.

  Key definitions include:
    * `Reader`
    * `Process`
    * `Process.step`
    * `processSystem`

  Key theorems include:
    * `Process.finishes_next`
    * `Process.delivery_of_listens`
    * `processSystem_run_of_replicaSystem_run`
-/

------------------------------------------------------------
-- Processes
------------------------------------------------------------

namespace ReplicatedAccount

open Foundations Foundations.Method

namespace Event

@[simp] def isThreadStart {D : Type} : Event D → Bool
| .threadStarted => true
| _ => false

@[simp] def isNotification {D : Type} : Event D → Bool
| .notifyAll => true
| _ => false

end Event

/-
  A thread of `getSyncedBalanceNaive`.  Its label is what the
  client had enqueued before the command; its result is the
  balance it printed and what had been executed by then.
-/
abbrev Reader (D : Type) : Type :=
  Waiter (List Transaction) (D × List Transaction)

structure Process (D : Type) where
  replica : Replica D
  listener : ListenerState
  readers : List (Reader D)
deriving DecidableEq

inductive ProcessAction where
  | command (input : String)
  | tick (accepted : Bool)
  -- the listener thread takes up a message
  | receive (batch : List Transaction)
  -- the next step of the listener thread
  | listen
  -- a thread of `getSyncedBalanceNaive` runs its section
  | read (reader : Nat)
  -- a waiting thread wakes up without a notification
  | wake (reader : Nat)
deriving DecidableEq, Repr

variable {D : Type}

/-
  The section of a reading thread: print the balance when
  nothing is outstanding, and wait otherwise.
-/
def Client.readNaive : ClientMethod D (Option D) := do
  let client ← get
  if client.outstandingCollection.isEmpty then
    println
      (.balance "Naive Synced balance: " client.balance)
    pure (some client.balance)
  else
    pure none

/- The replica after a call. -/
def Replica.after
    {α : Type}
    (r : Replica D)
    (o : Outcome (Client D) (Event D) JavaException α) :
    Replica D :=
  ⟨o.state, r.trace ++ o.events⟩

namespace Process

/- The threads a command starts, by what came before them. -/
def started
    (p : Process D)
    (input : String) :
    List (List Transaction) :=
  (((Client.processCommand input).run
    p.replica.client).events.filter
      Event.isThreadStart).map
        fun _ => enqueued p.replica.trace

/- Every started thread knows what was enqueued before it. -/
def runCommand
    (p : Process D)
    (input : String) :
    Process D :=
  { p with
    replica :=
      p.replica.after
        ((Client.processCommand input).run p.replica.client)
    readers :=
      p.readers ++ (p.started input).map Waiter.start }

/- The processing of a message ends, with its notification. -/
def leave
    {α : Type}
    (p : Process D)
    (batch : List Transaction)
    (o : Outcome (Client D) (Event D) JavaException α)
    (thrown : Option JavaException) :
    Process D where
  replica :=
    ⟨o.state,
      p.replica.trace ++
        (o.events ++ [.delivered batch thrown])⟩
  listener := .idle
  readers :=
    if o.events.any Event.isNotification then
      notifyAll p.readers
    else
      p.readers

/- A balance that was printed, with the history behind it. -/
def printed
    (p : Process D)
    (result : Except JavaException (Option D)) :
    Option (D × List Transaction) :=
  match result with
  | .ok (some balance) =>
      some (balance, applied p.replica.trace)
  | _ => none

def runReader
    (p : Process D)
    (reader : Nat) :
    Process D :=
  let o := Client.readNaive.run p.replica.client
  { p with
    replica := p.replica.after o
    readers :=
      p.readers.modify reader
        (Waiter.enter (p.printed o.result)) }

variable [DoubleArithmetic D]

def runListener
    (p : Process D)
    (batch : List Transaction)
    (position : Position) :
    Process D :=
  let o := position.advance.run p.replica.client
  match o.result with
  | .ok (some later) =>
      { p with
        replica := p.replica.after o
        listener := .busy batch later }
  | .ok none => p.leave batch o none
  | .error e => p.leave batch o (some e)

/-
  An exception ends the processing of a message but, here,
  not the later deliveries: the listener may go on.
-/
def step
    (p : Process D)
    (a : ProcessAction) :
    Option (Process D) :=
  if hasExited p.replica.trace then
    none
  else
    match a with
    | .command input => some (p.runCommand input)
    | .tick accepted =>
        some { p with replica := p.replica.act (.tick accepted) }
    | .receive batch =>
        match p.listener with
        | .idle =>
            some { p with listener := .busy batch (.next batch) }
        | .busy _ _ => none
    | .listen =>
        match p.listener with
        | .idle => none
        | .busy batch position =>
            some (p.runListener batch position)
    | .read reader =>
        match (p.readers[reader]?).map Waiter.phase with
        | some .ready => some (p.runReader reader)
        | _ => none
    | .wake reader =>
        match (p.readers[reader]?).map Waiter.phase with
        | some .blocked =>
            some { p with
              readers := p.readers.modify reader Waiter.wake }
        | _ => none

end Process

end ReplicatedAccount

------------------------------------------------------------
-- Deliveries Without Interruption
------------------------------------------------------------

namespace ReplicatedAccount

open Foundations Foundations.Method

variable {D : Type} [DoubleArithmetic D]

/- One client with its threads, from the given state. -/
def processSystem
    (start : Client D) :
    TransitionSystem (Process D) ProcessAction where
  start := ⟨⟨start, []⟩, .idle, []⟩
  step := Process.step

/- The replica after a delivery with the given outcome. -/
def Replica.delivered
    {D : Type}
    (r : Replica D)
    (batch : List Transaction)
    (o : Outcome (Client D) (Event D) JavaException Unit) :
    Replica D :=
  ⟨o.state,
    r.trace ++
      (o.events ++
        [.delivered batch (Client.exceptionOf o.result)])⟩

namespace Process

variable {p p' : Process D}
variable {batch : List Transaction}
variable {position : Position}

/-
  When only the listener moves, it comes to the end of the
  processing, with the outcome of what remains to be done.
-/
def Finishes (start : Client D) (position : Position) : Prop :=
  ∀ (p : Process D) batch,
    p.listener = .busy batch position →
      hasExited p.replica.trace = false →
        ∃ n p',
          (processSystem start).runFrom p
              (List.replicate n .listen) = some p' ∧
            p'.listener = .idle ∧
              p'.replica =
                p.replica.delivered batch
                  (position.rest.run p.replica.client)

variable {start : Client D}

theorem runFrom_listen
    {n : Nat}
    (hBusy : p.listener = .busy batch position)
    (hRunning : hasExited p.replica.trace = false)
    (hRun :
      (processSystem start).runFrom
          (p.runListener batch position)
          (List.replicate n .listen) = some p') :
    (processSystem start).runFrom p
        (List.replicate (n + 1) .listen) = some p' := by
  have hStep :
      (processSystem start).step p .listen =
        some (p.runListener batch position) := by
    simp [processSystem, step, hRunning, hBusy]
  simpa [List.replicate_succ, TransitionSystem.runFrom, hStep]
    using hRun

/- The listener finishes when it does so one step later. -/
theorem finishes_of_successors
    (hLater :
      ∀ later ∈ position.successors, Finishes start later) :
    Finishes start position := by
  intro p batch hBusy hRunning
  have hSuccessor :
      ∀ later,
        (position.advance.run p.replica.client).result =
            .ok (some later) →
          later ∈ position.successors :=
    fun _ hNext => Position.mem_successors hNext
  have hQuiet := position.not_exited p.replica.client
  rw [position.rest_eq_advance]
  rcases hRun : position.advance.run p.replica.client with
    ⟨s', events, result⟩
  rw [hRun] at hSuccessor hQuiet
  cases result with
  | error e =>
      rw [run_bind_error hRun]
      refine ⟨1, p.runListener batch position,
        runFrom_listen hBusy hRunning rfl, ?_, ?_⟩
      all_goals
        simp [runListener, hRun, leave, Replica.delivered,
          Client.exceptionOf]
  | ok next =>
      rw [run_bind_ok hRun]
      cases next with
      | none =>
          refine ⟨1, p.runListener batch position,
            runFrom_listen hBusy hRunning rfl, ?_, ?_⟩
          all_goals
            simp [runListener, hRun, leave, Replica.delivered,
              Client.exceptionOf]
      | some later =>
          have hNext :
              p.runListener batch position =
                { p with
                  replica := ⟨s', p.replica.trace ++ events⟩
                  listener := .busy batch later } := by
            simp [runListener, hRun, Replica.after]
          rcases hLater later (hSuccessor later rfl)
              (p.runListener batch position) batch
              (by rw [hNext])
              (by
                rw [hNext]
                simp_all [hasExited]) with
            ⟨n, p', hRest, hIdle, hReplica⟩
          refine ⟨n + 1, p',
            runFrom_listen hBusy hRunning hRest, hIdle, ?_⟩
          rw [hReplica, hNext]
          simp [Replica.delivered]

variable (start)

/- By induction on the transactions still to be processed. -/
theorem finishes_next
    (todo : List Transaction) :
    Finishes start (.next todo) := by
  induction todo with
  | nil =>
      apply finishes_of_successors
      simp [Position.successors]
  | cons tx todo ih =>
      have hApplied : Finishes start (.applied tx todo) := by
        apply finishes_of_successors
        simpa [Position.successors] using ih
      have hRemoved : Finishes start (.removed tx todo) := by
        apply finishes_of_successors
        simpa [Position.successors] using ⟨hApplied, ih⟩
      apply finishes_of_successors
      simpa [Position.successors] using ⟨hRemoved, ih⟩

/-
  A message that is processed without interruption has the
  effect of one delivery to the replica.
-/
theorem delivery_of_listens
    (hIdle : p.listener = .idle)
    (hRunning : hasExited p.replica.trace = false)
    (batch : List Transaction) :
    ∃ n p',
      (processSystem start).runFrom p
          (.receive batch :: List.replicate n .listen) =
            some p' ∧
        p'.listener = .idle ∧
          p'.replica = p.replica.act (.deliver batch) := by
  rcases finishes_next start batch
      { p with listener := .busy batch (.next batch) } batch
      rfl hRunning with
    ⟨n, p', hRun, hDone, hReplica⟩
  refine ⟨n, p', ?_, hDone, hReplica⟩
  have hStep :
      (processSystem start).step p (.receive batch) =
        some { p with
          listener := .busy batch (.next batch) } := by
    simp [processSystem, step, hRunning, hIdle]
  simpa [TransitionSystem.runFrom, hStep] using hRun

/- A command has on the replica the effect it has alone. -/
theorem replica_runCommand
    (p : Process D)
    (input : String) :
    (p.runCommand input).replica =
      p.replica.act (.command input) := by
  simp only [runCommand, Replica.after, Replica.act,
    Replica.call]

/- An action of the replica, with its threads or at once. -/
theorem runFrom_of_act
    (hIdle : p.listener = .idle)
    (hRunning : hasExited p.replica.trace = false)
    (a : ReplicaAction) :
    ∃ actions p',
      (processSystem start).runFrom p actions = some p' ∧
        p'.listener = .idle ∧ p'.replica = p.replica.act a := by
  cases a with
  | command input =>
      refine ⟨[.command input], p.runCommand input, ?_, ?_,
        p.replica_runCommand input⟩
      · simp [TransitionSystem.runFrom, processSystem, step,
          hRunning]
      · simp [runCommand, hIdle]
  | tick accepted =>
      refine ⟨[.tick accepted],
        { p with replica := p.replica.act (.tick accepted) },
        ?_, by simp [hIdle], rfl⟩
      simp [TransitionSystem.runFrom, processSystem, step,
        hRunning]
  | deliver batch =>
      rcases delivery_of_listens start hIdle hRunning
          batch with
        ⟨n, p', hRun, hDone, hReplica⟩
      exact ⟨_, p', hRun, hDone, hReplica⟩

end Process

/-
  Every run of a client whose actions take place at once is
  a run of the client with its threads.
-/
theorem processSystem_run_of_replicaSystem_run
    {start : Client D}
    {actions : List ReplicaAction}
    {r : Replica D}
    (hRun : (replicaSystem start).run actions = some r) :
    ∃ steps p,
      (processSystem start).run steps = some p ∧
        p.listener = .idle ∧ p.replica = r := by
  refine (replicaSystem start).run_induction
    (P := fun _ r =>
      ∃ steps p,
        (processSystem start).run steps = some p ∧
          p.listener = .idle ∧ p.replica = r)
    ⟨[], _, rfl, rfl, rfl⟩ ?_ hRun
  rintro as r a r' _ ⟨steps, p, hSteps, hIdle, rfl⟩ hStep
  rcases (p.replica.step_eq_some_iff a r').mp hStep with
    ⟨hRunning, rfl⟩
  rcases Process.runFrom_of_act start hIdle hRunning a with
    ⟨more, p', hMore, hDone, hReplica⟩
  refine ⟨steps ++ more, p', ?_, hDone, hReplica⟩
  exact ((processSystem start).run_append_iff _ _ _).mpr
    ⟨p, hSteps, hMore⟩

end ReplicatedAccount
