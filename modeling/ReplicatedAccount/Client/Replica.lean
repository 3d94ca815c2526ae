import ReplicatedAccount.Foundations.Transition
import ReplicatedAccount.Client.Commands
import ReplicatedAccount.Client.Batch

/-
  One client running on its own: local commands, broadcast
  ticks and deliveries in any order.  The log of events is
  kept beside the client.

  Key definitions include:
    * `Replica`
    * `ReplicaAction`
    * `Replica.step`
    * `replicaSystem`

  Key theorems include:
    * `Replica.act_effect`
    * `Replica.act_localEffect`
-/

------------------------------------------------------------
-- Replicas
------------------------------------------------------------

namespace ReplicatedAccount

open Foundations

/- A client and everything an observer has seen of it. -/
structure Replica (D : Type) where
  client : Client D
  trace : List (Event D)
deriving DecidableEq

/- What can happen to a running client. -/
inductive ReplicaAction where
  | command (input : String)
  -- a scheduler tick and the answer of the connection to it
  | tick (accepted : Bool)
  | deliver (batch : List Transaction)
deriving DecidableEq, Repr

namespace Replica

variable {D : Type} [DoubleArithmetic D]

/- The call that an action makes on the client. -/
def call
    (c : Client D) :
    ReplicaAction →
      Outcome (Client D) (Event D) JavaException Unit
| .command input => (Client.processCommand input).run c
| .tick accepted =>
    (Client.broadcastOutstanding accepted).run c
| .deliver batch => c.regularMessageReceived batch

/- The replica after an action. -/
def act (r : Replica D) (a : ReplicaAction) : Replica D where
  client := (call r.client a).state
  trace := r.trace ++ (call r.client a).events

/- A client that has left the virtual machine does nothing. -/
def step
    (r : Replica D)
    (a : ReplicaAction) :
    Option (Replica D) :=
  if hasExited r.trace then none else some (r.act a)

end Replica

/- A client running from the given state. -/
def replicaSystem
    {D : Type} [DoubleArithmetic D]
    (start : Client D) :
    TransitionSystem (Replica D) ReplicaAction where
  start := ⟨start, []⟩
  step := Replica.step

end ReplicatedAccount

------------------------------------------------------------
-- Deliveries of a Run
------------------------------------------------------------

namespace ReplicatedAccount

namespace ReplicaAction

def delivery? : ReplicaAction → Option (List Transaction)
| .deliver batch => some batch
| _ => none

end ReplicaAction

/- The batches delivered in a run, in order. -/
def deliveries
    (actions : List ReplicaAction) :
    List (List Transaction) :=
  actions.filterMap ReplicaAction.delivery?

end ReplicatedAccount

------------------------------------------------------------
-- Step Cases
------------------------------------------------------------

namespace ReplicatedAccount

open Foundations

variable {D : Type} [DoubleArithmetic D]

namespace Client

/- A delivery without null ids. -/
theorem regularMessageReceived_outcome
    (batch : List Transaction)
    (c : Client D)
    (hIds : c.IdsPresent)
    (hBatch : ∀ tx ∈ batch, tx.uniqueId ≠ none) :
    ∃ events,
      c.regularMessageReceived batch =
          ⟨c.absorb (reached D batch),
            events ++
              [.delivered batch
                (exceptionOf (batchResult D batch))],
            batchResult D batch⟩ ∧
        LogOf c.id (reached D batch) events := by
  have hOutcome :=
    processReceivedTransactions_outcome batch c hIds hBatch
  refine
    ⟨((processReceivedTransactions batch).run c).events,
      ?_, hOutcome.log⟩
  simp only [regularMessageReceived, hOutcome.state,
    hOutcome.result]

end Client

namespace Replica

/-
  What a step does, when deliveries carry no null ids: it
  enqueues, cleans, multicasts, only reports, or absorbs a
  batch.
-/
inductive StepEffect
    (r : Replica D)
    (a : ReplicaAction)
    (r' : Replica D) : Prop
  | enqueues
      (command : String)
      (hClient : r'.client = r.client.afterEnqueue command)
      (hTrace :
        r'.trace =
          r.trace ++
            [.enqueued (r.client.nextTransaction command)])
      (hCommand :
        ∃ input, a = .command input ∧
          ((command = JavaText.trim input ∧
              Client.acceptsValue command) ∨
            (command = "getSyncedBalance" ∧
              r.client.naiveSyncBalance = false)))
  | cleans
      (hClient :
        r'.client = { r.client with executedList := [] })
      (hTrace : r'.trace = r.trace)
  | multicasts
      (hClient : r'.client = r.client)
      (hTrace :
        r'.trace =
          r.trace ++
            [.multicast r.client.outstandingCollection])
      (hAction : ∃ accepted, a = .tick accepted)
  | quiet
      (events : List (Event D))
      (hClient : r'.client = r.client)
      (hTrace : r'.trace = r.trace ++ events)
      (hQuiet : Quiet events)
      (hAction : ∀ batch, a ≠ .deliver batch)
  | absorbs
      (batch : List Transaction)
      (events : List (Event D))
      (hAction : a = .deliver batch)
      (hClient :
        r'.client = r.client.absorb (reached D batch))
      (hTrace :
        r'.trace =
          r.trace ++
            (events ++
              [.delivered batch
                (Client.exceptionOf
                  (batchResult D batch))]))
      (hLog :
        Client.LogOf r.client.id (reached D batch) events)

/- The step of a running replica is its action. -/
theorem step_eq_some_iff
    (r : Replica D)
    (a : ReplicaAction)
    (r' : Replica D) :
    r.step a = some r' ↔
      hasExited r.trace = false ∧ r.act a = r' := by
  unfold step
  cases hasExited r.trace <;> simp

/- Every step has one of the listed effects. -/
theorem act_effect
    (r : Replica D)
    (a : ReplicaAction)
    (hIds : r.client.IdsPresent)
    (hBatch :
      ∀ batch, a = .deliver batch →
        ∀ tx ∈ batch, tx.uniqueId ≠ none) :
    StepEffect r a (r.act a) := by
  cases a with
  | command input =>
      have hEffect :=
        Client.processCommand_effect input r.client
      simp only [act, call]
      generalize (Client.processCommand input).run r.client = o
        at hEffect
      cases hEffect with
      | enqueues command hState hEvents hResult hCommand =>
          exact .enqueues command hState
            (by simp only [hEvents])
            ⟨input, rfl, hCommand⟩
      | cleans hState hEvents =>
          exact .cleans hState
            (by simp only [hEvents, List.append_nil])
      | quiet hState hQuiet =>
          exact .quiet o.events hState rfl hQuiet (by simp)
  | tick accepted =>
      simp only [act, call]
      rcases Client.broadcastOutstanding_cases
          accepted r.client with
        hCall | ⟨events, hCall, hQuiet⟩
      · rw [hCall]
        exact .multicasts rfl rfl ⟨accepted, rfl⟩
      · rw [hCall]
        exact .quiet events rfl rfl hQuiet (by simp)
  | deliver batch =>
      simp only [act, call]
      rcases Client.regularMessageReceived_outcome batch
          r.client hIds (hBatch batch rfl) with
        ⟨events, hCall, hLog⟩
      rw [hCall]
      exact .absorbs batch events rfl rfl rfl hLog

end Replica

end ReplicatedAccount

------------------------------------------------------------
-- Local Actions
------------------------------------------------------------

namespace ReplicatedAccount

variable {D : Type}

namespace Replica

/-
  What an action that is no delivery keeps: the account and
  its history.  The outstanding collection only grows, by
  what the client enqueues.
-/
structure LocalEffect (r r' : Replica D) : Prop where
  balance : r'.client.balance = r.client.balance
  applied : applied r'.trace = applied r.trace
  queue :
    ∃ fresh,
      r'.client.outstandingCollection =
          r.client.outstandingCollection ++ fresh ∧
        enqueued r'.trace = enqueued r.trace ++ fresh

/- Only the log changes, by events that record nothing. -/
theorem LocalEffect.of_log
    {r r' : Replica D}
    {events : List (Event D)}
    (hBalance : r'.client.balance = r.client.balance)
    (hQueue :
      r'.client.outstandingCollection =
        r.client.outstandingCollection)
    (hTrace : r'.trace = r.trace ++ events)
    (hApplied : ReplicatedAccount.applied events = [])
    (hEnqueued : enqueued events = []) :
    LocalEffect r r' where
  balance := hBalance
  applied := by simp [hTrace, hApplied]
  queue := ⟨[], by simp [hQueue], by simp [hTrace, hEnqueued]⟩

variable [DoubleArithmetic D]

theorem act_command_localEffect
    (r : Replica D)
    (input : String) :
    LocalEffect r (r.act (.command input)) ∧
      multicasts (r.act (.command input)).trace =
        multicasts r.trace := by
  have hEffect :=
    Client.processCommand_effect input r.client
  simp only [act, call]
  generalize (Client.processCommand input).run r.client = o
    at hEffect
  cases hEffect with
  | enqueues command hState hEvents hResult hCommand =>
      refine ⟨⟨?_, ?_, [r.client.nextTransaction command],
        ?_, ?_⟩, ?_⟩
      · rw [hState]
        rfl
      · simp [hEvents]
      · rw [hState]
        rfl
      · simp [hEvents]
      · simp [hEvents]
  | cleans hState hEvents =>
      refine ⟨.of_log (by rw [hState]) (by rw [hState]) rfl ?_ ?_,
        ?_⟩
      all_goals simp [hEvents]
  | quiet hState hQuiet =>
      rcases hQuiet.projections with
        ⟨hEnqueued, _, hApplied, _, hMulticasts, _⟩
      exact ⟨.of_log (by rw [hState]) (by rw [hState]) rfl
        hApplied hEnqueued, by simp [hMulticasts]⟩

theorem act_localEffect
    (r : Replica D)
    (a : ReplicaAction)
    (hLocal : ∀ batch, a ≠ .deliver batch) :
    LocalEffect r (r.act a) := by
  cases a with
  | command input => exact (r.act_command_localEffect input).1
  | tick accepted =>
      simp only [act, call]
      rcases Client.broadcastOutstanding_cases accepted
          r.client with
        hCall | ⟨events, hCall, hQuiet⟩
      · rw [hCall]
        exact .of_log rfl rfl rfl rfl rfl
      · rw [hCall]
        exact .of_log rfl rfl rfl hQuiet.projections.2.2.1
          hQuiet.projections.1
  | deliver batch => exact absurd rfl (hLocal batch)

end Replica

end ReplicatedAccount
