import ReplicatedAccount.Client.Basic

/-
  What the event log of a client records: the transactions
  it enqueued, looked at, executed and answered, the batches
  it multicast, and how its deliveries ended.

  Key definitions include:
    * `enqueued`
    * `processed`
    * `applied`
    * `answered`
    * `multicasts`
    * `endings`
    * `syncedBalances`
    * `Event.isQuiet`
-/

------------------------------------------------------------
-- Projections of the Event Log
------------------------------------------------------------

namespace ReplicatedAccount

variable {D : Type}

/- The balance printed in answer to a balance request. -/
@[simp] def Line.synced? : Line D → Option D
| .balance label value =>
    if label = "Correct Synced Balance: " then
      some value
    else
      none
| .text _ => none

namespace Event

@[simp] def enqueued? : Event D → Option Transaction
| .enqueued tx => some tx
| _ => none

@[simp] def processing? : Event D → Option Transaction
| .processing tx => some tx
| _ => none

@[simp] def applied? : Event D → Option Transaction
| .applied tx => some tx
| _ => none

@[simp] def answered? : Event D → Option Transaction
| .answered tx => some tx
| _ => none

@[simp] def multicast? : Event D → Option (List Transaction)
| .multicast batch => some batch
| _ => none

/- The batch of a delivery and the exception that ended it. -/
@[simp] def delivered? :
    Event D → Option (List Transaction × Option JavaException)
| .delivered batch thrown => some (batch, thrown)
| _ => none

@[simp] def synced? : Event D → Option D
| .println line => line.synced?
| _ => none

@[simp] def isExit : Event D → Bool
| .exited => true
| _ => false

end Event

/- Everything the client enqueued itself, oldest first. -/
def enqueued (trace : List (Event D)) : List Transaction :=
  trace.filterMap Event.enqueued?

/- Every transaction an iteration of a delivery looked at. -/
def processed (trace : List (Event D)) : List Transaction :=
  trace.filterMap Event.processing?

/- The history: everything executed since the construction. -/
def applied (trace : List (Event D)) : List Transaction :=
  trace.filterMap Event.applied?

/- The requests the client printed its balance for. -/
def answered (trace : List (Event D)) : List Transaction :=
  trace.filterMap Event.answered?

/- The batches the client multicast. -/
def multicasts
    (trace : List (Event D)) :
    List (List Transaction) :=
  trace.filterMap Event.multicast?

/- The delivered batches and how each delivery ended. -/
def endings
    (trace : List (Event D)) :
    List (List Transaction × Option JavaException) :=
  trace.filterMap Event.delivered?

/- The balances printed in answer to balance requests. -/
def syncedBalances (trace : List (Event D)) : List D :=
  trace.filterMap Event.synced?

/- The client has left the virtual machine. -/
def hasExited (trace : List (Event D)) : Bool :=
  trace.any Event.isExit

end ReplicatedAccount

------------------------------------------------------------
-- Projections of Longer Logs
------------------------------------------------------------

namespace ReplicatedAccount

variable {D : Type}
variable (trace later : List (Event D))

@[simp] theorem enqueued_append :
    enqueued (trace ++ later) =
      enqueued trace ++ enqueued later :=
  List.filterMap_append

@[simp] theorem processed_append :
    processed (trace ++ later) =
      processed trace ++ processed later :=
  List.filterMap_append

@[simp] theorem applied_append :
    applied (trace ++ later) =
      applied trace ++ applied later :=
  List.filterMap_append

@[simp] theorem answered_append :
    answered (trace ++ later) =
      answered trace ++ answered later :=
  List.filterMap_append

@[simp] theorem multicasts_append :
    multicasts (trace ++ later) =
      multicasts trace ++ multicasts later :=
  List.filterMap_append

@[simp] theorem endings_append :
    endings (trace ++ later) =
      endings trace ++ endings later :=
  List.filterMap_append

@[simp] theorem syncedBalances_append :
    syncedBalances (trace ++ later) =
      syncedBalances trace ++ syncedBalances later :=
  List.filterMap_append

private theorem filterMap_cons_toList
    {α : Type}
    (read : Event D → Option α)
    (event : Event D)
    (trace : List (Event D)) :
    (event :: trace).filterMap read =
      (read event).toList ++ trace.filterMap read := by
  rw [List.filterMap_cons]
  cases read event <;> rfl

@[simp] theorem enqueued_cons
    (event : Event D) :
    enqueued (event :: trace) =
      event.enqueued?.toList ++ enqueued trace :=
  filterMap_cons_toList Event.enqueued? event trace

@[simp] theorem processed_cons
    (event : Event D) :
    processed (event :: trace) =
      event.processing?.toList ++ processed trace :=
  filterMap_cons_toList Event.processing? event trace

@[simp] theorem applied_cons
    (event : Event D) :
    applied (event :: trace) =
      event.applied?.toList ++ applied trace :=
  filterMap_cons_toList Event.applied? event trace

@[simp] theorem answered_cons
    (event : Event D) :
    answered (event :: trace) =
      event.answered?.toList ++ answered trace :=
  filterMap_cons_toList Event.answered? event trace

@[simp] theorem multicasts_cons
    (event : Event D) :
    multicasts (event :: trace) =
      event.multicast?.toList ++ multicasts trace :=
  filterMap_cons_toList Event.multicast? event trace

@[simp] theorem endings_cons
    (event : Event D) :
    endings (event :: trace) =
      event.delivered?.toList ++ endings trace :=
  filterMap_cons_toList Event.delivered? event trace

@[simp] theorem syncedBalances_cons
    (event : Event D) :
    syncedBalances (event :: trace) =
      event.synced?.toList ++ syncedBalances trace :=
  filterMap_cons_toList Event.synced? event trace

@[simp] theorem enqueued_nil :
    enqueued ([] : List (Event D)) = [] :=
  rfl

@[simp] theorem processed_nil :
    processed ([] : List (Event D)) = [] :=
  rfl

@[simp] theorem applied_nil :
    applied ([] : List (Event D)) = [] :=
  rfl

@[simp] theorem answered_nil :
    answered ([] : List (Event D)) = [] :=
  rfl

@[simp] theorem multicasts_nil :
    multicasts ([] : List (Event D)) = [] :=
  rfl

@[simp] theorem endings_nil :
    endings ([] : List (Event D)) = [] :=
  rfl

@[simp] theorem syncedBalances_nil :
    syncedBalances ([] : List (Event D)) = [] :=
  rfl

/- The processed transactions are those of an iteration. -/
theorem mem_processed_iff
    {log : List (Event D)}
    {tx : Transaction} :
    tx ∈ processed log ↔ .processing tx ∈ log := by
  unfold processed
  rw [List.mem_filterMap]
  constructor
  · rintro ⟨event, hEvent, hRead⟩
    cases event with
    | processing t =>
        cases hRead
        exact hEvent
    | _ => cases hRead
  · exact fun hEvent => ⟨_, hEvent, rfl⟩

end ReplicatedAccount

------------------------------------------------------------
-- Quiet Events
------------------------------------------------------------

namespace ReplicatedAccount

namespace Event

/- Events that no projection of the log records. -/
@[simp] def isQuiet {D : Type} : Event D → Bool
| .enqueued _ => false
| .processing _ => false
| .applied _ => false
| .answered _ => false
| .multicast _ => false
| .delivered _ _ => false
| .println line => line.synced?.isNone
| _ => true

end Event

variable {D : Type}

/- A log of quiet events. -/
def Quiet (trace : List (Event D)) : Prop :=
  ∀ event ∈ trace, event.isQuiet

theorem Quiet.filterMap_eq_nil
    {α : Type}
    {trace : List (Event D)}
    (hQuiet : Quiet trace)
    (read : Event D → Option α)
    (hRead : ∀ event, event.isQuiet → read event = none) :
    trace.filterMap read = [] := by
  rw [List.filterMap_eq_nil_iff]
  intro event hEvent
  exact hRead event (hQuiet event hEvent)

/- No projection of the log sees a quiet log. -/
theorem Quiet.projections
    {trace : List (Event D)}
    (hQuiet : Quiet trace) :
    enqueued trace = [] ∧ processed trace = [] ∧
      applied trace = [] ∧ answered trace = [] ∧
        multicasts trace = [] ∧ endings trace = [] := by
  refine ⟨hQuiet.filterMap_eq_nil _ ?_,
    hQuiet.filterMap_eq_nil _ ?_,
    hQuiet.filterMap_eq_nil _ ?_,
    hQuiet.filterMap_eq_nil _ ?_,
    hQuiet.filterMap_eq_nil _ ?_,
    hQuiet.filterMap_eq_nil _ ?_⟩ <;>
  · intro event hEvent
    cases event <;> first | rfl | cases hEvent

end ReplicatedAccount
