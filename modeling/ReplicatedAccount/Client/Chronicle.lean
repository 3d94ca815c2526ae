import ReplicatedAccount.Client.Ledger
import ReplicatedAccount.Client.Bookkeeping

/-
  The log of a client as a sequence of complete iterations,
  with other events in between.

  Every iteration over a received transaction leaves the
  events of its disposition, at the balance of the history
  executed before it.  The projections of the log can
  therefore be read off the processed transactions.

  Key definitions include:
    * `iterationEvents`
    * `Chronicle`
    * `Client.Recorded`

  Key theorems include:
    * `Chronicle.applied_eq`
    * `Chronicle.at_processing`
    * `Replica.Bookkeeping.act_keeps_chronicle`
-/

------------------------------------------------------------
-- Iterations in the Log
------------------------------------------------------------

namespace ReplicatedAccount

open DoubleArithmetic

variable {D : Type}

/- The events that only iterations over a batch record. -/
def Event.ofIteration : Event D → Bool
| .processing _ => true
| .applied _ => true
| .answered _ => true
| .println line => line.synced?.isSome
| _ => false

theorem Event.ofIteration_of_isQuiet
    {event : Event D}
    (hQuiet : event.isQuiet) :
    event.ofIteration = false := by
  cases event <;>
    simp_all [Event.ofIteration]

variable [DoubleArithmetic D]

/- The events of an iteration at the given balance. -/
def iterationEvents
    (id : Int32)
    (balance : D)
    (tx : Transaction) :
    List (Event D) :=
  .processing tx ::
    match disposition (D := D) tx with
    | .execute _ => [.applied tx]
    | .answer issuer =>
        if issuer = id then
          [.println
            (.balance "Correct Synced Balance: " balance),
            .answered tx]
        else
          []
    | .skip => []
    | .abort _ => []

/-
  A log of iterations and other events, in which each
  iteration happens at the balance of the history before it.
-/
inductive Chronicle (id : Int32) : List (Event D) → Prop
  | nil : Chronicle id []
  | other
      (log : List (Event D))
      (event : Event D)
      (hLog : Chronicle id log)
      (hEvent : event.ofIteration = false) :
      Chronicle id (log ++ [event])
  | iteration
      (log : List (Event D))
      (tx : Transaction)
      (hLog : Chronicle id log) :
      Chronicle id
        (log ++
          iterationEvents id (replay zero (applied log)) tx)

namespace Chronicle

variable {id : Int32}
variable {log : List (Event D)}

theorem append_others
    (hLog : Chronicle id log)
    {events : List (Event D)}
    (hEvents : ∀ event ∈ events, event.ofIteration = false) :
    Chronicle id (log ++ events) := by
  induction events using List.reverseRecOn with
  | nil => simpa using hLog
  | append_singleton events event ih =>
      rw [← List.append_assoc]
      exact .other _ event
        (ih fun e hMember => hEvents e (by simp [hMember]))
        (hEvents event (by simp))

theorem append_quiet
    (hLog : Chronicle id log)
    {events : List (Event D)}
    (hQuiet : Quiet events) :
    Chronicle id (log ++ events) :=
  hLog.append_others fun event hMember =>
    Event.ofIteration_of_isQuiet (hQuiet event hMember)

end Chronicle

------------------------------------------------------------
-- Reading the Log
------------------------------------------------------------

/- An iteration leaves the events of its disposition. -/
theorem Client.events_effect
    (tx : Transaction)
    (c : Client D) :
    (Client.effect tx c).events =
      iterationEvents c.id c.balance tx := by
  unfold Client.effect Client.settle iterationEvents
    Client.withoutLocal
  cases disposition (D := D) tx with
  | answer issuer =>
      by_cases hOwn : issuer = c.id <;> simp [hOwn]
  | execute operation => rfl
  | skip => rfl
  | abort e => rfl

variable (id : Int32)
variable (balance : D)
variable (tx : Transaction)

/- What an iteration leaves in the log of transactions. -/
theorem logOf_iterationEvents :
    Client.LogOf id [tx] (iterationEvents id balance tx) := by
  have hLog :=
    Client.logOf_effect tx
      { (Client.new id "" false : Client D) with
        balance := balance }
  rw [Client.events_effect] at hLog
  exact hLog

theorem length_syncedBalances_iterationEvents :
    (syncedBalances (iterationEvents id balance tx)).length =
      ([tx].filter (requests D id)).length := by
  unfold iterationEvents requests
  cases hDisposition : disposition (D := D) tx with
  | answer issuer =>
      by_cases hOwn : issuer = id <;>
        simp [hOwn, hDisposition]
  | execute operation => simp [hDisposition]
  | skip => simp [hDisposition]
  | abort e => simp [hDisposition]

/-
  The first event of an iteration is the only one that
  begins an iteration.
-/
theorem iterationEvents_eq_cons :
    ∃ rest,
      iterationEvents id balance tx = .processing tx :: rest ∧
        ∀ other, .processing other ∉ rest := by
  refine ⟨_, rfl, ?_⟩
  intro other
  cases disposition (D := D) tx with
  | answer issuer => by_cases hOwn : issuer = id <;> simp [hOwn]
  | execute operation => simp
  | skip => simp
  | abort e => simp

/- The issuer of a request answers it at once. -/
theorem iterationEvents_of_requests
    (hRequest : requests D id tx) :
    iterationEvents id balance tx =
      [.processing tx,
        .println
          (.balance "Correct Synced Balance: " balance),
        .answered tx] := by
  have hDisposition := (requests_iff id tx).mp hRequest
  simp [iterationEvents, hDisposition]

namespace Chronicle

variable {id : Int32}
variable {log : List (Event D)}

/- The history is the executable part of the processed. -/
theorem applied_eq
    (hLog : Chronicle id log) :
    applied log = (processed log).filter (executable D) := by
  induction hLog with
  | nil => rfl
  | other log event hLog hEvent ih =>
      cases event <;> simp_all [Event.ofIteration]
  | iteration log tx hLog ih =>
      have hLast :=
        logOf_iterationEvents (D := D) id
          (replay zero (applied log)) tx
      rw [applied_append, processed_append, List.filter_append,
        ← ih, hLast.applied, hLast.processed]

/- The answers are the own requests of the processed. -/
theorem answered_eq
    (hLog : Chronicle id log) :
    answered log = (processed log).filter (requests D id) := by
  induction hLog with
  | nil => rfl
  | other log event hLog hEvent ih =>
      cases event <;> simp_all [Event.ofIteration]
  | iteration log tx hLog ih =>
      have hLast :=
        logOf_iterationEvents (D := D) id
          (replay zero (applied log)) tx
      rw [answered_append, processed_append,
        List.filter_append, ← ih, hLast.answered,
        hLast.processed]

/- Each answer is one printed balance. -/
theorem length_syncedBalances
    (hLog : Chronicle id log) :
    (syncedBalances log).length = (answered log).length := by
  induction hLog with
  | nil => rfl
  | other log event hLog hEvent ih =>
      cases event <;> simp_all [Event.ofIteration]
  | iteration log tx hLog ih =>
      have hLast :=
        logOf_iterationEvents (D := D) id
          (replay zero (applied log)) tx
      rw [syncedBalances_append, answered_append,
        List.length_append, List.length_append, ih,
        hLast.answered,
        length_syncedBalances_iterationEvents]

/-
  Cut the log where an iteration begins.  What comes before
  is a chronicle, and the iteration is complete.
-/
theorem at_processing
    (hLog : Chronicle id log)
    {before after : List (Event D)}
    {tx : Transaction}
    (hSplit : log = before ++ .processing tx :: after) :
    Chronicle id before ∧
      ∃ later,
        .processing tx :: after =
          iterationEvents id
            (replay zero (applied before)) tx ++ later := by
  induction hLog generalizing before after with
  | nil => simp at hSplit
  | other log event hLog hEvent ih =>
      rcases List.eq_nil_or_concat after with rfl | hConcat
      · have hLast := (List.append_inj' hSplit rfl).2
        cases hLast
        simp [Event.ofIteration] at hEvent
      · rcases hConcat with ⟨middle, last, rfl⟩
        have hJoined :
            log ++ [event] =
              (before ++ .processing tx :: middle) ++
                [last] := by
          simpa using hSplit
        rcases ih (List.append_inj' hJoined rfl).1 with
          ⟨hBefore, later, hLater⟩
        refine ⟨hBefore, later ++ [last], ?_⟩
        rw [← List.append_assoc, ← hLater,
          List.concat_eq_append, List.cons_append]
  | iteration log last hLog ih =>
      rcases iterationEvents_eq_cons (D := D) id
          (replay zero (applied log)) last with
        ⟨rest, hEvents, hRest⟩
      rcases List.append_eq_append_iff.mp hSplit with
        ⟨between, hBefore, hTail⟩ | ⟨between, hFront, hTail⟩
      · -- the cut is inside the last iteration
        cases between with
        | nil =>
            rw [List.append_nil] at hBefore
            subst hBefore
            have hSame := hTail
            rw [hEvents] at hSame
            cases hSame
            exact ⟨hLog, [], by simpa using hTail.symm⟩
        | cons event between =>
            rw [hEvents] at hTail
            simp only [List.cons_append,
              List.cons.injEq] at hTail
            exact absurd (by simp [hTail.2]) (hRest tx)
      · -- the cut is before the last iteration
        cases between with
        | nil =>
            rw [List.append_nil] at hFront
            subst hFront
            have hSame := hTail
            rw [hEvents] at hSame
            cases hSame
            exact ⟨hLog, [], by simpa using hTail⟩
        | cons event between =>
            simp only [List.cons_append,
              List.cons.injEq] at hTail
            rcases hTail with ⟨rfl, rfl⟩
            rcases ih hFront with ⟨hBefore, later, hLater⟩
            refine ⟨hBefore,
              later ++ iterationEvents id
                (replay zero (applied log)) last, ?_⟩
            rw [← List.append_assoc, ← hLater]
            rfl

end Chronicle

end ReplicatedAccount

------------------------------------------------------------
-- The Log of a Running Client
------------------------------------------------------------

namespace ReplicatedAccount

open Foundations Foundations.Method

variable {D : Type} [DoubleArithmetic D]

namespace Client

/- A client whose log is a chronicle of its own history. -/
structure Recorded
    (id : Int32)
    (c : Client D)
    (log : List (Event D)) : Prop where
  owner : c.id = id
  idsPresent : c.IdsPresent
  ledger : c.Ledger (applied log)
  chronicle : Chronicle id log

theorem processTransaction_keeps_recorded
    (id : Int32)
    (tx : Transaction)
    (hTx : tx.uniqueId ≠ none) :
    Keeps (Recorded id)
      (processTransaction tx : ClientMethod D Unit) := by
  intro c log hRecorded
  have hLedger :=
    processTransaction_keeps_ledger tx c log hRecorded.ledger
  rw [processTransaction_eq tx hRecorded.idsPresent]
    at hLedger ⊢
  constructor
  · rw [state_effect]
    exact hRecorded.owner
  · rw [state_effect]
    exact idsPresent_absorb hRecorded.idsPresent
      (by simpa using hTx)
  · exact hLedger
  · rw [Client.events_effect, hRecorded.owner, hRecorded.ledger.balance]
    exact .iteration log tx hRecorded.chronicle

theorem processReceivedTransactions_keeps_recorded
    (id : Int32)
    (batch : List Transaction)
    (hBatch : ∀ tx ∈ batch, tx.uniqueId ≠ none) :
    Keeps (Recorded id)
      (processReceivedTransactions batch :
        ClientMethod D Unit) := by
  apply Keeps.bind
  · exact Keeps.forEach batch
      (fun tx hMember =>
        processTransaction_keeps_recorded id tx
          (hBatch tx hMember))
  · intro _ c log hRecorded
    rcases notifyIfEmpty_quiet c with
      ⟨events, hRun, hQuiet⟩
    rw [hRun]
    refine ⟨hRecorded.owner, hRecorded.idsPresent, ?_,
      hRecorded.chronicle.append_quiet hQuiet⟩
    rw [applied_append, hQuiet.projections.2.2.1,
      List.append_nil]
    exact hRecorded.ledger

end Client

/- The log of a client stays a chronicle. -/
theorem Replica.Bookkeeping.act_keeps_chronicle
    {settings : Settings}
    {r : Replica D}
    (hBook : r.Bookkeeping settings)
    (hLedger : r.client.Ledger (applied r.trace))
    (hChronicle : Chronicle settings.id r.trace)
    (a : ReplicaAction)
    (hBatch :
      ∀ batch, a = .deliver batch →
        ∀ tx ∈ batch, tx.uniqueId ≠ none) :
    Chronicle settings.id (r.act a).trace := by
  cases r.act_effect a hBook.idsPresent hBatch with
  | enqueues command hClient hTrace hCommand =>
      rw [hTrace]
      exact .other _ _ hChronicle rfl
  | cleans hClient hTrace =>
      rw [hTrace]
      exact hChronicle
  | multicasts hClient hTrace hAction =>
      rw [hTrace]
      exact .other _ _ hChronicle rfl
  | quiet events hClient hTrace hQuiet hAction =>
      rw [hTrace]
      exact hChronicle.append_quiet hQuiet
  | absorbs batch events hAction hClient hTrace hLog =>
      subst hAction
      have hKept :=
        Client.processReceivedTransactions_keeps_recorded
          settings.id batch (hBatch batch rfl)
          r.client r.trace
          ⟨hBook.id, hBook.idsPresent, hLedger, hChronicle⟩
      simp only [Replica.act, Replica.call,
        Client.regularMessageReceived]
      rw [← List.append_assoc]
      exact .other _ _ hKept.chronicle rfl

end ReplicatedAccount
