import ReplicatedAccount.Client.ExactArithmetic
import ReplicatedAccount.Concurrent.Clients
import ReplicatedAccount.Network.Basic

/-
  When a thread that waits for an empty outstanding
  collection is forgotten.

  The only notification stands at the end of the processing
  of a message.  It is missed by every thread that waits when
  the processing removes the last outstanding transaction
  and then ends with an exception.

  Key definitions include:
    * `Process.Waiting`
    * `Process.NoneForgotten`
    * `Process.LeavesAttended`

  Key theorems include:
    * `Process.attended_change`
    * `noneForgotten_iff_leavesAttended`
    * `waiting_thread_forgotten`
-/

------------------------------------------------------------
-- Forgotten Threads
------------------------------------------------------------

namespace ReplicatedAccount

open Foundations

variable {D : Type} [DoubleArithmetic D]

namespace Process

/- A thread is in `wait` and has not been notified since. -/
def Waiting (p : Process D) : Prop :=
  ∃ reader ∈ p.readers, reader.phase = .blocked

/-
  While no message is processed, nobody waits for the empty
  outstanding collection when it is empty.
-/
def NoneForgotten (p : Process D) : Prop :=
  p.listener = .idle →
    p.replica.client.outstandingCollection = [] →
      ¬ p.Waiting

/-
  The listener does not throw at a removed transaction when
  nothing is outstanding and a thread waits.
-/
def LeavesAttended
    (p : Process D)
    (a : ProcessAction) : Prop :=
  ∀ batch tx todo,
    a = .listen →
      p.listener = .busy batch (.removed tx todo) →
        aborting D tx →
          p.replica.client.outstandingCollection = [] →
            ¬ p.Waiting

/- Waiting threads have the collection or the listener. -/
def WaitersAttended (p : Process D) : Prop :=
  Attended (p.replica.client.outstandingCollection ≠ [])
    (p.listener ≠ .idle) p.readers

omit [DoubleArithmetic D] in
theorem WaitersAttended.noneForgotten
    {p : Process D}
    (hAttended : p.WaitersAttended) :
    p.NoneForgotten := by
  intro hIdle hEmpty hWaiting
  rcases hAttended hWaiting with hOutstanding | hBusy
  · exact hOutstanding hEmpty
  · exact hBusy hIdle

variable {settings : Settings}
variable {p p' : Process D}
variable {a : ProcessAction}

/-
  Whoever starts to wait has found an outstanding
  transaction.  The collection becomes empty by a removal,
  during which the listener is busy, and the listener ends
  with a notification unless it throws.
-/
theorem attended_change
    (hSound : p.Sound settings)
    (hAttended : p.WaitersAttended)
    (hLeaves : p.LeavesAttended a)
    (hChange : Change p a p') :
    p'.WaitersAttended := by
  unfold WaitersAttended at hAttended ⊢
  cases hChange with
  | acts b started hAction hLocal hReplica hListener hReaders
      hStarted =>
      have hEffect := p.replica.act_localEffect b hLocal
      rcases hEffect.queue with ⟨fresh, hQueue, _⟩
      rw [hReaders, hReplica, hListener, hQueue]
      exact (hAttended.mono (fun hNonempty => by
        simp [hNonempty]) id).append_start started
  | receives batch hAction hIdle hReplica hListener hReaders =>
      exact .of_attending (by simp [hListener])
  | removes batch tx todo hAction hBefore hClient hTrace
      hListener hReaders =>
      exact .of_attending (by simp [hListener])
  | executes batch tx todo operation hAction hBefore
      hDisposition hClient hTrace hListener hReaders =>
      exact .of_attending (by simp [hListener])
  | passes batch tx todo events hAction hBefore hNotExecutable
      hNotAborting hClient hTrace hEnqueued hApplied
      hMulticasts hListener hReaders =>
      exact .of_attending (by simp [hListener])
  | aborts batch tx todo e hAction hBefore hDisposition hClient
      hTrace hListener hReaders =>
      -- here nobody is notified
      rw [hReaders, hClient]
      intro hWaiting
      apply Or.inl
      intro hEmpty
      exact hLeaves batch tx todo hAction hBefore
        (by simp [aborting, hDisposition]) hEmpty hWaiting
  | records batch tx todo hAction hBefore hClient hTrace
      hListener hReaders =>
      exact .of_attending (by simp [hListener])
  | returns batch events hAction hBefore hClient hTrace hQuiet
      hListener hReaders =>
      rw [hReaders, hClient]
      by_cases hEmpty :
          p.replica.client.outstandingCollection = []
      · by_cases hNaive :
            p.replica.client.naiveSyncBalance = true
        · rw [if_pos ⟨hEmpty, hNaive⟩]
          exact .notifyAll p.readers
        · have hNoReaders : p.readers = [] := by
            by_contra hReader
            exact hNaive
              (hSound.books.naive.trans (hSound.naive hReader))
          rw [if_neg (fun hBoth => hNaive hBoth.2), hNoReaders]
          exact .nil
      · exact .of_closed hEmpty
  | reads k reader events hAction hGet hReady hClient hTrace
      hQuiet hListener hReaders =>
      rw [hReaders, hListener, hClient]
      apply hAttended.enter
      intro hOutcome hEmpty
      simp [naiveOutcome, hEmpty] at hOutcome
  | wakes k hAction hReplica hListener hReaders =>
      rw [hReaders, hListener, hReplica]
      exact hAttended.wake k

/- A thread that is left waiting is forgotten. -/
theorem leavesAttended_of_noneForgotten
    (hChange : Change p a p')
    (hNone : p'.NoneForgotten) :
    p.LeavesAttended a := by
  intro batch tx todo hListen hRemoved hAborting hEmpty hWaiting
  cases hChange with
  | aborts _ t _ e hAction hBefore hDisposition hClient hTrace
      hListener hReaders =>
      refine hNone hListener (hClient ▸ hEmpty) ?_
      unfold Waiting
      rw [hReaders]
      exact hWaiting
  | executes _ t _ operation hAction hBefore hDisposition =>
      rw [hRemoved] at hBefore
      cases hBefore
      simp [aborting, hDisposition] at hAborting
  | passes _ t _ events hAction hBefore hNotExecutable
      hNotAborting =>
      rw [hRemoved] at hBefore
      cases hBefore
      simp [hNotAborting] at hAborting
  | _ => simp_all

end Process

end ReplicatedAccount

------------------------------------------------------------
-- Runs of Several Clients
------------------------------------------------------------

namespace ReplicatedAccount

open Foundations

variable {ι D : Type} [DecidableEq ι] [DoubleArithmetic D]

/-
  In a run of any number of clients no waiting thread is ever
  forgotten, in whatever state the run is stopped, exactly
  when the listener never throws at a removed transaction
  while nothing is outstanding and a thread waits.
-/
theorem noneForgotten_iff_leavesAttended
    (settings : ι → Settings)
    (actions : List (ConcurrentAction ι))
    (σ : Clients ι D)
    (hRun :
      (concurrentSystem D settings).run actions = some σ) :
    (concurrentSystem D settings).EveryState
        (fun σ => ∀ i, (σ i).NoneForgotten) actions ↔
      (concurrentSystem D settings).EveryStep
        (Clients.Each Process.LeavesAttended) actions := by
  have hAny :
      (concurrentSystem D settings).EveryStep
        (Clients.Each fun _ _ => True) actions :=
    fun _ _ _ _ _ _ _ _ _ => trivial
  apply clients_always_iff (fun _ => Attended.nil) ?_
    (fun _ hAttended =>
      Process.WaitersAttended.noneForgotten hAttended)
    (fun _ _ _ hChange hNone =>
      Process.leavesAttended_of_noneForgotten hChange hNone)
    hRun hAny
  intro i p b p' hSound hAttended _ hLeaves hChange
  exact Process.attended_change hSound hAttended hLeaves
    hChange

/- Two clients that use the naive synchronised balance. -/
def naiveClients (i : Bool) : Settings :=
  { twoClients i with naiveSyncBalance := true }

theorem naiveClients_injective :
    Function.Injective fun i => (naiveClients i).id :=
  twoClients_injective

/-
  A thread waits for a deposit of its client, is notified
  after the deposit has been received, and prints.
-/
def notifiedRun : List (ConcurrentAction Bool) :=
  [.command true "deposit 5",
    .command true "getSynchedBalance", .read true 0,
    .tick true true, .deliver true true 0, .listen true,
    .listen true, .listen true, .listen true, .read true 0]

theorem noneForgotten_iff_leavesAttended_notifiedRun :
    ∃ σ : Clients Bool Decimal,
      (concurrentSystem Decimal naiveClients).run
          notifiedRun = some σ ∧
        ((concurrentSystem Decimal naiveClients).EveryState
            (fun σ => ∀ i, (σ i).NoneForgotten) notifiedRun ↔
          (concurrentSystem Decimal naiveClients).EveryStep
            (Clients.Each Process.LeavesAttended)
            notifiedRun) := by
  have hRuns :
      ((concurrentSystem Decimal naiveClients).run
        notifiedRun).isSome := by
    decide +kernel
  rcases Option.isSome_iff_exists.mp hRuns with ⟨σ, hRun⟩
  exact ⟨σ, hRun,
    noneForgotten_iff_leavesAttended naiveClients _ σ hRun⟩

/-
  The only outstanding transaction is removed and cannot be
  executed; the thread that waits is left waiting although
  nothing is outstanding.
-/
theorem waiting_thread_forgotten :
    ∃ σ : Clients Bool Decimal,
      (concurrentSystem Decimal naiveClients).run
          [.command true "deposit abc",
            .command true "getSynchedBalance", .read true 0,
            .tick true true, .deliver true true 0,
            .listen true, .listen true] = some σ ∧
        ¬ (σ true).NoneForgotten := by
  have hRuns :
      ((concurrentSystem Decimal naiveClients).run
        [.command true "deposit abc",
          .command true "getSynchedBalance", .read true 0,
          .tick true true, .deliver true true 0,
          .listen true, .listen true]).any
        (fun σ =>
          decide ((σ true).listener = .idle) &&
            decide
              ((σ true).replica.client.outstandingCollection =
                []) &&
            decide
              (∃ reader ∈ (σ true).readers,
                reader.phase = .blocked)) := by
    decide +kernel
  rcases (Option.any_eq_true _ _).mp hRuns with
    ⟨σ, hRun, hForgotten⟩
  refine ⟨σ, hRun, ?_⟩
  simp only [Bool.and_eq_true, decide_eq_true_eq] at hForgotten
  exact fun hNone =>
    hNone hForgotten.1.1 hForgotten.1.2 hForgotten.2

end ReplicatedAccount
