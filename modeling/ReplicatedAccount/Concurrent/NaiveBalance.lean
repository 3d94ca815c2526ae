import ReplicatedAccount.Concurrent.Origins
import ReplicatedAccount.Concurrent.Wakeups

/-
  What the naive synchronised balance contains.

  A reading thread takes the empty outstanding collection as
  a proof that all earlier transactions of its client have
  been applied.  The listener empties the collection first
  and applies the transaction afterwards.

  Key definitions include:
    * `Reader.Complete`
    * `Process.Accounted`
    * `Process.Timely`

  Key theorems include:
    * `Process.accounted_change`
    * `readersComplete_iff_timely`
    * `naive_balance_incomplete`
-/

------------------------------------------------------------
-- Complete Balances
------------------------------------------------------------

namespace ReplicatedAccount

open Foundations

variable {D : Type} [DoubleArithmetic D]

/-
  A balance that was printed is the replay of what had been
  executed by then, and this contains every well-formed
  transaction that the client had enqueued before the
  command.
-/
def Reader.Complete (reader : Reader D) : Prop :=
  ∀ value history,
    reader.phase = .finished (value, history) →
      value = replay DoubleArithmetic.zero history ∧
        ∀ tx ∈ reader.label, tx.WellFormed D → tx ∈ history

namespace Process

/-
  An enqueued transaction that can be executed is
  outstanding, or it has been applied, or the listener has
  removed it and is going to apply it.
-/
def Accounted (p : Process D) : Prop :=
  ∀ tx ∈ enqueued p.replica.trace,
    executable D tx →
      tx ∈ p.replica.client.outstandingCollection ∨
        tx ∈ applied p.replica.trace ∨
          p.listener.unapplied = some tx

/-
  No thread reads the balance between the removal of the last
  outstanding transaction and its execution, when this is one
  of the transactions the balance has to contain.
-/
def Timely
    (p : Process D)
    (a : ProcessAction) : Prop :=
  ∀ k reader tx,
    a = .read k →
      p.readers[k]? = some reader →
        p.replica.client.outstandingCollection = [] →
          p.listener.unapplied = some tx →
            tx ∈ reader.label → executable D tx →
              tx ∈ applied p.replica.trace

variable {settings : Settings}
variable {p p' : Process D}
variable {a : ProcessAction}

/- The queue stays, and what was removed is not forgotten. -/
theorem Accounted.of_same_queue
    (hAccounted : p.Accounted)
    (hEnqueued :
      enqueued p'.replica.trace = enqueued p.replica.trace)
    (hQueue :
      p'.replica.client.outstandingCollection =
        p.replica.client.outstandingCollection)
    (hApplied :
      applied p.replica.trace ⊆ applied p'.replica.trace)
    (hUnapplied :
      ∀ tx, p.listener.unapplied = some tx → executable D tx →
        tx ∈ applied p'.replica.trace ∨
          p'.listener.unapplied = some tx) :
    p'.Accounted := by
  intro tx hTx hExecutable
  rw [hEnqueued] at hTx
  rw [hQueue]
  rcases hAccounted tx hTx hExecutable with
    hLocal | hOld | hRemoved
  · exact Or.inl hLocal
  · exact Or.inr (Or.inl (hApplied hOld))
  · exact Or.inr (hUnapplied tx hRemoved hExecutable)

/- Nothing that is enqueued gets lost before it is applied. -/
theorem accounted_change
    (hAccounted : p.Accounted)
    (hOwn : p.RemovesOwn a)
    (hChange : Change p a p') :
    p'.Accounted := by
  have hGrows :
      applied p.replica.trace ⊆ applied p'.replica.trace :=
    (hChange.trace_isPrefix.filterMap _).subset
  cases hChange with
  | acts b started hAction hLocal hReplica hListener hReaders
      hStarted =>
      have hEffect := p.replica.act_localEffect b hLocal
      rcases hEffect.queue with ⟨fresh, hQueue, hFresh⟩
      intro t hEnqueued hExecutable
      rw [hReplica, hFresh] at hEnqueued
      rw [hReplica, hListener, hQueue, hEffect.applied]
      rcases List.mem_append.mp hEnqueued with hOld | hNew
      · exact (hAccounted t hOld hExecutable).imp_left
          (List.mem_append_left _)
      · exact Or.inl (List.mem_append_right _ hNew)
  | receives batch hAction hIdle hReplica hListener hReaders =>
      refine hAccounted.of_same_queue (by rw [hReplica])
        (by rw [hReplica]) hGrows ?_
      simp [hIdle]
  | removes batch tx todo hAction hBefore hClient hTrace
      hListener hReaders =>
      intro t hEnqueued hExecutable
      have hOld : t ∈ enqueued p.replica.trace := by
        simpa [hTrace] using hEnqueued
      rcases hAccounted t hOld hExecutable with
        hLocal | hApplied | hUnapplied
      · by_cases hSame : t.uniqueId = tx.uniqueId
        · -- the listener holds it now
          have hTaken :=
            hOwn batch tx todo hAction hBefore t hLocal hSame
          exact Or.inr (Or.inr (by simp [hListener, hTaken]))
        · exact Or.inl (by
            simp [hClient, Client.withoutLocal, hLocal, hSame])
      · exact Or.inr (Or.inl (hGrows hApplied))
      · simp [hBefore] at hUnapplied
  | executes batch tx todo operation hAction hBefore
      hDisposition hClient hTrace hListener hReaders =>
      refine hAccounted.of_same_queue (by simp [hTrace])
        (by rw [hClient]; rfl) hGrows ?_
      intro t hUnapplied _
      have hSame : tx = t := by simpa [hBefore] using hUnapplied
      exact Or.inl (by simp [hTrace, hSame])
  | passes batch tx todo events hAction hBefore hNotExecutable
      hNotAborting hClient hTrace hEnqueued hApplied
      hMulticasts hListener hReaders =>
      refine hAccounted.of_same_queue
        (by simp [hTrace, hEnqueued]) (by rw [hClient]) hGrows ?_
      intro t hUnapplied hExecutable
      have hSame : tx = t := by simpa [hBefore] using hUnapplied
      simp [← hSame, hNotExecutable] at hExecutable
  | aborts batch tx todo e hAction hBefore hDisposition hClient
      hTrace hListener hReaders =>
      refine hAccounted.of_same_queue (by simp [hTrace])
        (by rw [hClient]) hGrows ?_
      intro t hUnapplied hExecutable
      have hSame : tx = t := by simpa [hBefore] using hUnapplied
      simp [executable, ← hSame, hDisposition] at hExecutable
  | records batch tx todo hAction hBefore hClient hTrace
      hListener hReaders =>
      refine hAccounted.of_same_queue (by rw [hTrace])
        (by rw [hClient]; rfl) hGrows ?_
      simp [hBefore]
  | returns batch events hAction hBefore hClient hTrace hQuiet
      hListener hReaders =>
      refine hAccounted.of_same_queue
        (by simp [hTrace, hQuiet.projections.1])
        (by rw [hClient]) hGrows ?_
      simp [hBefore]
  | reads k reader events hAction hGet hReady hClient hTrace
      hQuiet hListener hReaders =>
      refine hAccounted.of_same_queue
        (by simp [hTrace, hQuiet.projections.1])
        (by rw [hClient]) hGrows ?_
      intro t hUnapplied _
      exact Or.inr (hListener ▸ hUnapplied)
  | wakes k hAction hReplica hListener hReaders =>
      refine hAccounted.of_same_queue (by rw [hReplica])
        (by rw [hReplica]) hGrows ?_
      intro t hUnapplied _
      exact Or.inr (hListener ▸ hUnapplied)

/- A thread that prints in time prints a complete balance. -/
theorem complete_of_finishesIn
    (hSound : p.Sound settings)
    (hAccounted : p.Accounted)
    (hTimely : p.Timely a)
    {old reader : Reader D}
    {value : D}
    {history : List Transaction}
    (hOld : old ∈ p.readers)
    (hLabel : old.label = reader.label)
    (hFinishes : p.FinishesIn a old (value, history)) :
    value = replay DoubleArithmetic.zero history ∧
      ∀ tx ∈ reader.label, tx.WellFormed D → tx ∈ history := by
  rcases hFinishes with ⟨k, hAction, hGet, hOutcome⟩
  unfold naiveOutcome at hOutcome
  split_ifs at hOutcome with hEmpty
  cases hOutcome
  refine ⟨hSound.balance, ?_⟩
  intro tx hMember hWellFormed
  rw [← hLabel] at hMember
  have hExecutable := tx.wellFormed_iff_executable.mp hWellFormed
  rcases hAccounted tx (hSound.labels old hOld hMember)
      hExecutable with
    hLocal | hApplied | hUnapplied
  · simp [hEmpty] at hLocal
  · exact hApplied
  · exact hTimely k old tx hAction hGet hEmpty hUnapplied hMember
      hExecutable

/- All printed balances stay complete, and new ones are. -/
theorem complete_change
    (hSound : p.Sound settings)
    (hAccounted : p.Accounted)
    (hComplete : ∀ reader ∈ p.readers, reader.Complete)
    (hTimely : p.Timely a)
    (hChange : Change p a p') :
    ∀ reader ∈ p'.readers, reader.Complete := by
  intro reader hReader value history hFinished
  rcases hChange.reader_cases hReader with
    ⟨old, hOld, hLabel, hResult⟩ | ⟨rfl, _⟩
  · rcases hResult _ hFinished with hBefore | hNow
    · rw [← hLabel]
      exact hComplete old hOld value history hBefore
    · exact complete_of_finishesIn hSound hAccounted hTimely hOld
        hLabel hNow
  · cases hFinished

/- A thread that prints too early is incomplete. -/
theorem timely_of_complete
    (hChange : Change p a p')
    (hComplete : ∀ reader ∈ p'.readers, reader.Complete) :
    p.Timely a := by
  rintro k reader tx rfl hGet hEmpty _ hMember hExecutable
  cases hChange with
  | acts b started hAction =>
      exact absurd rfl (hAction.2 k)
  | reads j r events hAction hReader hReady hClient hTrace
      hQuiet hListener hReaders =>
      cases hAction
      cases Option.some.inj (hGet.symm.trans hReader)
      have hAfter :
          p'.readers[k]? =
            some ⟨reader.label,
              .finished
                (p.replica.client.balance,
                  applied p.replica.trace)⟩ := by
        rw [hReaders, List.getElem?_modify_eq, hGet]
        simp [Waiter.enter, hReady, naiveOutcome, hEmpty]
      exact (hComplete _ (List.mem_of_getElem? hAfter) _ _
        rfl).2 tx hMember
          (tx.wellFormed_iff_executable.mpr hExecutable)
  | _ => contradiction

end Process

end ReplicatedAccount

------------------------------------------------------------
-- Runs of Several Clients
------------------------------------------------------------

namespace ReplicatedAccount

open Foundations

variable {ι D : Type} [DecidableEq ι] [DoubleArithmetic D]

/-
  In a run of any number of clients in which a removal never
  takes another transaction with the same id, every naive
  balance that is printed is complete exactly when no thread
  reads it between the removal and the execution of a
  transaction it has to contain.
-/
theorem readersComplete_iff_timely
    (settings : ι → Settings)
    (actions : List (ConcurrentAction ι))
    (σ : Clients ι D)
    (hRun :
      (concurrentSystem D settings).run actions = some σ)
    (hOwn :
      (concurrentSystem D settings).EveryStep
        (Clients.Each Process.RemovesOwn) actions) :
    (concurrentSystem D settings).EveryState
        (fun σ => ∀ i, ∀ reader ∈ (σ i).readers,
          reader.Complete) actions ↔
      (concurrentSystem D settings).EveryStep
        (Clients.Each Process.Timely) actions := by
  apply clients_always_iff
    (I := fun p =>
      p.Accounted ∧ ∀ reader ∈ p.readers, reader.Complete)
    ?_ ?_ (fun _ hInv => hInv.2)
    (fun _ _ _ hChange hComplete =>
      Process.timely_of_complete hChange hComplete)
    hRun hOwn
  · intro i
    refine ⟨?_, ?_⟩
    · simp [Process.Accounted, concurrentSystem, processSystem]
    · simp [concurrentSystem, processSystem]
  · rintro i p b p' hSound ⟨hAccounted, hComplete⟩ hRemoves
      hTimely hChange
    exact ⟨Process.accounted_change hAccounted hRemoves hChange,
      Process.complete_change hSound hAccounted hComplete
        hTimely hChange⟩

/- The balance is printed after the whole delivery. -/
theorem readersComplete_iff_timely_notifiedRun :
    ∃ σ : Clients Bool Decimal,
      (concurrentSystem Decimal naiveClients).run
          notifiedRun = some σ ∧
        ((concurrentSystem Decimal naiveClients).EveryState
            (fun σ => ∀ i, ∀ reader ∈ (σ i).readers,
              reader.Complete) notifiedRun ↔
          (concurrentSystem Decimal naiveClients).EveryStep
            (Clients.Each Process.Timely) notifiedRun) := by
  have hRuns :
      ((concurrentSystem Decimal naiveClients).run
        notifiedRun).any
        (fun σ => ∀ i,
          (enqueued (σ i).replica.trace).length ≤ 2 ^ 32) := by
    decide +kernel
  rcases (Option.any_eq_true _ _).mp hRuns with
    ⟨σ, hRun, hCounters⟩
  have hOwn :=
    removesOwn_of_run naiveClients_injective hRun
      (of_decide_eq_true hCounters)
  exact ⟨σ, hRun,
    readersComplete_iff_timely naiveClients _ σ hRun hOwn⟩

/-
  The only outstanding deposit is removed, a new thread finds
  nothing outstanding, and it prints a balance without the
  deposit.
-/
theorem naive_balance_incomplete :
    ∃ σ : Clients Bool Decimal,
      (concurrentSystem Decimal naiveClients).run
          [.command true "deposit 100",
            .command true "getSynchedBalance", .tick true true,
            .deliver true true 0, .listen true,
            .read true 0] = some σ ∧
        ∃ reader ∈ (σ true).readers, ¬ reader.Complete := by
  have hRuns :
      ((concurrentSystem Decimal naiveClients).run
        [.command true "deposit 100",
          .command true "getSynchedBalance", .tick true true,
          .deliver true true 0, .listen true,
          .read true 0]).any
        (fun σ =>
          decide
            ((σ true).readers =
              [⟨[⟨some "deposit 100", some "3 0"⟩],
                .finished (0, [])⟩])) := by
    decide +kernel
  rcases (Option.any_eq_true _ _).mp hRuns with
    ⟨σ, hRun, hReaders⟩
  have hWellFormed :
      Transaction.WellFormed Decimal
        ⟨some "deposit 100", some "3 0"⟩ := by
    decide +kernel
  refine ⟨σ, hRun,
    ⟨[⟨some "deposit 100", some "3 0"⟩], .finished (0, [])⟩,
    ?_, ?_⟩
  · rw [of_decide_eq_true hReaders]
    exact List.mem_singleton_self _
  · intro hComplete
    have hMember :=
      (hComplete 0 [] rfl).2 _ (List.mem_singleton_self _)
        hWellFormed
    cases hMember

end ReplicatedAccount
