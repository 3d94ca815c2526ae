import Mathlib.Logic.Function.Basic
import ReplicatedAccount.Concurrent.Change

/-
  Any number of clients with all their threads, and what
  holds of each of them in every reachable state.

  Key definitions include:
    * `Process.Sound`
    * `ConcurrentAction`
    * `concurrentSystem`

  Key theorems include:
    * `Process.Sound.change`
    * `sound_of_concurrent_run`
    * `clients_always_iff`
-/

------------------------------------------------------------
-- Sound Processes
------------------------------------------------------------

namespace ReplicatedAccount

open Foundations

variable {D : Type} [DoubleArithmetic D]

namespace Process

/-
  A client keeps its books, its balance belongs to its
  history, and its reading threads were started by a naive
  client, after what they are labelled with.
-/
structure Sound
    (settings : Settings)
    (p : Process D) : Prop where
  books : p.replica.Bookkeeping settings
  pending : ∀ tx ∈ p.listener.pending, tx.uniqueId ≠ none
  balance :
    p.replica.client.balance =
      replay DoubleArithmetic.zero (applied p.replica.trace)
  naive : p.readers ≠ [] → settings.naiveSyncBalance = true
  labels :
    ∀ reader ∈ p.readers,
      reader.label ⊆ enqueued p.replica.trace

variable {settings : Settings}
variable {p p' : Process D}
variable {a : ProcessAction}

/- The listener and the readers enqueue and send nothing. -/
theorem Sound.books_change
    (hSound : p.Sound settings)
    (hChange : Change p a p') :
    p'.replica.Bookkeeping settings := by
  have hBooks := hSound.books
  cases hChange with
  | acts b started hAction hLocal hReplica hListener hReaders
      hStarted =>
      rw [hReplica]
      exact hBooks.act b
        (fun batch hDeliver => absurd hDeliver (hLocal batch))
  | receives batch hAction hIdle hReplica hListener hReaders =>
      rw [hReplica]
      exact hBooks
  | removes batch tx todo hAction hBefore hClient hTrace
      hListener hReaders =>
      exact hBooks.of_no_enqueue hClient ⟨rfl, rfl, rfl⟩
        (List.filter_subset_self _) hBooks.executedIds hTrace
        rfl (by simp)
  | executes batch tx todo operation hAction hBefore
      hDisposition hClient hTrace hListener hReaders =>
      exact hBooks.of_no_enqueue hClient ⟨rfl, rfl, rfl⟩
        (List.Subset.refl _) hBooks.executedIds hTrace rfl
        (by simp)
  | passes batch tx todo events hAction hBefore hNotExecutable
      hNotAborting hClient hTrace hEnqueued hApplied
      hMulticasts hListener hReaders =>
      exact hBooks.of_log hClient hTrace hEnqueued hMulticasts
  | aborts batch tx todo e hAction hBefore hDisposition hClient
      hTrace hListener hReaders =>
      exact hBooks.of_log hClient hTrace rfl rfl
  | records batch tx todo hAction hBefore hClient hTrace
      hListener hReaders =>
      refine hBooks.of_no_enqueue hClient ⟨rfl, rfl, rfl⟩
        (List.Subset.refl _) ?_
        (hTrace.trans (List.append_nil _).symm) rfl (by simp)
      intro t hMember
      rcases List.mem_append.mp hMember with hOld | hNew
      · exact hBooks.executedIds t hOld
      · rw [List.mem_singleton.mp hNew]
        exact hSound.pending tx (by simp [hBefore])
  | returns batch events hAction hBefore hClient hTrace hQuiet
      hListener hReaders =>
      refine hBooks.of_log hClient hTrace ?_ ?_
      · simp [hQuiet.projections.1]
      · simp [hQuiet.projections.2.2.2.2.1]
  | reads k reader events hAction hReader hReady hClient hTrace
      hQuiet hListener hReaders =>
      exact hBooks.of_log hClient hTrace hQuiet.projections.1
        hQuiet.projections.2.2.2.2.1
  | wakes k hAction hReplica hListener hReaders =>
      rw [hReplica]
      exact hBooks

/- What the listener still has to do was delivered to it. -/
theorem Change.pending_subset
    (hChange : Change p a p') :
    p'.listener.pending ⊆ p.listener.pending ∨
      ∃ batch, a = .receive batch ∧
        p'.listener.pending = batch := by
  cases hChange with
  | acts b started hAction hLocal hReplica hListener hReaders
      hStarted =>
      exact Or.inl (by simp [hListener])
  | receives batch hAction hIdle hReplica hListener hReaders =>
      exact Or.inr ⟨batch, hAction, by simp [hListener]⟩
  | removes batch tx todo hAction hBefore hClient hTrace
      hListener hReaders =>
      exact Or.inl (by simp [hListener, hBefore])
  | executes batch tx todo operation hAction hBefore
      hDisposition hClient hTrace hListener hReaders =>
      exact Or.inl (by simp [hListener, hBefore])
  | passes batch tx todo events hAction hBefore hNotExecutable
      hNotAborting hClient hTrace hEnqueued hApplied
      hMulticasts hListener hReaders =>
      exact Or.inl (by simp [hListener, hBefore])
  | aborts batch tx todo e hAction hBefore hDisposition hClient
      hTrace hListener hReaders =>
      exact Or.inl (by simp [hListener])
  | records batch tx todo hAction hBefore hClient hTrace
      hListener hReaders =>
      exact Or.inl (by simp [hListener, hBefore])
  | returns batch events hAction hBefore hClient hTrace hQuiet
      hListener hReaders =>
      exact Or.inl (by simp [hListener])
  | reads k reader events hAction hReader hReady hClient hTrace
      hQuiet hListener hReaders =>
      exact Or.inl (by simp [hListener])
  | wakes k hAction hReplica hListener hReaders =>
      exact Or.inl (by simp [hListener])

/- The balance changes exactly with the history. -/
theorem Sound.balance_change
    (hSound : p.Sound settings)
    (hChange : Change p a p') :
    p'.replica.client.balance =
      replay DoubleArithmetic.zero
        (applied p'.replica.trace) := by
  have hBalance := hSound.balance
  cases hChange with
  | acts b started hAction hLocal hReplica hListener hReaders
      hStarted =>
      have hEffect := p.replica.act_localEffect b hLocal
      rw [hReplica, hEffect.balance, hEffect.applied, hBalance]
  | receives batch hAction hIdle hReplica hListener hReaders =>
      rw [hReplica, hBalance]
  | removes batch tx todo hAction hBefore hClient hTrace
      hListener hReaders =>
      simpa [hClient, hTrace, Client.withoutLocal]
        using hBalance
  | executes batch tx todo operation hAction hBefore
      hDisposition hClient hTrace hListener hReaders =>
      simp [hClient, hTrace, Client.credited, hBalance,
        applyTransaction, hDisposition]
  | passes batch tx todo events hAction hBefore hNotExecutable
      hNotAborting hClient hTrace hEnqueued hApplied
      hMulticasts hListener hReaders =>
      simpa [hClient, hTrace, hApplied] using hBalance
  | aborts batch tx todo e hAction hBefore hDisposition hClient
      hTrace hListener hReaders =>
      simpa [hClient, hTrace] using hBalance
  | records batch tx todo hAction hBefore hClient hTrace
      hListener hReaders =>
      simpa [hClient, hTrace, Client.recorded] using hBalance
  | returns batch events hAction hBefore hClient hTrace hQuiet
      hListener hReaders =>
      simpa [hClient, hTrace, hQuiet.projections.2.2.1]
        using hBalance
  | reads k reader events hAction hReader hReady hClient hTrace
      hQuiet hListener hReaders =>
      simpa [hClient, hTrace, hQuiet.projections.2.2.1]
        using hBalance
  | wakes k hAction hReplica hListener hReaders =>
      rw [hReplica, hBalance]

theorem Change.trace_isPrefix
    (hChange : Change p a p') :
    p.replica.trace <+: p'.replica.trace := by
  cases hChange with
  | acts b started hAction hLocal hReplica hListener hReaders
      hStarted =>
      rw [hReplica]
      exact List.prefix_append _ _
  | receives batch hAction hIdle hReplica hListener hReaders =>
      exact hReplica ▸ List.prefix_rfl
  | removes batch tx todo hAction hBefore hClient hTrace
      hListener hReaders =>
      exact hTrace ▸ List.prefix_append _ _
  | executes batch tx todo operation hAction hBefore
      hDisposition hClient hTrace hListener hReaders =>
      exact hTrace ▸ List.prefix_append _ _
  | passes batch tx todo events hAction hBefore hNotExecutable
      hNotAborting hClient hTrace hEnqueued hApplied
      hMulticasts hListener hReaders =>
      exact hTrace ▸ List.prefix_append _ _
  | aborts batch tx todo e hAction hBefore hDisposition hClient
      hTrace hListener hReaders =>
      exact hTrace ▸ List.prefix_append _ _
  | records batch tx todo hAction hBefore hClient hTrace
      hListener hReaders =>
      exact hTrace ▸ List.prefix_rfl
  | returns batch events hAction hBefore hClient hTrace hQuiet
      hListener hReaders =>
      exact hTrace ▸ List.prefix_append _ _
  | reads k reader events hAction hReader hReady hClient hTrace
      hQuiet hListener hReaders =>
      exact hTrace ▸ List.prefix_append _ _
  | wakes k hAction hReplica hListener hReaders =>
      exact hReplica ▸ List.prefix_rfl

/- Whether a thread got its result in this step. -/
def FinishesIn
    (p : Process D)
    (a : ProcessAction)
    (old : Reader D)
    (result : D × List Transaction) : Prop :=
  ∃ k, a = .read k ∧ p.readers[k]? = some old ∧
    p.naiveOutcome = some result

/- A thread is new, or keeps its label and its result. -/
theorem Change.reader_cases
    (hChange : Change p a p')
    {reader : Reader D}
    (hReader : reader ∈ p'.readers) :
    (∃ old ∈ p.readers,
      old.label = reader.label ∧
        ∀ result, reader.phase = .finished result →
          old.phase = .finished result ∨
            p.FinishesIn a old result) ∨
      (reader = Waiter.start (enqueued p.replica.trace) ∧
        p.replica.client.naiveSyncBalance = true) := by
  have hKept :
      p'.readers = p.readers →
        ∃ old ∈ p.readers,
          old.label = reader.label ∧
            ∀ result, reader.phase = .finished result →
              old.phase = .finished result ∨
                p.FinishesIn a old result := by
    intro hSame
    exact ⟨reader, hSame ▸ hReader, rfl,
      fun _ hFinished => Or.inl hFinished⟩
  cases hChange with
  | acts b started hAction hLocal hReplica hListener hReaders
      hStarted =>
      rw [hReaders] at hReader
      rcases List.mem_append.mp hReader with hOld | hNew
      · exact Or.inl ⟨reader, hOld, rfl,
          fun _ hFinished => Or.inl hFinished⟩
      · rcases List.mem_map.mp hNew with
          ⟨label, hLabel, rfl⟩
        rcases hStarted label hLabel with ⟨rfl, hNaive⟩
        exact Or.inr ⟨rfl, hNaive⟩
  | returns batch events hAction hBefore hClient hTrace hQuiet
      hListener hReaders =>
      split_ifs at hReaders with hWoken
      · rw [hReaders] at hReader
        rcases List.mem_map.mp hReader with ⟨old, hOld, rfl⟩
        refine Or.inl ⟨old, hOld, by simp, ?_⟩
        intro result hFinished
        exact Or.inl
          ((old.phase_wake_eq_finished_iff result).mp hFinished)
      · exact Or.inl (hKept hReaders)
  | reads k r events hAction hGet hReady hClient hTrace hQuiet
      hListener hReaders =>
      rw [hReaders] at hReader
      apply Or.inl
      apply exists_of_mem_modify (Waiter.label_enter _) ?_
        hReader
      intro old result hOld hFinished
      exact (Waiter.phase_enter_eq_finished hFinished).imp_right
        (fun hOutcome => ⟨k, hAction, hOld, hOutcome.2⟩)
  | wakes k hAction hReplica hListener hReaders =>
      rw [hReaders] at hReader
      apply Or.inl
      apply exists_of_mem_modify Waiter.label_wake ?_ hReader
      intro old result _ hFinished
      exact Or.inl
        ((old.phase_wake_eq_finished_iff result).mp hFinished)
  | receives batch hAction hIdle hReplica hListener hReaders =>
      exact Or.inl (hKept hReaders)
  | removes batch tx todo hAction hBefore hClient hTrace
      hListener hReaders => exact Or.inl (hKept hReaders)
  | executes batch tx todo operation hAction hBefore
      hDisposition hClient hTrace hListener hReaders =>
      exact Or.inl (hKept hReaders)
  | passes batch tx todo events hAction hBefore hNotExecutable
      hNotAborting hClient hTrace hEnqueued hApplied
      hMulticasts hListener hReaders =>
      exact Or.inl (hKept hReaders)
  | aborts batch tx todo e hAction hBefore hDisposition hClient
      hTrace hListener hReaders =>
      exact Or.inl (hKept hReaders)
  | records batch tx todo hAction hBefore hClient hTrace
      hListener hReaders => exact Or.inl (hKept hReaders)

/- Every step of a client keeps it sound. -/
theorem Sound.change
    (hSound : p.Sound settings)
    (hChange : Change p a p')
    (hBatch :
      ∀ batch, a = .receive batch →
        ∀ tx ∈ batch, tx.uniqueId ≠ none) :
    p'.Sound settings := by
  refine ⟨hSound.books_change hChange, ?_,
    hSound.balance_change hChange, ?_, ?_⟩
  · intro tx hPending
    rcases hChange.pending_subset with
      hOld | ⟨batch, hReceive, hNew⟩
    · exact hSound.pending tx (hOld hPending)
    · exact hBatch batch hReceive tx (hNew ▸ hPending)
  · intro hReaders
    rcases List.exists_mem_of_ne_nil _ hReaders with
      ⟨reader, hReader⟩
    rcases hChange.reader_cases hReader with
      ⟨old, hOld, _⟩ | ⟨_, hNaive⟩
    · exact hSound.naive (List.ne_nil_of_mem hOld)
    · exact hSound.books.naive ▸ hNaive
  · intro reader hReader
    have hGrows :
        enqueued p.replica.trace ⊆ enqueued p'.replica.trace :=
      (hChange.trace_isPrefix.filterMap _).subset
    rcases hChange.reader_cases hReader with
      ⟨old, hOld, hLabel, _⟩ | ⟨rfl, _⟩
    · rw [← hLabel]
      exact List.Subset.trans (hSound.labels old hOld) hGrows
    · exact hGrows

theorem Sound.start
    (settings : Settings) :
    Sound settings
      (processSystem (D := D)
        (Client.new settings.id settings.fileName
          settings.naiveSyncBalance)).start := by
  refine ⟨Replica.Bookkeeping.new settings, ?_, rfl, ?_, ?_⟩
  all_goals simp [processSystem]

end Process

end ReplicatedAccount

------------------------------------------------------------
-- Several Clients
------------------------------------------------------------

namespace ReplicatedAccount

open Foundations

/- What the clients and their threads can do. -/
inductive ConcurrentAction (ι : Type) where
  | command (client : ι) (input : String)
  | tick (client : ι) (accepted : Bool)
  -- a listener takes up a message, by sender and number
  | deliver (receiver sender : ι) (index : Nat)
  | listen (client : ι)
  | read (client : ι) (reader : Nat)
  | wake (client : ι) (reader : Nat)
deriving DecidableEq, Repr

abbrev Clients (ι D : Type) : Type := ι → Process D

namespace Clients

variable {ι D : Type}

/- Everything a client has multicast, oldest first. -/
def sent
    (σ : Clients ι D)
    (client : ι) :
    List (List Transaction) :=
  multicasts (σ client).replica.trace

/- The client that moves, and what it does. -/
def move
    (σ : Clients ι D) :
    ConcurrentAction ι → Option (ι × ProcessAction)
| .command client input => some (client, .command input)
| .tick client accepted => some (client, .tick accepted)
| .deliver receiver sender index =>
    ((σ.sent sender)[index]?).map
      fun batch => (receiver, .receive batch)
| .listen client => some (client, .listen)
| .read client reader => some (client, .read reader)
| .wake client reader => some (client, .wake reader)

variable [DecidableEq ι] [DoubleArithmetic D]

def step
    (σ : Clients ι D)
    (a : ConcurrentAction ι) :
    Option (Clients ι D) :=
  match σ.move a with
  | none => none
  | some (client, b) =>
      match (σ client).step b with
      | none => none
      | some p => some (Function.update σ client p)

end Clients

/- Clients that have just been constructed, with threads. -/
def concurrentSystem
    {ι : Type} [DecidableEq ι]
    (D : Type) [DoubleArithmetic D]
    (settings : ι → Settings) :
    TransitionSystem (Clients ι D) (ConcurrentAction ι) where
  start := fun i =>
    (processSystem
      (Client.new (settings i).id (settings i).fileName
        (settings i).naiveSyncBalance)).start
  step := Clients.step

end ReplicatedAccount

------------------------------------------------------------
-- Reachable States
------------------------------------------------------------

namespace ReplicatedAccount

open Foundations

variable {ι D : Type} [DecidableEq ι] [DoubleArithmetic D]

namespace Clients

variable {σ σ' : Clients ι D}
variable {a : ConcurrentAction ι}

/- A step is a step of one client. -/
theorem step_eq_some_iff :
    σ.step a = some σ' ↔
      ∃ i b p, σ.move a = some (i, b) ∧
        (σ i).step b = some p ∧
          σ' = Function.update σ i p := by
  unfold step
  constructor
  · intro hStep
    cases hMove : σ.move a with
    | none => simp [hMove] at hStep
    | some move =>
        rcases move with ⟨i, b⟩
        cases hNext : (σ i).step b with
        | none => simp [hMove, hNext] at hStep
        | some p =>
            simp only [hMove, hNext, Option.some.injEq] at hStep
            exact ⟨i, b, p, rfl, hNext, hStep.symm⟩
  · rintro ⟨i, b, p, hMove, hNext, rfl⟩
    simp [hMove, hNext]

/- Every received batch was multicast by some client. -/
omit [DecidableEq ι] [DoubleArithmetic D] in
theorem sent_of_move
    {i : ι}
    {batch : List Transaction}
    (hMove : σ.move a = some (i, .receive batch)) :
    ∃ sender, batch ∈ σ.sent sender := by
  cases a with
  | deliver receiver sender index =>
      simp only [move, Option.map_eq_some_iff, Prod.mk.injEq,
        ProcessAction.receive.injEq] at hMove
      rcases hMove with ⟨b, hGet, _, rfl⟩
      exact ⟨sender, List.mem_of_getElem? hGet⟩
  | _ => simp [move] at hMove

/- All clients are sound. -/
def Sound
    (settings : ι → Settings)
    (σ : Clients ι D) : Prop :=
  ∀ i, (σ i).Sound (settings i)

variable {settings : ι → Settings}

/- In sound states a step is a change of one client. -/
theorem Sound.change_of_step
    (hSound : Sound settings σ)
    (hStep : σ.step a = some σ') :
    ∃ i b p, σ.move a = some (i, b) ∧
      Process.Change (σ i) b p ∧
        σ' = Function.update σ i p ∧
          ∀ batch, b = .receive batch →
            ∀ tx ∈ batch, tx.uniqueId ≠ none := by
  rcases step_eq_some_iff.mp hStep with
    ⟨i, b, p, hMove, hNext, hSame⟩
  refine ⟨i, b, p, hMove,
    Process.change_of_step (hSound i).books.idsPresent hNext,
    hSame, ?_⟩
  rintro batch rfl
  rcases sent_of_move hMove with ⟨sender, hSent⟩
  exact (hSound sender).books.multicast_ids hSent

theorem Sound.step
    (hSound : Sound settings σ)
    (hStep : σ.step a = some σ') :
    Sound settings σ' := by
  rcases hSound.change_of_step hStep with
    ⟨i, b, p, _, hChange, rfl, hBatch⟩
  intro j
  by_cases hSame : j = i
  · subst hSame
    rw [Function.update_self]
    exact (hSound j).change hChange hBatch
  · rw [Function.update_of_ne hSame]
    exact hSound j

end Clients

/- All clients are sound in every reachable state. -/
theorem sound_of_concurrent_run
    {settings : ι → Settings}
    {actions : List (ConcurrentAction ι)}
    {σ : Clients ι D}
    (hRun :
      (concurrentSystem D settings).run actions = some σ) :
    σ.Sound settings := by
  apply TransitionSystem.invariant _ _ _ hRun
  · exact fun i => Process.Sound.start (settings i)
  · intro s a s' hSound hStep
    exact hSound.step hStep

/- The move of a step satisfies a condition on one client. -/
def Clients.Each
    (allowed : Process D → ProcessAction → Prop)
    (σ : Clients ι D)
    (a : ConcurrentAction ι) : Prop :=
  ∀ i b, σ.move a = some (i, b) → allowed (σ i) b

/-
  A property of every client holds in every state along a run
  exactly when every move is allowed: allowed moves keep an
  invariant that implies it, and a move after which it holds
  was allowed.
-/
theorem clients_always_iff
    {settings : ι → Settings}
    {I P : Process D → Prop}
    {assumed allowed : Process D → ProcessAction → Prop}
    (hStart :
      ∀ i, I ((concurrentSystem D settings).start i))
    (hChange :
      ∀ i p b p',
        p.Sound (settings i) → I p → assumed p b → allowed p b →
          Process.Change p b p' → I p')
    (hGood : ∀ p, I p → P p)
    (hNeeded :
      ∀ p b p', Process.Change p b p' → P p' → allowed p b)
    {actions : List (ConcurrentAction ι)}
    {σ : Clients ι D}
    (hRun :
      (concurrentSystem D settings).run actions = some σ)
    (hAssumed :
      (concurrentSystem D settings).EveryStep
        (Clients.Each assumed) actions) :
    (concurrentSystem D settings).EveryState
        (fun σ => ∀ i, P (σ i)) actions ↔
      (concurrentSystem D settings).EveryStep
        (Clients.Each allowed) actions := by
  apply (concurrentSystem D settings).everyState_iff_everyStep
    (I := fun σ => ∀ i, I (σ i)) hStart ?_
    (fun σ hInv i => hGood (σ i) (hInv i)) ?_ hRun hAssumed
  · intro bs s a s' hBefore hInv hLater hAllowed hStep i
    have hSound := sound_of_concurrent_run hBefore
    rcases hSound.change_of_step hStep with
      ⟨j, b, p, hMove, hStepChange, rfl, _⟩
    by_cases hSame : i = j
    · subst hSame
      rw [Function.update_self]
      exact hChange i (s i) b p (hSound i) (hInv i)
        (hLater i b hMove) (hAllowed i b hMove) hStepChange
    · rw [Function.update_of_ne hSame]
      exact hInv i
  · intro bs s a s' hBefore hStep hAfter i b hMove
    rcases (sound_of_concurrent_run hBefore).change_of_step
        hStep with
      ⟨j, c, p, hMove', hStepChange, rfl, _⟩
    cases Option.some.inj (hMove.symm.trans hMove')
    have hMoved := hAfter i
    rw [Function.update_self] at hMoved
    exact hNeeded (s i) b p hStepChange hMoved

end ReplicatedAccount
