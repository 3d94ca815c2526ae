import ReplicatedAccount.Concurrent.Clients

/-
  Where the transactions come from that a listener removes
  and executes.

  As long as client ids differ and no client has used its
  whole 32-bit counter, a removal takes nothing out of an
  outstanding collection but the received transaction.

  Key definitions include:
    * `Clients.Originated`
    * `Process.RemovesOwn`

  Key theorems include:
    * `originated_of_concurrent_run`
    * `removesOwn_of_run`
-/

------------------------------------------------------------
-- Growing Logs
------------------------------------------------------------

namespace ReplicatedAccount

open Foundations

variable {ι D : Type} [DecidableEq ι] [DoubleArithmetic D]

namespace Clients

variable {settings : ι → Settings}
variable {σ σ' : Clients ι D}
variable {a : ConcurrentAction ι}

/- The log of a client only grows. -/
theorem Sound.trace_isPrefix
    (hSound : Sound settings σ)
    (hStep : σ.step a = some σ')
    (i : ι) :
    (σ i).replica.trace <+: (σ' i).replica.trace := by
  rcases hSound.change_of_step hStep with
    ⟨j, b, p, _, hChange, rfl, _⟩
  by_cases hSame : i = j
  · subst hSame
    rw [Function.update_self]
    exact hChange.trace_isPrefix
  · exact (Function.update_of_ne hSame p σ).symm ▸
      List.prefix_rfl

end Clients

theorem trace_isPrefix_of_concurrent_run
    {settings : ι → Settings}
    {before actions : List (ConcurrentAction ι)}
    {σ σ' : Clients ι D}
    (hPrefix : before <+: actions)
    (hBefore :
      (concurrentSystem D settings).run before = some σ)
    (hRun :
      (concurrentSystem D settings).run actions = some σ')
    (i : ι) :
    (σ i).replica.trace <+: (σ' i).replica.trace := by
  refine TransitionSystem.related_of_isPrefix
    (concurrentSystem D settings)
    (R := fun s t =>
      ∀ i, (s i).replica.trace <+: (t i).replica.trace)
    (fun s i => List.prefix_rfl)
    (fun s t u hFirst hSecond i =>
      (hFirst i).trans (hSecond i))
    ?_ hPrefix hBefore hRun i
  intro _ s a s' hReached hStep j
  exact (sound_of_concurrent_run hReached).trace_isPrefix
    hStep j

end ReplicatedAccount

------------------------------------------------------------
-- Origins
------------------------------------------------------------

namespace ReplicatedAccount

open Foundations

variable {ι D : Type} [DecidableEq ι] [DoubleArithmetic D]

namespace Clients

/- What a listener still has to do was enqueued somewhere. -/
def Originated (σ : Clients ι D) : Prop :=
  ∀ i, ∀ tx ∈ (σ i).listener.pending,
    ∃ j, tx ∈ enqueued (σ j).replica.trace

variable {settings : ι → Settings}
variable {σ σ' : Clients ι D}
variable {a : ConcurrentAction ι}

theorem Originated.step
    (hSound : Sound settings σ)
    (hOrigin : σ.Originated)
    (hStep : σ.step a = some σ') :
    σ'.Originated := by
  have hGrows :
      ∀ j, enqueued (σ j).replica.trace ⊆
        enqueued (σ' j).replica.trace :=
    fun j =>
      ((hSound.trace_isPrefix hStep j).filterMap _).subset
  intro i tx hPending
  suffices hEnqueued :
      ∃ j, tx ∈ enqueued (σ j).replica.trace by
    rcases hEnqueued with ⟨j, hMember⟩
    exact ⟨j, hGrows j hMember⟩
  rcases hSound.change_of_step hStep with
    ⟨j, b, p, hMove, hChange, rfl, _⟩
  by_cases hSame : i = j
  · subst hSame
    rw [Function.update_self] at hPending
    rcases hChange.pending_subset with
      hOld | ⟨batch, rfl, hNew⟩
    · exact hOrigin i tx (hOld hPending)
    · rcases sent_of_move hMove with ⟨sender, hSent⟩
      exact ⟨sender,
        (hSound sender).books.multicasts batch hSent
          (hNew ▸ hPending)⟩
  · rw [Function.update_of_ne hSame] at hPending
    exact hOrigin i tx hPending

end Clients

theorem originated_of_concurrent_run
    {settings : ι → Settings}
    {actions : List (ConcurrentAction ι)}
    {σ : Clients ι D}
    (hRun :
      (concurrentSystem D settings).run actions = some σ) :
    σ.Originated := by
  apply (concurrentSystem D settings).run_induction
    (P := fun _ s => s.Originated) ?_ ?_ hRun
  · intro i tx hPending
    simp [concurrentSystem, processSystem] at hPending
  · intro as s a s' hBefore hOrigin hStep
    exact hOrigin.step (sound_of_concurrent_run hBefore) hStep

/- Two enqueued transactions with one id are the same. -/
omit [DecidableEq ι] in
theorem Clients.Sound.eq_of_uniqueId_eq
    {settings : ι → Settings}
    {σ : Clients ι D}
    (hSound : σ.Sound settings)
    (hClients : Function.Injective fun i => (settings i).id)
    (hCounters :
      ∀ i, (enqueued (σ i).replica.trace).length ≤ 2 ^ 32)
    {i j : ι}
    {tx tx' : Transaction}
    (hTx : tx ∈ enqueued (σ i).replica.trace)
    (hTx' : tx' ∈ enqueued (σ j).replica.trace)
    (hEq : tx.uniqueId = tx'.uniqueId) :
    tx = tx' := by
  rcases (hSound i).books.exists_index hTx with
    ⟨m, hGet, hIndex, hId⟩
  rcases (hSound j).books.exists_index hTx' with
    ⟨n, hGet', hIndex', hId'⟩
  rw [hId, hId', Option.some.injEq] at hEq
  rcases issuedId_injective
      (Nat.lt_of_lt_of_le hIndex (hCounters i))
      (Nat.lt_of_lt_of_le hIndex' (hCounters j)) hEq with
    ⟨hIds, rfl⟩
  cases hClients hIds
  exact Option.some.inj (hGet.symm.trans hGet')

/- A removal takes nothing but the received transaction. -/
def Process.RemovesOwn
    {D : Type}
    (p : Process D)
    (a : ProcessAction) : Prop :=
  ∀ batch tx todo,
    a = .listen →
      p.listener = .busy batch (.next (tx :: todo)) →
        ∀ localTx ∈ p.replica.client.outstandingCollection,
          localTx.uniqueId = tx.uniqueId → localTx = tx

/-
  Clients with different ids that enqueue at most 2^32
  transactions each never lose a transaction to another one
  with the same id.
-/
theorem removesOwn_of_run
    {settings : ι → Settings}
    (hClients : Function.Injective fun i => (settings i).id)
    {actions : List (ConcurrentAction ι)}
    {σ : Clients ι D}
    (hRun :
      (concurrentSystem D settings).run actions = some σ)
    (hCounters :
      ∀ i, (enqueued (σ i).replica.trace).length ≤ 2 ^ 32) :
    (concurrentSystem D settings).EveryStep
      (Clients.Each Process.RemovesOwn) actions := by
  rintro before a later s rfl hBefore i b _ batch tx todo _
    hNext localTx hLocal hSame
  have hSound := sound_of_concurrent_run hBefore
  have hPrefix :=
    trace_isPrefix_of_concurrent_run
      (List.prefix_append before (a :: later)) hBefore hRun
  have hEarlier :
      ∀ j, (enqueued (s j).replica.trace).length ≤ 2 ^ 32 :=
    fun j =>
      Nat.le_trans ((hPrefix j).filterMap _).length_le
        (hCounters j)
  rcases originated_of_concurrent_run hBefore i tx
      (by simp [hNext]) with
    ⟨j, hOrigin⟩
  exact hSound.eq_of_uniqueId_eq hClients hEarlier
    ((hSound i).books.outstanding hLocal) hOrigin hSame

end ReplicatedAccount
