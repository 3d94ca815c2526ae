import ReplicatedAccount.Foundations.Lockstep
import ReplicatedAccount.Client.ExactArithmetic
import ReplicatedAccount.Client.Replica

/-
  Replicas that receive the same batches in the same order
  agree, whatever their users do in between.

  Key definitions include:
    * `Replica.Agree`

  Key theorems include:
    * `agree_lockstep`
    * `replicas_agree`
-/

------------------------------------------------------------
-- Agreement
------------------------------------------------------------

namespace ReplicatedAccount

namespace Replica

variable {D : Type}

/-
  Two replicas agree on the account, on what was executed and
  on how the deliveries ended.  Ids, settings, queues and
  executed lists may differ, but no list holds a null id.
-/
structure Agree (r t : Replica D) : Prop where
  balance : r.client.balance = t.client.balance
  orderCounter :
    r.client.orderCounter = t.client.orderCounter
  applied : applied r.trace = applied t.trace
  endings : endings r.trace = endings t.trace
  idsLeft : r.client.IdsPresent
  idsRight : t.client.IdsPresent

theorem Agree.symm
    {r t : Replica D}
    (hAgree : Agree r t) :
    Agree t r :=
  ⟨hAgree.balance.symm, hAgree.orderCounter.symm,
    hAgree.applied.symm, hAgree.endings.symm,
    hAgree.idsRight, hAgree.idsLeft⟩

/- A replica that changes in none of this still agrees. -/
theorem Agree.of_unchanged
    {r r' t : Replica D}
    (hAgree : Agree r t)
    (hBalance : r'.client.balance = r.client.balance)
    (hCounter :
      r'.client.orderCounter = r.client.orderCounter)
    (hApplied :
      ReplicatedAccount.applied r'.trace =
        ReplicatedAccount.applied r.trace)
    (hEndings :
      ReplicatedAccount.endings r'.trace =
        ReplicatedAccount.endings r.trace)
    (hIds : r'.client.IdsPresent) :
    Agree r' t :=
  ⟨hBalance.trans hAgree.balance,
    hCounter.trans hAgree.orderCounter,
    hApplied.trans hAgree.applied,
    hEndings.trans hAgree.endings, hIds, hAgree.idsRight⟩

end Replica

end ReplicatedAccount

------------------------------------------------------------
-- Local Actions
------------------------------------------------------------

namespace ReplicatedAccount

variable {D : Type} [DoubleArithmetic D]

/- A client's own transactions carry an id. -/
omit [DoubleArithmetic D] in
theorem Client.idsPresent_afterEnqueue
    {c : Client D}
    (hIds : c.IdsPresent)
    (command : String) :
    (c.afterEnqueue command).IdsPresent := by
  intro tx hMember
  simp only [afterEnqueue, List.mem_append,
    List.mem_singleton] at hMember
  rcases hMember with hExecuted | hLocal | hNew
  · exact hIds tx (by simp [hExecuted])
  · exact hIds tx (by simp [hLocal])
  · simp [hNew, nextTransaction]

omit [DoubleArithmetic D] in
theorem Client.idsPresent_clean
    {c : Client D}
    (hIds : c.IdsPresent) :
    { c with executedList := [] : Client D }.IdsPresent := by
  intro tx hMember
  exact hIds tx (by simp_all)

namespace Replica

/- What one user does is invisible to the replicated state. -/
theorem Agree.act_local
    {r t : Replica D}
    (hAgree : Agree r t)
    (a : ReplicaAction)
    (hLocal : a.delivery? = none) :
    Agree (r.act a) t := by
  have hEffect := r.act_effect a hAgree.idsLeft
    (by
      rintro batch rfl
      simp [ReplicaAction.delivery?] at hLocal)
  rcases hEffect with
    ⟨command, hClient, hTrace, _⟩ | ⟨hClient, hTrace⟩ |
      ⟨hClient, hTrace, _⟩ |
        ⟨events, hClient, hTrace, hQuiet, _⟩ |
          ⟨batch, _, hAction, _⟩
  · apply hAgree.of_unchanged
    · rw [hClient]
      rfl
    · rw [hClient]
      rfl
    · simp [hTrace]
    · simp [hTrace]
    · rw [hClient]
      exact Client.idsPresent_afterEnqueue hAgree.idsLeft _
  · apply hAgree.of_unchanged
    · simp [hClient]
    · simp [hClient]
    · simp [hTrace]
    · simp [hTrace]
    · rw [hClient]
      exact Client.idsPresent_clean hAgree.idsLeft
  · apply hAgree.of_unchanged
    · simp [hClient]
    · simp [hClient]
    · simp [hTrace]
    · simp [hTrace]
    · rw [hClient]
      exact hAgree.idsLeft
  · rcases hQuiet.projections with
      ⟨_, _, hApplied, _, _, hEndings⟩
    apply hAgree.of_unchanged
    · simp [hClient]
    · simp [hClient]
    · simp [hTrace, hApplied]
    · simp [hTrace, hEndings]
    · rw [hClient]
      exact hAgree.idsLeft
  · simp [hAction, ReplicaAction.delivery?] at hLocal

end Replica

end ReplicatedAccount

------------------------------------------------------------
-- Deliveries
------------------------------------------------------------

namespace ReplicatedAccount

open Foundations

variable {D : Type} [DoubleArithmetic D]

namespace Replica

/- A delivery to both sides at once keeps the agreement. -/
theorem Agree.act_deliver
    {r t : Replica D}
    (hAgree : Agree r t)
    (batch : List Transaction)
    (hBatch : ∀ tx ∈ batch, tx.uniqueId ≠ none) :
    Agree (r.act (.deliver batch))
      (t.act (.deliver batch)) := by
  rcases Client.regularMessageReceived_outcome batch
      r.client hAgree.idsLeft hBatch with
    ⟨leftEvents, hLeft, hLeftLog⟩
  rcases Client.regularMessageReceived_outcome batch
      t.client hAgree.idsRight hBatch with
    ⟨rightEvents, hRight, hRightLog⟩
  have hReached :
      ∀ tx ∈ reached D batch, tx.uniqueId ≠ none :=
    fun tx hTx => hBatch tx (mem_of_mem_reached D hTx)
  simp only [act, call, hLeft, hRight]
  constructor
  · simp [Client.absorb, hAgree.balance]
  · simp [Client.absorb, hAgree.orderCounter]
  · simp [hAgree.applied, hLeftLog.applied,
      hRightLog.applied]
  · simp [hAgree.endings, hLeftLog.endings,
      hRightLog.endings]
  · exact Client.idsPresent_absorb hAgree.idsLeft hReached
  · exact Client.idsPresent_absorb hAgree.idsRight hReached

end Replica

/- Agreement is a lockstep relation over the deliveries. -/
theorem agree_lockstep
    {a b : Client D}
    (hBalance : a.balance = b.balance)
    (hCounter : a.orderCounter = b.orderCounter)
    (hIdsLeft : a.IdsPresent)
    (hIdsRight : b.IdsPresent) :
    Lockstep (replicaSystem a) (replicaSystem b)
      ReplicaAction.delivery?
      (fun batch => ∀ tx ∈ batch, tx.uniqueId ≠ none)
      Replica.Agree := by
  constructor
  · exact ⟨hBalance, hCounter, rfl, rfl, hIdsLeft,
      hIdsRight⟩
  · intro s t action s' hAgree hLocal hStep
    rcases (s.step_eq_some_iff action s').mp hStep with
      ⟨_, rfl⟩
    exact hAgree.act_local action hLocal
  · intro s t action t' hAgree hLocal hStep
    rcases (t.step_eq_some_iff action t').mp hStep with
      ⟨_, rfl⟩
    exact (hAgree.symm.act_local action hLocal).symm
  · intro s t left right s' t' batch hAgree hLeft hRight
      hBatch hLeftStep hRightStep
    rcases (s.step_eq_some_iff left s').mp hLeftStep with
      ⟨_, rfl⟩
    rcases (t.step_eq_some_iff right t').mp hRightStep with
      ⟨_, rfl⟩
    have hDeliver :
        ∀ action : ReplicaAction,
          action.delivery? = some batch →
            action = .deliver batch := by
      intro action hAction
      cases action <;> simp_all [ReplicaAction.delivery?]
    rw [hDeliver left hLeft, hDeliver right hRight]
    exact hAgree.act_deliver batch hBatch

/-
  Replica agreement.  Two clients with equal balance and
  counter receive the same batches in the same order, each
  interleaved with its own commands and ticks.  Then they
  have the same balance and counter, have executed the same
  transactions in the same order, and each delivery ended on
  one exactly as it ended on the other.
-/
theorem replicas_agree
    (a b : Client D)
    (hBalance : a.balance = b.balance)
    (hCounter : a.orderCounter = b.orderCounter)
    (hIdsLeft : a.IdsPresent)
    (hIdsRight : b.IdsPresent)
    (as bs : List ReplicaAction)
    (hSame : deliveries as = deliveries bs)
    (hBatches :
      ∀ batch ∈ deliveries as,
        ∀ tx ∈ batch, tx.uniqueId ≠ none)
    (r t : Replica D)
    (hLeft : (replicaSystem a).run as = some r)
    (hRight : (replicaSystem b).run bs = some t) :
    r.client.balance = t.client.balance ∧
      r.client.orderCounter = t.client.orderCounter ∧
      applied r.trace = applied t.trace ∧
      endings r.trace = endings t.trace := by
  have hAgree :=
    (agree_lockstep hBalance hCounter hIdsLeft
      hIdsRight).related_of_runs hSame hBatches hLeft hRight
  exact ⟨hAgree.balance, hAgree.orderCounter,
    hAgree.applied, hAgree.endings⟩

/-
  Two different clients, one of which cleans its history
  between an aborted batch and a repeated one.
-/
theorem replicas_agree_after_cleaning :
    ∃ r t : Replica Decimal,
      (replicaSystem (Client.new 7 "" false)).run
          [.command "deposit 1",
            .deliver
              [⟨some "deposit 100", some "3 0"⟩,
                ⟨some "deposit abc", some "3 1"⟩],
            .command "cleanHistory",
            .deliver [⟨some "deposit 100", some "3 0"⟩]] =
            some r ∧
        (replicaSystem (Client.new 3 "" true)).run
          [.deliver
              [⟨some "deposit 100", some "3 0"⟩,
                ⟨some "deposit abc", some "3 1"⟩],
            .deliver [⟨some "deposit 100", some "3 0"⟩]] =
            some t ∧
        r.client.balance = t.client.balance ∧
        endings r.trace = endings t.trace := by
  have hLeft :
      ((replicaSystem (D := Decimal)
        (Client.new 7 "" false)).run
          [.command "deposit 1",
            .deliver
              [⟨some "deposit 100", some "3 0"⟩,
                ⟨some "deposit abc", some "3 1"⟩],
            .command "cleanHistory",
            .deliver
              [⟨some "deposit 100", some "3 0"⟩]]).isSome := by
    decide +kernel
  have hRight :
      ((replicaSystem (D := Decimal)
        (Client.new 3 "" true)).run
          [.deliver
              [⟨some "deposit 100", some "3 0"⟩,
                ⟨some "deposit abc", some "3 1"⟩],
            .deliver
              [⟨some "deposit 100", some "3 0"⟩]]).isSome := by
    decide +kernel
  rcases Option.isSome_iff_exists.mp hLeft with ⟨r, hRun⟩
  rcases Option.isSome_iff_exists.mp hRight with ⟨t, hRun'⟩
  have hAgree :
      r.client.balance = t.client.balance ∧
        r.client.orderCounter = t.client.orderCounter ∧
        applied r.trace = applied t.trace ∧
        endings r.trace = endings t.trace := by
    refine replicas_agree (Client.new 7 "" false)
      (Client.new 3 "" true) rfl rfl ?_ ?_ _ _ ?_ ?_
      r t hRun hRun'
    · simp [Client.IdsPresent, Client.new]
    · simp [Client.IdsPresent, Client.new]
    · rfl
    · decide
  exact ⟨r, t, hRun, hRun', hAgree.1, hAgree.2.2.2⟩

end ReplicatedAccount
