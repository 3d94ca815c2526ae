import ReplicatedAccount.Network.Basic

/-
  What holds in every reachable state of the network, in
  whatever order and however often messages are delivered.

  Key definitions include:
    * `Network.Sound`

  Key theorems include:
    * `Network.StepCases.trace_isPrefix`
    * `sound_of_run`
    * `Network.Sound.applied_eq`
    * `Network.Sound.answered_eq`
-/

------------------------------------------------------------
-- Processed Transactions
------------------------------------------------------------

namespace ReplicatedAccount

open Foundations

variable {D : Type} [DoubleArithmetic D]

namespace Replica

/- A delivery processes the reached part of its batch. -/
theorem processed_act_deliver
    (r : Replica D)
    (batch : List Transaction)
    (hIds : r.client.IdsPresent)
    (hBatch : ∀ tx ∈ batch, tx.uniqueId ≠ none) :
    processed (r.act (.deliver batch)).trace =
      processed r.trace ++ reached D batch := by
  rcases Client.regularMessageReceived_outcome batch r.client
      hIds hBatch with
    ⟨events, hCall, hLog⟩
  simp [act, call, hCall, hLog.processed]

/- Other actions process nothing. -/
theorem processed_act_local
    (r : Replica D)
    (b : ReplicaAction)
    (hIds : r.client.IdsPresent)
    (hLocal : ∀ batch, b ≠ .deliver batch) :
    processed (r.act b).trace = processed r.trace := by
  cases r.act_effect b hIds
      (fun batch hAction => absurd hAction (hLocal batch)) with
  | enqueues command hClient hTrace hCommand => simp [hTrace]
  | cleans hClient hTrace => rw [hTrace]
  | multicasts hClient hTrace hAction => simp [hTrace]
  | quiet events hClient hTrace hQuiet hAction =>
      simp [hTrace, hQuiet.projections.2.1]
  | absorbs batch events hAction hClient hTrace hLog =>
      exact absurd hAction (hLocal batch)

end Replica

end ReplicatedAccount

------------------------------------------------------------
-- Logs Only Grow
------------------------------------------------------------

namespace ReplicatedAccount

open Foundations

variable {ι D : Type} [DecidableEq ι] [DoubleArithmetic D]

namespace Network

variable {σ σ' : Network ι D}
variable {a : NetworkAction ι}

theorem StepCases.trace_isPrefix
    (hCases : StepCases σ a σ')
    (i : ι) :
    (σ.replica i).trace <+: (σ'.replica i).trace := by
  rcases hCases.replica_cases i with hSame | ⟨b, hAct, _⟩
  · exact hSame ▸ List.prefix_rfl
  · exact hAct ▸ List.prefix_append _ _

theorem StepCases.issued_isPrefix
    (hCases : StepCases σ a σ')
    (i : ι) :
    σ.issued i <+: σ'.issued i :=
  (hCases.trace_isPrefix i).filterMap _

theorem StepCases.sent_isPrefix
    (hCases : StepCases σ a σ')
    (i : ι) :
    σ.sent i <+: σ'.sent i :=
  (hCases.trace_isPrefix i).filterMap _

end Network

end ReplicatedAccount

------------------------------------------------------------
-- Sound States
------------------------------------------------------------

namespace ReplicatedAccount

open Foundations

variable {ι D : Type} [DecidableEq ι] [DoubleArithmetic D]

namespace Network

/-
  Every replica keeps its books and its ledger, received
  only what was sent, and processed exactly the reached part
  of what it received.
-/
structure Sound
    (settings : ι → Settings)
    (σ : Network ι D) : Prop where
  books : ∀ i, (σ.replica i).Bookkeeping (settings i)
  ledgers :
    ∀ i,
      (σ.replica i).client.Ledger
        (applied (σ.replica i).trace)
  chronicles :
    ∀ i, Chronicle (settings i).id (σ.replica i).trace
  origins :
    ∀ i, ∀ message ∈ σ.delivered i,
      message.2 ∈ σ.sent message.1
  processed :
    ∀ i,
      processed (σ.replica i).trace =
        (σ.delivered i).flatMap
          fun message => reached D message.2

variable {settings : ι → Settings}
variable {σ σ' : Network ι D}
variable {a : NetworkAction ι}

/- No multicast batch contains a null id. -/
omit [DecidableEq ι] in
theorem Sound.sent_ids
    (hSound : σ.Sound settings)
    {sender : ι}
    {batch : List Transaction}
    (hBatch : batch ∈ σ.sent sender) :
    ∀ tx ∈ batch, tx.uniqueId ≠ none :=
  (hSound.books sender).multicast_ids hBatch

/- The replica of a step and its action, for the books. -/
theorem Sound.replica_cases
    (hSound : σ.Sound settings)
    (hCases : StepCases σ a σ')
    (i : ι) :
    σ'.replica i = σ.replica i ∨
      ∃ b, σ'.replica i = (σ.replica i).act b ∧
        ∀ batch, b = .deliver batch →
          ∀ tx ∈ batch, tx.uniqueId ≠ none := by
  apply (hCases.replica_cases i).imp_right
  rintro ⟨b, hAct, hOrigin⟩
  refine ⟨b, hAct, ?_⟩
  intro batch hDeliver
  rcases hOrigin batch hDeliver with ⟨sender, hSent⟩
  exact hSound.sent_ids hSent

theorem Sound.step_origins
    (hSound : σ.Sound settings)
    (hCases : StepCases σ a σ')
    (i : ι) :
    ∀ message ∈ σ'.delivered i,
      message.2 ∈ σ'.sent message.1 := by
  have hOld :
      ∀ message ∈ σ.delivered i,
        message.2 ∈ σ'.sent message.1 :=
    fun message hBefore =>
      (hCases.sent_isPrefix message.1).subset
        (hSound.origins i message hBefore)
  intro message hMember
  cases hCases with
  | acts client b hAction hLocal hReplica hDelivered =>
      rw [hDelivered] at hMember
      exact hOld message hMember
  | receives receiver sender index batch hAction hSent
      hReplica hDelivered =>
      by_cases hSame : i = receiver
      · subst hSame
        rw [hDelivered, Function.update_self, List.mem_append,
          List.mem_singleton] at hMember
        rcases hMember with hBefore | rfl
        · exact hOld message hBefore
        · have hPrefix :=
            (StepCases.receives i sender index batch hAction
              hSent hReplica hDelivered).sent_isPrefix sender
          exact hPrefix.subset (List.mem_of_getElem? hSent)
      · rw [hDelivered, Function.update_of_ne hSame] at hMember
        exact hOld message hMember

theorem Sound.step_processed
    (hSound : σ.Sound settings)
    (hCases : StepCases σ a σ')
    (i : ι) :
    ReplicatedAccount.processed (σ'.replica i).trace =
      (σ'.delivered i).flatMap
        fun message => reached D message.2 := by
  have hIds := (hSound.books i).idsPresent
  cases hCases with
  | acts client b hAction hLocal hReplica hDelivered =>
      rw [hReplica, hDelivered, ← hSound.processed i]
      by_cases hSame : i = client
      · subst hSame
        rw [Function.update_self]
        exact Replica.processed_act_local _ b hIds hLocal
      · rw [Function.update_of_ne hSame]
  | receives receiver sender index batch hAction hSent
      hReplica hDelivered =>
      rw [hReplica, hDelivered]
      by_cases hSame : i = receiver
      · subst hSame
        rw [Function.update_self, Function.update_self,
          Replica.processed_act_deliver _ batch hIds
            (hSound.sent_ids (List.mem_of_getElem? hSent)),
          hSound.processed i]
        simp
      · rw [Function.update_of_ne hSame,
          Function.update_of_ne hSame]
        exact hSound.processed i

theorem Sound.step
    (hSound : σ.Sound settings)
    (hCases : StepCases σ a σ') :
    σ'.Sound settings := by
  refine ⟨?_, ?_, ?_, hSound.step_origins hCases,
    hSound.step_processed hCases⟩
  · intro i
    rcases hSound.replica_cases hCases i with
      hSame | ⟨b, hAct, hBatch⟩
    · rw [hSame]
      exact hSound.books i
    · rw [hAct]
      exact (hSound.books i).act b hBatch
  · intro i
    rcases hSound.replica_cases hCases i with
      hSame | ⟨b, hAct, _⟩
    · rw [hSame]
      exact hSound.ledgers i
    · rw [hAct]
      exact (σ.replica i).act_keeps_ledger b (hSound.ledgers i)
  · intro i
    rcases hSound.replica_cases hCases i with
      hSame | ⟨b, hAct, hBatch⟩
    · rw [hSame]
      exact hSound.chronicles i
    · rw [hAct]
      exact (hSound.books i).act_keeps_chronicle
        (hSound.ledgers i) (hSound.chronicles i) b hBatch

theorem Sound.start
    (settings : ι → Settings) :
    (networkSystem D settings).start.Sound settings := by
  constructor
  · exact fun i => Replica.Bookkeeping.new (settings i)
  · exact fun i => Client.Ledger.new _ _ _
  · exact fun i => .nil
  · simp [networkSystem]
  · simp [networkSystem]

/- The history is the executable part of what was reached. -/
omit [DecidableEq ι] in
theorem Sound.applied_eq
    (hSound : σ.Sound settings)
    (i : ι) :
    applied (σ.replica i).trace =
      ((σ.delivered i).flatMap
        fun message => reached D message.2).filter
          (executable D) := by
  rw [(hSound.chronicles i).applied_eq, hSound.processed i]

/- The answers are the own requests in what was reached. -/
omit [DecidableEq ι] in
theorem Sound.answered_eq
    (hSound : σ.Sound settings)
    (i : ι) :
    answered (σ.replica i).trace =
      ((σ.delivered i).flatMap
        fun message => reached D message.2).filter
          (requests D (settings i).id) := by
  rw [(hSound.chronicles i).answered_eq, hSound.processed i]

end Network

/- Every reachable state is sound. -/
theorem sound_of_run
    {settings : ι → Settings}
    {actions : List (NetworkAction ι)}
    {σ : Network ι D}
    (hRun : (networkSystem D settings).run actions = some σ) :
    σ.Sound settings := by
  apply TransitionSystem.invariant _ _ _ hRun
  · exact Network.Sound.start settings
  · intro s a s' hSound hStep
    exact hSound.step (Network.step_cases hStep)

end ReplicatedAccount
