import ReplicatedAccount.Client.ExactArithmetic
import ReplicatedAccount.Foundations.Retransmission
import ReplicatedAccount.Network.Identifiers

/-
  Executing and answering at most once.

  A replica executes and answers what it reaches in the
  batches it receives; nothing that it has seen before is
  filtered out.  So it repeats itself exactly when a delivery
  brings an id that an earlier delivery, or the same batch,
  has already brought.

  Key definitions include:
    * `Network.Fresh`
    * `Replica.AtMostOnce`
    * `Network.FreshExecution`
    * `Replica.AnswersOnce`
    * `Network.FreshRequest`

  Key theorems include:
    * `selected_nodup_iff`
    * `at_most_once_iff`
    * `answered_once_iff`
-/

------------------------------------------------------------
-- Fresh Deliveries
------------------------------------------------------------

namespace ReplicatedAccount

open Foundations

variable {ι D : Type} [DoubleArithmetic D]

/- The ids of the selected transactions a batch reaches. -/
def reachedIds
    (D : Type) [DoubleArithmetic D]
    (select : Transaction → Bool)
    (batch : List Transaction) :
    List (Option String) :=
  ((reached D batch).filter select).map (·.uniqueId)

namespace Network

/- The same for everything a replica has received. -/
def selectedIds
    (σ : Network ι D)
    (select : ι → Transaction → Bool)
    (receiver : ι) :
    List (Option String) :=
  (σ.delivered receiver).flatMap fun message =>
    reachedIds D (select receiver) message.2

/-
  A delivery is fresh when no id it selects is selected twice
  in its batch or in a batch that was delivered before.
-/
def Fresh
    (select : ι → Transaction → Bool)
    (σ : Network ι D) :
    NetworkAction ι → Prop
| .deliver receiver sender index =>
    ∀ batch ∈ (σ.sent sender)[index]?,
      (reachedIds D (select receiver) batch).Nodup ∧
        ∀ message ∈ σ.delivered receiver,
          ∀ uniqueId ∈
              reachedIds D (select receiver) message.2,
            uniqueId ∉ reachedIds D (select receiver) batch
| _ => True

instance
    (select : ι → Transaction → Bool)
    (σ : Network ι D)
    (a : NetworkAction ι) :
    Decidable (σ.Fresh select a) :=
  match a with
  | .deliver receiver sender index =>
      inferInstanceAs
        (Decidable
          (∀ batch ∈ (σ.sent sender)[index]?,
            (reachedIds D (select receiver) batch).Nodup ∧
              ∀ message ∈ σ.delivered receiver,
                ∀ uniqueId ∈
                    reachedIds D (select receiver) message.2,
                  uniqueId ∉
                    reachedIds D (select receiver) batch))
  | .command _ _ => inferInstanceAs (Decidable True)
  | .tick _ _ => inferInstanceAs (Decidable True)

variable [DecidableEq ι]
variable {σ σ' : Network ι D}
variable {a : NetworkAction ι}

/- Selected ids stay distinct exactly in fresh steps. -/
theorem StepCases.selected_nodup_iff
    (select : ι → Transaction → Bool)
    (hCases : StepCases σ a σ') :
    (∀ i, (σ'.selectedIds select i).Nodup) ↔
      (∀ i, (σ.selectedIds select i).Nodup) ∧
        σ.Fresh select a := by
  cases hCases with
  | acts client b hAction hLocal hReplica hDelivered =>
      have hFresh : σ.Fresh select a := by
        cases a with
        | deliver receiver sender index =>
            exact absurd rfl (hAction receiver sender index)
        | command client input => exact trivial
        | tick client accepted => exact trivial
      unfold selectedIds
      rw [hDelivered]
      exact (and_iff_left hFresh).symm
  | receives receiver sender index batch hAction hSent
      hReplica hDelivered =>
      subst hAction
      have hNew :
          σ'.selectedIds select receiver =
            σ.selectedIds select receiver ++
              reachedIds D (select receiver) batch := by
        simp [selectedIds, hDelivered]
      have hOther :
          ∀ i, i ≠ receiver →
            σ'.selectedIds select i =
              σ.selectedIds select i := by
        intro i hNe
        simp [selectedIds, hDelivered, hNe]
      constructor
      · intro hNodup
        have hHere := hNodup receiver
        rw [hNew, List.nodup_append] at hHere
        refine ⟨?_, ?_⟩
        · intro i
          by_cases hSame : i = receiver
          · rw [hSame]
            exact hHere.1
          · rw [← hOther i hSame]
            exact hNodup i
        · intro other hOtherSent
          rw [hSent, Option.mem_some_iff] at hOtherSent
          subst hOtherSent
          refine ⟨hHere.2.1, ?_⟩
          intro message hMessage uniqueId hOld hAgain
          exact hHere.2.2 uniqueId
            (List.mem_flatMap.mpr ⟨message, hMessage, hOld⟩)
            uniqueId hAgain rfl
      · rintro ⟨hNodup, hFresh⟩ i
        rcases hFresh batch hSent with ⟨hBatch, hApart⟩
        by_cases hSame : i = receiver
        · rw [hSame, hNew, List.nodup_append]
          refine ⟨hNodup receiver, hBatch, ?_⟩
          rintro uniqueId hOld _ hAgain rfl
          rcases List.mem_flatMap.mp hOld with
            ⟨message, hMessage, hReached⟩
          exact hApart message hMessage uniqueId hReached hAgain
        · rw [hOther i hSame]
          exact hNodup i

end Network

variable [DecidableEq ι]

/-
  In a whole run the selected ids stay distinct exactly when
  every step was fresh.
-/
theorem selected_nodup_iff
    (settings : ι → Settings)
    (select : ι → Transaction → Bool)
    {actions : List (NetworkAction ι)}
    {σ : Network ι D}
    (hRun : (networkSystem D settings).run actions = some σ) :
    (∀ i, (σ.selectedIds select i).Nodup) ↔
      (networkSystem D settings).EveryStep
        (Network.Fresh select) actions := by
  apply (networkSystem D settings).run_induction
    (P := fun as s =>
      (∀ i, (s.selectedIds select i).Nodup) ↔
        (networkSystem D settings).EveryStep
          (Network.Fresh select) as)
    ?_ ?_ hRun
  · constructor
    · intro _ before a rest s hSplit
      simp at hSplit
    · intro _ i
      exact List.nodup_nil
  · intro as s a s' hBefore ih hStep
    rw [(Network.step_cases hStep).selected_nodup_iff select,
      ih,
      (networkSystem D settings).everyStep_concat_iff _ as a s
        hBefore]

/-
  A property of replicas that says that the selected ids are
  distinct holds all along a run exactly when every step of
  the run was fresh.
-/
theorem along_run_iff
    (settings : ι → Settings)
    (select : ι → Transaction → Bool)
    {property : Replica D → Prop}
    (hProperty :
      ∀ τ : Network ι D, τ.Sound settings → ∀ i,
        (property (τ.replica i) ↔
          (τ.selectedIds select i).Nodup))
    {actions : List (NetworkAction ι)}
    {σ : Network ι D}
    (hRun : (networkSystem D settings).run actions = some σ) :
    (∀ before τ,
      before <+: actions →
        (networkSystem D settings).run before = some τ →
          ∀ i, property (τ.replica i)) ↔
      (networkSystem D settings).EveryStep
        (Network.Fresh select) actions := by
  have hHere :
      ∀ before τ,
        (networkSystem D settings).run before = some τ →
          ((∀ i, property (τ.replica i)) ↔
            (networkSystem D settings).EveryStep
              (Network.Fresh select) before) := by
    intro before τ hBefore
    exact Iff.trans
      (forall_congr' (hProperty τ (sound_of_run hBefore)))
      (selected_nodup_iff settings select hBefore)
  constructor
  · intro hAlong
    exact (hHere actions σ hRun).mp
      (hAlong actions σ List.prefix_rfl hRun)
  · intro hEvery before τ hPrefix hBefore
    exact (hHere before τ hBefore).mpr
      ((networkSystem D settings).everyStep_of_isPrefix _
        hPrefix hEvery)

end ReplicatedAccount

------------------------------------------------------------
-- Execution at Most Once
------------------------------------------------------------

namespace ReplicatedAccount

open Foundations

variable {ι D : Type} [DoubleArithmetic D]

/-
  No id is executed twice.  The balance is the replay of the
  executed transactions, the counter counts every executed id
  once, and the executed list names none twice.
-/
structure Replica.AtMostOnce (r : Replica D) : Prop where
  applied : ((applied r.trace).map (·.uniqueId)).Nodup
  balance :
    r.client.balance =
      replay DoubleArithmetic.zero
        (ReplicatedAccount.applied r.trace)
  orderCounter :
    r.client.orderCounter =
      Int32.ofNat
        (((ReplicatedAccount.applied r.trace).map
          (·.uniqueId)).eraseDups).length
  executedList :
    (r.client.executedList.map (·.uniqueId)).Nodup

/-
  No deposit or addInterest that the delivery reaches has the
  id of another one that it reaches, or that the receiver has
  reached in an earlier delivery.
-/
def Network.FreshExecution
    (σ : Network ι D)
    (a : NetworkAction ι) : Prop :=
  σ.Fresh (fun _ => executable D) a

instance
    (σ : Network ι D)
    (a : NetworkAction ι) :
    Decidable (σ.FreshExecution a) :=
  inferInstanceAs (Decidable (σ.Fresh _ a))

namespace Network

variable {settings : ι → Settings}
variable {σ : Network ι D}

theorem Sound.selectedIds_executable
    (hSound : σ.Sound settings)
    (i : ι) :
    σ.selectedIds (fun _ => executable D) i =
      (applied (σ.replica i).trace).map (·.uniqueId) := by
  rw [hSound.applied_eq]
  simp [selectedIds, reachedIds, List.filter_flatMap,
    List.map_flatMap]

/- Everything follows from the ids of the history. -/
theorem Sound.atMostOnce_iff
    (hSound : σ.Sound settings)
    (i : ι) :
    (σ.replica i).AtMostOnce ↔
      (σ.selectedIds (fun _ => executable D) i).Nodup := by
  rw [hSound.selectedIds_executable]
  constructor
  · exact Replica.AtMostOnce.applied
  · intro hNodup
    have hLedger := hSound.ledgers i
    refine ⟨hNodup, hLedger.balance, ?_, ?_⟩
    · rw [eraseDups_of_nodup hNodup, List.length_map]
      exact hLedger.orderCounter
    · exact hNodup.sublist
        (hLedger.executedList.sublist.map _)

end Network

variable [DecidableEq ι]

/-
  At-most-once execution holds in every state of a run
  exactly when every delivery of the run was fresh.
-/
theorem at_most_once_iff
    (settings : ι → Settings)
    (actions : List (NetworkAction ι))
    (σ : Network ι D)
    (hRun : (networkSystem D settings).run actions = some σ) :
    (∀ before τ,
      before <+: actions →
        (networkSystem D settings).run before = some τ →
          ∀ i, (τ.replica i).AtMostOnce) ↔
      (networkSystem D settings).EveryStep
        Network.FreshExecution actions :=
  along_run_iff settings (fun _ => executable D)
    (fun _ hSound i => hSound.atMostOnce_iff i) hRun

/- A deposit that every replica receives once is fresh. -/
theorem at_most_once_iff_twoClients :
    ∃ σ : Network Bool Decimal,
      (networkSystem Decimal twoClients).run
          [.command true "deposit 100", .tick true true,
            .deliver true true 0, .deliver false true 0] =
            some σ ∧
        ∀ i, (σ.replica i).AtMostOnce := by
  have hRuns :
      (((networkSystem Decimal twoClients).restrict
          Network.FreshExecution).run
        [.command true "deposit 100", .tick true true,
          .deliver true true 0,
          .deliver false true 0]).isSome := by
    decide +kernel
  rcases Option.isSome_iff_exists.mp hRuns with ⟨σ, hFresh⟩
  rcases
      ((networkSystem Decimal twoClients).run_restrict_iff
        Network.FreshExecution _ σ).mp hFresh with
    ⟨hRun, hEvery⟩
  exact ⟨σ, hRun,
    (at_most_once_iff twoClients _ σ hRun).mpr hEvery _ σ
      List.prefix_rfl hRun⟩

/-
  A deposit of 100 is broadcast twice before it comes back.
  Both copies are executed: the balance is 200.
-/
theorem deposit_executed_twice :
    ∃ σ : Network Bool Decimal,
      (networkSystem Decimal twoClients).run
          [.command true "deposit 100", .tick true true,
            .tick true true, .deliver false true 0,
            .deliver false true 1] = some σ ∧
        (σ.replica false).client.balance = (200 : Decimal) ∧
        applied (σ.replica false).trace =
          [⟨some "deposit 100", some "3 0"⟩,
            ⟨some "deposit 100", some "3 0"⟩] ∧
        ¬ (σ.replica false).AtMostOnce := by
  have hRuns :
      ((networkSystem Decimal twoClients).run
        [.command true "deposit 100", .tick true true,
          .tick true true, .deliver false true 0,
          .deliver false true 1]).any
        (fun σ =>
          (σ.replica false).client.balance = (200 : Decimal) ∧
            applied (σ.replica false).trace =
              [⟨some "deposit 100", some "3 0"⟩,
                ⟨some "deposit 100", some "3 0"⟩]) := by
    decide +kernel
  rcases (Option.any_eq_true _ _).mp hRuns with
    ⟨σ, hRun, hTwice⟩
  rcases of_decide_eq_true hTwice with ⟨hBalance, hHistory⟩
  refine ⟨σ, hRun, hBalance, hHistory, ?_⟩
  intro hOnce
  have hNodup := hOnce.applied
  rw [hHistory] at hNodup
  simp at hNodup

end ReplicatedAccount

------------------------------------------------------------
-- Answers at Most Once
------------------------------------------------------------

namespace ReplicatedAccount

open Foundations

variable {ι D : Type} [DoubleArithmetic D]

/-
  Every balance the client printed as a synchronised one
  answers a request, and no request is answered twice.
-/
structure Replica.AnswersOnce (r : Replica D) : Prop where
  answered : ((answered r.trace).map (·.uniqueId)).Nodup
  printed :
    (syncedBalances r.trace).length =
      (ReplicatedAccount.answered r.trace).length

/- No own request of the receiver is reached a second time. -/
def Network.FreshRequest
    (settings : ι → Settings)
    (σ : Network ι D)
    (a : NetworkAction ι) : Prop :=
  σ.Fresh (fun i => requests D (settings i).id) a

instance
    (settings : ι → Settings)
    (σ : Network ι D)
    (a : NetworkAction ι) :
    Decidable (σ.FreshRequest settings a) :=
  inferInstanceAs (Decidable (σ.Fresh _ a))

namespace Network

variable {settings : ι → Settings}
variable {σ : Network ι D}

theorem Sound.selectedIds_requests
    (hSound : σ.Sound settings)
    (i : ι) :
    σ.selectedIds (fun i => requests D (settings i).id) i =
      (answered (σ.replica i).trace).map (·.uniqueId) := by
  rw [hSound.answered_eq]
  simp [selectedIds, reachedIds, List.filter_flatMap,
    List.map_flatMap]

theorem Sound.answersOnce_iff
    (hSound : σ.Sound settings)
    (i : ι) :
    (σ.replica i).AnswersOnce ↔
      (σ.selectedIds
        (fun i => requests D (settings i).id) i).Nodup := by
  rw [hSound.selectedIds_requests]
  constructor
  · exact Replica.AnswersOnce.answered
  · intro hNodup
    exact ⟨hNodup, (hSound.chronicles i).length_syncedBalances⟩

/- Only the client that issued a request answers it. -/
theorem Sound.issuer_of_answered
    (hSound : σ.Sound settings)
    (hClients : Function.Injective fun i => (settings i).id)
    {i j : ι}
    {tx : Transaction}
    (hAnswered : tx ∈ answered (σ.replica i).trace)
    (hIssued : tx ∈ σ.issued j) :
    j = i := by
  rw [hSound.answered_eq, List.mem_filter] at hAnswered
  have hRequest :=
    ((hSound.books j).requests_iff hIssued (settings i).id).mp
      hAnswered.2
  exact (hClients hRequest.2).symm

end Network

variable [DecidableEq ι]

/-
  A request is answered by its issuer alone.  In every state
  of a run it is answered at most once exactly when no
  delivery of the run brought a request to its issuer again.
-/
theorem answered_once_iff
    (settings : ι → Settings)
    (hClients : Function.Injective fun i => (settings i).id)
    (actions : List (NetworkAction ι))
    (σ : Network ι D)
    (hRun : (networkSystem D settings).run actions = some σ) :
    (∀ i j, ∀ tx ∈ answered (σ.replica i).trace,
      tx ∈ σ.issued j → j = i) ∧
      ((∀ before τ,
        before <+: actions →
          (networkSystem D settings).run before = some τ →
            ∀ i, (τ.replica i).AnswersOnce) ↔
        (networkSystem D settings).EveryStep
          (Network.FreshRequest settings) actions) := by
  refine ⟨?_, ?_⟩
  · intro i j tx hAnswered hIssued
    exact (sound_of_run hRun).issuer_of_answered hClients
      hAnswered hIssued
  · exact along_run_iff settings
      (fun i => requests D (settings i).id)
      (fun _ hSound i => hSound.answersOnce_iff i) hRun

/- A request that comes back once is answered once. -/
theorem answered_once_iff_twoClients :
    ∃ σ : Network Bool Decimal,
      (networkSystem Decimal twoClients).run
          [.command true "getSynchedBalance", .tick true true,
            .deliver true true 0, .tick true true,
            .deliver false true 0] = some σ ∧
        ∀ i, (σ.replica i).AnswersOnce := by
  have hRuns :
      (((networkSystem Decimal twoClients).restrict
          (Network.FreshRequest twoClients)).run
        [.command true "getSynchedBalance", .tick true true,
          .deliver true true 0, .tick true true,
          .deliver false true 0]).isSome := by
    decide +kernel
  rcases Option.isSome_iff_exists.mp hRuns with ⟨σ, hFresh⟩
  rcases
      ((networkSystem Decimal twoClients).run_restrict_iff
        (Network.FreshRequest twoClients) _ σ).mp hFresh with
    ⟨hRun, hEvery⟩
  exact ⟨σ, hRun,
    (answered_once_iff twoClients twoClients_injective _ σ
      hRun).2.mpr hEvery _ σ List.prefix_rfl hRun⟩

/-
  A request is broadcast twice before it comes back, and its
  issuer prints the synchronised balance for both copies.
-/
theorem request_answered_twice :
    ∃ σ : Network Bool Decimal,
      (networkSystem Decimal twoClients).run
          [.command true "getSynchedBalance", .tick true true,
            .tick true true, .deliver true true 0,
            .deliver true true 1] = some σ ∧
        answered (σ.replica true).trace =
          [⟨some "getSyncedBalance", some "3 0"⟩,
            ⟨some "getSyncedBalance", some "3 0"⟩] ∧
        (syncedBalances (σ.replica true).trace).length = 2 ∧
        ¬ (σ.replica true).AnswersOnce := by
  have hRuns :
      ((networkSystem Decimal twoClients).run
        [.command true "getSynchedBalance", .tick true true,
          .tick true true, .deliver true true 0,
          .deliver true true 1]).any
        (fun σ =>
          answered (σ.replica true).trace =
              [⟨some "getSyncedBalance", some "3 0"⟩,
                ⟨some "getSyncedBalance", some "3 0"⟩] ∧
            (syncedBalances (σ.replica true).trace).length =
              2) := by
    decide +kernel
  rcases (Option.any_eq_true _ _).mp hRuns with
    ⟨σ, hRun, hTwice⟩
  rcases of_decide_eq_true hTwice with ⟨hAnswers, hPrinted⟩
  refine ⟨σ, hRun, hAnswers, hPrinted, ?_⟩
  intro hOnce
  have hNodup := hOnce.answered
  rw [hAnswers] at hNodup
  simp at hNodup

end ReplicatedAccount
