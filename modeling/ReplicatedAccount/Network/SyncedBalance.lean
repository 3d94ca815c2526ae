import ReplicatedAccount.Client.ExactArithmetic
import ReplicatedAccount.Client.Acceptance
import ReplicatedAccount.Network.Queues

/-
  What a synchronised balance contains, when the delivery
  service keeps the order of each sender.

  Key theorems include:
    * `Network.Ordered.processed_before_first`
    * `synced_balance_at_request`
-/

------------------------------------------------------------
-- The Cut at a Request
------------------------------------------------------------

namespace ReplicatedAccount

open Foundations

variable {ι D : Type} [DecidableEq ι] [DoubleArithmetic D]

namespace Network

variable {settings : ι → Settings}
variable {σ : Network ι D}

/-
  When a client looks at an own transaction for the first
  time, it has looked at exactly those own transactions that
  it enqueued before it.
-/
theorem Ordered.processed_before_first
    (hOrdered : σ.Ordered settings)
    (hClients : Function.Injective fun i => (settings i).id)
    {client : ι}
    {g : Transaction}
    {earlier later : List Transaction}
    {before after : List (Event D)}
    (hIssued : σ.issued client = earlier ++ g :: later)
    (hTrace :
      (σ.replica client).trace =
        before ++ .processing g :: after)
    (hFirst : .processing g ∉ before)
    {tx : Transaction}
    (hTx : tx ∈ σ.issued client) :
    tx ∈ processed before ↔ tx ∈ earlier := by
  have hNodup :=
    hOrdered.sound.issued_nodup hOrdered.counters client
  have hProcessed :=
    hOrdered.sound.processed_of_client hClients
      hOrdered.counters client client
  have hPrefix := hOrdered.coveredBy_isPrefix client client
  have hOwn : g ∈ σ.issued client := by simp [hIssued]
  have hSplit :
      σ.coveredBy client client =
        (processed before).filter (· ∈ σ.issued client) ++
          g ::
            (processed after).filter
              (· ∈ σ.issued client) := by
    rw [← hProcessed, hTrace]
    simp [hOwn]
  have hNew :
      g ∉ (processed before).filter (· ∈ σ.issued client) := by
    rw [List.mem_filter, mem_processed_iff]
    exact fun hOld => hFirst hOld.1
  rw [hSplit, hIssued] at hPrefix
  rw [hIssued] at hNodup hNew
  have hEarlier :=
    eraseDups_before_first hNew hNodup hPrefix
  rw [← hEarlier, List.mem_eraseDups, List.mem_filter,
    ← hIssued]
  simp [hTx]

end Network

/-
  When a client looks at its balance request `g` for the
  first time, it has executed every well-formed transaction
  that it enqueued before `g` and none that it enqueued after
  `g`, and it prints the replay of all it has executed.
-/
theorem synced_balance_at_request
    (settings : ι → Settings)
    (hClients : Function.Injective fun i => (settings i).id)
    (actions : List (NetworkAction ι))
    (σ : Network ι D)
    (hRun : (fifoSystem D settings).run actions = some σ)
    (hCounters : σ.CountersDistinct)
    (client : ι)
    (g : Transaction)
    (hRequest : g.command = some "getSyncedBalance")
    (earlier later : List Transaction)
    (hIssued : σ.issued client = earlier ++ g :: later)
    (before after : List (Event D))
    (hTrace :
      (σ.replica client).trace =
        before ++ .processing g :: after)
    (hFirst : .processing g ∉ before) :
    (∀ tx ∈ earlier, tx.WellFormed D → tx ∈ applied before) ∧
      (∀ tx ∈ later, tx ∉ applied before) ∧
      ∃ rest,
        after =
          .println
              (.balance "Correct Synced Balance: "
                (replay DoubleArithmetic.zero
                  (applied before))) ::
            rest := by
  have hOrdered := ordered_of_run hClients hRun hCounters
  have hBefore :
      ∀ tx ∈ σ.issued client,
        (tx ∈ processed before ↔ tx ∈ earlier) :=
    fun tx hTx => hOrdered.processed_before_first hClients
      hIssued hTrace hFirst hTx
  have hNodup := hOrdered.sound.issued_nodup hCounters client
  rw [hIssued] at hNodup hBefore
  rcases (hOrdered.sound.chronicles client).at_processing
      hTrace with
    ⟨hChronicle, rest, hIteration⟩
  refine ⟨?_, ?_, ?_⟩
  · intro tx hEarlier hWellFormed
    rw [hChronicle.applied_eq, List.mem_filter]
    exact ⟨(hBefore tx (by simp [hEarlier])).mpr hEarlier,
      tx.wellFormed_iff_executable.mp hWellFormed⟩
  · intro tx hLater hExecuted
    rw [hChronicle.applied_eq, List.mem_filter] at hExecuted
    have hEarlier :=
      (hBefore tx (by simp [hLater])).mp hExecuted.1
    exact (List.nodup_append.mp hNodup).2.2 tx hEarlier tx
      (by simp [hLater]) rfl
  · have hOwn : g ∈ σ.issued client := by simp [hIssued]
    have hAddressed :
        requests D (settings client).id g :=
      ((hOrdered.sound.books client).requests_iff hOwn _).mpr
        ⟨hRequest, rfl⟩
    rw [iterationEvents_of_requests _ _ _ hAddressed]
      at hIteration
    exact ⟨.answered g :: rest, by simpa using hIteration⟩

/-
  A deposit before the request is in the answer, an interest
  after it is not.
-/
theorem synced_balance_at_request_twoClients :
    ∃ (σ : Network Bool Decimal)
        (before after : List (Event Decimal)),
      (fifoSystem Decimal twoClients).run
          [.command true "deposit 100",
            .command true "getSynchedBalance",
            .command true "addInterest 10", .tick true true,
            .deliver true true 0] = some σ ∧
        (σ.replica true).trace =
          before ++
            .processing
              ⟨some "getSyncedBalance", some "3 1"⟩ ::
                after ∧
        applied before =
          [⟨some "deposit 100", some "3 0"⟩] ∧
        ∃ rest,
          after =
            .println
                (.balance "Correct Synced Balance: "
                  (replay DoubleArithmetic.zero
                    (applied before))) ::
              rest := by
  have hRuns :
      ((fifoSystem Decimal twoClients).run
        [.command true "deposit 100",
          .command true "getSynchedBalance",
          .command true "addInterest 10", .tick true true,
          .deliver true true 0]).any
        (fun σ =>
          (∀ i, (σ.issued i).length ≤ 2 ^ 32) ∧
            σ.issued true =
              [⟨some "deposit 100", some "3 0"⟩] ++
                ⟨some "getSyncedBalance", some "3 1"⟩ ::
                  [⟨some "addInterest 10", some "3 2"⟩] ∧
            (σ.replica true).trace =
              (σ.replica true).trace.take 6 ++
                .processing
                  ⟨some "getSyncedBalance", some "3 1"⟩ ::
                    (σ.replica true).trace.drop 7 ∧
            .processing
                ⟨some "getSyncedBalance", some "3 1"⟩ ∉
              (σ.replica true).trace.take 6 ∧
            applied ((σ.replica true).trace.take 6) =
              [⟨some "deposit 100", some "3 0"⟩]) := by
    decide +kernel
  rcases (Option.any_eq_true _ _).mp hRuns with
    ⟨σ, hRun, hFacts⟩
  rcases of_decide_eq_true hFacts with
    ⟨hCounters, hIssued, hTrace, hFirst, hApplied⟩
  refine ⟨σ, _, _, hRun, hTrace, hApplied, ?_⟩
  exact (synced_balance_at_request twoClients
    twoClients_injective _ σ hRun hCounters true _ rfl _ _
    hIssued _ _ hTrace hFirst).2.2

end ReplicatedAccount
