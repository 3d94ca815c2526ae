import ReplicatedAccount.Client.ExactArithmetic
import ReplicatedAccount.Client.Acceptance
import ReplicatedAccount.Network.Queues

/-
  What becomes of the transactions of one client, when the
  delivery service keeps the order of each sender.

  Key theorems include:
    * `executed_in_program_order`
    * `Ordered.outstanding_iff`
    * `no_transaction_lost`
-/

------------------------------------------------------------
-- Program Order
------------------------------------------------------------

namespace ReplicatedAccount

open Foundations

variable {ι D : Type} [DecidableEq ι] [DoubleArithmetic D]

/-
  The transactions of a client that a replica has executed,
  in the order of their first execution, are the first ones
  of the well-formed transactions the client has enqueued.
-/
theorem executed_in_program_order
    (settings : ι → Settings)
    (hClients : Function.Injective fun i => (settings i).id)
    (actions : List (NetworkAction ι))
    (σ : Network ι D)
    (hRun : (fifoSystem D settings).run actions = some σ)
    (hCounters : σ.CountersDistinct)
    (receiver client : ι) :
    ((applied (σ.replica receiver).trace).filter
        (· ∈ σ.issued client)).eraseDups <+:
      (σ.issued client).filter (·.WellFormed D) := by
  have hOrdered := ordered_of_run hClients hRun hCounters
  have hExecuted :
      (applied (σ.replica receiver).trace).filter
          (· ∈ σ.issued client) =
        (σ.coveredBy receiver client).filter
          (executable D) := by
    rw [(hOrdered.sound.chronicles receiver).applied_eq,
      ← hOrdered.sound.processed_of_client hClients hCounters,
      List.filter_filter, List.filter_filter]
    apply List.filter_congr
    intro tx _
    exact Bool.and_comm _ _
  have hWellFormed :
      (σ.issued client).filter (·.WellFormed D) =
        (σ.issued client).filter (executable D) := by
    apply List.filter_congr
    intro tx _
    simp [tx.wellFormed_iff_executable]
  rw [hExecuted, hWellFormed, eraseDups_filter]
  exact (hOrdered.coveredBy_isPrefix receiver client).filter _

/-
  A run with overlapping windows and a command that ends a
  batch satisfies the hypotheses.
-/
theorem executed_in_program_order_twoClients :
    ∃ σ : Network Bool Decimal,
      (fifoSystem Decimal twoClients).run
          [.command true "deposit 5", .tick true true,
            .command true "deposit abc",
            .command true "addInterest 7", .tick true true,
            .deliver true true 0, .deliver true true 1,
            .deliver false true 0] = some σ ∧
        ((applied (σ.replica true).trace).filter
            (· ∈ σ.issued true)).eraseDups <+:
          (σ.issued true).filter (·.WellFormed Decimal) := by
  have hRuns :
      ((fifoSystem Decimal twoClients).run
        [.command true "deposit 5", .tick true true,
          .command true "deposit abc",
          .command true "addInterest 7", .tick true true,
          .deliver true true 0, .deliver true true 1,
          .deliver false true 0]).any
        (fun σ => ∀ i, (σ.issued i).length ≤ 2 ^ 32) := by
    decide +kernel
  rcases (Option.any_eq_true _ _).mp hRuns with
    ⟨σ, hRun, hCounters⟩
  exact ⟨σ, hRun,
    executed_in_program_order twoClients twoClients_injective
      _ σ hRun
      (by simpa [Network.CountersDistinct] using hCounters)
      true true⟩

end ReplicatedAccount

------------------------------------------------------------
-- Nothing Is Lost
------------------------------------------------------------

namespace ReplicatedAccount

open Foundations

variable {ι D : Type} [DecidableEq ι] [DoubleArithmetic D]

namespace Network

variable {settings : ι → Settings}
variable {σ : Network ι D}

/-
  At its issuer, a transaction is outstanding exactly as long
  as the issuer has not looked at it.
-/
theorem Ordered.outstanding_iff
    (hOrdered : σ.Ordered settings)
    {client : ι}
    {tx : Transaction}
    (hIssued : tx ∈ σ.issued client) :
    tx ∈ (σ.replica client).client.outstandingCollection ↔
      tx ∉ σ.coveredBy client client := by
  have hNodup :=
    hOrdered.sound.issued_nodup hOrdered.counters client
  rw [hOrdered.issued_eq client] at hNodup hIssued
  have hDisjoint := (List.nodup_append.mp hNodup).2.2
  constructor
  · intro hOutstanding hCovered
    exact hDisjoint tx (by simpa using hCovered) tx
      hOutstanding rfl
  · intro hNotCovered
    rcases List.mem_append.mp hIssued with hSeen | hOutstanding
    · exact absurd (by simpa using hSeen) hNotCovered
    · exact hOutstanding

/- It is outstanding at most once. -/
theorem Ordered.outstanding_nodup
    (hOrdered : σ.Ordered settings)
    (client : ι) :
    (σ.replica client).client.outstandingCollection.Nodup := by
  have hNodup :=
    hOrdered.sound.issued_nodup hOrdered.counters client
  rw [hOrdered.issued_eq client] at hNodup
  exact (List.nodup_append.mp hNodup).2.1

/-
  A replica that has received as many messages of a client as
  the client itself has looked at the same transactions.
-/
theorem Ordered.coveredBy_of_received
    (hOrdered : σ.Ordered settings)
    {client receiver : ι}
    (hReceived :
      (σ.received client client).length ≤
        (σ.received receiver client).length) :
    σ.coveredBy client client <+:
      σ.coveredBy receiver client :=
  covered_of_isPrefix _
    (List.prefix_of_prefix_length_le
      (hOrdered.received client client)
      (hOrdered.received receiver client) hReceived)

end Network

/-
  Every well-formed transaction a client has enqueued is
  outstanding there once, or executed there, and not both.
  When it is no longer outstanding, it has been executed by
  every replica with as many messages of the client as the
  client itself.
-/
theorem no_transaction_lost
    (settings : ι → Settings)
    (hClients : Function.Injective fun i => (settings i).id)
    (actions : List (NetworkAction ι))
    (σ : Network ι D)
    (hRun : (fifoSystem D settings).run actions = some σ)
    (hCounters : σ.CountersDistinct)
    (client : ι)
    (tx : Transaction)
    (hIssued : tx ∈ σ.issued client)
    (hWellFormed : tx.WellFormed D) :
    (((σ.replica client).client.outstandingCollection.count
            tx = 1 ∧
          tx ∉ applied (σ.replica client).trace) ∨
        ((σ.replica client).client.outstandingCollection.count
            tx = 0 ∧
          tx ∈ applied (σ.replica client).trace)) ∧
      (tx ∉ (σ.replica client).client.outstandingCollection →
        ∀ receiver,
          (σ.received client client).length ≤
              (σ.received receiver client).length →
            tx ∈ applied (σ.replica receiver).trace) := by
  have hOrdered := ordered_of_run hClients hRun hCounters
  have hExecutable := tx.wellFormed_iff_executable.mp hWellFormed
  have hApplied : ∀ receiver,
      tx ∈ applied (σ.replica receiver).trace ↔
        tx ∈ σ.coveredBy receiver client := by
    intro receiver
    rw [hOrdered.sound.mem_applied_iff hClients hCounters
      receiver hIssued]
    exact and_iff_left hExecutable
  have hOutstanding := hOrdered.outstanding_iff hIssued
  refine ⟨?_, ?_⟩
  · by_cases hCovered : tx ∈ σ.coveredBy client client
    · refine Or.inr ⟨?_, (hApplied client).mpr hCovered⟩
      rw [List.count_eq_zero, hOutstanding]
      exact not_not_intro hCovered
    · refine Or.inl ⟨?_, fun hExecuted =>
        hCovered ((hApplied client).mp hExecuted)⟩
      exact List.count_eq_one_of_mem
        (hOrdered.outstanding_nodup client)
        (hOutstanding.mpr hCovered)
  · intro hLeft receiver hReceived
    have hCovered : tx ∈ σ.coveredBy client client :=
      not_not.mp fun hNot => hLeft (hOutstanding.mpr hNot)
    exact (hApplied receiver).mpr
      ((hOrdered.coveredBy_of_received hReceived).subset
        hCovered)

/- A deposit that came back has been executed there. -/
theorem no_transaction_lost_twoClients :
    ∃ σ : Network Bool Decimal,
      (fifoSystem Decimal twoClients).run
          [.command true "deposit 5", .tick true true,
            .deliver true true 0, .deliver false true 0] =
            some σ ∧
        (⟨some "deposit 5", some "3 0"⟩ : Transaction) ∉
          (σ.replica true).client.outstandingCollection ∧
        ⟨some "deposit 5", some "3 0"⟩ ∈
          applied (σ.replica false).trace := by
  have hRuns :
      ((fifoSystem Decimal twoClients).run
        [.command true "deposit 5", .tick true true,
          .deliver true true 0, .deliver false true 0]).any
        (fun σ =>
          (∀ i, (σ.issued i).length ≤ 2 ^ 32) ∧
            ⟨some "deposit 5", some "3 0"⟩ ∈
              σ.issued true ∧
            (⟨some "deposit 5", some "3 0"⟩ : Transaction) ∉
              (σ.replica true).client.outstandingCollection ∧
            (σ.received true true).length ≤
              (σ.received false true).length) := by
    decide +kernel
  rcases (Option.any_eq_true _ _).mp hRuns with
    ⟨σ, hRun, hFacts⟩
  rcases of_decide_eq_true hFacts with
    ⟨hCounters, hIssued, hLeft, hReceived⟩
  refine ⟨σ, hRun, hLeft, ?_⟩
  exact (no_transaction_lost twoClients twoClients_injective
    _ σ hRun hCounters true _ hIssued
    (by decide +kernel)).2 hLeft false hReceived

end ReplicatedAccount
