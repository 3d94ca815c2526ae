import ReplicatedAccount.Client.ExactArithmetic
import ReplicatedAccount.Network.Reachable
import Mathlib.Data.List.Nodup

/-
  Transaction ids identify transactions and their issuers,
  as long as client ids differ and no client has used its
  whole 32-bit counter.

  Key theorems include:
    * `Network.Sound.eq_of_uniqueId_eq`
    * `Network.Sound.issued_nodup`
    * `Network.Sound.outstanding_of_other_sender`
    * `uniqueIds_identify`
-/

------------------------------------------------------------
-- Issuers
------------------------------------------------------------

namespace ReplicatedAccount

open Foundations Foundations.JavaText

variable {ι D : Type} [DoubleArithmetic D]

namespace Network

/- No client has used the same counter value twice. -/
def CountersDistinct (σ : Network ι D) : Prop :=
  ∀ i, (σ.issued i).length ≤ 2 ^ 32

variable {settings : ι → Settings}
variable {σ : Network ι D}

/- Two positions with the same id are the same position. -/
theorem Sound.position_of_uniqueId_eq
    (hSound : σ.Sound settings)
    (hClients : Function.Injective fun i => (settings i).id)
    (hCounters : σ.CountersDistinct)
    {i j : ι}
    {m n : Nat}
    {tx tx' : Transaction}
    (hGet : (σ.issued i)[m]? = some tx)
    (hGet' : (σ.issued j)[n]? = some tx')
    (hEq : tx.uniqueId = tx'.uniqueId) :
    i = j ∧ m = n := by
  have hIndex : m < 2 ^ 32 :=
    Nat.lt_of_lt_of_le (List.getElem?_eq_some_iff.mp hGet).1
      (hCounters i)
  have hIndex' : n < 2 ^ 32 :=
    Nat.lt_of_lt_of_le (List.getElem?_eq_some_iff.mp hGet').1
      (hCounters j)
  rw [(hSound.books i).uniqueId_eq hGet,
    (hSound.books j).uniqueId_eq hGet',
    Option.some.injEq] at hEq
  have hParts := issuedId_injective hIndex hIndex' hEq
  exact ⟨hClients hParts.1, hParts.2⟩

theorem Sound.eq_of_uniqueId_eq
    (hSound : σ.Sound settings)
    (hClients : Function.Injective fun i => (settings i).id)
    (hCounters : σ.CountersDistinct)
    {i j : ι}
    {tx tx' : Transaction}
    (hTx : tx ∈ σ.issued i)
    (hTx' : tx' ∈ σ.issued j)
    (hEq : tx.uniqueId = tx'.uniqueId) :
    i = j ∧ tx = tx' := by
  rcases List.mem_iff_getElem?.mp hTx with ⟨m, hGet⟩
  rcases List.mem_iff_getElem?.mp hTx' with ⟨n, hGet'⟩
  rcases hSound.position_of_uniqueId_eq hClients hCounters
      hGet hGet' hEq with
    ⟨rfl, rfl⟩
  exact ⟨rfl, Option.some.inj (hGet.symm.trans hGet')⟩

/- A client never enqueues the same transaction twice. -/
theorem Sound.issued_nodup
    (hSound : σ.Sound settings)
    (hCounters : σ.CountersDistinct)
    (i : ι) :
    (σ.issued i).Nodup := by
  apply List.Nodup.of_map (·.uniqueId)
  rw [issued, (hSound.books i).ids]
  apply List.Nodup.map_on ?_ List.nodup_range
  intro m hm n hn hEq
  have hBound : ∀ p ∈ List.range (σ.issued i).length,
      p < 2 ^ 32 := by
    intro p hp
    exact Nat.lt_of_lt_of_le (List.mem_range.mp hp)
      (hCounters i)
  exact (issuedId_injective (hBound m hm) (hBound n hn)
    (Option.some.inj hEq)).2

/- The processing of an id finds its issuer and nobody else. -/
theorem Sound.issuer_of_uniqueId
    (hSound : σ.Sound settings)
    (hClients : Function.Injective fun i => (settings i).id)
    {i : ι}
    {tx : Transaction}
    (hTx : tx ∈ σ.issued i) :
    ∃ uniqueId issuerText,
      tx.uniqueId = some uniqueId ∧
        arrayElement (split uniqueId) 0 = .ok issuerText ∧
          ∀ j,
            parseInt issuerText = some (settings j).id ↔
              j = i := by
  rcases (hSound.books i).exists_index hTx with
    ⟨k, _, _, hId⟩
  refine ⟨issuedId (settings i).id k,
    intToString (settings i).id, hId, ?_, ?_⟩
  · simp [issuedId, split_uniqueIdOf, arrayElement]
  · intro j
    rw [parseInt_intToString, Option.some.injEq]
    constructor
    · exact fun hSame => (hClients hSame).symm
    · rintro rfl
      rfl

/- A batch of one sender removes nothing from another. -/
theorem Sound.outstanding_of_other_sender
    (hSound : σ.Sound settings)
    (hClients : Function.Injective fun i => (settings i).id)
    (hCounters : σ.CountersDistinct)
    {i j : ι}
    (hOther : j ≠ i)
    {batch : List Transaction}
    (hBatch : batch ∈ σ.sent i) :
    ((σ.replica j).client.absorb
        (reached D batch)).outstandingCollection =
      (σ.replica j).client.outstandingCollection := by
  apply List.filter_eq_self.mpr
  intro localTx hLocal
  have hIssued := (hSound.books j).outstanding hLocal
  rw [decide_eq_true_eq]
  intro hRemoved
  rcases List.mem_map.mp hRemoved with ⟨tx, hTx, hEq⟩
  have hSent : tx ∈ σ.issued i :=
    (hSound.books i).multicasts batch hBatch
      (mem_of_mem_reached D hTx)
  exact hOther
    (hSound.eq_of_uniqueId_eq hClients hCounters hSent
      hIssued hEq).1.symm

end Network

end ReplicatedAccount

------------------------------------------------------------
-- Identification
------------------------------------------------------------

namespace ReplicatedAccount

open Foundations Foundations.JavaText

variable {ι D : Type} [DecidableEq ι] [DoubleArithmetic D]

/-
  In every reachable state of a network whose clients have
  different ids and enqueued at most 2^32 transactions each:
  no two transactions ever enqueued share an id, the issuer
  test on an id succeeds for its issuer alone, and delivering
  a batch of one client takes nothing out of the outstanding
  collection of another.
-/
theorem uniqueIds_identify
    (settings : ι → Settings)
    (hClients : Function.Injective fun i => (settings i).id)
    (actions : List (NetworkAction ι))
    (σ : Network ι D)
    (hRun : (networkSystem D settings).run actions = some σ)
    (hCounters : σ.CountersDistinct) :
    (∀ i j (m n : Nat) (tx tx' : Transaction),
      (σ.issued i)[m]? = some tx →
        (σ.issued j)[n]? = some tx' →
          tx.uniqueId = tx'.uniqueId → i = j ∧ m = n) ∧
      (∀ i, ∀ tx ∈ σ.issued i,
        ∃ uniqueId issuerText,
          tx.uniqueId = some uniqueId ∧
            arrayElement (split uniqueId) 0 = .ok issuerText ∧
              ∀ j,
                parseInt issuerText = some (settings j).id ↔
                  j = i) ∧
      (∀ i j, j ≠ i → ∀ batch ∈ σ.sent i,
        ((Client.processReceivedTransactions batch).run
            (σ.replica j).client).state.outstandingCollection =
          (σ.replica j).client.outstandingCollection) := by
  have hSound := sound_of_run hRun
  refine ⟨?_, ?_, ?_⟩
  · intro i j m n tx tx' hGet hGet' hEq
    exact hSound.position_of_uniqueId_eq hClients hCounters
      hGet hGet' hEq
  · intro i tx hTx
    exact hSound.issuer_of_uniqueId hClients hTx
  · intro i j hOther batch hBatch
    have hOutcome :=
      Client.processReceivedTransactions_outcome batch
        (σ.replica j).client (hSound.books j).idsPresent
        (hSound.sent_ids hBatch)
    rw [hOutcome.state]
    exact hSound.outstanding_of_other_sender hClients
      hCounters hOther hBatch

/- A run of two clients satisfies the hypotheses. -/
theorem uniqueIds_identify_twoClients :
    ∃ σ : Network Bool Decimal,
      (networkSystem Decimal twoClients).run
          [.command true "deposit 5",
            .command true "getSynchedBalance",
            .command false "deposit 5", .tick true true,
            .deliver false true 0] = some σ ∧
        ∀ i j (m n : Nat) (tx tx' : Transaction),
          (σ.issued i)[m]? = some tx →
            (σ.issued j)[n]? = some tx' →
              tx.uniqueId = tx'.uniqueId → i = j ∧ m = n := by
  have hRuns :
      ((networkSystem Decimal twoClients).run
        [.command true "deposit 5",
          .command true "getSynchedBalance",
          .command false "deposit 5", .tick true true,
          .deliver false true 0]).any
        (fun σ => ∀ i, (σ.issued i).length ≤ 2 ^ 32) := by
    decide +kernel
  rcases (Option.any_eq_true _ _).mp hRuns with
    ⟨σ, hRun, hCounters⟩
  refine ⟨σ, hRun, ?_⟩
  exact (uniqueIds_identify twoClients twoClients_injective _ σ
    hRun (by
      simpa [Network.CountersDistinct] using hCounters)).1

end ReplicatedAccount
