import ReplicatedAccount.Client.Replica

/-
  How a client numbers and keeps its own transactions.

  The ids a client hands out are its own id and a counter.
  Everything it enqueued carries such an id, its outstanding
  collection and its multicasts only hold transactions it
  enqueued, and no list it keeps holds a null id.

  Key definitions include:
    * `Settings`
    * `issuedId`
    * `Replica.Bookkeeping`

  Key theorems include:
    * `uniqueIdOf_injective`
    * `requestDisposition_issuedId`
    * `issuedId_injective`
    * `Replica.Bookkeeping.act`
-/

------------------------------------------------------------
-- Transaction Ids
------------------------------------------------------------

namespace ReplicatedAccount

open Foundations.JavaText

/- The id text splits into the client id and the counter. -/
theorem split_uniqueIdOf
    (id counter : Int32) :
    split (uniqueIdOf id counter) =
      [intToString id, intToString counter] :=
  split_pair _ _ (space_not_mem_intToString id)
    (space_not_mem_intToString counter)
    (intToString_ne_empty counter)

/- Client id and counter can be read back from the text. -/
theorem uniqueIdOf_injective
    {id id' counter counter' : Int32}
    (hEq : uniqueIdOf id counter = uniqueIdOf id' counter') :
    id = id' ∧ counter = counter' := by
  have hSplit := congrArg split hEq
  rw [split_uniqueIdOf, split_uniqueIdOf] at hSplit
  simp only [List.cons.injEq, and_true] at hSplit
  exact ⟨intToString_injective hSplit.1,
    intToString_injective hSplit.2⟩

/- The id of the `k`th transaction a client enqueues. -/
def issuedId (id : Int32) (k : Nat) : String :=
  uniqueIdOf id (Int32.ofNat k)

/- The own-request test reads the issuer off the id. -/
theorem requestDisposition_issuedId
    {D : Type}
    (id : Int32)
    (k : Nat) :
    requestDisposition (D := D) (some (issuedId id k)) =
      .answer id := by
  simp [requestDisposition, issuedId, split_uniqueIdOf,
    arrayElement, parseInt_intToString]

/- Up to 2^32 transactions of a client have distinct ids. -/
theorem issuedId_injective
    {id id' : Int32}
    {k k' : Nat}
    (hk : k < 2 ^ 32)
    (hk' : k' < 2 ^ 32)
    (hEq : issuedId id k = issuedId id' k') :
    id = id' ∧ k = k' := by
  rcases uniqueIdOf_injective hEq with ⟨hId, hCounter⟩
  refine ⟨hId, ?_⟩
  have hBits : BitVec.ofNat 32 k = BitVec.ofNat 32 k' := by
    simpa only [Int32.toBitVec_ofNat'] using
      congrArg Int32.toBitVec hCounter
  have hNat := congrArg BitVec.toNat hBits
  rw [BitVec.toNat_ofNat, BitVec.toNat_ofNat,
    Nat.mod_eq_of_lt hk, Nat.mod_eq_of_lt hk'] at hNat
  exact hNat

end ReplicatedAccount

------------------------------------------------------------
-- Bookkeeping
------------------------------------------------------------

namespace ReplicatedAccount

open Foundations

/- The constructor arguments that a client keeps. -/
structure Settings where
  id : Int32
  fileName : String
  naiveSyncBalance : Bool
deriving DecidableEq, Repr

variable {D : Type}

namespace Replica

/-
  A replica that was constructed with the given settings and
  has only received transactions with ids.
-/
structure Bookkeeping
    (settings : Settings)
    (r : Replica D) : Prop where
  id : r.client.id = settings.id
  naive :
    r.client.naiveSyncBalance = settings.naiveSyncBalance
  counter :
    r.client.outstandingCounter =
      Int32.ofNat (enqueued r.trace).length
  ids :
    (enqueued r.trace).map (·.uniqueId) =
      (List.range (enqueued r.trace).length).map
        fun k => some (issuedId settings.id k)
  commands :
    ∀ tx ∈ enqueued r.trace,
      ∃ command, tx.command = some command ∧
        (Client.acceptsValue command ∨
          command = "getSyncedBalance")
  outstanding :
    r.client.outstandingCollection ⊆ enqueued r.trace
  multicasts :
    ∀ batch ∈ multicasts r.trace, batch ⊆ enqueued r.trace
  executedIds :
    ∀ tx ∈ r.client.executedList, tx.uniqueId ≠ none

variable {settings : Settings} {r : Replica D}

/- The `k`th enqueued transaction has the `k`th id. -/
theorem Bookkeeping.uniqueId_eq
    (hBook : Bookkeeping settings r)
    {k : Nat}
    {tx : Transaction}
    (hGet : (enqueued r.trace)[k]? = some tx) :
    tx.uniqueId = some (issuedId settings.id k) := by
  have hIndex := (List.getElem?_eq_some_iff.mp hGet).1
  have hMapped :
      ((enqueued r.trace).map (·.uniqueId))[k]? =
        some tx.uniqueId := by
    rw [List.getElem?_map, hGet]
    rfl
  rw [hBook.ids] at hMapped
  simpa [hIndex] using hMapped.symm

theorem Bookkeeping.exists_index
    (hBook : Bookkeeping settings r)
    {tx : Transaction}
    (hMember : tx ∈ enqueued r.trace) :
    ∃ k, (enqueued r.trace)[k]? = some tx ∧
      k < (enqueued r.trace).length ∧
        tx.uniqueId = some (issuedId settings.id k) := by
  rcases List.mem_iff_getElem?.mp hMember with ⟨k, hGet⟩
  exact ⟨k, hGet, (List.getElem?_eq_some_iff.mp hGet).1,
    hBook.uniqueId_eq hGet⟩

theorem Bookkeeping.uniqueId_ne_none
    (hBook : Bookkeeping settings r)
    {tx : Transaction}
    (hMember : tx ∈ enqueued r.trace) :
    tx.uniqueId ≠ none := by
  rcases hBook.exists_index hMember with ⟨k, _, _, hId⟩
  simp [hId]

theorem Bookkeeping.idsPresent
    (hBook : Bookkeeping settings r) :
    r.client.IdsPresent := by
  intro tx hMember
  rcases List.mem_append.mp hMember with hExecuted | hLocal
  · exact hBook.executedIds tx hExecuted
  · exact hBook.uniqueId_ne_none (hBook.outstanding hLocal)

/- Every multicast transaction carries an id. -/
theorem Bookkeeping.multicast_ids
    (hBook : Bookkeeping settings r)
    {batch : List Transaction}
    (hBatch : batch ∈ ReplicatedAccount.multicasts r.trace) :
    ∀ tx ∈ batch, tx.uniqueId ≠ none :=
  fun _ hTx =>
    hBook.uniqueId_ne_none (hBook.multicasts batch hBatch hTx)

variable [DoubleArithmetic D]

/- An enqueued request is addressed to its issuer. -/
theorem Bookkeeping.requests_iff
    (hBook : Bookkeeping settings r)
    {tx : Transaction}
    (hMember : tx ∈ enqueued r.trace)
    (id : Int32) :
    requests D id tx ↔
      tx.command = some "getSyncedBalance" ∧
        id = settings.id := by
  rcases hBook.exists_index hMember with ⟨k, _, _, hId⟩
  rw [ReplicatedAccount.requests_iff,
    disposition_eq_answer_iff, hId,
    requestDisposition_issuedId, Disposition.answer.injEq,
    eq_comm (a := id)]

theorem Bookkeeping.new
    (settings : Settings) :
    Bookkeeping (D := D) settings
      ⟨Client.new settings.id settings.fileName
        settings.naiveSyncBalance, []⟩ := by
  constructor <;> simp [Client.new]

/- An enqueued transaction takes the next id. -/
omit [DoubleArithmetic D] in
private theorem Bookkeeping.enqueue
    (hBook : Bookkeeping settings r)
    (command : String)
    (hCommand :
      Client.acceptsValue command ∨
        command = "getSyncedBalance") :
    Bookkeeping settings
      ⟨r.client.afterEnqueue command,
        r.trace ++
          [.enqueued (r.client.nextTransaction command)]⟩ := by
  have hEnqueued :
      enqueued
          (r.trace ++
            [.enqueued (r.client.nextTransaction command)]) =
        enqueued r.trace ++
          [r.client.nextTransaction command] := by
    simp
  have hMulticasts :
      ReplicatedAccount.multicasts
          (r.trace ++
            [.enqueued (r.client.nextTransaction command)]) =
        ReplicatedAccount.multicasts r.trace := by
    simp
  constructor
  · exact hBook.id
  · exact hBook.naive
  · rw [hEnqueued, List.length_append, Int32.ofNat_add]
    simp only [Client.afterEnqueue, hBook.counter]
    rfl
  · rw [hEnqueued]
    simp [List.range_succ, hBook.ids,
      Client.nextTransaction, issuedId, hBook.id,
      hBook.counter]
  · intro tx hMember
    rw [hEnqueued, List.mem_append,
      List.mem_singleton] at hMember
    rcases hMember with hOld | hNew
    · exact hBook.commands tx hOld
    · exact ⟨command, by simp [hNew, Client.nextTransaction],
        hCommand⟩
  · rw [hEnqueued]
    intro tx hMember
    rcases List.mem_append.mp hMember with hOld | hNew
    · exact List.mem_append_left _ (hBook.outstanding hOld)
    · exact List.mem_append_right _ hNew
  · intro batch hBatch
    rw [hMulticasts] at hBatch
    rw [hEnqueued]
    exact List.subset_append_of_subset_left _
      (hBook.multicasts batch hBatch)
  · exact hBook.executedIds

/-
  The client keeps what it was constructed with and its
  counter, and enqueues nothing; the collection may shrink.
-/
omit [DoubleArithmetic D] in
theorem Bookkeeping.of_no_enqueue
    {r' : Replica D}
    {c : Client D}
    {events : List (Event D)}
    (hBook : Bookkeeping settings r)
    (hClient : r'.client = c)
    (hKept :
      c.id = r.client.id ∧
        c.naiveSyncBalance = r.client.naiveSyncBalance ∧
          c.outstandingCounter = r.client.outstandingCounter)
    (hOutstanding :
      c.outstandingCollection ⊆ r.client.outstandingCollection)
    (hExecuted : ∀ tx ∈ c.executedList, tx.uniqueId ≠ none)
    (hTrace : r'.trace = r.trace ++ events)
    (hEnqueued : enqueued events = [])
    (hMulticasts :
      ∀ batch ∈ ReplicatedAccount.multicasts events,
        batch = r.client.outstandingCollection) :
    Bookkeeping settings r' := by
  subst hClient
  have hSame : enqueued r'.trace = enqueued r.trace := by
    simp [hTrace, hEnqueued]
  constructor
  · exact hKept.1.trans hBook.id
  · exact hKept.2.1.trans hBook.naive
  · rw [hSame]
    exact hKept.2.2.trans hBook.counter
  · rw [hSame]
    exact hBook.ids
  · rw [hSame]
    exact hBook.commands
  · rw [hSame]
    exact List.Subset.trans hOutstanding hBook.outstanding
  · intro batch hBatch
    rw [hSame]
    rw [hTrace, multicasts_append] at hBatch
    rcases List.mem_append.mp hBatch with hOld | hNew
    · exact hBook.multicasts batch hOld
    · rw [hMulticasts batch hNew]
      exact hBook.outstanding
  · exact hExecuted

/- The client stays as it is, and the log gets longer. -/
omit [DoubleArithmetic D] in
theorem Bookkeeping.of_log
    {r' : Replica D}
    {events : List (Event D)}
    (hBook : Bookkeeping settings r)
    (hClient : r'.client = r.client)
    (hTrace : r'.trace = r.trace ++ events)
    (hEnqueued : enqueued events = [])
    (hMulticasts : ReplicatedAccount.multicasts events = []) :
    Bookkeeping settings r' :=
  hBook.of_no_enqueue hClient ⟨rfl, rfl, rfl⟩
    (List.Subset.refl _) hBook.executedIds hTrace hEnqueued
    (by simp [hMulticasts])

/- Every action keeps the books. -/
theorem Bookkeeping.act
    (hBook : Bookkeeping settings r)
    (a : ReplicaAction)
    (hBatch :
      ∀ batch, a = .deliver batch →
        ∀ tx ∈ batch, tx.uniqueId ≠ none) :
    Bookkeeping settings (r.act a) := by
  have hEffect := r.act_effect a hBook.idsPresent hBatch
  generalize r.act a = r' at hEffect
  rcases hEffect with
    ⟨command, hClient, hTrace, input, _, hCommand⟩ |
      ⟨hClient, hTrace⟩ | ⟨hClient, hTrace, _⟩ |
        ⟨events, hClient, hTrace, hQuiet, _⟩ |
          ⟨batch, events, hAction, hClient, hTrace, hLog⟩
  · cases r' with
    | mk client trace =>
        subst hClient hTrace
        exact hBook.enqueue command
          (hCommand.imp And.right And.left)
  · exact hBook.of_no_enqueue hClient ⟨rfl, rfl, rfl⟩
      (List.Subset.refl _) (by simp)
      (hTrace.trans (List.append_nil _).symm) rfl (by simp)
  · exact hBook.of_no_enqueue hClient ⟨rfl, rfl, rfl⟩
      (List.Subset.refl _) hBook.executedIds hTrace rfl
      (by simp)
  · rcases hQuiet.projections with
      ⟨hEnqueued, _, _, _, hMulticasts, _⟩
    exact hBook.of_log hClient hTrace hEnqueued hMulticasts
  · refine hBook.of_no_enqueue hClient ⟨rfl, rfl, rfl⟩
      (List.filter_subset_self _) ?_ hTrace
      (by simp [hLog.enqueued]) (by simp [hLog.multicasts])
    intro tx hMember
    rcases List.mem_append.mp hMember with hOld | hNew
    · exact hBook.executedIds tx hOld
    · exact hBatch batch hAction tx
        (mem_of_mem_reached D (List.mem_filter.mp hNew).1)

end Replica

end ReplicatedAccount
