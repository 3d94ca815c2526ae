import ReplicatedAccount.Client.Acceptance
import ReplicatedAccount.Client.Ledger

/-
  What a transaction that cannot be executed does to the
  rest of its batch.

  Key definitions include:
    * `Client.Searchable`
    * `Transaction.bad`
    * `Transaction.Processable`
    * `Client.ToleratesBad`

  Key theorems include:
    * `Client.processTransaction_of_searchable`
    * `Client.result_processReceivedTransactions_iff`
    * `Client.toleratesBad_iff`
-/

------------------------------------------------------------
-- Searches of an Iteration
------------------------------------------------------------

namespace ReplicatedAccount

theorem searchSucceeds_append_present
    {uniqueId : Option String}
    {txs later : List Transaction}
    (hLater : ∀ tx ∈ later, tx.uniqueId ≠ none) :
    SearchSucceeds uniqueId (txs ++ later) ↔
      SearchSucceeds uniqueId txs := by
  induction txs with
  | nil => simp [searchSucceeds_of_present uniqueId hLater]
  | cons tx rest ih => simp [ih]

namespace Client

open Foundations Foundations.Method

variable {D : Type}

/-
  Neither the search for an executed copy nor the removal of
  a local one stops at a missing id.
-/
def Searchable
    (c : Client D)
    (tx : Transaction) : Prop :=
  SearchSucceeds tx.uniqueId c.executedList ∧
    ∀ localTx ∈ c.outstandingCollection,
      localTx.uniqueId ≠ none

/- The duplicate search fails exactly at a missing id. -/
theorem alreadyExecuted_eq_iff
    (tx : Transaction)
    (executedList : List Transaction) :
    alreadyExecuted tx executedList = .ok false ↔
      SearchSucceeds tx.uniqueId executedList := by
  induction executedList with
  | nil => simp [alreadyExecuted]
  | cons executedTx rest ih =>
      cases hId : executedTx.uniqueId with
      | none => simp [alreadyExecuted, hId]
      | some executedId =>
          by_cases hSame : some executedId = tx.uniqueId
          · simp [alreadyExecuted, hId, ← hSame]
          · simp [alreadyExecuted, hId, hSame, ih]

theorem removeLocal_of_missing
    (tx : Transaction)
    {outstanding : List Transaction}
    (hMissing : ∃ t ∈ outstanding, t.uniqueId = none) :
    removeLocal tx outstanding = .error .nullPointer := by
  induction outstanding with
  | nil =>
      rcases hMissing with ⟨t, ht, _⟩
      cases ht
  | cons localTx rest ih =>
      cases hId : localTx.uniqueId with
      | none => simp [removeLocal, hId]
      | some localId =>
          have hRest : ∃ t ∈ rest, t.uniqueId = none := by
            simpa [hId] using hMissing
          simp [removeLocal, hId, ih hRest]

variable [DoubleArithmetic D]

theorem processTransaction_of_searchable
    {tx : Transaction}
    {c : Client D}
    (hSearchable : c.Searchable tx) :
    (processTransaction tx).run c = effect tx c :=
  processTransaction_of_searches tx c
    ((alreadyExecuted_eq_iff tx _).mpr hSearchable.1)
    (removeLocal_of_idsPresent tx hSearchable.2)

/- Without a search the iteration fails before it starts. -/
theorem processTransaction_of_not_searchable
    {tx : Transaction}
    {c : Client D}
    (hNot : ¬ c.Searchable tx) :
    (processTransaction tx).run c =
      ⟨c, [.processing tx], .error .nullPointer⟩ := by
  by_cases hSearch :
      SearchSucceeds tx.uniqueId c.executedList
  · have hExecuted :=
      (alreadyExecuted_eq_iff tx c.executedList).mpr hSearch
    have hMissing :
        ∃ t ∈ c.outstandingCollection,
          t.uniqueId = none := by
      simpa [Searchable, hSearch] using hNot
    simp [processTransaction, hExecuted,
      removeLocal_of_missing tx hMissing]
  · have hExecuted :
        alreadyExecuted tx c.executedList =
          .error .nullPointer :=
      (alreadyExecuted_cases tx c.executedList).resolve_left
        (mt (alreadyExecuted_eq_iff tx _).mp hSearch)
    simp [processTransaction, hExecuted]

/- Absorbing a transaction with an id changes no search. -/
theorem searchable_absorb_iff
    {c : Client D}
    {tx t : Transaction}
    (hTx : tx.uniqueId ≠ none) :
    (c.absorb [tx]).Searchable t ↔ c.Searchable t := by
  unfold Searchable absorb
  apply and_congr
  · apply searchSucceeds_append_present
    intro u hu
    rw [List.mem_singleton.mp (List.mem_filter.mp hu).1]
    exact hTx
  · constructor
    · intro hKept localTx hLocal hNone
      refine hKept localTx ?_ hNone
      rw [List.mem_filter]
      exact ⟨hLocal, by simpa [hNone] using hTx.symm⟩
    · intro hAll localTx hLocal
      exact hAll localTx (List.mem_filter.mp hLocal).1

end Client

end ReplicatedAccount

------------------------------------------------------------
-- Batches That Return
------------------------------------------------------------

namespace ReplicatedAccount

namespace Client

open Foundations Foundations.Method

variable {D : Type} [DoubleArithmetic D]

/- The transaction is processed without an exception. -/
def Harmless
    (c : Client D)
    (tx : Transaction) : Prop :=
  aborting D tx = false ∧ c.Searchable tx

theorem result_effect_iff
    (tx : Transaction)
    (c : Client D) :
    (effect tx c).result = .ok () ↔
      aborting D tx = false := by
  rw [result_effect]
  unfold aborting
  cases disposition (D := D) tx <;> simp

/-
  A loop over harmless transactions absorbs them all; over
  any others it ends with an exception.
-/
theorem forEach_processTransaction_iff
    (batch : List Transaction)
    (c : Client D)
    (hBatch : ∀ tx ∈ batch, tx.uniqueId ≠ none) :
    (((forEach processTransaction batch).run c).result = .ok () ↔
        ∀ tx ∈ batch, c.Harmless tx) ∧
      ((∀ tx ∈ batch, c.Harmless tx) →
        ((forEach processTransaction batch).run c).state =
          c.absorb batch) := by
  induction batch generalizing c with
  | nil => simp
  | cons tx rest ih =>
      have hTx := hBatch tx (by simp)
      by_cases hSearchable : c.Searchable tx
      · have hRun := processTransaction_of_searchable hSearchable
        have hState := state_effect tx c
        have hResult := result_effect_iff tx c
        rcases hEffect : effect tx c with ⟨s', events, result⟩
        rw [hEffect] at hRun hState hResult
        dsimp only at hState hResult
        subst hState
        rcases ih (c.absorb [tx])
            (fun t ht => hBatch t (by simp [ht])) with
          ⟨hRest, hAbsorb⟩
        have hSame :
            (∀ t ∈ rest, (c.absorb [tx]).Harmless t) ↔
              ∀ t ∈ rest, c.Harmless t := by
          simp only [Harmless, searchable_absorb_iff hTx]
        rw [hSame] at hRest hAbsorb
        cases result with
        | error e =>
            have hNot : ¬ c.Harmless tx := by
              intro hHarmless
              simpa using hResult.mpr hHarmless.1
            rw [run_forEach_error hRun]
            simp [hNot]
        | ok _ =>
            have hHarmless : c.Harmless tx :=
              ⟨hResult.mp rfl, hSearchable⟩
            rw [run_forEach_ok hRun, Outcome.result_after,
              Outcome.state_after]
            refine ⟨?_, ?_⟩
            · rw [hRest]
              simp [hHarmless]
            · intro hAll
              rw [hAbsorb (fun t ht => hAll t (by simp [ht])),
                ← absorb_append]
              rfl
      · have hNot : ¬ c.Harmless tx :=
          fun hHarmless => hSearchable hHarmless.2
        rw [run_forEach_error
          (processTransaction_of_not_searchable hSearchable)]
        simp [hNot]

/- The processing of a batch, up to its notification. -/
theorem result_processReceivedTransactions_iff
    (batch : List Transaction)
    (c : Client D)
    (hBatch : ∀ tx ∈ batch, tx.uniqueId ≠ none) :
    (((processReceivedTransactions batch).run c).result =
          .ok () ↔
        ∀ tx ∈ batch, c.Harmless tx) ∧
      ((∀ tx ∈ batch, c.Harmless tx) →
        ((processReceivedTransactions batch).run c).state =
          c.absorb batch) := by
  have hLoop := forEach_processTransaction_iff batch c hBatch
  rcases hRun : (forEach processTransaction batch).run c with
    ⟨s', events, result⟩
  rw [hRun] at hLoop
  unfold processReceivedTransactions
  cases result with
  | error e =>
      rw [run_bind_error hRun]
      exact hLoop
  | ok _ =>
      rcases notifyIfEmpty_quiet s' with ⟨more, hNotify, _⟩
      rw [run_bind_ok hRun, hNotify]
      exact hLoop

end Client

end ReplicatedAccount

------------------------------------------------------------
-- Bad Transactions
------------------------------------------------------------

namespace ReplicatedAccount

open Foundations Foundations.JavaText

variable (D : Type) [DoubleArithmetic D]

/- The commands that are followed by a double. -/
def valueCommands : List String :=
  ["setBalance", "deposit", "addInterest"]

/-
  The command cannot be executed: it has an unknown name, no
  value, or a value that is not a number.
-/
def Transaction.bad (tx : Transaction) : Bool :=
  match tx.command with
  | none => true
  | some command =>
      if command = "getSyncedBalance" then
        false
      else
        match (split command)[0]?, (split command)[1]? with
        | some name, some argument =>
            name ∉ valueCommands ∨
              (DoubleArithmetic.parseDouble argument :
                Option D).isNone
        | _, _ => true

/-
  The transaction is looked at without an exception: the id
  of a balance request begins with an int, and a command that
  is followed by a double has one.
-/
def Transaction.Processable (tx : Transaction) : Prop :=
  ∃ command, tx.command = some command ∧
    (command = "getSyncedBalance" →
      ∃ uniqueId issuerText,
        tx.uniqueId = some uniqueId ∧
          (split uniqueId)[0]? = some issuerText ∧
            (parseInt issuerText).isSome) ∧
    (command ≠ "getSyncedBalance" →
      ∃ name, (split command)[0]? = some name ∧
        (name ∈ valueCommands →
          ∃ argument, (split command)[1]? = some argument ∧
            (DoubleArithmetic.parseDouble argument :
              Option D).isSome))

variable {D}

theorem commandDisposition_eq_abort_iff
    (commandParts : List String) :
    (∃ e, commandDisposition (D := D) commandParts =
        .abort e) ↔
      ¬ ∃ name, commandParts[0]? = some name ∧
        (name ∈ valueCommands →
          ∃ argument, commandParts[1]? = some argument ∧
            (DoubleArithmetic.parseDouble argument :
              Option D).isSome) := by
  unfold commandDisposition arrayElement valueDisposition
  cases commandParts[0]? with
  | none => simp
  | some name =>
      cases hArgument : commandParts[1]? with
      | none =>
          simp only [Client.commandValue, arrayElement,
            hArgument, except_error_bind, valueCommands]
          split_ifs <;> simp_all
      | some argument =>
          cases hValue :
              (DoubleArithmetic.parseDouble argument :
                Option D) <;>
            simp only [Client.commandValue, arrayElement,
              hArgument, except_ok_bind, hValue, parsed,
              valueCommands] <;>
            split_ifs <;> simp_all

omit [DoubleArithmetic D] in
theorem requestDisposition_eq_abort_iff
    (uniqueId : Option String) :
    (∃ e, requestDisposition (D := D) uniqueId = .abort e) ↔
      ¬ ∃ transactionId issuerText,
        uniqueId = some transactionId ∧
          (split transactionId)[0]? = some issuerText ∧
            (parseInt issuerText).isSome := by
  unfold requestDisposition arrayElement
  cases uniqueId with
  | none => simp
  | some transactionId =>
      cases hPart : (split transactionId)[0]? with
      | none => simp [hPart]
      | some issuerText =>
          cases hParse : parseInt issuerText <;>
            simp [hPart, hParse]

/- An exception is raised exactly on the other ones. -/
theorem aborting_eq_false_iff
    (tx : Transaction) :
    aborting D tx = false ↔ tx.Processable D := by
  have hAborting :
      aborting D tx = false ↔
        ¬ ∃ e, disposition (D := D) tx = .abort e := by
    unfold aborting
    cases disposition (D := D) tx <;> simp
  rw [hAborting]
  unfold disposition Transaction.Processable
  cases tx.command with
  | none => simp
  | some command =>
      by_cases hRequest : command = "getSyncedBalance"
      · simp only [hRequest, if_true,
          requestDisposition_eq_abort_iff, not_not]
        simp
      · simp only [hRequest, if_false,
          commandDisposition_eq_abort_iff, not_not]
        simp [hRequest]

/- An executable transaction is not bad. -/
theorem bad_eq_false_of_executable
    {tx : Transaction}
    (hExecutable : executable D tx) :
    tx.bad D = false := by
  rcases (tx.wellFormed_iff_executable).mpr hExecutable with
    ⟨command, hCommand, hName, argument, hArgument, hValue⟩
  unfold Transaction.bad
  rw [hCommand]
  by_cases hRequest : command = "getSyncedBalance"
  · simp [hRequest]
  · rcases hName with hName | hName <;>
      simp [hRequest, hName, hArgument, valueCommands,
        Option.isSome_iff_ne_none.mp hValue]

/- Bad transactions change neither balance nor history. -/
theorem filter_executable_good
    (batch : List Transaction) :
    (batch.filter fun tx => !tx.bad D).filter (executable D) =
      batch.filter (executable D) := by
  rw [List.filter_filter]
  apply List.filter_congr
  intro tx _
  cases hExecutable : executable D tx with
  | false => rfl
  | true => simp [bad_eq_false_of_executable hExecutable]

end ReplicatedAccount

------------------------------------------------------------
-- Batches With Bad Transactions
------------------------------------------------------------

namespace ReplicatedAccount

open Foundations Foundations.JavaText Foundations.Method

variable {D : Type} [DoubleArithmetic D]

namespace Client

/-
  The batch is processed without an exception, with the
  effect of its good transactions alone, and nothing with an
  id of the batch stays outstanding.
-/
structure ToleratesBad
    (c : Client D)
    (batch : List Transaction) : Prop where
  result :
    ((processReceivedTransactions batch).run c).result = .ok ()
  balance :
    ((processReceivedTransactions batch).run c).state.balance =
      ((processReceivedTransactions
        (batch.filter fun tx => !tx.bad D)).run
          c).state.balance
  orderCounter :
    ((processReceivedTransactions batch).run
        c).state.orderCounter =
      ((processReceivedTransactions
        (batch.filter fun tx => !tx.bad D)).run
          c).state.orderCounter
  executedList :
    ((processReceivedTransactions batch).run
        c).state.executedList =
      ((processReceivedTransactions
        (batch.filter fun tx => !tx.bad D)).run
          c).state.executedList
  removed :
    ∀ tx ∈ batch,
      ∀ localTx ∈
          ((processReceivedTransactions batch).run
            c).state.outstandingCollection,
        localTx.uniqueId ≠ tx.uniqueId

/-
  A batch tolerates its bad transactions exactly when every
  member can be looked at without an exception: nothing that
  raises one is contained, and no id is missing where the
  client searches.
-/
theorem toleratesBad_iff
    (c : Client D)
    (batch : List Transaction)
    (hBatch : ∀ tx ∈ batch, tx.uniqueId ≠ none) :
    c.ToleratesBad batch ↔
      ∀ tx ∈ batch, tx.Processable D ∧ c.Searchable tx := by
  have hHarmless :
      (∀ tx ∈ batch, c.Harmless tx) ↔
        ∀ tx ∈ batch, tx.Processable D ∧ c.Searchable tx := by
    simp only [Harmless, aborting_eq_false_iff]
  rcases result_processReceivedTransactions_iff batch c hBatch
    with ⟨hReturns, hAbsorbs⟩
  rw [← hHarmless]
  constructor
  · intro hTolerates
    exact hReturns.mp hTolerates.result
  · intro hAll
    have hGood :=
      (result_processReceivedTransactions_iff
        (batch.filter fun tx => !tx.bad D) c
        (fun tx hTx =>
          hBatch tx (List.mem_filter.mp hTx).1)).2
        (fun tx hTx => hAll tx (List.mem_filter.mp hTx).1)
    constructor
    · exact hReturns.mpr hAll
    · rw [hAbsorbs hAll, hGood]
      simp only [absorb]
      rw [← replay_filter_executable _ batch,
        ← filter_executable_good, replay_filter_executable]
    · rw [hAbsorbs hAll, hGood]
      simp only [absorb, filter_executable_good]
    · rw [hAbsorbs hAll, hGood]
      simp only [absorb, filter_executable_good]
    · rw [hAbsorbs hAll]
      intro tx hTx localTx hLocal hSame
      have hKept := (List.mem_filter.mp hLocal).2
      rw [decide_eq_true_eq, List.mem_map] at hKept
      exact hKept ⟨tx, hTx, hSame.symm⟩

/- A batch with an unknown command and a deposit. -/
theorem toleratesBad_unknown_command :
    (Client.new 7 "" false : Client Decimal).ToleratesBad
      [⟨some "depositX 5", some "3 0"⟩,
        ⟨some "deposit 5", some "3 1"⟩] := by
  refine (toleratesBad_iff (Client.new 7 "" false) _
    (by decide)).mpr ?_
  intro tx hTx
  refine ⟨(aborting_eq_false_iff tx).mp ?_, by
    simp [Searchable, Client.new]⟩
  revert tx
  decide +kernel

/-
  `deposit abc` in front of a deposit: the batch ends with a
  `NumberFormatException`, the deposit is not executed and
  stays outstanding.
-/
theorem bad_deposit_takes_batch_down :
    ((processReceivedTransactions
        [⟨some "deposit abc", some "7 0"⟩,
          ⟨some "deposit 5", some "7 1"⟩]).run
      ({ (Client.new 7 "" false : Client Decimal) with
        outstandingCounter := 2
        outstandingCollection :=
          [⟨some "deposit abc", some "7 0"⟩,
            ⟨some "deposit 5", some "7 1"⟩] })).result =
        .error .numberFormat ∧
      ((processReceivedTransactions
        [⟨some "deposit abc", some "7 0"⟩,
          ⟨some "deposit 5", some "7 1"⟩]).run
        ({ (Client.new 7 "" false : Client Decimal) with
          outstandingCounter := 2
          outstandingCollection :=
            [⟨some "deposit abc", some "7 0"⟩,
              ⟨some "deposit 5", some "7 1"⟩] })).state =
        { (Client.new 7 "" false : Client Decimal) with
          outstandingCounter := 2
          outstandingCollection :=
            [⟨some "deposit 5", some "7 1"⟩] } ∧
      ¬ ({ (Client.new 7 "" false : Client Decimal) with
          outstandingCounter := 2
          outstandingCollection :=
            [⟨some "deposit abc", some "7 0"⟩,
              ⟨some "deposit 5", some "7 1"⟩] } :
          Client Decimal).ToleratesBad
        [⟨some "deposit abc", some "7 0"⟩,
          ⟨some "deposit 5", some "7 1"⟩] := by
  refine ⟨by decide +kernel, by decide +kernel, ?_⟩
  intro hTolerates
  have hResult := hTolerates.result
  revert hResult
  decide +kernel

end Client

end ReplicatedAccount
