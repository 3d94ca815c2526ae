import ReplicatedAccount.Client.Language
import ReplicatedAccount.Network.Reachable

/-
  Asking for the status of a transaction.

  The ids that clients give out contain a space, and the
  dispatcher takes exactly one space-separated argument.

  Key definitions include:
    * `Client.ReportsStatus`
    * `Askable`

  Key theorems include:
    * `Network.Sound.exists_issuer`
    * `reportsStatus_iff_askable`
-/

------------------------------------------------------------
-- Status Queries
------------------------------------------------------------

namespace ReplicatedAccount

open Foundations Foundations.JavaText Foundations.Method

/-
  The query for an id passes the syntax check and reports the
  status of the transaction with this id.
-/
def Client.ReportsStatus
    {D : Type}
    (c : Client D)
    (transactionId : String) : Prop :=
  ∃ shown,
    (processCommand ("checkTxStatus " ++ transactionId)).run c =
      ⟨c,
        [.errPrintln
          ("Transaction with ID " ++ shown ++
            " has status: " ++ c.statusOf transactionId)],
        .ok ()⟩

/-
  Apart from blanks at its end, which trimming drops, the id
  is a single nonempty part.
-/
def Askable (transactionId : String) : Prop :=
  withoutTrailingBlanks transactionId ≠ "" ∧
    ' ' ∉ (withoutTrailingBlanks transactionId).toList

variable {D : Type}

theorem trim_statusQuery
    (transactionId : String) :
    trim ("checkTxStatus " ++ transactionId) =
      if withoutTrailingBlanks transactionId = "" then
        "checkTxStatus"
      else
        "checkTxStatus" ++ " " ++
          withoutTrailingBlanks transactionId :=
  trim_word_append "checkTxStatus" (by decide)
    (by simp [isBlank]) transactionId

/- The query has two parts exactly when the id is askable. -/
theorem length_split_statusQuery
    (transactionId : String) :
    (split (trim ("checkTxStatus " ++ transactionId))).length =
        2 ↔
      Askable transactionId := by
  rw [trim_statusQuery]
  unfold Askable
  rcases withoutTrailingBlanks_cases transactionId with
    hEmpty | ⟨cs, c, hChars, hVisible⟩
  · simp only [hEmpty, if_true, ne_eq, not_true_eq_false,
      false_and, iff_false]
    decide
  · have hNonempty :
        withoutTrailingBlanks transactionId ≠ "" := by
      intro hEmpty
      simp [hEmpty] at hChars
    rw [if_neg hNonempty]
    exact Iff.trans
      (length_split_word_append "checkTxStatus"
        (by decide) hChars (ne_space_of_visible hVisible))
      (and_iff_right hNonempty).symm

theorem startsWith_statusQuery
    (transactionId : String) :
    startsWith (trim ("checkTxStatus " ++ transactionId))
      "checkTxStatus" := by
  rw [trim_statusQuery, startsWith_iff]
  split_ifs
  · exact List.prefix_rfl
  · exact ⟨_, by
      rw [String.toList_append, String.toList_append,
        List.append_assoc]⟩

theorem selected_statusQuery
    (transactionId : String) :
    CommandName.selected
        (trim ("checkTxStatus " ++ transactionId)) =
      if (split (trim
          ("checkTxStatus " ++ transactionId))).length = 2 then
        .ok .checkTxStatus
      else
        .error CommandName.diagnostics[0] := by
  rw [CommandName.selected_of_begins .checkTxStatus
    (startsWith_statusQuery transactionId) (Or.inl rfl)]
  by_cases hTwo :
      (split (trim
        ("checkTxStatus " ++ transactionId))).length = 2 <;>
    simp [CommandName.takesValue, hTwo]

namespace Client

/- A query for an askable id looks up its only part. -/
theorem run_statusQuery
    {c : Client D}
    {transactionId : String}
    (hAskable : Askable transactionId)
    (hKnown :
      c.StatusKnown (withoutTrailingBlanks transactionId)) :
    (processCommand ("checkTxStatus " ++ transactionId)).run c =
      ⟨c,
        [.errPrintln
          ("Transaction with ID " ++
            withoutTrailingBlanks transactionId ++
              " has status: " ++
                c.statusOf
                  (withoutTrailingBlanks transactionId))],
        .ok ()⟩ := by
  have hTwo :=
    (length_split_statusQuery transactionId).mpr hAskable
  have hParts :
      split (trim ("checkTxStatus " ++ transactionId)) =
        ["checkTxStatus",
          withoutTrailingBlanks transactionId] := by
    rw [trim_statusQuery, if_neg hAskable.1]
    exact split_pair _ _ (by decide) hAskable.2 hAskable.1
  rw [processCommand_eq_selected, selected_statusQuery,
    if_pos hTwo]
  simp [CommandName.body, hParts, arrayElement, printTxStatus,
    getTxStatus_of_statusKnown hKnown]

/- A query for any other id gets the syntax diagnostic. -/
theorem askable_of_reportsStatus
    {c : Client D}
    {transactionId : String}
    (hReports : c.ReportsStatus transactionId) :
    Askable transactionId := by
  rw [← length_split_statusQuery]
  by_contra hNotTwo
  rcases hReports with ⟨shown, hRun⟩
  rw [processCommand_eq_selected, selected_statusQuery,
    if_neg hNotTwo] at hRun
  have hEvents := congrArg Outcome.events hRun
  simp [println] at hEvents

end Client

end ReplicatedAccount

------------------------------------------------------------
-- Ids in Reachable States
------------------------------------------------------------

namespace ReplicatedAccount

open Foundations Foundations.JavaText

/- No client gives out an id that can be asked for. -/
theorem not_askable_issuedId
    (id : Int32)
    (k : Nat) :
    ¬ Askable (issuedId id k) := by
  rintro ⟨_, hNoSpace⟩
  have hKept :
      withoutTrailingBlanks (issuedId id k) =
        issuedId id k :=
    withoutTrailingBlanks_append _ (intToString_ne_empty _)
      (fun c hc => isBlank_of_mem_intToString hc)
  rw [hKept] at hNoSpace
  exact hNoSpace (by
    simp [issuedId, uniqueIdOf, String.toList_append])

variable {ι D : Type} [DoubleArithmetic D]

namespace Network

variable {settings : ι → Settings}
variable {σ : Network ι D}

/- Every transaction a client keeps was enqueued by one. -/
theorem Sound.exists_issuer
    (hSound : σ.Sound settings)
    {i : ι}
    {tx : Transaction}
    (hKept :
      tx ∈ (σ.replica i).client.executedList ++
        (σ.replica i).client.outstandingCollection) :
    ∃ j, tx ∈ σ.issued j := by
  rcases List.mem_append.mp hKept with hExecuted | hLocal
  · have hApplied :=
      (hSound.ledgers i).executedList.subset hExecuted
    rw [hSound.applied_eq, List.mem_filter,
      List.mem_flatMap] at hApplied
    rcases hApplied with ⟨⟨message, hMessage, hReached⟩, _⟩
    exact ⟨message.1,
      (hSound.books message.1).multicasts _
        (hSound.origins i message hMessage)
        (mem_of_mem_reached D hReached)⟩
  · exact ⟨i, (hSound.books i).outstanding hLocal⟩

end Network

end ReplicatedAccount

------------------------------------------------------------
-- Which Queries Are Answered
------------------------------------------------------------

namespace ReplicatedAccount

open Foundations Foundations.JavaText

variable {ι D : Type} [DecidableEq ι] [DoubleArithmetic D]

/- An id that no client gives out is carried nowhere. -/
omit [DecidableEq ι] in
theorem Network.Sound.statusOf_of_not_issued
    {settings : ι → Settings}
    {σ : Network ι D}
    (hSound : σ.Sound settings)
    (i : ι)
    {transactionId : String}
    (hNotIssued :
      ∀ id k, transactionId ≠ issuedId id k) :
    (σ.replica i).client.statusOf transactionId =
      "Not Found" := by
  have hNowhere :
      ∀ tx ∈ (σ.replica i).client.executedList ++
          (σ.replica i).client.outstandingCollection,
        tx.uniqueId ≠ some transactionId := by
    intro tx hKept hId
    rcases hSound.exists_issuer hKept with ⟨j, hIssued⟩
    rcases (hSound.books j).exists_index hIssued with
      ⟨k, _, _, hIssuedId⟩
    rw [hId, Option.some.injEq] at hIssuedId
    exact hNotIssued _ k hIssuedId
  have hExecuted :
      ¬ Client.Carries (σ.replica i).client.executedList
        transactionId := by
    rintro ⟨tx, hMember, hId⟩
    exact hNowhere tx (List.mem_append_left _ hMember) hId
  have hQueued :
      ¬ Client.Carries
        (σ.replica i).client.outstandingCollection
          transactionId := by
    rintro ⟨tx, hMember, hId⟩
    exact hNowhere tx (List.mem_append_right _ hMember) hId
  simp [Client.statusOf, hExecuted, hQueued]

/-
  In every reachable state a status query is answered, with
  the right status, exactly when its id is askable.  No
  transaction that a client knows has such an id.
-/
theorem reportsStatus_iff_askable
    (settings : ι → Settings)
    (actions : List (NetworkAction ι))
    (σ : Network ι D)
    (hRun : (networkSystem D settings).run actions = some σ)
    (i : ι) :
    (∀ transactionId,
      (σ.replica i).client.ReportsStatus transactionId ↔
        Askable transactionId) ∧
      ∀ tx ∈ (σ.replica i).client.executedList ++
          (σ.replica i).client.outstandingCollection,
        ∃ transactionId,
          tx.uniqueId = some transactionId ∧
            ¬ Askable transactionId := by
  have hSound := sound_of_run hRun
  have hPresent := (hSound.books i).idsPresent
  refine ⟨?_, ?_⟩
  · intro transactionId
    constructor
    · exact Client.askable_of_reportsStatus
    · intro hAskable
      have hKnown :
          (σ.replica i).client.StatusKnown
            (withoutTrailingBlanks transactionId) := by
        refine ⟨?_, Or.inr ?_⟩
        · exact searchSucceeds_of_present _
            (fun tx hTx =>
              hPresent tx (List.mem_append_left _ hTx))
        · exact searchSucceeds_of_present _
            (fun tx hTx =>
              hPresent tx (List.mem_append_right _ hTx))
      -- neither the id nor what is kept of it was given out
      have hKept :
          (σ.replica i).client.statusOf
              (withoutTrailingBlanks transactionId) =
            "Not Found" := by
        apply hSound.statusOf_of_not_issued
        intro id k hIssued
        exact hAskable.2 (by
          simp [hIssued, issuedId, uniqueIdOf,
            String.toList_append])
      have hAsked :
          (σ.replica i).client.statusOf transactionId =
            "Not Found" := by
        apply hSound.statusOf_of_not_issued
        rintro id k rfl
        exact not_askable_issuedId id k hAskable
      exact ⟨_, by
        rw [Client.run_statusQuery hAskable hKnown, hKept,
          hAsked]⟩
  · intro tx hTx
    rcases hSound.exists_issuer hTx with ⟨j, hIssued⟩
    rcases (hSound.books j).exists_index hIssued with
      ⟨k, _, _, hId⟩
    exact ⟨_, hId, not_askable_issuedId _ k⟩

/- A client that knows one transaction satisfies them. -/
theorem reportsStatus_iff_askable_twoClients :
    ∃ σ : Network Bool Decimal,
      (networkSystem Decimal twoClients).run
          [.command true "deposit 5"] = some σ ∧
        (σ.replica true).client.ReportsStatus "5" := by
  have hRuns :
      ((networkSystem Decimal twoClients).run
        [.command true "deposit 5"]).isSome := by
    decide +kernel
  rcases Option.isSome_iff_exists.mp hRuns with ⟨σ, hRun⟩
  exact ⟨σ, hRun,
    ((reportsStatus_iff_askable twoClients _ σ hRun
      true).1 "5").mpr
        ⟨by decide +kernel, by decide +kernel⟩⟩

/-
  Client 3 has executed its deposit and asks for it by its
  id: the dispatcher counts three parts.
-/
theorem executed_transaction_not_asked_for :
    ∃ σ : Network Bool Decimal,
      (networkSystem Decimal twoClients).run
          [.command true "deposit 5", .tick true true,
            .deliver true true 0] = some σ ∧
        (σ.replica true).client.executedList =
          [⟨some "deposit 5", some "3 0"⟩] ∧
        ((Client.processCommand "checkTxStatus 3 0").run
          (σ.replica true).client).events =
            [.println (.text
              "Invalid argument for command, should follow syntax '<command_name> <value>'")] ∧
        ¬ (σ.replica true).client.ReportsStatus "3 0" := by
  have hRuns :
      ((networkSystem Decimal twoClients).run
        [.command true "deposit 5", .tick true true,
          .deliver true true 0]).any
        (fun σ =>
          (σ.replica true).client.executedList =
              [⟨some "deposit 5", some "3 0"⟩] ∧
            ((Client.processCommand "checkTxStatus 3 0").run
              (σ.replica true).client).events =
                [.println (.text
                  "Invalid argument for command, should follow syntax '<command_name> <value>'")]) := by
    decide +kernel
  rcases (Option.any_eq_true _ _).mp hRuns with
    ⟨σ, hRun, hRefused⟩
  rcases of_decide_eq_true hRefused with ⟨hExecuted, hEvents⟩
  refine ⟨σ, hRun, hExecuted, hEvents, ?_⟩
  intro hReports
  have hAskable := Client.askable_of_reportsStatus hReports
  exact hAskable.2 (by decide +kernel)

end ReplicatedAccount
