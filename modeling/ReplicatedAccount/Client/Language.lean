import ReplicatedAccount.Client.Commands
import ReplicatedAccount.Client.ExactArithmetic

/-
  The command language of a client and what the dispatcher
  makes of it.

  The dispatcher tests how a command begins and how many
  parts it has; a command of the language has the name of a
  command as its first part and as many further parts as the
  command takes.

  Key definitions include:
    * `CommandName`
    * `CommandName.body`
    * `CommandName.selected`
    * `CommandName.Matches`
    * `Client.HandledByLanguage`
    * `Client.Dispatchable`

  Key theorems include:
    * `Client.processCommand_eq_selected`
    * `Client.handledByLanguage_iff_dispatchable`
-/

------------------------------------------------------------
-- Command Names
------------------------------------------------------------

namespace ReplicatedAccount

open Foundations Foundations.JavaText Foundations.Method

/- The commands that `processCommand` knows. -/
inductive CommandName where
  | deposit
  | addInterest
  | checkTxStatus
  | sleep
  | getSynchedBalance
  | getQuickBalance
  | getHistory
  | cleanHistory
  | memberInfo
  | exit
deriving DecidableEq, Repr

namespace CommandName

def text : CommandName → String
| .deposit => "deposit"
| .addInterest => "addInterest"
| .checkTxStatus => "checkTxStatus"
| .sleep => "sleep"
| .getSynchedBalance => "getSynchedBalance"
| .getQuickBalance => "getQuickBalance"
| .getHistory => "getHistory"
| .cleanHistory => "cleanHistory"
| .memberInfo => "memberInfo"
| .exit => "exit"

/- The commands that are followed by a value. -/
def takesValue : CommandName → Bool
| .deposit => true
| .addInterest => true
| .checkTxStatus => true
| .sleep => true
| _ => false

/- How many further parts a command takes. -/
def arguments (name : CommandName) : Nat :=
  if name.takesValue then 1 else 0

/-
  The input is a command of this name: after trimming, its
  first space-separated part is the name, and it has as many
  further parts as the command takes.
-/
def Matches
    (name : CommandName)
    (input : String) : Prop :=
  (split (trim input))[0]? = some name.text ∧
    (split (trim input)).length = name.arguments + 1

variable {D : Type}

/- What the dispatcher runs for a command. -/
def body
    (command : String) :
    CommandName → ClientMethod D Unit
| .deposit => Client.enqueue command
| .addInterest => Client.enqueue command
| .checkTxStatus => do
    let transactionId ←
      ofExcept (arrayElement (split command) 1)
    Client.printTxStatus transactionId
| .sleep => do
    let argument ←
      ofExcept (arrayElement (split command) 1)
    let duration ← ofExcept (parsed (parseInt argument))
    Client.sleep duration
| .getSynchedBalance => do
    let client ← get
    if client.naiveSyncBalance then
      Client.getSyncedBalanceNaive
    else
      Client.getSyncedBalanceCorrect
| .getQuickBalance => Client.getQuickBalance
| .getHistory => Client.getHistory
| .cleanHistory => Client.cleanHistory
| .memberInfo => Client.memberInfo
| .exit => Client.exit

/-
  The command the dispatcher takes a trimmed input for, or
  the diagnostic it prints.
-/
def selected
    (command : String) :
    Except String CommandName :=
  if startsWith command "deposit" ||
      startsWith command "addInterest" ||
      startsWith command "checkTxStatus" ||
      startsWith command "sleep" then
    if (split command).length ≠ 2 then
      .error
        "Invalid argument for command, should follow syntax '<command_name> <value>'"
    else if startsWith command "deposit" then
      .ok .deposit
    else if startsWith command "addInterest" then
      .ok .addInterest
    else if startsWith command "checkTxStatus" then
      .ok .checkTxStatus
    else
      .ok .sleep
  else if startsWith command "getSynchedBalance" then
    .ok .getSynchedBalance
  else if command = "getQuickBalance" then
    .ok .getQuickBalance
  else if command = "getHistory" then
    .ok .getHistory
  else if command = "cleanHistory" then
    .ok .cleanHistory
  else if command = "memberInfo" then
    .ok .memberInfo
  else if command = "exit" then
    .ok .exit
  else
    .error "Invalid command"

end CommandName

/- The dispatcher runs the selected command. -/
theorem Client.processCommand_eq_selected
    {D : Type}
    (input : String) :
    (processCommand input : ClientMethod D Unit) =
      match CommandName.selected (trim input) with
      | .error diagnostic => println (.text diagnostic)
      | .ok name => name.body (trim input) := by
  unfold processCommand CommandName.selected
  dsimp only
  generalize trim input = command
  cases startsWith command "deposit" <;>
    cases startsWith command "addInterest" <;>
    cases startsWith command "checkTxStatus" <;>
    cases startsWith command "sleep" <;>
    simp only [Bool.or_true, Bool.or_false, Bool.false_eq_true,
      if_true, if_false] <;>
    split_ifs <;> rfl

end ReplicatedAccount

------------------------------------------------------------
-- Which Commands Are Selected
------------------------------------------------------------

namespace ReplicatedAccount

open Foundations Foundations.JavaText Foundations.Method

namespace CommandName

/- What the dispatcher prints instead of running a command. -/
def diagnostics : List String :=
  ["Invalid argument for command, should follow syntax '<command_name> <value>'",
    "Invalid command"]

/- No name begins with another one. -/
theorem eq_of_startsWith
    {name other : CommandName}
    (hBegins : startsWith name.text other.text) :
    name = other := by
  revert hBegins
  cases name <;> cases other <;> decide

/- A text begins with one name at most. -/
theorem eq_of_begins
    {command : String}
    {name other : CommandName}
    (hName : startsWith command name.text)
    (hOther : startsWith command other.text) :
    name = other := by
  rcases startsWith_both hName hOther with hBegins | hBegins
  · exact eq_of_startsWith hBegins
  · exact (eq_of_startsWith hBegins).symm

/- How a text begins decides all tests of the dispatcher. -/
theorem startsWith_text
    {command : String}
    {name : CommandName}
    (hName : startsWith command name.text)
    (other : CommandName) :
    startsWith command other.text = decide (name = other) := by
  rw [Bool.eq_iff_iff, decide_eq_true_iff]
  constructor
  · exact eq_of_begins hName
  · rintro rfl
    exact hName

/- Selecting a command that is tested by its beginning. -/
theorem selected_of_begins
    {command : String}
    (name : CommandName)
    (hBegins : startsWith command name.text)
    (hTested : name.takesValue ∨ name = .getSynchedBalance) :
    selected command =
      if name.takesValue ∧ (split command).length ≠ 2 then
        .error diagnostics[0]
      else
        .ok name := by
  have hDeposit : startsWith command "deposit" = _ :=
    startsWith_text hBegins .deposit
  have hInterest : startsWith command "addInterest" = _ :=
    startsWith_text hBegins .addInterest
  have hStatus : startsWith command "checkTxStatus" = _ :=
    startsWith_text hBegins .checkTxStatus
  have hSleep : startsWith command "sleep" = _ :=
    startsWith_text hBegins .sleep
  have hRequest : startsWith command "getSynchedBalance" = _ :=
    startsWith_text hBegins .getSynchedBalance
  unfold selected
  rw [hDeposit, hInterest, hStatus, hSleep, hRequest]
  by_cases hTwo : (split command).length = 2 <;>
    cases name <;> simp_all [takesValue, diagnostics]

/- A selected command begins with its name. -/
theorem begins_of_selected
    {command : String}
    {name : CommandName}
    (hSelected : selected command = .ok name) :
    startsWith command name.text ∧
      (name.takesValue → (split command).length = 2) ∧
        (name.takesValue = false →
          name ≠ .getSynchedBalance → command = name.text) := by
  have hSelf : ∀ s : String, startsWith s s := by
    intro s
    simp [startsWith]
  unfold selected at hSelected
  split_ifs at hSelected <;> cases hSelected <;>
    simp_all [takesValue, text]

/- Nothing is selected for an input that gets a diagnostic. -/
theorem not_begins_of_not_selected
    {command diagnostic : String}
    (hSelected : selected command = .error diagnostic) :
    diagnostic ∈ diagnostics ∧
      (∀ name : CommandName, name.takesValue →
        startsWith command name.text →
          (split command).length ≠ 2) ∧
        ¬ startsWith command "getSynchedBalance" := by
  refine ⟨?_, ?_, ?_⟩
  · unfold selected at hSelected
    split_ifs at hSelected <;> cases hSelected <;>
      simp [diagnostics]
  · intro name hValue hBegins hTwo
    simp [selected_of_begins name hBegins (Or.inl hValue), hTwo]
      at hSelected
  · intro hBegins
    have hRequest :=
      selected_of_begins .getSynchedBalance hBegins
        (Or.inr rfl)
    simp [hRequest, takesValue] at hSelected

end CommandName

end ReplicatedAccount

------------------------------------------------------------
-- The Language of the Dispatcher
------------------------------------------------------------

namespace ReplicatedAccount

open Foundations Foundations.JavaText Foundations.Method

variable {D : Type}

/-
  The value of a `sleep` is an int, and the milliseconds it
  stands for, a 32-bit product, are not negative.
-/
def Sleepable (command : String) : Prop :=
  ∃ argument duration,
    (split command)[1]? = some argument ∧
      parseInt argument = some duration ∧
        ¬ duration * 1000 < 0

namespace Client

/- A command of the language; a `sleep` can be slept for. -/
def Asks
    (input : String)
    (name : CommandName) : Prop :=
  name.Matches input ∧
    (name = .sleep → Sleepable (trim input))

/-
  A command of the language is carried out without an
  exception, and for any other input the dispatcher only
  prints a diagnostic.
-/
def HandledByLanguage
    (c : Client D)
    (input : String) : Prop :=
  (∃ name, Asks input name ∧
    (processCommand input).run c =
        (name.body (trim input)).run c ∧
      ((processCommand input).run c).result = .ok ()) ∨
    (¬ ∃ name, Asks input name) ∧
      ∃ diagnostic ∈ CommandName.diagnostics,
        (processCommand input).run c =
          ⟨c, [.println (.text diagnostic)], .ok ()⟩

/-
  The beginnings that the dispatcher tests are whole names,
  and neither the value of a `sleep` nor the lookup of a
  status raises an exception.
-/
structure Dispatchable
    (c : Client D)
    (command : String) : Prop where
  names :
    ∀ name : CommandName, name.takesValue →
      startsWith command name.text →
        (split command).length = 2 →
          (split command)[0]? = some name.text
  request :
    startsWith command "getSynchedBalance" →
      command = "getSynchedBalance"
  duration :
    startsWith command "sleep" →
      (split command).length = 2 → Sleepable command
  status :
    startsWith command "checkTxStatus" →
      (split command).length = 2 →
        ∀ transactionId,
          (split command)[1]? = some transactionId →
            c.StatusKnown transactionId

end Client

namespace CommandName

/- Two parts have a second one. -/
theorem exists_argument
    {command : String}
    (hTwo : (split command).length = 2) :
    ∃ argument, (split command)[1]? = some argument :=
  ⟨(split command)[1],
    List.getElem?_eq_getElem (by omega)⟩

/- When a selected command returns. -/
theorem result_body_iff
    {command : String}
    {name : CommandName}
    (hSelected : selected command = .ok name)
    (hSleep : name = .sleep → Sleepable command)
    (c : Client D) :
    ((name.body command).run c).result = .ok () ↔
      (name = .checkTxStatus →
        ∀ transactionId,
          (split command)[1]? = some transactionId →
            c.StatusKnown transactionId) := by
  have hTwo := (begins_of_selected hSelected).2.1
  cases name with
  | checkTxStatus =>
      rcases exists_argument (hTwo rfl) with
        ⟨transactionId, hArgument⟩
      by_cases hKnown : c.StatusKnown transactionId
      · simp [body, arrayElement, hArgument, hKnown,
          Client.printTxStatus,
          Client.getTxStatus_of_statusKnown hKnown]
      · simp [body, arrayElement, hArgument, hKnown,
          Client.printTxStatus,
          Client.getTxStatus_of_not_statusKnown hKnown]
  | sleep =>
      rcases hSleep rfl with
        ⟨argument, duration, hArgument, hParse, hMillis⟩
      by_cases hFile : c.fileName = "" <;>
        simp [body, arrayElement, hArgument, parsed, hParse,
          Client.sleep, hFile, hMillis]
  | deposit => simp [body, Client.run_enqueue]
  | addInterest => simp [body, Client.run_enqueue]
  | getSynchedBalance =>
      by_cases hNaive : c.naiveSyncBalance = true <;>
        simp [body, hNaive, Client.getSyncedBalanceNaive,
          Client.getSyncedBalanceCorrect, Client.run_enqueue]
  | getQuickBalance =>
      simp [body, Client.getQuickBalance, Client.println]
  | getHistory =>
      simp [body, Client.getHistory, Client.println]
  | cleanHistory => simp [body, Client.cleanHistory]
  | memberInfo =>
      simp [body, Client.memberInfo, Client.println]
  | exit => simp [body, Client.exit]

/- No command prints one of the diagnostics. -/
theorem events_body_ne
    {command : String}
    {name : CommandName}
    (hSelected : selected command = .ok name)
    (c : Client D)
    {diagnostic : String}
    (hDiagnostic : diagnostic ∈ diagnostics) :
    ((name.body command).run c).events ≠
      [.println (.text diagnostic)] := by
  have hTwo := (begins_of_selected hSelected).2.1
  cases name with
  | checkTxStatus =>
      rcases exists_argument (hTwo rfl) with
        ⟨transactionId, hArgument⟩
      cases hStatus : c.getTxStatus transactionId <;>
        simp [body, arrayElement, hArgument,
          Client.printTxStatus, hStatus]
  | sleep =>
      rcases exists_argument (hTwo rfl) with
        ⟨argument, hArgument⟩
      cases hParse : parseInt argument with
      | none =>
          simp [body, arrayElement, hArgument, parsed, hParse]
      | some duration =>
          by_cases hFile : c.fileName = ""
          · simp [body, arrayElement, hArgument, parsed,
              hParse, Client.sleep, hFile]
          · by_cases hMillis : duration * 1000 < 0 <;>
              simp [body, arrayElement, hArgument, parsed,
                hParse, Client.sleep, hFile, hMillis]
  | deposit => simp [body, Client.run_enqueue]
  | addInterest => simp [body, Client.run_enqueue]
  | getSynchedBalance =>
      by_cases hNaive : c.naiveSyncBalance = true <;>
        simp [body, hNaive, Client.getSyncedBalanceNaive,
          Client.getSyncedBalanceCorrect, Client.run_enqueue]
  | getQuickBalance =>
      simp [body, Client.getQuickBalance, Client.println]
  | getHistory =>
      have hOther : "History: " ∉ diagnostics := by decide
      simp only [body, Client.getHistory, Client.println,
        run_emit, ne_eq, List.cons.injEq, Event.println.injEq,
        Line.text.injEq, and_true]
      rintro rfl
      exact hOther hDiagnostic
  | cleanHistory => simp [body, Client.cleanHistory]
  | memberInfo =>
      have hOther : "Current members are: " ∉ diagnostics := by
        decide
      simp only [body, Client.memberInfo, Client.println,
        run_emit, ne_eq, List.cons.injEq, Event.println.injEq,
        Line.text.injEq, and_true]
      rintro rfl
      exact hOther hDiagnostic
  | exit => simp [body, Client.exit]

/- When a selected command is the command that was typed. -/
theorem matches_iff_of_selected
    {input : String}
    {name : CommandName}
    (hSelected : selected (trim input) = .ok name) :
    name.Matches input ↔
      (name.takesValue →
        (split (trim input))[0]? = some name.text) ∧
        (name = .getSynchedBalance →
          trim input = "getSynchedBalance") := by
  rcases begins_of_selected hSelected with
    ⟨hBegins, hTwo, hExact⟩
  have hWhole :
      ∀ other : CommandName, other.takesValue = false →
        trim input = other.text → other.Matches input := by
    intro other hNone hText
    unfold Matches
    rw [hText]
    revert hNone
    cases other <;> decide
  constructor
  · intro hMatches
    refine ⟨fun _ => hMatches.1, ?_⟩
    rintro rfl
    exact trim_eq_of_single_part hMatches.1 hMatches.2
  · rintro ⟨hFirst, hRequest⟩
    cases hValue : name.takesValue with
    | true =>
        exact ⟨hFirst hValue, by
          simp [hTwo hValue, arguments, hValue]⟩
    | false =>
        by_cases hNaive : name = .getSynchedBalance
        · subst hNaive
          exact hWhole _ rfl (hRequest rfl)
        · exact hWhole name hValue (hExact hValue hNaive)

/- A command of the language is selected. -/
theorem selected_of_matches
    {input : String}
    {name : CommandName}
    (hMatches : name.Matches input) :
    selected (trim input) = .ok name := by
  rcases hMatches with ⟨hFirst, hLength⟩
  cases hValue : name.takesValue with
  | true =>
      have hTwo : (split (trim input)).length = 2 := by
        simpa [arguments, hValue] using hLength
      rw [selected_of_begins name (startsWith_first_part hFirst)
        (Or.inl hValue)]
      simp [hTwo]
  | false =>
      have hOne : (split (trim input)).length = 1 := by
        simpa [arguments, hValue] using hLength
      rw [trim_eq_of_single_part hFirst hOne]
      revert hValue
      cases name <;> decide

end CommandName

namespace Client

open CommandName

/- An input that gets a diagnostic is dispatchable. -/
theorem dispatchable_of_not_selected
    {command diagnostic : String}
    (hSelected : selected command = .error diagnostic)
    (c : Client D) :
    c.Dispatchable command := by
  rcases not_begins_of_not_selected hSelected with
    ⟨_, hParts, hRequest⟩
  constructor
  · intro name hValue hBegins hTwo
    exact (hParts name hValue hBegins hTwo).elim
  · exact fun hBegins => (hRequest hBegins).elim
  · intro hBegins hTwo
    exact (hParts .sleep rfl hBegins hTwo).elim
  · intro hBegins hTwo
    exact (hParts .checkTxStatus rfl hBegins hTwo).elim

/- For a selected command only its own name is tested. -/
theorem dispatchable_iff_of_selected
    {input : String}
    {name : CommandName}
    (hSelected : selected (trim input) = .ok name)
    (c : Client D) :
    c.Dispatchable (trim input) ↔
      name.Matches input ∧
        (name = .sleep → Sleepable (trim input)) ∧
          (name = .checkTxStatus →
            ∀ transactionId,
              (split (trim input))[1]? = some transactionId →
                c.StatusKnown transactionId) := by
  rcases begins_of_selected hSelected with ⟨hBegins, hTwo, _⟩
  rw [matches_iff_of_selected hSelected]
  constructor
  · intro hDispatch
    refine ⟨⟨?_, ?_⟩, ?_, ?_⟩
    · intro hValue
      exact hDispatch.names name hValue hBegins (hTwo hValue)
    · rintro rfl
      exact hDispatch.request hBegins
    · rintro rfl
      exact hDispatch.duration hBegins (hTwo rfl)
    · rintro rfl
      exact hDispatch.status hBegins (hTwo rfl)
  · rintro ⟨⟨hFirst, hRequest⟩, hSleep, hStatus⟩
    constructor
    · intro other hValue hOther _
      rcases eq_of_begins hBegins hOther with rfl
      exact hFirst hValue
    · intro (hOther : startsWith _ (text .getSynchedBalance))
      exact hRequest (eq_of_begins hBegins hOther)
    · intro (hOther : startsWith _ (text .sleep)) _
      exact hSleep (eq_of_begins hBegins hOther)
    · intro (hOther : startsWith _ (text .checkTxStatus)) _
      exact hStatus (eq_of_begins hBegins hOther)

/-
  The dispatcher handles an input as the command language
  says exactly when the input is dispatchable.
-/
theorem handledByLanguage_iff_dispatchable
    (c : Client D)
    (input : String) :
    c.HandledByLanguage input ↔
      c.Dispatchable (trim input) := by
  have hRun := processCommand_eq_selected (D := D) input
  unfold HandledByLanguage
  cases hSelected : selected (trim input) with
  | error diagnostic =>
      rw [hSelected] at hRun
      refine iff_of_true (Or.inr ⟨?_, diagnostic, ?_, ?_⟩)
        (dispatchable_of_not_selected hSelected c)
      · rintro ⟨name, hMatches, _⟩
        rw [selected_of_matches hMatches] at hSelected
        cases hSelected
      · exact (not_begins_of_not_selected hSelected).1
      · rw [hRun]
        rfl
  | ok name =>
      rw [hSelected] at hRun
      rw [hRun, dispatchable_iff_of_selected hSelected c]
      constructor
      · rintro (⟨other, ⟨hMatches, hSleep⟩, _, hResult⟩ |
            ⟨_, diagnostic, hDiagnostic, hPrinted⟩)
        · -- the first part decides which command was typed
          have hSame : name = other :=
            eq_of_begins (begins_of_selected hSelected).1
              (startsWith_first_part hMatches.1)
          subst hSame
          exact ⟨hMatches, hSleep,
            (result_body_iff hSelected hSleep c).mp hResult⟩
        · exact (events_body_ne hSelected c hDiagnostic
            (congrArg Outcome.events hPrinted)).elim
      · rintro ⟨hMatches, hSleep, hStatus⟩
        exact Or.inl ⟨name, ⟨hMatches, hSleep⟩, rfl,
          (result_body_iff hSelected hSleep c).mpr hStatus⟩

/-
  An input that is no command of the language has to get a
  diagnostic and nothing else.
-/
theorem not_handledByLanguage
    {c : Client D}
    {input : String}
    (hNames : ∀ name : CommandName, ¬ name.Matches input)
    (hEvents :
      ∀ diagnostic ∈ diagnostics,
        ((processCommand input).run c).events ≠
          [.println (.text diagnostic)]) :
    ¬ c.HandledByLanguage input := by
  rintro (⟨name, ⟨hMatches, _⟩, _⟩ |
    ⟨_, diagnostic, hDiagnostic, hPrinted⟩)
  · exact hNames name hMatches
  · exact hEvents diagnostic hDiagnostic
      (congrArg Outcome.events hPrinted)

/-
  `depositX 5` is enqueued, `getSynchedBalance now` enqueues
  a request, and `sleep abc` raises an exception.
-/
theorem unknown_commands_carried_out :
    ((processCommand "depositX 5").run
        (Client.new 7 "" false : Client Decimal)).events =
          [.enqueued ⟨some "depositX 5", some "7 0"⟩] ∧
      ¬ (Client.new 7 "" false : Client Decimal).HandledByLanguage
          "depositX 5" ∧
      ¬ (Client.new 7 "" false : Client Decimal).HandledByLanguage
          "getSynchedBalance now" ∧
      ((processCommand "sleep abc").run
        (Client.new 7 "" false : Client Decimal)).result =
          .error .numberFormat ∧
      ¬ (Client.new 7 "" false : Client Decimal).HandledByLanguage
          "sleep abc" := by
  have hUnknown :
      split (trim "depositX 5") = ["depositX", "5"] := by
    decide +kernel
  have hFurther :
      split (trim "getSynchedBalance now") =
        ["getSynchedBalance", "now"] := by
    decide +kernel
  refine ⟨by decide +kernel, ?_, ?_, by decide +kernel, ?_⟩
  · refine not_handledByLanguage ?_ (by decide +kernel)
    rintro name ⟨hFirst, _⟩
    rw [hUnknown] at hFirst
    cases name <;> simp [text] at hFirst
  · refine not_handledByLanguage ?_ (by decide +kernel)
    rintro name ⟨hFirst, hLength⟩
    rw [hFurther] at hFirst hLength
    cases name with
    | getSynchedBalance => simp [arguments, takesValue] at hLength
    | _ => simp [text] at hFirst
  · rintro (⟨name, _, _, hResult⟩ |
      ⟨_, diagnostic, hDiagnostic, hPrinted⟩)
    · revert hResult
      decide +kernel
    · have hResult :
          ((processCommand "sleep abc").run
            (Client.new 7 "" false : Client Decimal)).result =
              .ok () :=
        congrArg Outcome.result hPrinted
      revert hResult
      decide +kernel

end Client

end ReplicatedAccount
