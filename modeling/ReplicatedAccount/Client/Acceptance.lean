import ReplicatedAccount.Client.Replica

/-
  The commands that a replica executes: the first part of a
  command is compared with the names of the operations, and
  the second one is parsed.

  Key definitions include:
    * `WellFormed`
    * `Transaction.WellFormed`
    * `Operation.OfCommand`

  Key theorems include:
    * `executable_iff_wellFormed`
-/

------------------------------------------------------------
-- Well-Formed Commands
------------------------------------------------------------

namespace ReplicatedAccount

open Foundations.JavaText DoubleArithmetic

variable {D : Type} [DoubleArithmetic D]

/-
  The first space-separated part is exactly the name of the
  operation, and the second part is its value.
-/
def Operation.OfCommand
    (operation : Operation D)
    (command : String) : Prop :=
  match operation with
  | .deposit amount =>
      (split command)[0]? = some "deposit" ∧
        ∃ argument, (split command)[1]? = some argument ∧
          parseDouble argument = some amount
  | .addInterest percent =>
      (split command)[0]? = some "addInterest" ∧
        ∃ argument, (split command)[1]? = some argument ∧
          parseDouble argument = some percent

/-
  The first part is exactly `deposit` or `addInterest`, and
  `Double.parseDouble` accepts the second part.
-/
def WellFormed (D : Type) [DoubleArithmetic D]
    (command : String) : Prop :=
  ((split command)[0]? = some "deposit" ∨
      (split command)[0]? = some "addInterest") ∧
    ∃ argument, (split command)[1]? = some argument ∧
      (parseDouble argument : Option D).isSome

theorem wellFormed_iff
    (command : String) :
    WellFormed D command ↔
      ∃ operation : Operation D,
        operation.OfCommand command := by
  constructor
  · rintro ⟨hName, argument, hArgument, hValue⟩
    rcases Option.isSome_iff_exists.mp hValue with ⟨v, hv⟩
    rcases hName with hDeposit | hInterest
    · exact ⟨.deposit v, hDeposit, argument, hArgument, hv⟩
    · exact
        ⟨.addInterest v, hInterest, argument, hArgument, hv⟩
  · rintro ⟨operation, hOperation⟩
    cases operation with
    | deposit amount =>
        rcases hOperation with ⟨hName, argument, hArg, hv⟩
        exact ⟨Or.inl hName, argument, hArg, by simp [hv]⟩
    | addInterest percent =>
        rcases hOperation with ⟨hName, argument, hArg, hv⟩
        exact ⟨Or.inr hName, argument, hArg, by simp [hv]⟩

theorem commandValue_eq_ok_iff
    (commandParts : List String)
    (v : D) :
    Client.commandValue commandParts = .ok v ↔
      ∃ argument, commandParts[1]? = some argument ∧
        parseDouble argument = some v := by
  unfold Client.commandValue arrayElement
  cases commandParts[1]? with
  | none => simp
  | some argument =>
      cases hValue : (parseDouble argument : Option D) with
      | none => simp [parsed, hValue]
      | some w => simp [parsed, hValue]

/- A value command executes when its value is accepted. -/
theorem valueDisposition_eq_execute_iff
    (commandParts : List String)
    (make : D → Operation D)
    (operation : Operation D) :
    valueDisposition commandParts
        (fun v => .execute (make v)) =
          .execute operation ↔
      ∃ v, Client.commandValue commandParts = .ok v ∧
        make v = operation := by
  unfold valueDisposition
  cases Client.commandValue (D := D) commandParts <;> simp

/- The commands that the executing side executes. -/
theorem commandDisposition_eq_execute_iff
    (command : String)
    (operation : Operation D) :
    commandDisposition (split command) =
        .execute operation ↔
      operation.OfCommand command := by
  unfold commandDisposition arrayElement
  cases hName : (split command)[0]? with
  | none =>
      cases operation <;> simp [Operation.OfCommand, hName]
  | some name =>
      dsimp only
      split_ifs with hSet hDeposit hInterest
      · subst hSet
        have hSkips :
            ∀ o : Operation D,
              valueDisposition (split command)
                  (fun _ => .skip) ≠ .execute o := by
          intro o
          unfold valueDisposition
          cases Client.commandValue (D := D)
            (split command) <;> simp
        cases operation <;>
          simp [Operation.OfCommand, hName, hSkips]
      · subst hDeposit
        rw [valueDisposition_eq_execute_iff]
        cases operation <;>
          simp [Operation.OfCommand, hName,
            commandValue_eq_ok_iff]
      · subst hInterest
        rw [valueDisposition_eq_execute_iff]
        cases operation <;>
          simp [Operation.OfCommand, hName,
            commandValue_eq_ok_iff]
      · cases operation <;>
          simp [Operation.OfCommand, hName, hDeposit,
            hInterest]

/- A balance request is not an operation. -/
theorem not_ofCommand_request
    (operation : Operation D) :
    ¬ operation.OfCommand "getSyncedBalance" := by
  have hSplit :
      (split "getSyncedBalance")[0]? =
        some "getSyncedBalance" := by
    decide
  cases operation <;>
    simp [Operation.OfCommand, hSplit]

omit [DoubleArithmetic D] in
theorem requestDisposition_ne_execute
    (uniqueId : Option String)
    (operation : Operation D) :
    requestDisposition uniqueId ≠ .execute operation := by
  unfold requestDisposition
  cases uniqueId with
  | none => simp
  | some transactionId =>
      dsimp only
      cases arrayElement (split transactionId) 0 with
      | error e => simp
      | ok issuerText =>
          dsimp only
          cases parseInt issuerText <;> simp

theorem disposition_eq_execute_iff
    (tx : Transaction)
    (operation : Operation D) :
    disposition tx = .execute operation ↔
      ∃ command, tx.command = some command ∧
        operation.OfCommand command := by
  unfold disposition
  cases tx.command with
  | none => simp
  | some command =>
      dsimp only
      split_ifs with hRequest
      · subst hRequest
        simp [requestDisposition_ne_execute,
          not_ofCommand_request]
      · simp [commandDisposition_eq_execute_iff]

/- Executable means that the command is well formed. -/
theorem executable_iff_wellFormed
    {tx : Transaction}
    {command : String}
    (hCommand : tx.command = some command) :
    executable D tx ↔ WellFormed D command := by
  rw [executable_iff, wellFormed_iff]
  simp [disposition_eq_execute_iff, hCommand]

/- A transaction with a well-formed command. -/
def Transaction.WellFormed
    (D : Type) [DoubleArithmetic D]
    (tx : Transaction) : Prop :=
  ∃ command, tx.command = some command ∧
    ReplicatedAccount.WellFormed D command

theorem Transaction.wellFormed_iff_executable
    (tx : Transaction) :
    tx.WellFormed D ↔ executable D tx := by
  constructor
  · rintro ⟨command, hCommand, hWellFormed⟩
    exact (executable_iff_wellFormed hCommand).mpr hWellFormed
  · intro hExecutable
    cases hCommand : tx.command with
    | none =>
        simp [executable, disposition, hCommand] at hExecutable
    | some command =>
        exact ⟨command, hCommand,
          (executable_iff_wellFormed hCommand).mp hExecutable⟩

instance
    (tx : Transaction) :
    Decidable (tx.WellFormed D) :=
  decidable_of_iff _ tx.wellFormed_iff_executable.symm

end ReplicatedAccount
