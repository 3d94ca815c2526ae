import ReplicatedAccount.Client.Disposition
import ReplicatedAccount.Foundations.JavaDouble

/-
  Exact arithmetic with infinities and NaN as an
  interpretation of doubles, and when a balance stays finite.

  Key definitions include:
    * `ExtendedDouble`
    * `JavaDouble`
    * `Operation.value`
    * `Transaction.FiniteValue`

  Key theorems include:
    * `Operation.isFinite_apply`
    * `isFinite_replay_iff`
    * `Operation.apply_nan`
-/

------------------------------------------------------------
-- Extended Doubles
------------------------------------------------------------

namespace ReplicatedAccount

open Foundations

/-
  Exact numbers with infinities and NaN, together with the
  parser that turns texts into them.
-/
def ExtendedDouble
    (_parse : String → Option (Extended ℚ)) :
    Type :=
  Extended ℚ

namespace ExtendedDouble

variable {parse : String → Option (Extended ℚ)}

instance : DecidableEq (ExtendedDouble parse) :=
  inferInstanceAs (DecidableEq (Extended ℚ))

instance : DoubleArithmetic (ExtendedDouble parse) where
  zero := Extended.finite 0
  hundred := Extended.finite 100
  add := Extended.add
  mul := Extended.mul
  div := Extended.div
  parseDouble := parse

/- The value that is no number. -/
def nan : ExtendedDouble parse :=
  Extended.nan

/- Neither an infinity nor NaN. -/
def isFinite (x : ExtendedDouble parse) : Bool :=
  Extended.isFinite x

end ExtendedDouble

/- Doubles that read what `Double.parseDouble` accepts. -/
abbrev JavaDouble : Type :=
  ExtendedDouble DoubleLiteral.parseDouble

end ReplicatedAccount

------------------------------------------------------------
-- Finite Balances
------------------------------------------------------------

namespace ReplicatedAccount

open Foundations

variable {parse : String → Option (Extended ℚ)}

namespace Operation

/- The value of a deposit or an addInterest. -/
def value {D : Type} : Operation D → D
| .deposit amount => amount
| .addInterest percent => percent

/- A balance with interest, in percent. -/
private theorem isFinite_interest
    (balance percent : Extended ℚ) :
    (balance.add
        (balance.mul (percent.div (.finite 100)))).isFinite =
      (balance.isFinite && percent.isFinite) := by
  have hHundred : (100 : ℚ) ≠ 0 := by norm_num
  rw [Extended.isFinite_add, Extended.isFinite_mul,
    Extended.isFinite_div_finite percent hHundred,
    ← Bool.and_assoc, Bool.and_self]

/-
  An operation keeps a balance finite exactly when its value
  is finite, and it never makes a balance finite again.
-/
theorem isFinite_apply
    (operation : Operation (ExtendedDouble parse))
    (balance : ExtendedDouble parse) :
    (operation.apply balance).isFinite =
      (balance.isFinite && operation.value.isFinite) := by
  cases operation with
  | deposit amount => exact Extended.isFinite_add balance amount
  | addInterest percent => exact isFinite_interest balance percent

/- No operation changes a balance that is no number. -/
theorem apply_nan
    (operation : Operation (ExtendedDouble parse)) :
    operation.apply ExtendedDouble.nan =
      ExtendedDouble.nan := by
  cases operation with
  | deposit amount =>
      exact Extended.add_nan_left (α := ℚ) amount
  | addInterest percent =>
      exact Extended.add_nan_left (α := ℚ) (Extended.mul .nan
        (Extended.div percent (.finite 100)))

end Operation

/- The transaction is not executed, or has a finite value. -/
def Transaction.FiniteValue
    (parse : String → Option (Extended ℚ))
    (tx : Transaction) : Prop :=
  ∀ operation : Operation (ExtendedDouble parse),
    disposition tx = .execute operation →
      operation.value.isFinite

theorem isFinite_applyTransaction_iff
    (balance : ExtendedDouble parse)
    (tx : Transaction) :
    (applyTransaction balance tx).isFinite ↔
      balance.isFinite ∧ tx.FiniteValue parse := by
  unfold applyTransaction Transaction.FiniteValue
  cases disposition (D := ExtendedDouble parse) tx with
  | execute operation => simp [operation.isFinite_apply]
  | answer issuer => simp
  | skip => simp
  | abort e => simp

/- One value that is not finite spoils the whole replay. -/
theorem isFinite_replay_iff
    (balance : ExtendedDouble parse)
    (txs : List Transaction) :
    (replay balance txs).isFinite ↔
      balance.isFinite ∧ ∀ tx ∈ txs, tx.FiniteValue parse := by
  induction txs generalizing balance with
  | nil => simp
  | cons tx rest ih =>
      simp [ih, isFinite_applyTransaction_iff, and_assoc]

/-
  The balance is finite, and some deposit or addInterest
  still changes it.
-/
def ExtendedDouble.Live
    (balance : ExtendedDouble parse) : Prop :=
  balance.isFinite ∧
    ∃ operation : Operation (ExtendedDouble parse),
      operation.apply balance ≠ balance

/- A finite balance can always be changed. -/
theorem ExtendedDouble.live_iff
    (balance : ExtendedDouble parse) :
    balance.Live ↔ balance.isFinite := by
  constructor
  · exact And.left
  · intro hFinite
    refine ⟨hFinite, .deposit (Extended.finite 1), ?_⟩
    rcases (Extended.isFinite_iff balance).mp hFinite with
      ⟨a, rfl⟩
    exact Extended.add_finite_ne_self a one_ne_zero

end ReplicatedAccount
