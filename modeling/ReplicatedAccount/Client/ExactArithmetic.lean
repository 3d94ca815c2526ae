import Mathlib.Algebra.Order.Ring.Rat
import Mathlib.Algebra.Field.Rat
import ReplicatedAccount.Client.Basic

/-
  Exact rational arithmetic as an interpretation of doubles.

  Key definitions include:
    * `ExactDouble`
    * `Decimal`
-/

------------------------------------------------------------
-- Exact Doubles
------------------------------------------------------------

namespace ReplicatedAccount

open Foundations

/-
  Rational numbers without rounding, together with the parser
  that turns texts into them.
-/
def ExactDouble (_parse : String → Option ℚ) : Type := ℚ

namespace ExactDouble

variable {parse : String → Option ℚ}

instance : Field (ExactDouble parse) :=
  inferInstanceAs (Field ℚ)

instance : DecidableEq (ExactDouble parse) :=
  inferInstanceAs (DecidableEq ℚ)

instance : CharZero (ExactDouble parse) :=
  inferInstanceAs (CharZero ℚ)

instance : DoubleArithmetic (ExactDouble parse) where
  zero := 0
  hundred := 100
  add := fun a b => a + b
  mul := fun a b => a * b
  div := fun a b => a / b
  parseDouble := parse

end ExactDouble

/- Exact doubles that read plain decimal literals. -/
abbrev Decimal : Type :=
  ExactDouble JavaText.parseDecimal

end ReplicatedAccount
