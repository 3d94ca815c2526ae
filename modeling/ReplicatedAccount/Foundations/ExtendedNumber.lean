import Mathlib.Algebra.Field.Basic
import Mathlib.Algebra.Order.Ring.Rat
import Mathlib.Algebra.Field.Rat
import Mathlib.Tactic.Common

/-
  Numbers with infinities and a value that is no number, as
  in floating-point arithmetic, over an exact ordered field.

  Sums and products are finite exactly when both operands
  are, so whatever is computed from a value that is not
  finite is not finite either.  There is one zero only.

  Key definitions include:
    * `Extended`
    * `Extended.isFinite`
    * `Extended.add`
    * `Extended.mul`
    * `Extended.div`

  Key theorems include:
    * `Extended.isFinite_add`
    * `Extended.isFinite_mul`
    * `Extended.isFinite_div_finite`
-/

------------------------------------------------------------
-- Extended Numbers
------------------------------------------------------------

namespace Foundations

/- A finite value, an infinity with its sign, or neither. -/
inductive Extended (α : Type) where
  | finite (a : α)
  | infinite (negative : Bool)
  | nan
deriving DecidableEq, Repr

namespace Extended

variable {α : Type}

def isFinite : Extended α → Bool
| .finite _ => true
| .infinite _ => false
| .nan => false

theorem isFinite_iff
    (x : Extended α) :
    x.isFinite ↔ ∃ a, x = .finite a := by
  cases x <;> simp [isFinite]

end Extended

end Foundations

------------------------------------------------------------
-- Arithmetic
------------------------------------------------------------

namespace Foundations

namespace Extended

variable {α : Type} [Field α]

/- Opposite infinities have no sum. -/
def add : Extended α → Extended α → Extended α
| .finite a, .finite b => .finite (a + b)
| .infinite m, .finite _ => .infinite m
| .finite _, .infinite n => .infinite n
| .infinite m, .infinite n =>
    if m = n then .infinite m else .nan
| .nan, _ => .nan
| _, .nan => .nan

@[simp] theorem add_nan_left
    (x : Extended α) :
    add .nan x = .nan := by
  cases x <;> rfl

/- A sum is finite exactly when both operands are. -/
@[simp] theorem isFinite_add
    (x y : Extended α) :
    (add x y).isFinite = (x.isFinite && y.isFinite) := by
  cases x <;> cases y <;> simp only [add] <;>
    (try split) <;> rfl

/- Adding a finite number other than zero makes a change. -/
theorem add_finite_ne_self
    (a : α)
    {b : α}
    (hNonzero : b ≠ 0) :
    add (.finite a) (.finite b) ≠ .finite a := by
  simpa [add] using hNonzero

variable [LinearOrder α]

/- Zero times an infinity is no number. -/
def mul : Extended α → Extended α → Extended α
| .finite a, .finite b => .finite (a * b)
| .infinite m, .finite b =>
    if b = 0 then .nan else .infinite (m != decide (b < 0))
| .finite a, .infinite n =>
    if a = 0 then .nan else .infinite (decide (a < 0) != n)
| .infinite m, .infinite n => .infinite (m != n)
| .nan, _ => .nan
| _, .nan => .nan

/- A quotient by zero is infinite, and 0/0 is no number. -/
def div : Extended α → Extended α → Extended α
| .finite a, .finite b =>
    if b = 0 then
      if a = 0 then .nan else .infinite (decide (a < 0))
    else
      .finite (a / b)
| .infinite m, .finite b => .infinite (m != decide (b < 0))
| .finite _, .infinite _ => .finite 0
| .infinite _, .infinite _ => .nan
| .nan, _ => .nan
| _, .nan => .nan

/- A product is finite exactly when both operands are. -/
@[simp] theorem isFinite_mul
    (x y : Extended α) :
    (mul x y).isFinite = (x.isFinite && y.isFinite) := by
  cases x <;> cases y <;> simp only [mul] <;>
    (try split) <;> rfl

/- Dividing by a finite number other than zero. -/
theorem isFinite_div_finite
    (x : Extended α)
    {b : α}
    (hNonzero : b ≠ 0) :
    (div x (.finite b)).isFinite = x.isFinite := by
  cases x with
  | finite a => simp [div, hNonzero, isFinite]
  | infinite m => rfl
  | nan => rfl

end Extended

end Foundations
