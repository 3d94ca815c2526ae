import Mathlib.Data.Fin.Basic
import Mathlib.Order.Nat
import Mathlib.Logic.Function.Basic
import Mathlib.Tactic.Common
import Mathlib.Tactic.NormNum.Basic

/-
  Sites that are visited one after another, round by round.

  The number of visits at each site says when its last visit
  was, and so who is next.

  Key definitions include:
    * `RoundRobin.time`
    * `RoundRobin.Turn`

  Key theorems include:
    * `RoundRobin.Turn.visit`
    * `RoundRobin.Turn.visits_succ`
    * `RoundRobin.Turn.visits_first`
    * `RoundRobin.Turn.next`
    * `RoundRobin.forall_of_next`
-/

------------------------------------------------------------
-- Turns
------------------------------------------------------------

namespace Foundations

namespace RoundRobin

variable {n : Nat}

/- The time of the last visit at a site. -/
def time
    (visits : Fin n → Nat)
    (i : Fin n) :
    Nat :=
  visits i * n + i

/- Every site was visited within the last round. -/
structure Turn
    (visits : Fin n → Nat)
    (now : Nat) : Prop where
  before : ∀ i, time visits i < now
  recent : ∀ i, now ≤ time visits i + n

variable {visits : Fin n → Nat}
variable {now : Nat}

/- No two sites were visited at one time. -/
theorem time_injective
    (visits : Fin n → Nat) :
    Function.Injective (time visits) := by
  intro i j hSame
  have hMod : ∀ k : Fin n, time visits k % n = k := by
    intro k
    rw [time, Nat.add_comm, Nat.add_mul_mod_self_right]
    exact Nat.mod_eq_of_lt k.isLt
  exact Fin.ext (by rw [← hMod i, ← hMod j, hSame])

/- The next site is the one visited longest ago. -/
theorem Turn.first
    (hTurn : Turn visits now)
    {i : Fin n}
    (hNext : now = time visits i + n)
    {p : Fin n}
    (hOther : p ≠ i) :
    time visits i < time visits p := by
  have hRecent := hTurn.recent p
  have hNot : time visits p ≠ time visits i :=
    fun hSame => hOther (time_injective visits hSame)
  omega

theorem time_update_same
    (i : Fin n) :
    time (Function.update visits i (visits i + 1)) i =
      time visits i + n := by
  rw [time, time, Function.update_self, Nat.succ_mul]
  omega

theorem time_update_of_ne
    {i p : Fin n}
    (k : Nat)
    (hOther : p ≠ i) :
    time (Function.update visits i k) p = time visits p := by
  rw [time, time, Function.update_of_ne hOther]

/- The visit of the site whose turn it is. -/
theorem Turn.visit
    (hTurn : Turn visits now)
    {i : Fin n}
    (hNext : now = time visits i + n) :
    Turn (Function.update visits i (visits i + 1)) (now + 1) where
  before p := by
    by_cases hSame : p = i
    · subst hSame
      rw [time_update_same]
      omega
    · rw [time_update_of_ne _ hSame]
      exact (hTurn.before p).trans (Nat.lt_succ_self _)
  recent p := by
    by_cases hSame : p = i
    · subst hSame
      have hSize := p.isLt
      rw [time_update_same]
      omega
    · have hLess := hTurn.first hNext hSame
      rw [time_update_of_ne _ hSame]
      omega

/- A site is at most a visit ahead of the one behind it. -/
theorem Turn.visits_succ
    (hTurn : Turn visits now)
    {i j : Fin n}
    (hBehind : j.val = i.val + 1) :
    visits j ≤ visits i ∧ visits i ≤ visits j + 1 := by
  have hBefore := hTurn.before i
  have hBefore' := hTurn.before j
  have hRecent := hTurn.recent i
  have hRecent' := hTurn.recent j
  have hPos : 0 < n := i.pos
  simp only [time] at hBefore hBefore' hRecent hRecent'
  constructor
  · by_contra hMore
    have hMul : (visits i + 1) * n ≤ visits j * n :=
      Nat.mul_le_mul_right n (Nat.lt_of_not_le hMore)
    rw [Nat.succ_mul] at hMul
    omega
  · by_contra hMore
    have hMul : (visits j + 2) * n ≤ visits i * n :=
      Nat.mul_le_mul_right n (by omega)
    rw [Nat.add_mul] at hMul
    have hSize := j.isLt
    omega

/- If it is a visit ahead, the site behind it is next. -/
theorem Turn.next_of_succ
    (hTurn : Turn visits now)
    {i j : Fin n}
    (hBehind : j.val = i.val + 1)
    (hAhead : visits i = visits j + 1) :
    now = time visits j + n ∧ now = time visits i + 1 := by
  have hBefore := hTurn.before i
  have hRecent := hTurn.recent j
  have hTime : time visits i + 1 = time visits j + n := by
    simp only [time]
    rw [hAhead, Nat.succ_mul]
    omega
  omega

/- The last site is at most a visit behind the first one. -/
theorem Turn.visits_first
    (hTurn : Turn visits now)
    {i j : Fin n}
    (hFirst : j.val = 0)
    (hLast : i.val + 1 = n) :
    visits i ≤ visits j ∧ visits j ≤ visits i + 1 := by
  have hBefore := hTurn.before i
  have hBefore' := hTurn.before j
  have hRecent := hTurn.recent i
  have hRecent' := hTurn.recent j
  simp only [time] at hBefore hBefore' hRecent hRecent'
  constructor
  · by_contra hMore
    have hMul : (visits j + 1) * n ≤ visits i * n :=
      Nat.mul_le_mul_right n (Nat.lt_of_not_le hMore)
    rw [Nat.succ_mul] at hMul
    omega
  · by_contra hMore
    have hMul : (visits i + 2) * n ≤ visits j * n :=
      Nat.mul_le_mul_right n (by omega)
    rw [Nat.add_mul] at hMul
    omega

/- If it is as far, the first site is next. -/
theorem Turn.next_of_last
    (hTurn : Turn visits now)
    {i j : Fin n}
    (hFirst : j.val = 0)
    (hLast : i.val + 1 = n)
    (hSame : visits i = visits j) :
    now = time visits j + n ∧ now = time visits i + 1 := by
  have hBefore := hTurn.before i
  have hRecent := hTurn.recent j
  have hTime : time visits i + 1 = time visits j + n := by
    simp only [time]
    rw [hSame]
    omega
  omega

end RoundRobin

end Foundations

------------------------------------------------------------
-- The Next Site
------------------------------------------------------------

namespace Foundations

namespace RoundRobin

variable {n : Nat}
variable [NeZero n]
variable {visits : Fin n → Nat}
variable {now : Nat}

/- The site behind another one, or the first behind the last. -/
theorem next_cases
    {i j : Fin n}
    (hNext : i + 1 = j) :
    j.val = i.val + 1 ∨ j.val = 0 ∧ i.val + 1 = n := by
  subst hNext
  rw [Fin.val_add, Fin.val_one', Nat.add_mod_mod]
  rcases Nat.lt_or_ge (i.val + 1) n with hLess | hMore
  · exact Or.inl (Nat.mod_eq_of_lt hLess)
  · have hSize := i.isLt
    have hLast : i.val + 1 = n := by
      omega
    exact Or.inr ⟨by rw [hLast, Nat.mod_self], hLast⟩

/- After the last visit, it is the turn of the next site. -/
theorem Turn.next
    (hTurn : Turn visits now)
    {i : Fin n}
    (hLast : now = time visits i + 1) :
    now = time visits (i + 1) + n := by
  have hBefore := hTurn.before (i + 1)
  rcases next_cases (rfl : i + 1 = i + 1) with
    hBehind | ⟨hFirst, hEnd⟩
  · have hVisits := hTurn.visits_succ hBehind
    have hAhead : visits i = visits (i + 1) + 1 := by
      by_contra hNot
      have hSame : visits i = visits (i + 1) := by
        omega
      simp only [time, hSame] at hLast hBefore
      omega
    exact (hTurn.next_of_succ hBehind hAhead).1
  · have hVisits := hTurn.visits_first hFirst hEnd
    have hSame : visits i = visits (i + 1) := by
      by_contra hNot
      have hAhead : visits (i + 1) = visits i + 1 := by
        omega
      simp only [time, hAhead, hFirst, Nat.succ_mul] at *
      omega
    exact (hTurn.next_of_last hFirst hEnd hSame).1

/- What each site passes on to the next holds of all. -/
theorem forall_of_next
    {P : Fin n → Prop}
    (hNext : ∀ i, P i → P (i + 1))
    {i : Fin n}
    (hSome : P i)
    (j : Fin n) :
    P j := by
  have hUp :
      ∀ k (i j : Fin n), P i → j.val = i.val + k → P j := by
    intro k
    induction k with
    | zero =>
        intro i j hStart hSame
        exact Fin.ext hSame ▸ hStart
    | succ k ih =>
        intro i j hStart hSame
        have hSize := j.isLt
        have hBefore : P ⟨i.val + k, by omega⟩ :=
          ih i _ hStart rfl
        rcases next_cases
            (rfl : (⟨i.val + k, by omega⟩ : Fin n) + 1 = _) with
          hBehind | ⟨_, hEnd⟩
        · have hEq : (⟨i.val + k, by omega⟩ : Fin n) + 1 = j :=
            Fin.ext (by dsimp only at hBehind; omega)
          exact hEq ▸ hNext _ hBefore
        · dsimp only at hEnd
          omega
  have hSize := i.isLt
  have hLast : P ⟨n - 1, by omega⟩ :=
    hUp (n - 1 - i.val) i _ hSome (by dsimp only; omega)
  have hFirst : P 0 := by
    rcases next_cases
        (rfl : (⟨n - 1, by omega⟩ : Fin n) + 1 = _) with
      hBehind | ⟨hZero, _⟩
    · have hLess := ((⟨n - 1, by omega⟩ : Fin n) + 1).isLt
      dsimp only at hBehind
      omega
    · have hEq : (⟨n - 1, by omega⟩ : Fin n) + 1 = 0 :=
        Fin.ext hZero
      exact hEq ▸ hNext _ hLast
  exact hUp j.val 0 j hFirst (by simp)

end RoundRobin

end Foundations
