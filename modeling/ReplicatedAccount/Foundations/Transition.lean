import Mathlib.Data.List.Induction
import Mathlib.Tactic.Common

/-
  Labelled transition systems with a deterministic, partial
  step function: an action that is not enabled has no
  successor.  A run is a list of actions.

  Key definitions include:
    * `TransitionSystem`
    * `TransitionSystem.run`
    * `TransitionSystem.restrict`
    * `TransitionSystem.EveryStep`
    * `TransitionSystem.EveryState`

  Key theorems include:
    * `TransitionSystem.run_induction`
    * `TransitionSystem.invariant`
    * `TransitionSystem.related_of_isPrefix`
    * `TransitionSystem.run_of_simulation`
    * `TransitionSystem.run_restrict_iff`
    * `TransitionSystem.everyState_iff_everyStep`
-/

------------------------------------------------------------
-- Runs
------------------------------------------------------------

namespace Foundations

/- A start state and what each action does to a state. -/
structure TransitionSystem (S A : Type) where
  start : S
  step : S → A → Option S

namespace TransitionSystem

variable {S A : Type}

/- The state after a list of actions, if all are enabled. -/
def runFrom
    (T : TransitionSystem S A)
    (s : S) :
    List A → Option S
| [] => some s
| a :: as =>
    match T.step s a with
    | none => none
    | some s' => T.runFrom s' as

/- The state after a list of actions from the start. -/
def run
    (T : TransitionSystem S A)
    (as : List A) :
    Option S :=
  T.runFrom T.start as

variable (T : TransitionSystem S A)

@[simp] theorem run_nil :
    T.run [] = some T.start :=
  rfl

theorem runFrom_append
    (s : S)
    (as bs : List A) :
    T.runFrom s (as ++ bs) =
      (T.runFrom s as).bind fun s' => T.runFrom s' bs := by
  induction as generalizing s with
  | nil => rfl
  | cons a as ih =>
      cases hStep : T.step s a with
      | none => simp [runFrom, hStep]
      | some s' => simp [runFrom, hStep, ih]

/- A longer run splits at any point. -/
theorem run_append_iff
    (as bs : List A)
    (s : S) :
    T.run (as ++ bs) = some s ↔
      ∃ s', T.run as = some s' ∧
        T.runFrom s' bs = some s := by
  rw [run, runFrom_append, Option.bind_eq_some_iff]
  rfl

/- The last action of a run is a step. -/
theorem run_concat_iff
    (as : List A)
    (a : A)
    (s : S) :
    T.run (as ++ [a]) = some s ↔
      ∃ s', T.run as = some s' ∧
        T.step s' a = some s := by
  rw [run_append_iff]
  apply exists_congr
  intro s'
  apply and_congr_right
  intro _
  cases hStep : T.step s' a <;> simp [runFrom, hStep]

/- Every run is built from the start by single steps. -/
theorem run_induction
    {P : List A → S → Prop}
    (hStart : P [] T.start)
    (hStep :
      ∀ as s a s',
        T.run as = some s → P as s →
          T.step s a = some s' → P (as ++ [a]) s')
    {as : List A}
    {s : S}
    (hRun : T.run as = some s) :
    P as s := by
  induction as using List.reverseRecOn generalizing s with
  | nil =>
      cases hRun
      exact hStart
  | append_singleton as a ih =>
      rcases (T.run_concat_iff as a s).mp hRun with
        ⟨s', hBefore, hLast⟩
      exact hStep as s' a s hBefore (ih hBefore) hLast

/- What the start has and every step keeps, every run has. -/
theorem invariant
    {I : S → Prop}
    (hStart : I T.start)
    (hStep :
      ∀ s a s', I s → T.step s a = some s' → I s')
    {as : List A}
    {s : S}
    (hRun : T.run as = some s) :
    I s :=
  T.run_induction (P := fun _ s => I s) hStart
    (fun _ s a s' _ hInv hNext => hStep s a s' hInv hNext)
    hRun

/- A preorder that every step climbs, every run climbs. -/
theorem related_of_isPrefix
    {R : S → S → Prop}
    (hRefl : ∀ s, R s s)
    (hTrans : ∀ s t u, R s t → R t u → R s u)
    (hStep :
      ∀ cs s a s',
        T.run cs = some s → T.step s a = some s' → R s s')
    {as bs : List A}
    {s t : S}
    (hPrefix : as <+: bs)
    (hBefore : T.run as = some s)
    (hAfter : T.run bs = some t) :
    R s t := by
  rcases hPrefix with ⟨rest, rfl⟩
  induction rest using List.reverseRecOn generalizing t with
  | nil =>
      rw [List.append_nil] at hAfter
      exact Option.some.inj (hBefore.symm.trans hAfter) ▸ hRefl s
  | append_singleton rest a ih =>
      rw [← List.append_assoc] at hAfter
      rcases (T.run_concat_iff _ a t).mp hAfter with
        ⟨u, hRun, hLast⟩
      exact hTrans s u t (ih hRun) (hStep _ u a t hRun hLast)

end TransitionSystem

end Foundations

------------------------------------------------------------
-- Simulation
------------------------------------------------------------

namespace Foundations

namespace TransitionSystem

variable {S A S' B : Type}

/-
  A view of a system that another system follows: a step of
  the first shows as a step of the second or not at all.
  `G` is a property that earlier states inherit from
  later ones, such as a bound on something that only grows.
-/
theorem run_of_simulation
    (T : TransitionSystem S A)
    (U : TransitionSystem S' B)
    (view : S → S')
    {G : S → Prop}
    (hGuard :
      ∀ s a s', T.step s a = some s' → G s' → G s)
    (hStart : view T.start = U.start)
    (hStep :
      ∀ as s a s',
        T.run as = some s → T.step s a = some s' → G s' →
          view s' = view s ∨
            ∃ b, U.step (view s) b = some (view s'))
    {as : List A}
    {s : S}
    (hRun : T.run as = some s)
    (hEnd : G s) :
    ∃ bs, U.run bs = some (view s) := by
  revert hEnd
  apply T.run_induction
    (P := fun _ s => G s → ∃ bs, U.run bs = some (view s))
    ?_ ?_ hRun
  · intro _
    exact ⟨[], by rw [run_nil, hStart]⟩
  · intro as s a s' hBefore ih hNext hEnd
    rcases ih (hGuard s a s' hNext hEnd) with ⟨bs, hRuns⟩
    rcases hStep as s a s' hBefore hNext hEnd with
      hSame | ⟨b, hMove⟩
    · exact ⟨bs, hSame ▸ hRuns⟩
    · exact ⟨bs ++ [b],
        (U.run_concat_iff bs b _).mpr ⟨_, hRuns, hMove⟩⟩

end TransitionSystem

end Foundations

------------------------------------------------------------
-- Restricted Systems
------------------------------------------------------------

namespace Foundations

namespace TransitionSystem

variable {S A : Type}
variable (T : TransitionSystem S A)
variable (allowed : S → A → Prop)
variable [∀ s a, Decidable (allowed s a)]

/- The same system with only the allowed steps left. -/
def restrict : TransitionSystem S A where
  start := T.start
  step := fun s a =>
    if allowed s a then T.step s a else none

/- Every step along a run of the system is allowed. -/
def EveryStep
    (T : TransitionSystem S A)
    (allowed : S → A → Prop)
    (as : List A) : Prop :=
  ∀ before a rest s,
    as = before ++ a :: rest →
      T.run before = some s → allowed s a

theorem step_restrict_iff
    (s : S)
    (a : A)
    (s' : S) :
    (T.restrict allowed).step s a = some s' ↔
      allowed s a ∧ T.step s a = some s' := by
  simp [restrict]

/- The steps of an earlier part of a run. -/
omit [∀ s a, Decidable (allowed s a)] in
theorem everyStep_of_isPrefix
    {as bs : List A}
    (hPrefix : as <+: bs)
    (hEvery : EveryStep T allowed bs) :
    EveryStep T allowed as := by
  rcases hPrefix with ⟨later, rfl⟩
  intro before a rest s hSplit hBefore
  apply hEvery before a (rest ++ later) s
  · simp [hSplit]
  · exact hBefore

/- A step of an extended run is an old one or the new one. -/
omit [∀ s a, Decidable (allowed s a)] in
theorem everyStep_concat_iff
    (as : List A)
    (a : A)
    (s : S)
    (hRun : T.run as = some s) :
    EveryStep T allowed (as ++ [a]) ↔
      EveryStep T allowed as ∧ allowed s a := by
  constructor
  · intro hEvery
    refine ⟨?_, hEvery as a [] s rfl hRun⟩
    intro before b rest t hSplit hBefore
    apply hEvery before b (rest ++ [a]) t
    · simp [hSplit]
    · exact hBefore
  · rintro ⟨hEvery, hLast⟩ before b rest t hSplit hBefore
    rcases List.eq_nil_or_concat rest with hNil | hConcat
    · subst rest
      have hParts :=
        List.append_inj' hSplit rfl
      rcases hParts with ⟨rfl, hSame⟩
      cases hSame
      have hState : s = t :=
        Option.some.inj (hRun.symm.trans hBefore)
      exact hState ▸ hLast
    · rcases hConcat with ⟨middle, c, rfl⟩
      have hFront : as = before ++ b :: middle := by
        have hJoined :
            as ++ [a] = (before ++ b :: middle) ++ [c] := by
          simpa using hSplit
        exact (List.append_inj' hJoined rfl).1
      exact hEvery before b middle t hFront hBefore

/-
  The runs of the restricted system are the runs of the
  system whose steps are all allowed.
-/
theorem run_restrict_iff
    (as : List A)
    (s : S) :
    (T.restrict allowed).run as = some s ↔
      T.run as = some s ∧ EveryStep T allowed as := by
  induction as using List.reverseRecOn generalizing s with
  | nil =>
      constructor
      · intro hRun
        refine ⟨hRun, ?_⟩
        intro before a rest t hSplit
        simp at hSplit
      · exact fun hRun => hRun.1
  | append_singleton as a ih =>
      rw [run_concat_iff, run_concat_iff]
      constructor
      · rintro ⟨s', hBefore, hNext⟩
        rcases (ih s').mp hBefore with ⟨hRun, hEvery⟩
        rcases
            (T.step_restrict_iff allowed s' a s).mp hNext with
          ⟨hAllowed, hStep⟩
        exact ⟨⟨s', hRun, hStep⟩,
          (T.everyStep_concat_iff allowed as a s' hRun).mpr
            ⟨hEvery, hAllowed⟩⟩
      · rintro ⟨⟨s', hRun, hStep⟩, hEvery⟩
        rcases
            (T.everyStep_concat_iff allowed as a s' hRun).mp
              hEvery with
          ⟨hBefore, hAllowed⟩
        exact ⟨s', (ih s').mpr ⟨hRun, hBefore⟩,
          (T.step_restrict_iff allowed s' a s).mpr
            ⟨hAllowed, hStep⟩⟩

end TransitionSystem

end Foundations

------------------------------------------------------------
-- States Along a Run
------------------------------------------------------------

namespace Foundations

namespace TransitionSystem

variable {S A : Type}

/- Every state along a run of the system has the property. -/
def EveryState
    (T : TransitionSystem S A)
    (P : S → Prop)
    (as : List A) : Prop :=
  ∀ before s, before <+: as → T.run before = some s → P s

variable (T : TransitionSystem S A)

/- The actions of a run are enabled where they are taken. -/
theorem step_of_run_split
    {before later : List A}
    {a : A}
    {s t : S}
    (hRun : T.run (before ++ a :: later) = some t)
    (hBefore : T.run before = some s) :
    ∃ s', T.step s a = some s' ∧
      T.run (before ++ [a]) = some s' := by
  rw [List.append_cons] at hRun
  rcases (T.run_append_iff _ later t).mp hRun with
    ⟨s', hStepRun, _⟩
  rcases (T.run_concat_iff before a s').mp hStepRun with
    ⟨u, hSame, hStep⟩
  have hState : u = s :=
    Option.some.inj (hSame.symm.trans hBefore)
  exact ⟨s', hState ▸ hStep, hStepRun⟩

/-
  An invariant that holds while all steps are allowed.  The
  steps are also assumed to satisfy a condition that the
  property itself does not enforce.
-/
theorem everyState_of_everyStep
    {I : S → Prop}
    {assumed allowed : S → A → Prop}
    (hStart : I T.start)
    (hStep :
      ∀ bs s a s',
        T.run bs = some s → I s → assumed s a → allowed s a →
          T.step s a = some s' → I s')
    {as : List A}
    (hAssumed : T.EveryStep assumed as)
    (hAllowed : T.EveryStep allowed as) :
    T.EveryState I as := by
  intro before s hPrefix hBefore
  have hAssumedBefore :=
    T.everyStep_of_isPrefix assumed hPrefix hAssumed
  have hAllowedBefore :=
    T.everyStep_of_isPrefix allowed hPrefix hAllowed
  revert hAssumedBefore hAllowedBefore
  refine T.run_induction
    (P := fun bs s =>
      T.EveryStep assumed bs → T.EveryStep allowed bs → I s)
    (fun _ _ => hStart) ?_ hBefore
  intro bs s a s' hRun ih hNext hAssumedRun hAllowedRun
  rcases (T.everyStep_concat_iff assumed bs a s hRun).mp
      hAssumedRun with
    ⟨hAssumedEarlier, hAssumedLast⟩
  rcases (T.everyStep_concat_iff allowed bs a s hRun).mp
      hAllowedRun with
    ⟨hAllowedEarlier, hAllowedLast⟩
  exact hStep bs s a s' hRun
    (ih hAssumedEarlier hAllowedEarlier) hAssumedLast
    hAllowedLast hNext

/-
  A property holds in every state along a run exactly when
  every step is allowed: allowed steps keep an invariant that
  implies it, and a step after which it holds was allowed.
-/
theorem everyState_iff_everyStep
    {I P : S → Prop}
    {assumed allowed : S → A → Prop}
    (hStart : I T.start)
    (hStep :
      ∀ bs s a s',
        T.run bs = some s → I s → assumed s a → allowed s a →
          T.step s a = some s' → I s')
    (hGood : ∀ s, I s → P s)
    (hNeeded :
      ∀ bs s a s',
        T.run bs = some s → T.step s a = some s' → P s' →
          allowed s a)
    {as : List A}
    {s : S}
    (hRun : T.run as = some s)
    (hAssumed : T.EveryStep assumed as) :
    T.EveryState P as ↔ T.EveryStep allowed as := by
  constructor
  · rintro hAlways before a later t rfl hBefore
    rcases T.step_of_run_split hRun hBefore with
      ⟨t', hNext, hAfter⟩
    exact hNeeded before t a t' hBefore hNext
      (hAlways (before ++ [a]) t' ⟨later, by simp⟩ hAfter)
  · intro hAllowed before t hPrefix hBefore
    exact hGood t
      (T.everyState_of_everyStep hStart hStep hAssumed hAllowed
        before t hPrefix hBefore)

end TransitionSystem

end Foundations
