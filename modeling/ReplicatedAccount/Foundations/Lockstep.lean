import ReplicatedAccount.Foundations.Transition

/-
  Two runs of deterministic systems that receive the same
  shared inputs in the same order, each with private actions
  of its own in between.

  A relation that private actions of either side keep, and
  that shared inputs on both sides at once keep, holds
  whenever both sides have received the same shared inputs.

  Key definitions include:
    * `Lockstep`

  Key theorems include:
    * `Lockstep.related_of_runs`
-/

------------------------------------------------------------
-- Lockstep Relations
------------------------------------------------------------

namespace Foundations

/-
  `shared` reads the shared input off an action; actions
  without one are private.  Only admissible inputs count.
-/
structure Lockstep
    {S A I : Type}
    (left right : TransitionSystem S A)
    (shared : A → Option I)
    (admissible : I → Prop)
    (R : S → S → Prop) : Prop where
  start : R left.start right.start
  privateLeft :
    ∀ s t a s',
      R s t → shared a = none →
        left.step s a = some s' → R s' t
  privateRight :
    ∀ s t a t',
      R s t → shared a = none →
        right.step t a = some t' → R s t'
  together :
    ∀ s t a b s' t' i,
      R s t → shared a = some i → shared b = some i →
        admissible i →
        left.step s a = some s' →
          right.step t b = some t' → R s' t'

namespace Lockstep

variable {S A I : Type}
variable {left right : TransitionSystem S A}
variable {shared : A → Option I}
variable {admissible : I → Prop}
variable {R : S → S → Prop}

/- Private actions of the right side keep the relation. -/
private theorem related_of_private_run
    (hLock : Lockstep left right shared admissible R)
    {bs : List A}
    {s t : S}
    (hPrivate : bs.filterMap shared = [])
    (hStart : R s right.start)
    (hRun : right.run bs = some t) :
    R s t := by
  induction bs using List.reverseRecOn generalizing t with
  | nil =>
      have hEnd : right.start = t := Option.some.inj hRun
      exact hEnd ▸ hStart
  | append_singleton bs b ih =>
      rcases (right.run_concat_iff bs b t).mp hRun with
        ⟨t', hBefore, hStep⟩
      rw [List.filterMap_append,
        List.append_eq_nil_iff] at hPrivate
      have hNone : shared b = none := by
        cases hShared : shared b with
        | none => rfl
        | some i => simp [hShared] at hPrivate
      exact hLock.privateRight s t' b t
        (ih hPrivate.1 hBefore) hNone hStep

/-
  Runs with the same shared inputs end in related states.
  The induction removes the last action of the left run; when
  that is a shared input, private actions are removed from
  the right run until it ends with the same input.
-/
theorem related_of_runs
    (hLock : Lockstep left right shared admissible R)
    {as bs : List A}
    {s t : S}
    (hSame : as.filterMap shared = bs.filterMap shared)
    (hAdmissible : ∀ i ∈ as.filterMap shared, admissible i)
    (hLeft : left.run as = some s)
    (hRight : right.run bs = some t) :
    R s t := by
  induction as using List.reverseRecOn
    generalizing s bs t with
  | nil =>
      have hEnd : left.start = s := Option.some.inj hLeft
      exact hLock.related_of_private_run hSame.symm
        (hEnd ▸ hLock.start) hRight
  | append_singleton as a ih =>
      rcases (left.run_concat_iff as a s).mp hLeft with
        ⟨s', hBefore, hStep⟩
      cases hShared : shared a with
      | none =>
          have hFront :
              (as ++ [a]).filterMap shared =
                as.filterMap shared := by
            simp [hShared]
          rw [hFront] at hSame hAdmissible
          exact hLock.privateLeft s' t a s
            (ih hSame hAdmissible hBefore hRight)
            hShared hStep
      | some i =>
          have hFront :
              (as ++ [a]).filterMap shared =
                as.filterMap shared ++ [i] := by
            simp [hShared]
          rw [hFront] at hSame hAdmissible
          induction bs using List.reverseRecOn
            generalizing t with
          | nil => simp at hSame
          | append_singleton bs b ihRight =>
              rcases (right.run_concat_iff bs b t).mp hRight
                with ⟨t', hBeforeRight, hStepRight⟩
              cases hSharedRight : shared b with
              | none =>
                  have hFrontRight :
                      (bs ++ [b]).filterMap shared =
                        bs.filterMap shared := by
                    simp [hSharedRight]
                  rw [hFrontRight] at hSame
                  exact hLock.privateRight s t' b t
                    (ihRight hBeforeRight hSame)
                    hSharedRight hStepRight
              | some j =>
                  have hFrontRight :
                      (bs ++ [b]).filterMap shared =
                        bs.filterMap shared ++ [j] := by
                    simp [hSharedRight]
                  rw [hFrontRight] at hSame
                  have hParts := List.append_inj' hSame rfl
                  have hInput : i = j := by
                    simpa using hParts.2
                  subst hInput
                  have hRelated :=
                    ih hParts.1
                      (fun k hk =>
                        hAdmissible k (by simp [hk]))
                      hBefore hBeforeRight
                  exact hLock.together s' t' a b s t i
                    hRelated hShared hSharedRight
                    (hAdmissible i (by simp))
                    hStep hStepRight

end Lockstep

end Foundations
