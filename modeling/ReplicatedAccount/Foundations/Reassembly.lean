import Mathlib.Data.List.Induction
import Mathlib.Logic.Function.Basic
import Mathlib.Tactic.Common

/-
  Messages that were cut into frames, and put together again.

  Frames of many sources come in one sequence.  A frame says
  which part of its message it is, and whether it is the last.
  A frame that is not the next one of its source is an error.

  Key definitions include:
    * `Framing`
    * `Framing.add`
    * `Framing.assemble`

  Key theorems include:
    * `Framing.assemble_append`
    * `Framing.exists_add_of_assemble`
    * `Framing.isPrefix_whole`
    * `Framing.whole_sublist`
    * `Framing.last_of_mem_whole`
-/

------------------------------------------------------------
-- Frames
------------------------------------------------------------

namespace Foundations

/- How a frame of type `F` is read. -/
structure Framing (F ι β : Type) where
  source : F → ι
  -- the place of its part in the message, from one
  index : F → Nat
  isLast : F → Bool
  part : F → β

/- Parts of open messages, and whole ones with their last frame. -/
structure Assembly (F ι β : Type) where
  parts : ι → List β
  whole : List (F × List β)

namespace Framing

variable {F ι β : Type}
variable [DecidableEq ι]

/- The message of a source, with the part of a frame. -/
def extend
    (φ : Framing F ι β)
    (a : Assembly F ι β)
    (f : F) :
    List β :=
  a.parts (φ.source f) ++ [φ.part f]

/- The assembly after a frame that is the next of its source. -/
def accept
    (φ : Framing F ι β)
    (a : Assembly F ι β)
    (f : F) :
    Assembly F ι β :=
  if φ.isLast f then
    { parts := Function.update a.parts (φ.source f) []
      whole := a.whole ++ [(f, φ.extend a f)] }
  else
    { a with
      parts :=
        Function.update a.parts (φ.source f) (φ.extend a f) }

/- The frame is the next one of its source. -/
def Fits
    (φ : Framing F ι β)
    (a : Assembly F ι β)
    (f : F) : Prop :=
  (a.parts (φ.source f)).length + 1 = φ.index f

instance
    (φ : Framing F ι β)
    (a : Assembly F ι β)
    (f : F) :
    Decidable (φ.Fits a f) :=
  inferInstanceAs (Decidable (_ = _))

def add
    (φ : Framing F ι β)
    (a : Assembly F ι β)
    (f : F) :
    Option (Assembly F ι β) :=
  if φ.Fits a f then some (φ.accept a f) else none

/- All frames of a sequence, one after another. -/
def addAll
    (φ : Framing F ι β) :
    Assembly F ι β → List F → Option (Assembly F ι β)
| a, [] => some a
| a, f :: fs =>
    match φ.add a f with
    | none => none
    | some a' => φ.addAll a' fs

def assemble
    (φ : Framing F ι β)
    (fs : List F) :
    Option (Assembly F ι β) :=
  φ.addAll ⟨fun _ => [], []⟩ fs

variable (φ : Framing F ι β)

theorem addAll_append
    (a : Assembly F ι β)
    (fs gs : List F) :
    φ.addAll a (fs ++ gs) =
      (φ.addAll a fs).bind fun b => φ.addAll b gs := by
  induction fs generalizing a with
  | nil => rfl
  | cons f fs ih =>
      rw [List.cons_append, addAll, addAll]
      cases hAdd : φ.add a f with
      | none => rfl
      | some b => exact ih b

theorem assemble_append
    (fs gs : List F) :
    φ.assemble (fs ++ gs) =
      (φ.assemble fs).bind fun a => φ.addAll a gs :=
  φ.addAll_append _ fs gs

/- The last frame is added to what the others give. -/
theorem assemble_concat_iff
    {fs : List F}
    {f : F}
    {b : Assembly F ι β} :
    φ.assemble (fs ++ [f]) = some b ↔
      ∃ a, φ.assemble fs = some a ∧ φ.Fits a f ∧
        b = φ.accept a f := by
  rw [assemble_append, Option.bind_eq_some_iff]
  apply exists_congr
  intro a
  apply and_congr_right
  intro _
  simp only [addAll, add]
  by_cases hFits : φ.Fits a f
  · simp [hFits, eq_comm]
  · simp [hFits]

/- The frames in front of others that fit, fit as well. -/
theorem exists_assemble_of_append
    {fs gs : List F}
    {b : Assembly F ι β}
    (hAll : φ.assemble (fs ++ gs) = some b) :
    ∃ a, φ.assemble fs = some a ∧ φ.addAll a gs = some b := by
  rw [assemble_append, Option.bind_eq_some_iff] at hAll
  exact hAll

/- Every frame of a sequence fits where it comes. -/
theorem exists_add_of_assemble
    {fs : List F}
    {k : Nat}
    {f : F}
    (hPlace : fs[k]? = some f)
    {b : Assembly F ι β}
    (hAll : φ.assemble fs = some b) :
    ∃ a, φ.assemble (fs.take k) = some a ∧ φ.Fits a f ∧
      φ.assemble (fs.take (k + 1)) = some (φ.accept a f) := by
  have hTake : fs.take (k + 1) = fs.take k ++ [f] := by
    rw [List.take_add_one, hPlace]
    rfl
  rw [← List.take_append_drop (k + 1) fs] at hAll
  rcases φ.exists_assemble_of_append hAll with ⟨b', hFront, _⟩
  rw [hTake] at hFront
  rcases φ.assemble_concat_iff.mp hFront with
    ⟨a, hBefore, hFits, rfl⟩
  exact ⟨a, hBefore, hFits, hTake ▸ hFront⟩

/- Whole messages stay, more frames only add to them. -/
theorem isPrefix_whole
    {a b : Assembly F ι β}
    {gs : List F}
    (hAll : φ.addAll a gs = some b) :
    a.whole <+: b.whole := by
  induction gs generalizing a with
  | nil =>
      cases hAll
      exact List.prefix_rfl
  | cons g gs ih =>
      rw [addAll, add] at hAll
      split at hAll
      · cases hAll
      · rename_i c hAdd
        split_ifs at hAdd with hFits
        cases hAdd
        refine List.IsPrefix.trans ?_ (ih hAll)
        rw [accept]
        split_ifs
        · exact List.prefix_append _ _
        · exact List.prefix_rfl

theorem isPrefix_whole_of_le
    {fs : List F}
    {j k : Nat}
    (hLess : j ≤ k)
    {a b : Assembly F ι β}
    (hShort : φ.assemble (fs.take j) = some a)
    (hLong : φ.assemble (fs.take k) = some b) :
    a.whole <+: b.whole := by
  rw [← List.take_append_drop j (fs.take k), List.take_take,
    Nat.min_eq_left hLess] at hLong
  rcases φ.exists_assemble_of_append hLong with
    ⟨a', hSame, hRest⟩
  rw [hShort, Option.some.injEq] at hSame
  exact φ.isPrefix_whole (hSame ▸ hRest)

/- The last frames of whole messages are in the sequence. -/
theorem whole_sublist
    {fs : List F}
    {a : Assembly F ι β}
    (hAll : φ.assemble fs = some a) :
    (a.whole.map Prod.fst).Sublist fs := by
  induction fs using List.reverseRecOn generalizing a with
  | nil =>
      cases hAll
      exact List.Sublist.refl _
  | append_singleton fs f ih =>
      rcases φ.assemble_concat_iff.mp hAll with
        ⟨b, hBefore, _, rfl⟩
      rw [accept]
      split_ifs
      · rw [List.map_append]
        exact (ih hBefore).append (List.Sublist.refl _)
      · exact (ih hBefore).trans
          (List.sublist_append_left _ _)

/- A whole message ends with a frame of the sequence. -/
theorem mem_of_mem_whole
    {fs : List F}
    {a : Assembly F ι β}
    (hAll : φ.assemble fs = some a)
    {m : F × List β}
    (hMember : m ∈ a.whole) :
    m.1 ∈ fs :=
  (φ.whole_sublist hAll).subset (List.mem_map_of_mem hMember)

/- The last frame of a whole message has its last part. -/
theorem last_of_mem_whole
    {fs : List F}
    {a : Assembly F ι β}
    (hAll : φ.assemble fs = some a)
    {m : F × List β}
    (hMember : m ∈ a.whole) :
    φ.isLast m.1 = true ∧
      ∃ before,
        m.2 = before ++ [φ.part m.1] ∧
          before.length + 1 = φ.index m.1 := by
  induction fs using List.reverseRecOn generalizing a with
  | nil =>
      cases hAll
      cases hMember
  | append_singleton fs f ih =>
      rcases φ.assemble_concat_iff.mp hAll with
        ⟨b, hBefore, hFits, rfl⟩
      rw [accept] at hMember
      split_ifs at hMember with hLast
      · rcases List.mem_append.mp hMember with hOld | hNew
        · exact ih hBefore hOld
        · rw [List.mem_singleton.mp hNew]
          exact ⟨hLast, _, rfl, hFits⟩
      · exact ih hBefore hMember

/- A message that a later frame does not end was whole before. -/
theorem mem_whole_of_ne
    {fs : List F}
    {k : Nat}
    {a : Assembly F ι β}
    (hAll : φ.assemble fs = some a)
    {m : F × List β}
    (hMember : m ∈ a.whole)
    (hLater : ∀ f ∈ fs.drop k, f ≠ m.1) :
    ∃ b, φ.assemble (fs.take k) = some b ∧ m ∈ b.whole := by
  induction fs using List.reverseRecOn generalizing a with
  | nil => exact ⟨a, by simpa using hAll, hMember⟩
  | append_singleton fs f ih =>
      rcases Nat.lt_or_ge fs.length k with hLong | hShort
      · rw [List.take_of_length_le (by rw [List.length_append]; exact hLong)]
        exact ⟨a, hAll, hMember⟩
      · rw [List.take_append_of_le_length hShort]
        rw [List.drop_append_of_le_length hShort] at hLater
        rcases φ.assemble_concat_iff.mp hAll with
          ⟨b, hBefore, _, rfl⟩
        have hOld : m ∈ b.whole := by
          rw [accept] at hMember
          split_ifs at hMember
          · rcases List.mem_append.mp hMember with hOld | hNew
            · exact hOld
            · have hSame : f = m.1 := by
                rw [List.mem_singleton.mp hNew]
              exact absurd hSame (hLater f (by simp))
          · exact hMember
        exact ih hBefore hOld fun f' hLeft =>
          hLater f' (List.mem_append_left _ hLeft)

end Framing

end Foundations
