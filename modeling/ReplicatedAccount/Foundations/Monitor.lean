import Mathlib.Tactic.Common

/-
  Threads that wait for a condition under one lock.

  A thread enters its section, finishes when the condition
  holds, and waits otherwise; waiting ends the section.  A
  notification, or a spurious wake-up, lets a waiting thread
  enter again.  Threads carry a label that never changes.

  Key definitions include:
    * `WaitPhase`
    * `Waiter`
    * `Waiter.enter`
    * `notifyAll`
    * `Attended`

  Key theorems include:
    * `Attended.enter`
    * `Attended.notifyAll`
    * `Attended.of_closed`
-/

------------------------------------------------------------
-- Waiting Threads
------------------------------------------------------------

namespace Foundations

/- Where a thread is with respect to its section. -/
inductive WaitPhase (α : Type) where
  -- about to enter, freshly started or woken up
  | ready
  -- in `wait`, not notified since
  | blocked
  | finished (result : α)
deriving DecidableEq, Repr

/- A thread and the label it was started with. -/
structure Waiter (β α : Type) where
  label : β
  phase : WaitPhase α
deriving DecidableEq, Repr

namespace Waiter

variable {β α : Type}

/- A thread that has just been started. -/
def start (label : β) : Waiter β α :=
  ⟨label, .ready⟩

/- Leave the section with a result, or wait without one. -/
def enter
    (outcome : Option α)
    (w : Waiter β α) :
    Waiter β α :=
  match w.phase, outcome with
  | .ready, some result => ⟨w.label, .finished result⟩
  | .ready, none => ⟨w.label, .blocked⟩
  | _, _ => w

/- Stop waiting. -/
def wake (w : Waiter β α) : Waiter β α :=
  match w.phase with
  | .blocked => ⟨w.label, .ready⟩
  | _ => w

@[simp] theorem label_enter
    (outcome : Option α)
    (w : Waiter β α) :
    (w.enter outcome).label = w.label := by
  unfold enter
  split <;> rfl

@[simp] theorem label_wake
    (w : Waiter β α) :
    w.wake.label = w.label := by
  unfold wake
  split <;> rfl

theorem phase_wake_ne_blocked
    (w : Waiter β α) :
    w.wake.phase ≠ .blocked := by
  unfold wake
  split
  · simp
  · assumption

/- Waking up never produces a result. -/
theorem phase_wake_eq_finished_iff
    (w : Waiter β α)
    (result : α) :
    w.wake.phase = .finished result ↔
      w.phase = .finished result := by
  unfold wake
  split
  · rename_i hBlocked
    simp [hBlocked]
  · rfl

/- A thread that finished had a result to finish with. -/
theorem phase_enter_eq_finished
    {outcome : Option α}
    {w : Waiter β α}
    {result : α}
    (hFinished : (w.enter outcome).phase = .finished result) :
    w.phase = .finished result ∨
      (w.phase = .ready ∧ outcome = some result) := by
  unfold enter at hFinished
  split at hFinished
  · rename_i hReady
    exact Or.inr ⟨hReady, by simpa using hFinished⟩
  · simp at hFinished
  · exact Or.inl hFinished

/- A thread that waits was waiting or found no result. -/
theorem phase_enter_eq_blocked
    {outcome : Option α}
    {w : Waiter β α}
    (hBlocked : (w.enter outcome).phase = .blocked) :
    w.phase = .blocked ∨ outcome = none := by
  unfold enter at hBlocked
  split at hBlocked
  · simp at hBlocked
  · exact Or.inr rfl
  · exact Or.inl hBlocked

end Waiter

/- Wake every waiting thread. -/
def notifyAll
    {β α : Type}
    (waiters : List (Waiter β α)) :
    List (Waiter β α) :=
  waiters.map Waiter.wake

/- A thread after a change of one thread of the list. -/
theorem mem_modify_cases
    {γ : Type}
    {items : List γ}
    {k : Nat}
    {change : γ → γ}
    {item : γ}
    (hItem : item ∈ items.modify k change) :
    item ∈ items ∨
      ∃ old, items[k]? = some old ∧ item = change old := by
  rcases List.mem_iff_getElem?.mp hItem with ⟨n, hGet⟩
  by_cases hSame : k = n
  · subst hSame
    rw [List.getElem?_modify_eq, Option.map_eq_map,
      Option.map_eq_some_iff] at hGet
    rcases hGet with ⟨old, hOld, hChange⟩
    exact Or.inr ⟨old, hOld, hChange.symm⟩
  · rw [List.getElem?_modify_ne _ _ hSame] at hGet
    exact Or.inl (List.mem_of_getElem? hGet)

/-
  Behind every thread of the changed list is one of the old
  list, with the same label, that had finished before or
  finishes by the change.
-/
theorem exists_of_mem_modify
    {β α : Type}
    {waiters : List (Waiter β α)}
    {k : Nat}
    {change : Waiter β α → Waiter β α}
    {finishes : Waiter β α → α → Prop}
    (hLabel : ∀ w, (change w).label = w.label)
    (hFinishes :
      ∀ old result, waiters[k]? = some old →
        (change old).phase = .finished result →
          old.phase = .finished result ∨ finishes old result)
    {w : Waiter β α}
    (hWaiter : w ∈ waiters.modify k change) :
    ∃ old ∈ waiters,
      old.label = w.label ∧
        ∀ result, w.phase = .finished result →
          old.phase = .finished result ∨
            finishes old result := by
  rcases mem_modify_cases hWaiter with
    hOld | ⟨old, hGet, rfl⟩
  · exact ⟨w, hOld, rfl, fun _ hFinished => Or.inl hFinished⟩
  · exact ⟨old, List.mem_of_getElem? hGet,
      (hLabel old).symm,
      fun result => hFinishes old result hGet⟩

end Foundations

------------------------------------------------------------
-- Attended Threads
------------------------------------------------------------

namespace Foundations

variable {β α : Type}

/-
  No wake-up is lost: while a thread waits, the condition it
  waits for does not hold, or somebody is still going to look
  after the waiting threads.
-/
def Attended
    (closed attending : Prop)
    (waiters : List (Waiter β α)) : Prop :=
  (∃ w ∈ waiters, w.phase = .blocked) → closed ∨ attending

namespace Attended

variable {closed attending : Prop}
variable {waiters : List (Waiter β α)}

theorem nil :
    Attended closed attending ([] : List (Waiter β α)) := by
  rintro ⟨w, hw, _⟩
  cases hw

theorem of_closed
    (hClosed : closed) :
    Attended closed attending waiters :=
  fun _ => Or.inl hClosed

theorem of_attending
    (hAttending : attending) :
    Attended closed attending waiters :=
  fun _ => Or.inr hAttending

theorem mono
    {closed' attending' : Prop}
    (hAttended : Attended closed attending waiters)
    (hClosed : closed → closed')
    (hAttending : attending → attending') :
    Attended closed' attending' waiters :=
  fun hBlocked => (hAttended hBlocked).imp hClosed hAttending

/- After a notification nobody waits. -/
theorem notifyAll
    (waiters : List (Waiter β α)) :
    Attended closed attending
      (Foundations.notifyAll waiters) := by
  rintro ⟨w, hw, hBlocked⟩
  rcases List.mem_map.mp hw with ⟨old, _, rfl⟩
  exact (old.phase_wake_ne_blocked hBlocked).elim

theorem wake
    (hAttended : Attended closed attending waiters)
    (k : Nat) :
    Attended closed attending
      (waiters.modify k Waiter.wake) := by
  rintro ⟨w, hw, hBlocked⟩
  rcases mem_modify_cases hw with hOld | ⟨old, _, rfl⟩
  · exact hAttended ⟨w, hOld, hBlocked⟩
  · exact (old.phase_wake_ne_blocked hBlocked).elim

/- A thread only starts to wait when the condition fails. -/
theorem enter
    (hAttended : Attended closed attending waiters)
    (k : Nat)
    (outcome : Option α)
    (hClosed : outcome = none → closed) :
    Attended closed attending
      (waiters.modify k (Waiter.enter outcome)) := by
  rintro ⟨w, hw, hBlocked⟩
  rcases mem_modify_cases hw with hOld | ⟨old, hGet, rfl⟩
  · exact hAttended ⟨w, hOld, hBlocked⟩
  · rcases Waiter.phase_enter_eq_blocked hBlocked with
      hBefore | hNone
    · exact hAttended
        ⟨old, List.mem_of_getElem? hGet, hBefore⟩
    · exact Or.inl (hClosed hNone)

/- Freshly started threads do not wait. -/
theorem append_start
    (hAttended : Attended closed attending waiters)
    (labels : List β) :
    Attended closed attending
      (waiters ++ labels.map Waiter.start) := by
  rintro ⟨w, hw, hBlocked⟩
  rcases List.mem_append.mp hw with hOld | hNew
  · exact hAttended ⟨w, hOld, hBlocked⟩
  · rcases List.mem_map.mp hNew with ⟨label, _, rfl⟩
    cases hBlocked

end Attended

end Foundations
