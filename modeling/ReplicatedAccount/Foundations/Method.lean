import Mathlib.Control.Basic
import Mathlib.Tactic.Common

/-
  Imperative methods over a mutable object: state updates,
  a log of observable events, and exceptions.

  An exception ends the method, but what the method did
  before it stays done: both the state and the events are
  kept.  Invariants are therefore stated for every way of
  leaving a method.

  Key definitions include:
    * `Outcome`
    * `Method`
    * `Method.forEach`
    * `Method.Keeps`

  Key theorems include:
    * `Method.run_forEach_ok`
    * `Method.run_forEach_error`
    * `Method.Keeps.bind`
    * `Method.Keeps.forEach`
-/

------------------------------------------------------------
-- Exceptions
------------------------------------------------------------

namespace Foundations

@[simp] theorem except_pure
    {ε α : Type}
    (a : α) :
    (pure a : Except ε α) = .ok a :=
  rfl

@[simp] theorem except_ok_bind
    {ε α β : Type}
    (a : α)
    (k : α → Except ε β) :
    (Except.ok a >>= k) = k a :=
  rfl

@[simp] theorem except_error_bind
    {ε α β : Type}
    (e : ε)
    (k : α → Except ε β) :
    (Except.error e >>= k) = .error e :=
  rfl

end Foundations

------------------------------------------------------------
-- Outcomes and Methods
------------------------------------------------------------

namespace Foundations

/-
  What one call leaves behind: the object, the events it
  caused, and its value or the exception that ended it.
-/
structure Outcome (σ ω ε α : Type) where
  state : σ
  events : List ω
  result : Except ε α

namespace Outcome

variable {σ ω ε α : Type}

/- The same outcome with earlier events in front. -/
def after
    (earlier : List ω)
    (o : Outcome σ ω ε α) :
    Outcome σ ω ε α :=
  { o with events := earlier ++ o.events }

@[simp] theorem after_mk
    (earlier events : List ω)
    (s : σ)
    (r : Except ε α) :
    after earlier ⟨s, events, r⟩ =
      ⟨s, earlier ++ events, r⟩ :=
  rfl

@[simp] theorem after_nil
    (o : Outcome σ ω ε α) :
    after [] o = o :=
  rfl

@[simp] theorem state_after
    (earlier : List ω)
    (o : Outcome σ ω ε α) :
    (after earlier o).state = o.state :=
  rfl

@[simp] theorem events_after
    (earlier : List ω)
    (o : Outcome σ ω ε α) :
    (after earlier o).events = earlier ++ o.events :=
  rfl

@[simp] theorem result_after
    (earlier : List ω)
    (o : Outcome σ ω ε α) :
    (after earlier o).result = o.result :=
  rfl

end Outcome

/- A method body, run on the current object. -/
def Method (σ ω ε α : Type) : Type :=
  σ → Outcome σ ω ε α

namespace Method

variable {σ ω ε α β : Type}

/- Call the method on an object. -/
def run
    (m : Method σ ω ε α)
    (s : σ) :
    Outcome σ ω ε α :=
  m s

protected def pure (a : α) : Method σ ω ε α :=
  fun s => ⟨s, [], .ok a⟩

protected def bind
    (m : Method σ ω ε α)
    (k : α → Method σ ω ε β) :
    Method σ ω ε β :=
  fun s =>
    match m s with
    | ⟨s', events, .error e⟩ => ⟨s', events, .error e⟩
    | ⟨s', events, .ok a⟩ => (k a s').after events

instance : Monad (Method σ ω ε) where
  pure := Method.pure
  bind := Method.bind

/- Read the object. -/
def get : Method σ ω ε σ :=
  fun s => ⟨s, [], .ok s⟩

/- Update the object. -/
def modify (f : σ → σ) : Method σ ω ε Unit :=
  fun s => ⟨f s, [], .ok ()⟩

/- Cause one event. -/
def emit (event : ω) : Method σ ω ε Unit :=
  fun s => ⟨s, [event], .ok ()⟩

/- A computation that reads no state but may throw. -/
def ofExcept (x : Except ε α) : Method σ ω ε α :=
  fun s => ⟨s, [], x⟩

/- End the method with an exception. -/
def throw (e : ε) : Method σ ω ε α :=
  ofExcept (.error e)

/- The enhanced `for` loop. -/
def forEach
    (body : α → Method σ ω ε Unit) :
    List α → Method σ ω ε Unit
| [] => pure ()
| a :: as => do
    body a
    forEach body as

end Method

end Foundations

------------------------------------------------------------
-- Running Methods
------------------------------------------------------------

namespace Foundations

namespace Method

variable {σ ω ε α β : Type}

@[simp] theorem run_pure
    (a : α)
    (s : σ) :
    (pure a : Method σ ω ε α).run s = ⟨s, [], .ok a⟩ :=
  rfl

theorem run_bind_ok
    {m : Method σ ω ε α}
    {k : α → Method σ ω ε β}
    {s s' : σ}
    {events : List ω}
    {a : α}
    (hRun : m.run s = ⟨s', events, .ok a⟩) :
    (m >>= k).run s = ((k a).run s').after events := by
  change Method.bind m k s = _
  have hCall : m s = ⟨s', events, .ok a⟩ := hRun
  simp only [Method.bind, hCall]
  rfl

theorem run_bind_error
    {m : Method σ ω ε α}
    {k : α → Method σ ω ε β}
    {s s' : σ}
    {events : List ω}
    {e : ε}
    (hRun : m.run s = ⟨s', events, .error e⟩) :
    (m >>= k).run s = ⟨s', events, .error e⟩ := by
  change Method.bind m k s = _
  have hCall : m s = ⟨s', events, .error e⟩ := hRun
  simp only [Method.bind, hCall]

private theorem bind_pure_self
    (m : Method σ ω ε α) :
    Method.bind m Method.pure = m := by
  funext s
  rcases hRun : m s with ⟨s', events, result⟩
  cases result <;>
    simp [Method.bind, hRun, Method.pure]

private theorem bind_bind
    {γ : Type}
    (m : Method σ ω ε α)
    (k : α → Method σ ω ε β)
    (l : β → Method σ ω ε γ) :
    Method.bind (Method.bind m k) l =
      Method.bind m (fun a => Method.bind (k a) l) := by
  funext s
  rcases hRun : m s with ⟨s', events, result⟩
  cases result with
  | error e => simp [Method.bind, hRun]
  | ok a =>
      rcases hNext : k a s' with ⟨s'', more, final⟩
      cases final <;>
        simp [Method.bind, hRun, hNext, Outcome.after]

instance : LawfulMonad (Method σ ω ε) :=
  LawfulMonad.mk' _ bind_pure_self (fun _ _ => rfl) bind_bind

/- Mapping the value changes nothing else. -/
@[simp] theorem run_map
    (f : α → β)
    (m : Method σ ω ε α)
    (s : σ) :
    (f <$> m).run s =
      ⟨(m.run s).state, (m.run s).events,
        (m.run s).result.map f⟩ := by
  rw [map_eq_pure_bind]
  rcases hRun : m.run s with ⟨s', events, result⟩
  cases result with
  | error e =>
      rw [run_bind_error hRun]
      rfl
  | ok a =>
      rw [run_bind_ok hRun]
      simp [Except.map]

@[simp] theorem run_get_bind
    (k : σ → Method σ ω ε β)
    (s : σ) :
    (get >>= k).run s = (k s).run s :=
  rfl

@[simp] theorem run_modify
    (f : σ → σ)
    (s : σ) :
    (modify f : Method σ ω ε Unit).run s =
      ⟨f s, [], .ok ()⟩ :=
  rfl

@[simp] theorem run_modify_bind
    (f : σ → σ)
    (k : Unit → Method σ ω ε β)
    (s : σ) :
    (modify f >>= k).run s = (k ()).run (f s) :=
  rfl

@[simp] theorem run_emit
    (event : ω)
    (s : σ) :
    (emit event : Method σ ω ε Unit).run s =
      ⟨s, [event], .ok ()⟩ :=
  rfl

@[simp] theorem run_emit_bind
    (event : ω)
    (k : Unit → Method σ ω ε β)
    (s : σ) :
    (emit event >>= k).run s =
      ((k ()).run s).after [event] :=
  rfl

@[simp] theorem run_ofExcept
    (x : Except ε α)
    (s : σ) :
    (ofExcept x : Method σ ω ε α).run s = ⟨s, [], x⟩ :=
  rfl

@[simp] theorem run_ofExcept_ok_bind
    (a : α)
    (k : α → Method σ ω ε β)
    (s : σ) :
    (ofExcept (.ok a) >>= k).run s = (k a).run s :=
  rfl

@[simp] theorem run_ofExcept_error_bind
    (e : ε)
    (k : α → Method σ ω ε β)
    (s : σ) :
    (ofExcept (.error e) >>= k).run s =
      ⟨s, [], .error e⟩ :=
  rfl

@[simp] theorem run_throw
    (e : ε)
    (s : σ) :
    (throw e : Method σ ω ε α).run s =
      ⟨s, [], .error e⟩ :=
  rfl

@[simp] theorem run_throw_bind
    (e : ε)
    (k : α → Method σ ω ε β)
    (s : σ) :
    (throw e >>= k).run s = ⟨s, [], .error e⟩ :=
  rfl

@[simp] theorem run_forEach_nil
    (body : α → Method σ ω ε Unit)
    (s : σ) :
    (forEach body []).run s = ⟨s, [], .ok ()⟩ :=
  rfl

/- An iteration that returns hands over to the rest. -/
theorem run_forEach_ok
    {body : α → Method σ ω ε Unit}
    {a : α}
    {as : List α}
    {s s' : σ}
    {events : List ω}
    (hRun : (body a).run s = ⟨s', events, .ok ()⟩) :
    (forEach body (a :: as)).run s =
      ((forEach body as).run s').after events :=
  run_bind_ok hRun

/- An iteration that throws ends the loop. -/
theorem run_forEach_error
    {body : α → Method σ ω ε Unit}
    {a : α}
    {as : List α}
    {s s' : σ}
    {events : List ω}
    {e : ε}
    (hRun : (body a).run s = ⟨s', events, .error e⟩) :
    (forEach body (a :: as)).run s =
      ⟨s', events, .error e⟩ :=
  run_bind_error hRun

end Method

end Foundations

------------------------------------------------------------
-- Invariants of Object and Log
------------------------------------------------------------

namespace Foundations

namespace Method

variable {σ ω ε α β : Type}

/-
  The method keeps a property of the object and of the log
  of all events so far, whether it returns or throws.
-/
def Keeps
    (I : σ → List ω → Prop)
    (m : Method σ ω ε α) : Prop :=
  ∀ s log,
    I s log →
      I (m.run s).state (log ++ (m.run s).events)

namespace Keeps

variable {I : σ → List ω → Prop}

theorem pure
    (a : α) :
    Keeps I (Pure.pure a : Method σ ω ε α) := by
  intro s log hInv
  simpa using hInv

theorem bind
    {m : Method σ ω ε α}
    {k : α → Method σ ω ε β}
    (hFirst : Keeps I m)
    (hRest : ∀ a, Keeps I (k a)) :
    Keeps I (m >>= k) := by
  intro s log hInv
  have hMiddle := hFirst s log hInv
  rcases hRun : m.run s with ⟨s', events, result⟩
  rw [hRun] at hMiddle
  cases result with
  | error e =>
      rw [run_bind_error hRun]
      exact hMiddle
  | ok a =>
      rw [run_bind_ok hRun]
      simpa using hRest a s' (log ++ events) hMiddle

/- A loop keeps what each iteration keeps. -/
theorem forEach
    {body : α → Method σ ω ε Unit}
    (as : List α)
    (hBody : ∀ a ∈ as, Keeps I (body a)) :
    Keeps I (Method.forEach body as) := by
  induction as with
  | nil => exact Keeps.pure ()
  | cons a as ih =>
      apply Keeps.bind (hBody a (by simp))
      intro _
      exact ih (fun b hb => hBody b (by simp [hb]))

end Keeps

end Method

end Foundations
