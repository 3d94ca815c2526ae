import Mathlib.Data.List.Basic
import Mathlib.Tactic.Common
import ReplicatedAccount.Foundations.Method

/-
  Byte streams that arrive in pieces of any size, with
  interruptions between the pieces, and methods that read a
  fixed number of bytes at a time.

  What such a method does depends on the sequence of bytes
  and interruptions only, never on where one piece ends and
  the next one begins.

  Key definitions include:
    * `Arrival`
    * `items`
    * `readFully`
    * `Method.ReadsTo`
    * `Method.TakesPrefix`
    * `Method.Consumes`

  Key theorems include:
    * `readFully_eq_readItems`
    * `Method.ReadsTo.bind`
    * `Method.Consumes.bind`
-/

------------------------------------------------------------
-- Streams
------------------------------------------------------------

namespace Foundations

/- A piece of the stream, or a reason to stop reading. -/
inductive Arrival (α ε : Type) where
  | chunk (content : List α)
  | interruption (cause : ε)
deriving DecidableEq, Repr

/- The stream without its division into pieces. -/
def items {α ε : Type} : List (Arrival α ε) → List (α ⊕ ε)
| [] => []
| .chunk content :: rest => content.map .inl ++ items rest
| .interruption cause :: rest => .inr cause :: items rest

inductive ReadResult (α ε : Type) where
  | complete (content : List α)
  | interrupted (cause : ε)
  | closed
deriving DecidableEq, Repr

namespace ReadResult

variable {α ε : Type}

/- The result with earlier content in front. -/
def prepend
    (earlier : List α) :
    ReadResult α ε → ReadResult α ε
| .complete content => .complete (earlier ++ content)
| .interrupted cause => .interrupted cause
| .closed => .closed

@[simp] theorem prepend_complete
    (earlier content : List α) :
    (complete content : ReadResult α ε).prepend earlier =
      .complete (earlier ++ content) :=
  rfl

@[simp] theorem prepend_interrupted
    (earlier : List α)
    (cause : ε) :
    (interrupted cause).prepend earlier =
      .interrupted cause :=
  rfl

@[simp] theorem prepend_closed
    (earlier : List α) :
    (closed : ReadResult α ε).prepend earlier = .closed :=
  rfl

@[simp] theorem prepend_nil
    (result : ReadResult α ε) :
    result.prepend [] = result := by
  cases result <;> simp

theorem prepend_append
    (first second : List α)
    (result : ReadResult α ε) :
    result.prepend (first ++ second) =
      (result.prepend second).prepend first := by
  cases result <;> simp

end ReadResult

variable {α ε : Type}

/-
  Read until there are `n` items.  A piece that is longer
  than what is missing is read in part; an interruption loses
  what was read before it.
-/
def readFully
    (n : Nat) :
    List (Arrival α ε) →
      ReadResult α ε × List (Arrival α ε)
| [] =>
    if n = 0 then (.complete [], []) else (.closed, [])
| arrival :: rest =>
    if n = 0 then
      (.complete [], arrival :: rest)
    else
      match arrival with
      | .interruption cause => (.interrupted cause, rest)
      | .chunk content =>
          if n ≤ content.length then
            (.complete (content.take n),
              .chunk (content.drop n) :: rest)
          else
            let later := readFully (n - content.length) rest
            (later.1.prepend content, later.2)

/- The same on the stream without its pieces. -/
def readItems :
    Nat → List (α ⊕ ε) → ReadResult α ε × List (α ⊕ ε)
| 0, stream => (.complete [], stream)
| _ + 1, [] => (.closed, [])
| _ + 1, .inr cause :: rest => (.interrupted cause, rest)
| n + 1, .inl a :: rest =>
    let later := readItems n rest
    (later.1.prepend [a], later.2)

end Foundations

------------------------------------------------------------
-- Pieces Do Not Matter
------------------------------------------------------------

namespace Foundations

variable {α ε : Type}

@[simp] theorem items_nil :
    items ([] : List (Arrival α ε)) = [] :=
  rfl

@[simp] theorem items_chunk
    (content : List α)
    (rest : List (Arrival α ε)) :
    items (.chunk content :: rest) =
      content.map .inl ++ items rest :=
  rfl

@[simp] theorem items_interruption
    (cause : ε)
    (rest : List (Arrival α ε)) :
    items (.interruption cause :: rest) =
      .inr cause :: items rest :=
  rfl

@[simp] theorem readItems_zero
    (stream : List (α ⊕ ε)) :
    readItems 0 stream = (.complete [], stream) := by
  cases stream <;> rfl

/- Reading over content that is there. -/
theorem readItems_append
    (content : List α)
    (n : Nat)
    (stream : List (α ⊕ ε)) :
    readItems (content.length + n)
        (content.map .inl ++ stream) =
      ((readItems n stream).1.prepend content,
        (readItems n stream).2) := by
  induction content with
  | nil => simp
  | cons a content ih =>
      rw [List.length_cons, Nat.add_right_comm]
      simp only [List.map_cons, List.cons_append,
        readItems, ih]
      rw [← ReadResult.prepend_append, List.singleton_append]

theorem readItems_complete
    (content : List α)
    (stream : List (α ⊕ ε)) :
    readItems content.length (content.map .inl ++ stream) =
      (.complete content, stream) := by
  simpa using readItems_append content 0 stream

/- Only the sequence of items decides what is read. -/
theorem readFully_eq_readItems
    (n : Nat)
    (input : List (Arrival α ε)) :
    (readFully n input).1 = (readItems n (items input)).1 ∧
      items (readFully n input).2 =
        (readItems n (items input)).2 := by
  induction input generalizing n with
  | nil => cases n <;> simp [readFully, readItems]
  | cons arrival rest ih =>
      cases n with
      | zero => simp [readFully]
      | succ n =>
          cases arrival with
          | interruption cause => simp [readFully, readItems]
          | chunk content =>
              by_cases hEnough : n + 1 ≤ content.length
              · have hLength :
                    (content.take (n + 1)).length = n + 1 :=
                  List.length_take_of_le hEnough
                have hRead := readItems_complete
                  (content.take (n + 1))
                  ((content.drop (n + 1)).map .inl ++
                    items rest)
                rw [hLength, ← List.append_assoc,
                  ← List.map_append, List.take_append_drop]
                  at hRead
                simp [readFully, hEnough, hRead]
              · have hSplit :
                    n + 1 =
                      content.length +
                        (n + 1 - content.length) := by
                  omega
                have hRead := readItems_append content
                  (n + 1 - content.length) (items rest)
                rw [← hSplit] at hRead
                rcases ih (n + 1 - content.length) with
                  ⟨hResult, hRest⟩
                simp [readFully, hEnough, hRead, hResult,
                  hRest]

/- Where a read ends that does not get all it wants. -/
theorem readItems_interrupted
    (content : List α)
    (cause : ε)
    (stream : List (α ⊕ ε))
    {n : Nat}
    (hShort : content.length < n) :
    readItems n (content.map .inl ++ .inr cause :: stream) =
      (.interrupted cause, stream) := by
  rcases Nat.exists_eq_add_of_lt hShort with ⟨k, rfl⟩
  rw [Nat.add_assoc, readItems_append]
  simp [readItems]

theorem readItems_isSuffix
    (n : Nat)
    (stream : List (α ⊕ ε)) :
    (readItems n stream).2 <:+ stream := by
  induction n generalizing stream with
  | zero => simp
  | succ n ih =>
      rcases stream with _ | ⟨a | cause, rest⟩
      · exact List.suffix_rfl
      · exact (ih rest).trans (List.suffix_cons _ _)
      · exact List.suffix_cons _ _

/- A complete read took exactly what it returned. -/
theorem of_readItems_complete
    {n : Nat}
    {stream rest : List (α ⊕ ε)}
    {content : List α}
    (hRead : readItems n stream = (.complete content, rest)) :
    content.length = n ∧
      stream = content.map .inl ++ rest := by
  induction n generalizing stream content with
  | zero =>
      simp only [readItems_zero, Prod.mk.injEq,
        ReadResult.complete.injEq] at hRead
      rcases hRead with ⟨rfl, rfl⟩
      simp
  | succ n ih =>
      rcases stream with _ | ⟨a | cause, later⟩
      · simp [readItems] at hRead
      · rcases hLater : readItems n later with ⟨result, rest'⟩
        cases result with
        | complete content' =>
            simp only [readItems, hLater,
              ReadResult.prepend_complete, Prod.mk.injEq,
              ReadResult.complete.injEq] at hRead
            rcases hRead with ⟨rfl, rfl⟩
            rcases ih hLater with ⟨hLength, hStream⟩
            simp [hLength, hStream]
        | interrupted cause => simp [readItems, hLater] at hRead
        | closed => simp [readItems, hLater] at hRead
      · simp [readItems] at hRead

end Foundations

------------------------------------------------------------
-- Methods That Read
------------------------------------------------------------

namespace Foundations

namespace Method

variable {α ε ω Ex β γ : Type}

/- The content, or the exception of what went wrong. -/
def outcomeOf
    (closed : Ex)
    (interrupted : ε → Ex) :
    ReadResult α ε → Except Ex (List α)
| .complete content => .ok content
| .interrupted cause => .error (interrupted cause)
| .closed => .error closed

/- Read `n` items, or throw what the interruption becomes. -/
def read
    (n : Nat)
    (closed : Ex)
    (interrupted : ε → Ex) :
    Method (List (Arrival α ε)) ω Ex (List α) :=
  fun input =>
    ⟨(readFully n input).2, [],
      outcomeOf closed interrupted (readFully n input).1⟩

/-
  However the stream before is divided into pieces, the
  method ends with the result and leaves the stream after.
-/
def ReadsTo
    (m : Method (List (Arrival α ε)) ω Ex β)
    (before : List (α ⊕ ε))
    (result : Except Ex β)
    (after : List (α ⊕ ε)) : Prop :=
  ∀ input,
    items input = before →
      ∃ rest,
        m.run input = ⟨rest, [], result⟩ ∧
          items rest = after

/- Whatever happens, only a first part of the stream is gone. -/
def TakesPrefix
    (m : Method (List (Arrival α ε)) ω Ex β) : Prop :=
  ∀ input, items (m.run input).state <:+ items input

/-
  When the method returns, it took only items, without an
  interruption, and they are related to the value.
-/
def Consumes
    (m : Method (List (Arrival α ε)) ω Ex β)
    (P : List α → β → Prop) : Prop :=
  ∀ input rest events b,
    m.run input = ⟨rest, events, .ok b⟩ →
      ∃ content,
        items input = content.map .inl ++ items rest ∧
          P content b

namespace ReadsTo

variable {m : Method (List (Arrival α ε)) ω Ex β}
variable {k : β → Method (List (Arrival α ε)) ω Ex γ}
variable {before middle after : List (α ⊕ ε)}

theorem pure
    (b : β)
    (stream : List (α ⊕ ε)) :
    ReadsTo
      (Pure.pure b : Method (List (Arrival α ε)) ω Ex β)
      stream (.ok b) stream :=
  fun input hInput => ⟨input, rfl, hInput⟩

theorem ofExcept
    (result : Except Ex β)
    (stream : List (α ⊕ ε)) :
    ReadsTo
      (Method.ofExcept result :
        Method (List (Arrival α ε)) ω Ex β)
      stream result stream :=
  fun input hInput => ⟨input, rfl, hInput⟩

theorem bind
    {b : β}
    {result : Except Ex γ}
    (hFirst : ReadsTo m before (.ok b) middle)
    (hRest : ReadsTo (k b) middle result after) :
    ReadsTo (m >>= k) before result after := by
  intro input hInput
  rcases hFirst input hInput with ⟨input', hRun, hMiddle⟩
  rcases hRest input' hMiddle with ⟨rest, hLast, hAfter⟩
  refine ⟨rest, ?_, hAfter⟩
  rw [run_bind_ok hRun, hLast, Outcome.after_nil]

theorem bind_error
    {e : Ex}
    (hFirst : ReadsTo m before (.error e) after) :
    ReadsTo (m >>= k) before (.error e) after := by
  intro input hInput
  rcases hFirst input hInput with ⟨rest, hRun, hAfter⟩
  exact ⟨rest, run_bind_error hRun, hAfter⟩

/- What `readItems` gives, a method that reads does. -/
theorem read_of_readItems
    {n : Nat}
    {result : ReadResult α ε}
    (closed : Ex)
    (interrupted : ε → Ex)
    (hRead : readItems n before = (result, after)) :
    ReadsTo
      (Method.read n closed interrupted :
        Method (List (Arrival α ε)) ω Ex (List α))
      before (outcomeOf closed interrupted result) after := by
  rintro input rfl
  rcases readFully_eq_readItems n input with
    ⟨hResult, hRest⟩
  rw [hRead] at hResult hRest
  have hFound : (readFully n input).1 = result := hResult
  refine ⟨(readFully n input).2, ?_, hRest⟩
  rw [← hFound]
  rfl

theorem read_complete
    (closed : Ex)
    (interrupted : ε → Ex)
    (content : List α)
    (stream : List (α ⊕ ε)) :
    ReadsTo
      (Method.read content.length closed interrupted :
        Method (List (Arrival α ε)) ω Ex (List α))
      (content.map .inl ++ stream) (.ok content) stream :=
  read_of_readItems closed interrupted
    (readItems_complete content stream)

end ReadsTo

namespace TakesPrefix

variable {m : Method (List (Arrival α ε)) ω Ex β}
variable {k : β → Method (List (Arrival α ε)) ω Ex γ}

theorem pure
    (b : β) :
    TakesPrefix
      (Pure.pure b : Method (List (Arrival α ε)) ω Ex β) :=
  fun _ => List.suffix_rfl

theorem ofExcept
    (result : Except Ex β) :
    TakesPrefix
      (Method.ofExcept result :
        Method (List (Arrival α ε)) ω Ex β) :=
  fun _ => List.suffix_rfl

theorem bind
    (hFirst : TakesPrefix m)
    (hRest : ∀ b, TakesPrefix (k b)) :
    TakesPrefix (m >>= k) := by
  intro input
  have hBefore := hFirst input
  rcases hRun : m.run input with ⟨input', events, result⟩
  rw [hRun] at hBefore
  cases result with
  | error e =>
      rw [run_bind_error hRun]
      exact hBefore
  | ok b =>
      rw [run_bind_ok hRun]
      exact (hRest b input').trans hBefore

theorem read
    (n : Nat)
    (closed : Ex)
    (interrupted : ε → Ex) :
    TakesPrefix
      (Method.read n closed interrupted :
        Method (List (Arrival α ε)) ω Ex (List α)) := by
  intro input
  change items (readFully n input).2 <:+ items input
  rw [(readFully_eq_readItems n input).2]
  exact readItems_isSuffix n (items input)

end TakesPrefix

namespace Consumes

variable {m : Method (List (Arrival α ε)) ω Ex β}
variable {k : β → Method (List (Arrival α ε)) ω Ex γ}
variable {P : List α → β → Prop}

theorem mono
    {Q : List α → β → Prop}
    (hConsumes : Consumes m P)
    (hWeaker : ∀ content b, P content b → Q content b) :
    Consumes m Q := by
  intro input rest events b hRun
  rcases hConsumes input rest events b hRun with
    ⟨content, hItems, hValue⟩
  exact ⟨content, hItems, hWeaker content b hValue⟩

theorem pure
    (b : β) :
    Consumes
      (Pure.pure b : Method (List (Arrival α ε)) ω Ex β)
      (fun content b' => content = [] ∧ b' = b) := by
  intro input rest events b' hRun
  cases hRun
  exact ⟨[], rfl, rfl, rfl⟩

theorem ofExcept
    (result : Except Ex β) :
    Consumes
      (Method.ofExcept result :
        Method (List (Arrival α ε)) ω Ex β)
      (fun content b => content = [] ∧ result = .ok b) := by
  intro input rest events b hRun
  cases hRun
  exact ⟨[], rfl, rfl, rfl⟩

theorem throw
    (e : Ex) :
    Consumes
      (Method.throw e : Method (List (Arrival α ε)) ω Ex β)
      P := by
  intro input rest events b hRun
  cases hRun

theorem bind
    {Q : β → List α → γ → Prop}
    (hFirst : Consumes m P)
    (hRest : ∀ b, Consumes (k b) (Q b)) :
    Consumes (m >>= k)
      (fun content c =>
        ∃ first second b,
          content = first ++ second ∧ P first b ∧
            Q b second c) := by
  intro input rest events c hRun
  rcases hCall : m.run input with ⟨input', earlier, result⟩
  cases result with
  | error e =>
      rw [run_bind_error hCall] at hRun
      cases hRun
  | ok b =>
      rw [run_bind_ok hCall] at hRun
      rcases hLater : (k b).run input' with
        ⟨input'', later, result⟩
      rw [hLater] at hRun
      cases hRun
      rcases hFirst input input' earlier b hCall with
        ⟨first, hBefore, hValue⟩
      rcases hRest b input' _ later c hLater with
        ⟨second, hAfter, hFinal⟩
      refine ⟨first ++ second, ?_, first, second, b, rfl,
        hValue, hFinal⟩
      rw [hBefore, hAfter, List.map_append,
        List.append_assoc]

theorem read
    (n : Nat)
    (closed : Ex)
    (interrupted : ε → Ex) :
    Consumes
      (Method.read n closed interrupted :
        Method (List (Arrival α ε)) ω Ex (List α))
      (fun content b => content = b ∧ b.length = n) := by
  intro input rest events content hRun
  rcases readFully_eq_readItems n input with
    ⟨hResult, hRest⟩
  rcases hFull : readFully n input with ⟨found, left⟩
  rw [hFull] at hResult hRest
  have hCall :
      (Method.read n closed interrupted :
        Method (List (Arrival α ε)) ω Ex (List α)).run input =
          ⟨left, [], outcomeOf closed interrupted found⟩ := by
    simp only [Method.run, Method.read, hFull]
  rw [hCall] at hRun
  cases found with
  | complete content' =>
      cases hRun
      have hRead :
          readItems n (items input) =
            (.complete content, items rest) :=
        Prod.ext hResult.symm hRest.symm
      rcases of_readItems_complete hRead with
        ⟨hLength, hStream⟩
      exact ⟨content, hStream, rfl, hLength⟩
  | interrupted cause => cases hRun
  | closed => cases hRun

end Consumes

end Method

end Foundations
