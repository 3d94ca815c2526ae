import ReplicatedAccount.Foundations.JavaText
import ReplicatedAccount.Foundations.Method

/-
  The data of one client of the replicated account: its
  fields, the transactions it exchanges, and the events that
  an observer of the client can record.

  Key definitions include:
    * `DoubleArithmetic`
    * `Transaction`
    * `Event`
    * `Client`
    * `Client.new`
    * `SearchSucceeds`

  Java references to strings may be null, so the fields of a
  received transaction are optional.
-/

------------------------------------------------------------
-- Doubles, Exceptions and Transactions
------------------------------------------------------------

namespace ReplicatedAccount

/-
  An interpretation of `double`: the constants and the
  operations the client computes with, and
  `Double.parseDouble`, where `none` stands for the
  `NumberFormatException`.
-/
class DoubleArithmetic (D : Type) where
  zero : D
  hundred : D
  add : D → D → D
  mul : D → D → D
  div : D → D → D
  parseDouble : String → Option D

/- The runtime exceptions the client code can raise. -/
inductive JavaException where
  | nullPointer
  | arrayIndexOutOfBounds
  | numberFormat
  | illegalArgument
deriving DecidableEq, Repr

/- `Transaction.java`; `none` is the null reference. -/
structure Transaction where
  command : Option String
  uniqueId : Option String
deriving DecidableEq, Repr

/- One printed line: a text, or a label and a balance. -/
inductive Line (D : Type) where
  | text (content : String)
  | balance (label : String) (value : D)
deriving DecidableEq, Repr

/-
  What an observer sees of a client.  `enqueued`,
  `processing`, `applied` and `answered` mark points of the
  program; the others are effects on the outside.
-/
inductive Event (D : Type) where
  -- `outstanding_collection.add(tx)` by the client itself
  | enqueued (tx : Transaction)
  -- an iteration over the received transactions begins
  | processing (tx : Transaction)
  -- `deposit` or `addInterest` of the transaction returned
  | applied (tx : Transaction)
  -- the balance line of the transaction was printed
  | answered (tx : Transaction)
  | println (line : Line D)
  | errPrintln (content : String)
  | multicast (batch : List Transaction)
  | notifyAll
  -- a thread that waits for an empty outstanding collection
  | threadStarted
  | slept (millis : Int32)
  | stackTrace
  | exited
  -- a delivery ended, by returning or by an exception
  | delivered
      (batch : List Transaction)
      (thrown : Option JavaException)
deriving DecidableEq, Repr

end ReplicatedAccount

------------------------------------------------------------
-- Clients
------------------------------------------------------------

namespace ReplicatedAccount

open Foundations

/- The fields of `Client` that its methods read or write. -/
structure Client (D : Type) where
  balance : D
  orderCounter : Int32
  outstandingCounter : Int32
  executedList : List Transaction
  outstandingCollection : List Transaction
  id : Int32
  clientSyncronising : Bool
  fileName : String
  naiveSyncBalance : Bool
deriving DecidableEq, Repr

/- A method of the client, with its events and exceptions. -/
abbrev ClientMethod (D α : Type) : Type :=
  Method (Client D) (Event D) JavaException α

variable {D : Type} [DoubleArithmetic D]

/- The client after its constructor. -/
def Client.new
    (id : Int32)
    (fileName : String)
    (naiveSyncBalance : Bool) :
    Client D where
  balance := DoubleArithmetic.zero
  orderCounter := 0
  outstandingCounter := 0
  executedList := []
  outstandingCollection := []
  id := id
  clientSyncronising := false
  fileName := fileName
  naiveSyncBalance := naiveSyncBalance

end ReplicatedAccount

------------------------------------------------------------
-- Java Helpers
------------------------------------------------------------

namespace ReplicatedAccount

open Foundations

/- `left.equals(right)` on string references. -/
def stringEquals
    (left right : Option String) :
    Except JavaException Bool :=
  match left with
  | none => .error .nullPointer
  | some content => .ok (some content = right)

@[simp] theorem stringEquals_none
    (right : Option String) :
    stringEquals none right = .error .nullPointer :=
  rfl

@[simp] theorem stringEquals_some
    (content : String)
    (right : Option String) :
    stringEquals (some content) right =
      .ok (some content = right) :=
  rfl

/- A method call on a string reference. -/
def dereference
    (reference : Option String) :
    Except JavaException String :=
  match reference with
  | none => .error .nullPointer
  | some content => .ok content

/- `parts[index]`. -/
def arrayElement
    (parts : List String)
    (index : Nat) :
    Except JavaException String :=
  match parts[index]? with
  | none => .error .arrayIndexOutOfBounds
  | some part => .ok part

/- A parser of `java.lang`, throwing on malformed text. -/
def parsed
    {α : Type}
    (value : Option α) :
    Except JavaException α :=
  match value with
  | none => .error .numberFormat
  | some a => .ok a

/- `id + " " + counter`. -/
def uniqueIdOf (id counter : Int32) : String :=
  JavaText.intToString id ++ " " ++
    JavaText.intToString counter

end ReplicatedAccount

------------------------------------------------------------
-- Searches by Id
------------------------------------------------------------

namespace ReplicatedAccount

/-
  A search for an id compares the ids of a list from the
  left.  It succeeds when no transaction without an id stands
  before the first one with the given id.
-/
def SearchSucceeds
    (uniqueId : Option String)
    (txs : List Transaction) : Prop :=
  ∀ before tx later,
    txs = before ++ tx :: later →
      tx.uniqueId = none →
        ∃ t ∈ before, t.uniqueId = uniqueId

@[simp] theorem searchSucceeds_nil
    (uniqueId : Option String) :
    SearchSucceeds uniqueId [] := by
  intro before tx later hSplit
  simp at hSplit

@[simp] theorem searchSucceeds_cons
    (uniqueId : Option String)
    (tx : Transaction)
    (rest : List Transaction) :
    SearchSucceeds uniqueId (tx :: rest) ↔
      tx.uniqueId ≠ none ∧
        (tx.uniqueId = uniqueId ∨
          SearchSucceeds uniqueId rest) := by
  constructor
  · intro hSearch
    refine ⟨?_, ?_⟩
    · intro hNone
      simpa using hSearch [] tx rest rfl hNone
    · by_cases hFound : tx.uniqueId = uniqueId
      · exact Or.inl hFound
      · apply Or.inr
        intro before t later hSplit hNone
        rcases hSearch (tx :: before) t later
            (by rw [hSplit, List.cons_append]) hNone with
          ⟨e, hMember, hId⟩
        rcases List.mem_cons.mp hMember with rfl | hBefore
        · exact (hFound hId).elim
        · exact ⟨e, hBefore, hId⟩
  · rintro ⟨hPresent, hFound⟩ before t later hSplit hNone
    cases before with
    | nil =>
        cases hSplit
        exact (hPresent hNone).elim
    | cons first before =>
        cases hSplit
        rcases hFound with hFound | hSearch
        · exact ⟨tx, by simp, hFound⟩
        · rcases hSearch before t later rfl hNone with
            ⟨e, hMember, hId⟩
          exact ⟨e, by simp [hMember], hId⟩

theorem searchSucceeds_of_present
    (uniqueId : Option String)
    {txs : List Transaction}
    (hIds : ∀ tx ∈ txs, tx.uniqueId ≠ none) :
    SearchSucceeds uniqueId txs := by
  intro before tx later hSplit hNone
  exact (hIds tx (by simp [hSplit]) hNone).elim

end ReplicatedAccount
