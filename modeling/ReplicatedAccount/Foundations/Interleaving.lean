import Mathlib.Logic.Relation
import Mathlib.Tactic.Common

/-
  Messages of several senders in one order.

  Two orders that contain the messages of each sender in the
  same order differ only by swaps of neighbours from
  different senders.

  Key definitions include:
    * `fromSender`
    * `SameOrders`
    * `Swap`

  Key theorems include:
    * `swaps_of_sameOrders`
    * `eq_of_sameOrders`
-/

------------------------------------------------------------
-- Orders of Messages
------------------------------------------------------------

namespace Foundations

variable {ι α : Type} [DecidableEq ι]

/- The messages of one sender, in their order. -/
def fromSender
    (sender : ι)
    (messages : List (ι × α)) :
    List α :=
  (messages.filter fun m => m.1 = sender).map (·.2)

/- Both orders keep the order of each sender. -/
def SameOrders
    (messages messages' : List (ι × α)) : Prop :=
  ∀ sender,
    fromSender sender messages = fromSender sender messages'

@[simp] theorem fromSender_nil
    (sender : ι) :
    fromSender sender ([] : List (ι × α)) = [] :=
  rfl

@[simp] theorem fromSender_append
    (sender : ι)
    (messages later : List (ι × α)) :
    fromSender sender (messages ++ later) =
      fromSender sender messages ++ fromSender sender later := by
  simp [fromSender]

@[simp] theorem fromSender_cons_self
    (sender : ι)
    (a : α)
    (rest : List (ι × α)) :
    fromSender sender ((sender, a) :: rest) =
      a :: fromSender sender rest := by
  simp [fromSender]

theorem fromSender_cons_of_ne
    {sender other : ι}
    (hOther : other ≠ sender)
    (a : α)
    (rest : List (ι × α)) :
    fromSender sender ((other, a) :: rest) =
      fromSender sender rest := by
  simp [fromSender, hOther]

/- Messages that all come from one sender. -/
theorem fromSender_map_self
    (sender : ι)
    (as : List α) :
    fromSender sender (as.map fun a => (sender, a)) = as := by
  induction as with
  | nil => rfl
  | cons a as ih => simp [ih]

theorem fromSender_map_of_ne
    {sender other : ι}
    (hOther : other ≠ sender)
    (as : List α) :
    fromSender sender (as.map fun a => (other, a)) = [] := by
  simp [fromSender, hOther]

/- Selecting senders keeps all of their messages. -/
theorem fromSender_filter
    (keep : ι → Bool)
    (sender : ι)
    (messages : List (ι × α)) :
    fromSender sender (messages.filter fun m => keep m.1) =
      if keep sender then
        fromSender sender messages
      else
        [] := by
  induction messages with
  | nil => simp
  | cons m rest ih =>
      by_cases hOwn : m.1 = sender
      · subst hOwn
        cases hKeep : keep m.1 <;>
          simp_all [fromSender]
      · cases hKeep : keep m.1 <;>
          simp_all [fromSender]

theorem mem_fromSender
    {sender : ι}
    {messages : List (ι × α)}
    {a : α} :
    a ∈ fromSender sender messages ↔
      (sender, a) ∈ messages := by
  simp [fromSender]

namespace SameOrders

variable {messages messages' messages'' : List (ι × α)}

theorem refl
    (messages : List (ι × α)) :
    SameOrders messages messages :=
  fun _ => rfl

theorem symm
    (hSame : SameOrders messages messages') :
    SameOrders messages' messages :=
  fun sender => (hSame sender).symm

theorem trans
    (hFirst : SameOrders messages messages')
    (hSecond : SameOrders messages' messages'') :
    SameOrders messages messages'' :=
  fun sender => (hFirst sender).trans (hSecond sender)

theorem of_cons
    {m : ι × α}
    (hSame : SameOrders (m :: messages) (m :: messages')) :
    SameOrders messages messages' := by
  intro sender
  have hWhole := hSame sender
  by_cases hOwn : m.1 = sender
  · subst hOwn
    rw [fromSender_cons_self m.1 m.2,
      fromSender_cons_self m.1 m.2] at hWhole
    exact (List.cons.inj hWhole).2
  · rw [fromSender_cons_of_ne hOwn m.2,
      fromSender_cons_of_ne hOwn m.2] at hWhole
    exact hWhole

/- Both orders contain the same messages. -/
theorem mem_iff
    (hSame : SameOrders messages messages')
    (m : ι × α) :
    m ∈ messages ↔ m ∈ messages' := by
  have hLeft :
      m.2 ∈ fromSender m.1 messages ↔ m ∈ messages :=
    mem_fromSender
  rw [← hLeft, hSame m.1, mem_fromSender]

end SameOrders

end Foundations

------------------------------------------------------------
-- Swaps
------------------------------------------------------------

namespace Foundations

variable {ι α : Type} [DecidableEq ι]

/- Two neighbours from different senders change places. -/
inductive Swap : List (ι × α) → List (ι × α) → Prop
  | swap
      (before after : List (ι × α))
      (i j : ι)
      (x y : α)
      (hOther : i ≠ j) :
      Swap
        (before ++ (i, x) :: (j, y) :: after)
        (before ++ (j, y) :: (i, x) :: after)

theorem Swap.sameOrders
    {messages messages' : List (ι × α)}
    (hSwap : Swap messages messages') :
    SameOrders messages messages' := by
  cases hSwap with
  | swap before after i j x y hOther =>
      intro sender
      by_cases hFirst : i = sender
      · subst hFirst
        simp [fromSender_cons_of_ne (Ne.symm hOther)]
      · by_cases hSecond : j = sender
        · subst hSecond
          simp [fromSender_cons_of_ne hFirst]
        · simp [fromSender_cons_of_ne hFirst,
            fromSender_cons_of_ne hSecond]

theorem sameOrders_of_swaps
    {messages messages' : List (ι × α)}
    (hSwaps : Relation.ReflTransGen Swap messages messages') :
    SameOrders messages messages' := by
  induction hSwaps with
  | refl => exact .refl messages
  | tail hFront hLast ih => exact ih.trans hLast.sameOrders

omit [DecidableEq ι] in
theorem Swap.cons
    (m : ι × α)
    {messages messages' : List (ι × α)}
    (hSwap : Swap messages messages') :
    Swap (m :: messages) (m :: messages') := by
  cases hSwap with
  | swap before after i j x y hOther =>
      exact .swap (m :: before) after i j x y hOther

/- A message moves behind messages of other senders. -/
omit [DecidableEq ι] in
theorem swaps_behind
    (i : ι)
    (x : α)
    {front : List (ι × α)}
    (hFront : ∀ m ∈ front, m.1 ≠ i)
    (after : List (ι × α)) :
    Relation.ReflTransGen Swap
      ((i, x) :: (front ++ after))
      (front ++ (i, x) :: after) := by
  induction front with
  | nil => exact .refl
  | cons m front ih =>
      have hTail :=
        ih (fun other hOther => hFront other (by simp [hOther]))
      have hHead : Swap
          ((i, x) :: m :: (front ++ after))
          (m :: (i, x) :: (front ++ after)) :=
        .swap [] _ i m.1 x m.2 (hFront m (by simp)).symm
      exact .head hHead
        (hTail.lift (m :: ·) fun _ _ hSwap => hSwap.cons m)

/- The first message of a sender stands behind others only. -/
theorem exists_first
    {sender : ι}
    {a : α}
    {rest : List α}
    {messages : List (ι × α)}
    (hFirst : fromSender sender messages = a :: rest) :
    ∃ front after,
      messages = front ++ (sender, a) :: after ∧
        ∀ m ∈ front, m.1 ≠ sender := by
  induction messages with
  | nil => simp at hFirst
  | cons m messages ih =>
      by_cases hOwn : m.1 = sender
      · refine ⟨[], messages, ?_, by simp⟩
        subst hOwn
        have hParts : m.2 = a ∧ fromSender m.1 messages = rest :=
          List.cons.inj
            ((fromSender_cons_self m.1 m.2 messages).symm.trans
              hFirst)
        rw [← hParts.1]
        rfl
      · have hTail : fromSender sender messages = a :: rest :=
          (fromSender_cons_of_ne hOwn m.2 messages).symm.trans
            hFirst
        rcases ih hTail with ⟨front, after, hSplit, hFront⟩
        refine ⟨m :: front, after, by simp [hSplit], ?_⟩
        intro other hMember
        rcases List.mem_cons.mp hMember with rfl | hOther
        · exact hOwn
        · exact hFront other hOther

/- Orders with the same order of each sender are connected. -/
theorem swaps_of_sameOrders
    {messages messages' : List (ι × α)}
    (hSame : SameOrders messages messages') :
    Relation.ReflTransGen Swap messages messages' := by
  induction messages generalizing messages' with
  | nil =>
      have hEmpty : messages' = [] := by
        apply List.eq_nil_iff_forall_not_mem.mpr
        intro m hMember
        simpa using (hSame.mem_iff m).mpr hMember
      rw [hEmpty]
  | cons m messages ih =>
      have hFirst :
          fromSender m.1 messages' =
            m.2 :: fromSender m.1 messages :=
        (hSame m.1).symm.trans
          (fromSender_cons_self m.1 m.2 messages)
      rcases exists_first hFirst with
        ⟨front, after, rfl, hFront⟩
      have hBehind := swaps_behind m.1 m.2 hFront after
      have hRest : SameOrders messages (front ++ after) := by
        have hWhole :=
          hSame.trans (sameOrders_of_swaps hBehind).symm
        exact hWhole.of_cons
      have hMoved :=
        (ih hRest).lift (m :: ·) fun _ _ hSwap => hSwap.cons m
      exact hMoved.trans hBehind

/-
  What no swap of neighbours changes is the same for all
  orders that keep the order of each sender.
-/
theorem eq_of_sameOrders
    {β : Type}
    (result : List (ι × α) → β)
    (messages : List (ι × α))
    (hSwap :
      ∀ order order',
        SameOrders messages order → Swap order order' →
          result order = result order')
    {order order' : List (ι × α)}
    (hOrder : SameOrders messages order)
    (hOrder' : SameOrders messages order') :
    result order = result order' := by
  have hSwaps := swaps_of_sameOrders (hOrder.symm.trans hOrder')
  clear hOrder'
  induction hSwaps with
  | refl => rfl
  | tail hFront hLast ih =>
      have hMiddle :=
        hOrder.trans (sameOrders_of_swaps hFront)
      exact ih.trans (hSwap _ _ hMiddle hLast)

end Foundations
