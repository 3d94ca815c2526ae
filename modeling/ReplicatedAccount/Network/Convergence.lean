import ReplicatedAccount.Client.ExactArithmetic
import Mathlib.Tactic.LinearCombination
import Mathlib.Tactic.Ring
import ReplicatedAccount.Foundations.Interleaving
import ReplicatedAccount.Client.Acceptance

/-
  Two replicas that process the batches of several senders in
  different orders, over exact rational arithmetic.

  Every batch multiplies the balance by a factor and adds an
  amount to it.  A deposit has factor 1, an interest has
  amount 0, and the two do not commute.

  Key definitions include:
    * `factor`
    * `amount`
    * `Client.receiveAll`
    * `Commuting`
    * `Converge`

  Key theorems include:
    * `replay_eq`
    * `converge_iff_commuting`
-/

------------------------------------------------------------
-- Batches as Affine Maps
------------------------------------------------------------

namespace ReplicatedAccount

open Foundations DoubleArithmetic

variable {parse : String → Option ℚ}

namespace Operation

/- What an operation multiplies the balance by. -/
def factor :
    Operation (ExactDouble parse) → ExactDouble parse
| .deposit _ => 1
| .addInterest percent => 1 + div percent hundred

/- What an operation adds to the balance. -/
def amount :
    Operation (ExactDouble parse) → ExactDouble parse
| .deposit value => value
| .addInterest _ => 0

theorem apply_eq
    (operation : Operation (ExactDouble parse))
    (balance : ExactDouble parse) :
    operation.apply balance =
      operation.factor * balance + operation.amount := by
  cases operation with
  | deposit value =>
      change balance + value = 1 * balance + value
      rw [one_mul]
  | addInterest percent =>
      change balance + balance * div percent hundred =
        (1 + div percent hundred) * balance + 0
      ring

end Operation

namespace Transaction

/- A transaction that is not executed changes nothing. -/
def factor
    (parse : String → Option ℚ)
    (tx : Transaction) :
    ExactDouble parse :=
  match disposition (D := ExactDouble parse) tx with
  | .execute operation => operation.factor
  | _ => 1

def amount
    (parse : String → Option ℚ)
    (tx : Transaction) :
    ExactDouble parse :=
  match disposition (D := ExactDouble parse) tx with
  | .execute operation => operation.amount
  | _ => 0

theorem apply_eq
    (tx : Transaction)
    (balance : ExactDouble parse) :
    applyTransaction balance tx =
      tx.factor parse * balance + tx.amount parse := by
  unfold applyTransaction factor amount
  cases disposition (D := ExactDouble parse) tx with
  | execute operation => exact operation.apply_eq balance
  | answer issuer => simp
  | skip => simp
  | abort e => simp

end Transaction

/- The factor of all transactions together. -/
def factor
    (parse : String → Option ℚ) :
    List Transaction → ExactDouble parse
| [] => 1
| tx :: rest => factor parse rest * tx.factor parse

/-
  What all transactions together add: each amount grows by
  the factors of the transactions after it.
-/
def amount
    (parse : String → Option ℚ) :
    List Transaction → ExactDouble parse
| [] => 0
| tx :: rest =>
    factor parse rest * tx.amount parse + amount parse rest

/- A replay multiplies by the factor and adds the amount. -/
theorem replay_eq
    (balance : ExactDouble parse)
    (txs : List Transaction) :
    replay balance txs =
      factor parse txs * balance + amount parse txs := by
  induction txs generalizing balance with
  | nil => simp [factor, amount]
  | cons tx rest ih =>
      rw [replay_cons, ih, tx.apply_eq, factor, amount]
      ring

theorem factor_append
    (txs later : List Transaction) :
    factor parse (txs ++ later) =
      factor parse later * factor parse txs := by
  induction txs with
  | nil => simp [factor]
  | cons tx rest ih =>
      rw [List.cons_append, factor, factor, ih, mul_assoc]

/- Batches with no factor 0 have no factor 0 together. -/
theorem factor_flatten_eq_zero_iff
    (batches : List (List Transaction)) :
    factor parse batches.flatten = 0 ↔
      ∃ batch ∈ batches, factor parse batch = 0 := by
  induction batches with
  | nil => simp [factor]
  | cons batch rest ih =>
      rw [List.flatten_cons, factor_append, mul_eq_zero, ih]
      simp [or_comm]

end ReplicatedAccount

------------------------------------------------------------
-- Receiving Batches in Some Order
------------------------------------------------------------

namespace ReplicatedAccount

open Foundations

variable {ι : Type}

namespace Client

variable {D : Type} [DoubleArithmetic D]

/- The client after receiving the batches of an order. -/
def receiveAll
    (c : Client D)
    (order : List (ι × List Transaction)) :
    Client D :=
  order.foldl
    (fun c message =>
      (c.regularMessageReceived message.2).state) c

/- Well-formed transactions with ids are all executed. -/
theorem balance_receiveAll
    (c : Client D)
    (hIds : c.IdsPresent)
    {order : List (ι × List Transaction)}
    (hOrder :
      ∀ message ∈ order, ∀ tx ∈ message.2,
        tx.WellFormed D ∧ tx.uniqueId ≠ none) :
    (c.receiveAll order).balance =
      replay c.balance (order.map (·.2)).flatten := by
  induction order generalizing c with
  | nil => rfl
  | cons message rest ih =>
      have hBatch := hOrder message (by simp)
      have hReached : reached D message.2 = message.2 := by
        apply reached_of_not_aborting
        intro tx hTx
        exact not_aborting_of_executable
          (tx.wellFormed_iff_executable.mp (hBatch tx hTx).1)
      rcases regularMessageReceived_outcome message.2 c hIds
          (fun tx hTx => (hBatch tx hTx).2) with
        ⟨events, hCall, _⟩
      rw [hReached] at hCall
      have hNext : (c.absorb message.2).IdsPresent :=
        idsPresent_absorb hIds
          (fun tx hTx => (hBatch tx hTx).2)
      have hRest :=
        ih (c.absorb message.2) hNext
          (fun m hm => hOrder m (by simp [hm]))
      rw [receiveAll, List.foldl_cons, hCall]
      rw [receiveAll] at hRest
      rw [hRest]
      simp [absorb]

end Client

end ReplicatedAccount

------------------------------------------------------------
-- Convergence
------------------------------------------------------------

namespace ReplicatedAccount

open Foundations

variable {ι : Type} [DecidableEq ι]
variable {parse : String → Option ℚ}

/-
  Any two batches of different senders have the same effect
  in both orders, unless a later batch of one of the two has
  factor 0 and wipes out every difference.
-/
def Commuting
    (parse : String → Option ℚ)
    (multicasts : List (ι × List Transaction)) : Prop :=
  ∀ i j beforeI x afterI beforeJ y afterJ,
    i ≠ j →
      fromSender i multicasts = beforeI ++ x :: afterI →
        fromSender j multicasts = beforeJ ++ y :: afterJ →
          (∀ z ∈ afterI ++ afterJ, factor parse z ≠ 0) →
            factor parse y * amount parse x + amount parse y =
              factor parse x * amount parse y +
                amount parse x

/-
  Two clients end with the same balance, whatever orders that
  keep the order of each sender they receive the batches in.
-/
def Converge
    {D : Type} [DoubleArithmetic D]
    (a b : Client D)
    (multicasts : List (ι × List Transaction)) : Prop :=
  ∀ order order',
    SameOrders multicasts order →
      SameOrders multicasts order' →
        (a.receiveAll order).balance =
          (b.receiveAll order').balance

/- The balance after all batches of an order. -/
omit [DecidableEq ι] in
theorem replay_order
    (balance : ExactDouble parse)
    (before after : List (ι × List Transaction))
    (i j : ι)
    (x y : List Transaction) :
    replay balance
        (((before ++ (i, x) :: (j, y) :: after).map
          (·.2)).flatten) =
      factor parse ((after.map (·.2)).flatten) *
          (factor parse y *
              (factor parse x *
                  replay balance
                    ((before.map (·.2)).flatten) +
                amount parse x) +
            amount parse y) +
        amount parse ((after.map (·.2)).flatten) := by
  simp only [List.map_append, List.map_cons,
    List.flatten_append, List.flatten_cons, replay_append]
  rw [replay_eq, replay_eq _ y, replay_eq _ x]

/- Two neighbours may change places without a difference. -/
omit [DecidableEq ι] in
theorem replay_swap_iff
    (balance : ExactDouble parse)
    (before after : List (ι × List Transaction))
    (i j : ι)
    (x y : List Transaction) :
    replay balance
        (((before ++ (i, x) :: (j, y) :: after).map
          (·.2)).flatten) =
      replay balance
        (((before ++ (j, y) :: (i, x) :: after).map
          (·.2)).flatten) ↔
      factor parse ((after.map (·.2)).flatten) = 0 ∨
        factor parse y * amount parse x + amount parse y =
          factor parse x * amount parse y + amount parse x := by
  rw [replay_order, replay_order]
  generalize factor parse ((after.map (·.2)).flatten) = f
  constructor
  · intro hEq
    by_cases hZero : f = 0
    · exact Or.inl hZero
    · apply Or.inr
      apply mul_left_cancel₀ hZero
      linear_combination hEq
  · rintro (hZero | hCommute)
    · rw [hZero]
      ring
    · linear_combination f * hCommute

/- Commuting multicasts: no swap changes the balance. -/
theorem Commuting.replay_eq_of_swap
    {multicasts order order' : List (ι × List Transaction)}
    (hCommuting : Commuting parse multicasts)
    (balance : ExactDouble parse)
    (hOrder : SameOrders multicasts order)
    (hSwap : Swap order order') :
    replay balance ((order.map (·.2)).flatten) =
      replay balance ((order'.map (·.2)).flatten) := by
  cases hSwap with
  | swap before after i j x y hOther =>
      rw [replay_swap_iff, factor_flatten_eq_zero_iff]
      by_cases hZero :
          ∃ z ∈ fromSender i after ++ fromSender j after,
            factor parse z = 0
      · apply Or.inl
        rcases hZero with ⟨z, hMember, hFactor⟩
        refine ⟨z, ?_, hFactor⟩
        rw [List.mem_append, mem_fromSender,
          mem_fromSender] at hMember
        rcases hMember with hLater | hLater
        · exact List.mem_map_of_mem (f := (·.2)) hLater
        · exact List.mem_map_of_mem (f := (·.2)) hLater
      · apply Or.inr
        refine hCommuting i j (fromSender i before) x
          (fromSender i after) (fromSender j before) y
          (fromSender j after) hOther ?_ ?_ ?_
        · rw [hOrder i]
          simp [fromSender_cons_of_ne (Ne.symm hOther)]
        · rw [hOrder j]
          simp [fromSender_cons_of_ne hOther]
        · intro z hMember hFactor
          exact hZero ⟨z, hMember, hFactor⟩

/-
  Two batches of different senders can be made neighbours:
  first everything that neither sender sends after them.
-/
theorem exists_neighbours
    {multicasts : List (ι × List Transaction)}
    {i j : ι}
    (hOther : i ≠ j)
    {beforeI afterI beforeJ afterJ : List (List Transaction)}
    {x y : List Transaction}
    (hI : fromSender i multicasts = beforeI ++ x :: afterI)
    (hJ : fromSender j multicasts = beforeJ ++ y :: afterJ) :
    ∃ before after,
      SameOrders multicasts
          (before ++ (i, x) :: (j, y) :: after) ∧
        after.map (·.2) = afterI ++ afterJ := by
  refine
    ⟨(multicasts.filter fun m => m.1 ≠ i ∧ m.1 ≠ j) ++
        (beforeI.map (fun z => (i, z)) ++
          beforeJ.map (fun z => (j, z))),
      afterI.map (fun z => (i, z)) ++
        afterJ.map (fun z => (j, z)), ?_, ?_⟩
  · intro k
    rw [fromSender_append, fromSender_append,
      fromSender_filter (fun m => m ≠ i ∧ m ≠ j)]
    by_cases hFirst : i = k
    · subst hFirst
      have hNe := Ne.symm hOther
      simp [hI, fromSender_cons_of_ne hNe,
        fromSender_map_self, fromSender_map_of_ne hNe]
    · by_cases hSecond : j = k
      · subst hSecond
        simp [hJ, fromSender_cons_of_ne hOther,
          fromSender_map_self, fromSender_map_of_ne hOther]
      · simp [fromSender_cons_of_ne hFirst,
          fromSender_cons_of_ne hSecond,
          fromSender_map_of_ne hFirst,
          fromSender_map_of_ne hSecond, Ne.symm hFirst,
          Ne.symm hSecond]
  · simp [Function.comp_def]

/-
  Convergence.  Two replicas with the same balance end with
  the same balance in all orders that keep the order of each
  sender, exactly when the multicasts commute.
-/
theorem converge_iff_commuting
    (a b : Client (ExactDouble parse))
    (hBalance : a.balance = b.balance)
    (hIdsLeft : a.IdsPresent)
    (hIdsRight : b.IdsPresent)
    (multicasts : List (ι × List Transaction))
    (hMulticasts :
      ∀ message ∈ multicasts, ∀ tx ∈ message.2,
        tx.WellFormed (ExactDouble parse) ∧
          tx.uniqueId ≠ none) :
    Converge a b multicasts ↔ Commuting parse multicasts := by
  have hAll :
      ∀ (c : Client (ExactDouble parse)) order,
        c.IdsPresent → SameOrders multicasts order →
          (c.receiveAll order).balance =
            replay c.balance ((order.map (·.2)).flatten) := by
    intro c order hIds hOrder
    apply c.balance_receiveAll hIds
    intro message hMember
    exact hMulticasts message
      ((hOrder.mem_iff message).mpr hMember)
  constructor
  · intro hConverge i j beforeI x afterI beforeJ y afterJ
      hOther hI hJ hFactors
    rcases exists_neighbours hOther hI hJ with
      ⟨before, after, hOrder, hAfter⟩
    have hSwapped :=
      (Swap.swap before after i j x y hOther).sameOrders
    have hEq := hConverge _ _ hOrder (hOrder.trans hSwapped)
    rw [hAll a _ hIdsLeft hOrder,
      hAll b _ hIdsRight (hOrder.trans hSwapped), hBalance,
      replay_swap_iff] at hEq
    apply hEq.resolve_left
    rw [hAfter, factor_flatten_eq_zero_iff]
    rintro ⟨z, hMember, hZero⟩
    exact hFactors z hMember hZero
  · intro hCommuting order order' hOrder hOrder'
    rw [hAll a _ hIdsLeft hOrder, hAll b _ hIdsRight hOrder',
      hBalance]
    exact eq_of_sameOrders
      (fun o => replay b.balance ((o.map (·.2)).flatten))
      multicasts
      (fun o o' hSame hSwap =>
        hCommuting.replay_eq_of_swap b.balance hSame hSwap)
      hOrder hOrder'

/- Deposits commute, so replicas of depositors converge. -/
theorem converge_iff_commuting_deposits :
    Converge (Client.new 7 "" false : Client Decimal)
      (Client.new 3 "" false)
      [(true, [⟨some "deposit 100", some "3 0"⟩]),
        (false, [⟨some "deposit 5", some "7 0"⟩])] := by
  apply (converge_iff_commuting
    (Client.new 7 "" false : Client Decimal)
    (Client.new 3 "" false) rfl
    (by simp [Client.IdsPresent, Client.new])
    (by simp [Client.IdsPresent, Client.new])
    _ (by decide +kernel)).mpr
  have hFactor :
      ∀ message ∈
          [(true,
              [(⟨some "deposit 100", some "3 0"⟩ :
                Transaction)]),
            (false, [⟨some "deposit 5", some "7 0"⟩])],
        factor JavaText.parseDecimal message.2 = 1 := by
    decide +kernel
  intro i j beforeI x afterI beforeJ y afterJ _ hI hJ _
  have hX := hFactor (i, x)
    (mem_fromSender.mp (by rw [hI]; simp))
  have hY := hFactor (j, y)
    (mem_fromSender.mp (by rw [hJ]; simp))
  rw [hX, hY]
  ring

/-
  A deposit of 100 and an interest of 10 percent, each in a
  batch of its own: 110 in one order, 100 in the other.
-/
theorem deposit_and_interest_diverge :
    (⟨some "deposit 100", some "3 0"⟩ :
        Transaction).WellFormed Decimal ∧
      (⟨some "addInterest 10", some "7 0"⟩ :
        Transaction).WellFormed Decimal ∧
      ((Client.new 7 "" false : Client Decimal).receiveAll
        [(true, [⟨some "deposit 100", some "3 0"⟩]),
          (false,
            [⟨some "addInterest 10", some "7 0"⟩])]).balance =
        110 ∧
      ((Client.new 7 "" false : Client Decimal).receiveAll
        [(false, [⟨some "addInterest 10", some "7 0"⟩]),
          (true,
            [⟨some "deposit 100", some "3 0"⟩])]).balance =
        100 ∧
      ¬ Converge (Client.new 7 "" false : Client Decimal)
        (Client.new 7 "" false)
        [(true, [⟨some "deposit 100", some "3 0"⟩]),
          (false,
            [⟨some "addInterest 10", some "7 0"⟩])] := by
  refine ⟨by decide +kernel, by decide +kernel,
    by decide +kernel, by decide +kernel, ?_⟩
  intro hConverge
  have hEqual :=
    hConverge
      [(true, [⟨some "deposit 100", some "3 0"⟩]),
        (false, [⟨some "addInterest 10", some "7 0"⟩])]
      [(false, [⟨some "addInterest 10", some "7 0"⟩]),
        (true, [⟨some "deposit 100", some "3 0"⟩])]
      (.refl _)
      (by
        intro sender
        cases sender <;> rfl)
  revert hEqual
  decide +kernel

end ReplicatedAccount
