import ReplicatedAccount.Client.ExactArithmetic
import ReplicatedAccount.Client.Replica

/-
  The ledger of one client: its balance, its counter and its
  executed list always belong to one growing history of
  executed transactions, whatever is delivered to it and
  however often the list is cleaned.

  Key definitions include:
    * `Client.Ledger`
    * `Client.historyListing`

  Key theorems include:
    * `Client.Ledger.absorb`
    * `ledger_of_run`
    * `client_agrees_with_history`
-/

------------------------------------------------------------
-- Replay and Executable Transactions
------------------------------------------------------------

namespace ReplicatedAccount

variable {D : Type} [DoubleArithmetic D]

/- Only executable transactions matter to a replay. -/
theorem replay_filter_executable
    (balance : D)
    (txs : List Transaction) :
    replay balance (txs.filter (executable D)) =
      replay balance txs := by
  induction txs generalizing balance with
  | nil => rfl
  | cons tx rest ih =>
      cases hExecutable : executable D tx with
      | true => simp [hExecutable, ih]
      | false =>
          have hSame :=
            applyTransaction_of_not_executable balance
              hExecutable
          simp [hExecutable, ih, hSame]

end ReplicatedAccount

------------------------------------------------------------
-- The Ledger Invariant
------------------------------------------------------------

namespace ReplicatedAccount

namespace Client

open Foundations Foundations.Method

variable {D : Type} [DoubleArithmetic D]

/- The client agrees with a history of executions. -/
structure Ledger
    (c : Client D)
    (history : List Transaction) : Prop where
  balance :
    c.balance = replay DoubleArithmetic.zero history
  orderCounter :
    c.orderCounter = Int32.ofNat history.length
  executedList : c.executedList <:+ history

theorem Ledger.new
    (id : Int32)
    (fileName : String)
    (naiveSyncBalance : Bool) :
    Ledger (D := D)
      (Client.new id fileName naiveSyncBalance) [] :=
  ⟨rfl, rfl, List.suffix_rfl⟩

/- Absorbing transactions extends the history. -/
theorem Ledger.absorb
    {c : Client D}
    {history : List Transaction}
    (hLedger : Ledger c history)
    (txs : List Transaction) :
    Ledger (c.absorb txs)
      (history ++ txs.filter (executable D)) := by
  constructor
  · simp only [Client.absorb, replay_append,
      replay_filter_executable, hLedger.balance]
  · simp only [Client.absorb, hLedger.orderCounter,
      List.length_append, Int32.ofNat_add]
  · rcases hLedger.executedList with ⟨cleaned, hHistory⟩
    exact ⟨cleaned, by
      simp [Client.absorb, ← hHistory, List.append_assoc]⟩

/- A change of the other fields keeps the ledger. -/
theorem Ledger.of_same
    {c c' : Client D}
    {history : List Transaction}
    (hLedger : Ledger c history)
    (hBalance : c'.balance = c.balance)
    (hCounter : c'.orderCounter = c.orderCounter)
    (hList : c'.executedList = c.executedList) :
    Ledger c' history :=
  ⟨hBalance.trans hLedger.balance,
    hCounter.trans hLedger.orderCounter,
    hList ▸ hLedger.executedList⟩

theorem Ledger.clean
    {c : Client D}
    {history : List Transaction}
    (hLedger : Ledger c history) :
    Ledger { c with executedList := [] } history :=
  ⟨hLedger.balance, hLedger.orderCounter,
    List.nil_suffix⟩

/-
  Each iteration keeps the ledger: it either absorbs its
  transaction or fails before it changes anything.
-/
theorem processTransaction_keeps_ledger
    (tx : Transaction) :
    Keeps (fun c log => Ledger c (applied log))
      (processTransaction tx : ClientMethod D Unit) := by
  intro c log hLedger
  rcases processTransaction_cases tx c with hRun | hRun
  · rw [hRun, state_effect, applied_append,
      (logOf_effect tx c).applied]
    exact hLedger.absorb [tx]
  · rw [hRun]
    simpa using hLedger

theorem processReceivedTransactions_keeps_ledger
    (batch : List Transaction) :
    Keeps (fun c log => Ledger c (applied log))
      (processReceivedTransactions batch :
        ClientMethod D Unit) := by
  apply Keeps.bind
  · exact Keeps.forEach batch
      (fun tx _ => processTransaction_keeps_ledger tx)
  · intro _ c log hLedger
    rcases notifyIfEmpty_quiet c with
      ⟨events, hRun, hQuiet⟩
    rw [hRun, applied_append, hQuiet.projections.2.2.1,
      List.append_nil]
    exact hLedger

end Client

/- Every action of a client keeps its ledger. -/
theorem Replica.act_keeps_ledger
    {D : Type} [DoubleArithmetic D]
    (r : Replica D)
    (a : ReplicaAction)
    (hLedger : r.client.Ledger (applied r.trace)) :
    (r.act a).client.Ledger (applied (r.act a).trace) := by
  cases a with
  | command input =>
      have hEffect :=
        Client.processCommand_effect input r.client
      simp only [act, call]
      generalize (Client.processCommand input).run r.client = o
        at hEffect
      cases hEffect with
      | enqueues command hState hEvents hResult hCommand =>
          rw [hState, hEvents]
          have hSame :
              (r.client.afterEnqueue command).Ledger
                (applied r.trace) :=
            hLedger.of_same rfl rfl rfl
          simpa using hSame
      | cleans hState hEvents =>
          rw [hState, hEvents, List.append_nil]
          exact hLedger.clean
      | quiet hState hQuiet =>
          rw [hState, applied_append,
            hQuiet.projections.2.2.1, List.append_nil]
          exact hLedger
  | tick accepted =>
      simp only [act, call]
      rcases Client.broadcastOutstanding_cases
          accepted r.client with
        hCall | ⟨events, hCall, hQuiet⟩
      · rw [hCall]
        simpa using hLedger
      · rw [hCall, applied_append,
          hQuiet.projections.2.2.1, List.append_nil]
        exact hLedger
  | deliver batch =>
      have hKept :=
        Client.processReceivedTransactions_keeps_ledger
          batch r.client r.trace hLedger
      simpa [act, call, Client.regularMessageReceived]
        using hKept

end ReplicatedAccount

------------------------------------------------------------
-- Ledgers of Whole Runs
------------------------------------------------------------

namespace ReplicatedAccount

open Foundations

variable {D : Type} [DoubleArithmetic D]

/- Every reachable client agrees with its history. -/
theorem ledger_of_run
    (id : Int32)
    (fileName : String)
    (naiveSyncBalance : Bool)
    {actions : List ReplicaAction}
    {r : Replica D}
    (hRun :
      (replicaSystem
        (Client.new id fileName naiveSyncBalance)).run
          actions = some r) :
    r.client.Ledger (applied r.trace) := by
  apply TransitionSystem.invariant _ _ _ hRun
  · exact Client.Ledger.new id fileName naiveSyncBalance
  · intro s a s' hLedger hStep
    rcases (s.step_eq_some_iff a s').mp hStep with
      ⟨_, rfl⟩
    exact s.act_keeps_ledger a hLedger

/- The log of a client only grows. -/
theorem trace_isPrefix_of_run
    (start : Client D)
    {earlier actions : List ReplicaAction}
    {r' r : Replica D}
    (hPrefix : earlier <+: actions)
    (hEarlier : (replicaSystem start).run earlier = some r')
    (hRun : (replicaSystem start).run actions = some r) :
    r'.trace <+: r.trace := by
  apply TransitionSystem.related_of_isPrefix
    (replicaSystem start)
    (R := fun s t => s.trace <+: t.trace)
    (fun s => List.prefix_rfl)
    (fun s t u hFirst hSecond => hFirst.trans hSecond)
    ?_ hPrefix hEarlier hRun
  intro _ s a s' _ hStep
  rcases (s.step_eq_some_iff a s').mp hStep with ⟨_, rfl⟩
  exact List.prefix_append _ _

end ReplicatedAccount

------------------------------------------------------------
-- History Listings
------------------------------------------------------------

namespace ReplicatedAccount

open Foundations

variable {D : Type} [DoubleArithmetic D]

/-
  The executed transactions as the comment of `getHistory`
  numbers them: from the order counter minus the size of the
  executed list upwards, in int arithmetic.
-/
def Client.historyListing
    {D : Type}
    (c : Client D) :
    List (Int32 × Transaction) :=
  c.executedList.zipIdx.map fun entry =>
    (c.orderCounter - Int32.ofNat c.executedList.length +
      Int32.ofNat entry.2, entry.1)

/- A number of a listing is a position in the history. -/
theorem Client.Ledger.number_eq
    {c : Client D}
    {history : List Transaction}
    (hLedger : c.Ledger history)
    (hShort : history.length < 2 ^ 31)
    {i : Nat}
    (hIndex : i < c.executedList.length) :
    (c.orderCounter - Int32.ofNat c.executedList.length +
        Int32.ofNat i).toInt =
      ((history.length - c.executedList.length + i : Nat) :
        Int) := by
  have hLength := hLedger.executedList.length_le
  have hSplit :
      history.length =
        (history.length - c.executedList.length) +
          c.executedList.length := by
    omega
  have hNumber :
      c.orderCounter - Int32.ofNat c.executedList.length +
          Int32.ofNat i =
        Int32.ofNat
          (history.length - c.executedList.length + i) := by
    rw [hLedger.orderCounter]
    conv_lhs => rw [hSplit]
    rw [Int32.ofNat_add, Int32.ofNat_add,
      Int32.add_sub_cancel]
  rw [hNumber]
  apply Int32.toInt_ofNat_of_lt
  omega

/- Entry `i` of a listing is an entry of the history. -/
theorem Client.Ledger.listing_entry
    {c : Client D}
    {history : List Transaction}
    (hLedger : c.Ledger history)
    (hShort : history.length < 2 ^ 31)
    {i : Nat}
    {number : Int32}
    {tx : Transaction}
    (hEntry : c.historyListing[i]? = some (number, tx)) :
    number.toInt =
        ((history.length - c.executedList.length + i : Nat) :
          Int) ∧
      history[history.length - c.executedList.length + i]? =
        some tx := by
  simp only [Client.historyListing, List.getElem?_map,
    List.getElem?_zipIdx, Option.map_eq_some_iff,
    Prod.mk.injEq] at hEntry
  rcases hEntry with ⟨⟨t, j⟩, ⟨u, hGet, hPair⟩, hNumber, hTx⟩
  cases hPair
  subst hTx
  have hIndex : i < c.executedList.length :=
    (List.getElem?_eq_some_iff.mp hGet).1
  refine ⟨?_, ?_⟩
  · rw [← hNumber]
    simpa using hLedger.number_eq hShort hIndex
  · have hDrop :=
      List.suffix_iff_eq_drop.mp hLedger.executedList
    rw [← List.getElem?_drop, ← hDrop]
    exact hGet

/-
  In every reachable state the balance is the replay of the
  history, the counter is its length modulo 2^32, and the
  executed list is its last part; every listing, taken now or
  at any earlier point of the run, numbers each transaction
  with its position in that one history.
-/
theorem client_agrees_with_history
    (id : Int32)
    (fileName : String)
    (naiveSyncBalance : Bool)
    (actions : List ReplicaAction)
    (r : Replica D)
    (hRun :
      (replicaSystem
        (Client.new id fileName naiveSyncBalance)).run
          actions = some r) :
    r.client.balance =
        replay DoubleArithmetic.zero (applied r.trace) ∧
      r.client.orderCounter =
        Int32.ofNat (applied r.trace).length ∧
      r.client.executedList =
        (applied r.trace).drop
          ((applied r.trace).length -
            r.client.executedList.length) ∧
      ((applied r.trace).length < 2 ^ 31 →
        ∀ earlier (r' : Replica D) i number tx,
          earlier <+: actions →
          (replicaSystem
            (Client.new id fileName naiveSyncBalance)).run
              earlier = some r' →
          r'.client.historyListing[i]? = some (number, tx) →
            number.toInt =
                (((applied r'.trace).length -
                  r'.client.executedList.length + i : Nat) :
                    Int) ∧
              (applied r.trace)[number.toInt.toNat]? =
                some tx) := by
  have hLedger :=
    ledger_of_run id fileName naiveSyncBalance hRun
  refine ⟨hLedger.balance, hLedger.orderCounter,
    List.suffix_iff_eq_drop.mp hLedger.executedList, ?_⟩
  intro hShort earlier r' i number tx hPrefix hEarlier hEntry
  have hBefore :=
    ledger_of_run id fileName naiveSyncBalance hEarlier
  have hTrace := trace_isPrefix_of_run _ hPrefix hEarlier hRun
  have hHistory : applied r'.trace <+: applied r.trace :=
    hTrace.filterMap _
  have hEntryFacts :=
    hBefore.listing_entry
      (by
        have hLength := hHistory.length_le
        omega)
      hEntry
  refine ⟨hEntryFacts.1, ?_⟩
  rw [hEntryFacts.1, Int.toNat_natCast]
  rcases hHistory with ⟨later, hSplit⟩
  rw [← hSplit, List.getElem?_append_left
    (List.getElem?_eq_some_iff.mp hEntryFacts.2).1]
  exact hEntryFacts.2

/-
  A run with a cleaned history and an aborted batch satisfies
  the hypotheses.
-/
theorem client_agrees_with_history_cleaned :
    ∃ r : Replica Decimal,
      (replicaSystem (Client.new 7 "" false)).run
          [.command "deposit 100",
            .deliver [⟨some "deposit 100", some "7 0"⟩],
            .command "cleanHistory",
            .deliver
              [⟨some "addInterest 10", some "3 0"⟩,
                ⟨some "deposit abc", some "3 1"⟩,
                ⟨some "deposit 5", some "3 2"⟩]] = some r ∧
        r.client.balance =
          replay DoubleArithmetic.zero (applied r.trace) ∧
        r.client.orderCounter =
          Int32.ofNat (applied r.trace).length := by
  have hRuns :
      ((replicaSystem (D := Decimal)
        (Client.new 7 "" false)).run
          [.command "deposit 100",
            .deliver [⟨some "deposit 100", some "7 0"⟩],
            .command "cleanHistory",
            .deliver
              [⟨some "addInterest 10", some "3 0"⟩,
                ⟨some "deposit abc", some "3 1"⟩,
                ⟨some "deposit 5", some "3 2"⟩]]).isSome := by
    decide +kernel
  rcases Option.isSome_iff_exists.mp hRuns with ⟨r, hRun⟩
  have hAgrees :=
    client_agrees_with_history 7 "" false _ r hRun
  exact ⟨r, hRun, hAgrees.1, hAgrees.2.1⟩

end ReplicatedAccount
