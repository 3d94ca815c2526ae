import ReplicatedAccount.Concurrent.Clients
import ReplicatedAccount.Network.Basic

/-
  The account that the threads of a client share, compared
  with an account to which whole batches are delivered one
  after the other.

  The commands of the user, the ticks of the scheduler and
  the reading threads can run between any two steps of the
  listener.  None of them shows in the account: it is at any
  time the account after the delivered batches, and after
  the part of the current batch that has been executed.

  Key definitions include:
    * `Account`
    * `Account.deliver`
    * `Account.after`
    * `Progress`
    * `Process.Serial`

  Key theorems include:
    * `Process.Serial.step`
    * `serial_of_concurrent_run`
    * `threads_deliver_serially`
-/

------------------------------------------------------------
-- The Abstract Account
------------------------------------------------------------

namespace ReplicatedAccount

open Foundations

/- An account, with what was executed and what arrived. -/
structure Account (D : Type) where
  balance : D
  orderCounter : Int32
  history : List Transaction
  endings : List (List Transaction × Option JavaException)
deriving DecidableEq

namespace Account

variable {D : Type} [DoubleArithmetic D]

def opened : Account D where
  balance := DoubleArithmetic.zero
  orderCounter := 0
  history := []
  endings := []

/- The executable ones are executed, counted and saved. -/
def execute
    (account : Account D)
    (txs : List Transaction) :
    Account D :=
  { account with
    balance := replay account.balance txs
    orderCounter :=
      account.orderCounter +
        Int32.ofNat (txs.filter (executable D)).length
    history :=
      account.history ++ txs.filter (executable D) }

/- A whole batch arrives at once. -/
def deliver
    (account : Account D)
    (batch : List Transaction) :
    Account D :=
  { account.execute (reached D batch) with
    endings :=
      account.endings ++
        [(batch, Client.exceptionOf (batchResult D batch))] }

/- The account after some batches, delivered one by one. -/
def after (batches : List (List Transaction)) : Account D :=
  batches.foldl deliver opened

@[simp] theorem execute_nil
    (account : Account D) :
    account.execute [] = account := by
  simp [execute]

theorem execute_append
    (account : Account D)
    (txs later : List Transaction) :
    account.execute (txs ++ later) =
      (account.execute txs).execute later := by
  simp [execute, Int32.add_assoc]

theorem execute_of_not_executable
    (account : Account D)
    {tx : Transaction}
    (hNotExecutable : executable D tx = false) :
    account.execute [tx] = account := by
  have hSame :=
    applyTransaction_of_not_executable account.balance
      hNotExecutable
  simp [execute, hNotExecutable, hSame]

/- A batch that runs to its end is executed completely. -/
theorem deliver_of_not_aborting
    (account : Account D)
    {batch : List Transaction}
    (hBatch : ∀ tx ∈ batch, aborting D tx = false) :
    account.deliver batch =
      { account.execute batch with
        endings := account.endings ++ [(batch, none)] } := by
  have hResult : batchResult D batch = .ok () := by
    induction batch with
    | nil => rfl
    | cons tx rest ih =>
        have hHead := hBatch tx (by simp)
        have hRest := ih (fun t ht => hBatch t (by simp [ht]))
        unfold aborting at hHead
        cases hDisposition : disposition (D := D) tx <;>
          simp_all [batchResult]
  rw [deliver, reached_of_not_aborting D hBatch, hResult]
  rfl

/- A batch is executed up to the transaction that throws. -/
theorem deliver_of_abort
    (account : Account D)
    {done todo : List Transaction}
    {tx : Transaction}
    {e : JavaException}
    (hDone : ∀ t ∈ done, aborting D t = false)
    (hDisposition : disposition (D := D) tx = .abort e) :
    account.deliver (done ++ tx :: todo) =
      { account.execute done with
        endings :=
          account.endings ++
            [(done ++ tx :: todo, some e)] } := by
  have hAborting : aborting D tx = true := by
    simp [aborting, hDisposition]
  have hNotExecutable : executable D tx = false := by
    simp [executable, hDisposition]
  have hReached :
      reached D (done ++ tx :: todo) = done ++ [tx] := by
    induction done with
    | nil => simp [reached, hAborting]
    | cons t rest ih =>
        have hHead := hDone t (by simp)
        simp [reached, hHead,
          ih (fun t ht => hDone t (by simp [ht]))]
  have hResult :
      batchResult D (done ++ tx :: todo) = .error e := by
    induction done with
    | nil => simp [batchResult, hDisposition]
    | cons t rest ih =>
        have hHead := hDone t (by simp)
        have hReachedRest :
            reached D (rest ++ tx :: todo) = rest ++ [tx] := by
          simpa [reached, hHead] using hReached
        have hRest :=
          ih (fun t ht => hDone t (by simp [ht])) hReachedRest
        unfold aborting at hHead
        cases hOther : disposition (D := D) t <;>
          simp_all [batchResult]
  rw [deliver, hReached, hResult, execute_append,
    execute_of_not_executable _ hNotExecutable]
  rfl

@[simp] theorem after_append
    (batches : List (List Transaction))
    (batch : List Transaction) :
    (after (batches ++ [batch]) : Account D) =
      (after batches).deliver batch := by
  simp [after]

end Account

end ReplicatedAccount

------------------------------------------------------------
-- The Account of a Process
------------------------------------------------------------

namespace ReplicatedAccount

open Foundations

variable {D : Type}

namespace Process

/- What the other threads can see of the account. -/
def account (p : Process D) : Account D where
  balance := p.replica.client.balance
  orderCounter := p.replica.client.orderCounter
  history := applied p.replica.trace
  endings := endings p.replica.trace

/- The batches whose processing has ended. -/
def delivered (p : Process D) : List (List Transaction) :=
  (endings p.replica.trace).map Prod.fst

end Process

variable [DoubleArithmetic D]

/-
  How far the processing of a batch has got: a part of it is
  executed, and a part of that is counted.
-/
inductive Progress
    (D : Type) [DoubleArithmetic D]
    (batch : List Transaction) :
    Position → List Transaction → List Transaction → Prop
  | next
      (done todo : List Transaction)
      (hSplit : batch = done ++ todo)
      (hDone : ∀ tx ∈ done, aborting D tx = false) :
      Progress D batch (.next todo) done done
  | removed
      (done todo : List Transaction)
      (tx : Transaction)
      (hSplit : batch = done ++ tx :: todo)
      (hDone : ∀ tx ∈ done, aborting D tx = false) :
      Progress D batch (.removed tx todo) done done
  | applied
      (done todo : List Transaction)
      (tx : Transaction)
      (hSplit : batch = done ++ tx :: todo)
      (hDone : ∀ tx ∈ done, aborting D tx = false)
      (hExecutable : executable D tx = true) :
      Progress D batch (.applied tx todo) (done ++ [tx]) done

namespace Process

/- The account after the batches delivered so far. -/
def behind (p : Process D) : Account D :=
  Account.after p.delivered

/-
  The account is the one after the delivered batches or,
  while a batch is processed, that account after the part of
  the batch that has been executed.
-/
def Serial (p : Process D) : Prop :=
  match p.listener with
  | .idle => p.account = p.behind
  | .busy batch position =>
      ∃ executed counted,
        Progress D batch position executed counted ∧
          p.account =
            { p.behind.execute executed with
              orderCounter :=
                (p.behind.execute counted).orderCounter }

end Process

end ReplicatedAccount

------------------------------------------------------------
-- Steps
------------------------------------------------------------

namespace ReplicatedAccount

open Foundations Foundations.Method

variable {D : Type} [DoubleArithmetic D]

/- The end of a delivery is recorded when it is left. -/
theorem Position.endings_advance
    (position : Position)
    (c : Client D) :
    endings (position.advance.run c).events = [] := by
  cases position with
  | next todo =>
      cases todo with
      | nil =>
          rw [run_advance_nil]
          split_ifs <;> rfl
      | cons tx todo =>
          simp only [advance, Client.removeReceived]
          cases hExecuted :
              Client.alreadyExecuted tx c.executedList with
          | error e => simp [hExecuted]
          | ok found =>
              cases hKept :
                  Client.removeLocal tx
                    c.outstandingCollection with
              | error e => simp [hExecuted, hKept]
              | ok kept =>
                  cases found <;> simp [hExecuted, hKept]
  | removed tx todo =>
      rw [run_advance_removed]
      cases disposition (D := D) tx with
      | answer issuer =>
          simp only [Client.perform]
          split_ifs <;> rfl
      | _ => rfl
  | applied tx todo => rfl

namespace Process

variable {p p' : Process D}
variable {a : ProcessAction}

/- A step of the listener inside a batch ends no delivery. -/
theorem endings_runListener
    {batch batch' : List Transaction}
    {position position' : Position}
    (hBusy :
      (p.runListener batch position).listener =
        .busy batch' position') :
    endings (p.runListener batch position).replica.trace =
      endings p.replica.trace := by
  have hEndings :=
    position.endings_advance p.replica.client
  unfold runListener at hBusy ⊢
  rcases hRun : position.advance.run p.replica.client with
    ⟨s', events, result⟩
  rw [hRun] at hEndings
  simp only [hRun] at hBusy ⊢
  cases result with
  | error e => simp [leave] at hBusy
  | ok next =>
      cases next with
      | none => simp [leave] at hBusy
      | some later => simp [Replica.after, hEndings]

theorem endings_of_listen
    (hStep : p.step .listen = some p')
    {batch' : List Transaction}
    {position' : Position}
    (hBusy : p'.listener = .busy batch' position') :
    endings p'.replica.trace = endings p.replica.trace := by
  unfold step at hStep
  split_ifs at hStep
  cases hListener : p.listener with
  | idle => simp [hListener] at hStep
  | busy batch position =>
      simp only [hListener, Option.some.injEq] at hStep
      subst hStep
      exact endings_runListener hBusy

/- Commands and ticks do not touch the account. -/
theorem account_of_local
    {b : ReplicaAction}
    (hIds : p.replica.client.IdsPresent)
    (hLocal : ∀ batch, b ≠ .deliver batch)
    (hReplica : p'.replica = p.replica.act b) :
    p'.account = p.account := by
  have hEffect :=
    p.replica.act_effect b hIds
      (fun batch hDeliver => absurd hDeliver (hLocal batch))
  rw [← hReplica] at hEffect
  cases hEffect with
  | enqueues command hClient hTrace hCommand =>
      simp [account, hClient, hTrace, Client.afterEnqueue]
  | cleans hClient hTrace => simp [account, hClient, hTrace]
  | multicasts hClient hTrace hAction =>
      simp [account, hClient, hTrace]
  | quiet events hClient hTrace hQuiet hAction =>
      rcases hQuiet.projections with
        ⟨_, _, hApplied, _, _, hEndings⟩
      simp [account, hClient, hTrace, hApplied, hEndings]
  | absorbs batch events hAction hClient hTrace hLog =>
      exact absurd hAction (hLocal batch)

/- What was delivered can be read off the account. -/
theorem behind_of_endings
    (hEndings : p'.account.endings = p.account.endings) :
    p'.behind = p.behind := by
  have hSame :
      endings p'.replica.trace = endings p.replica.trace :=
    hEndings
  simp only [behind, delivered, hSame]

/- Only the account and the listener matter. -/
theorem Serial.of_same
    (hSerial : p.Serial)
    (hAccount : p'.account = p.account)
    (hListener : p'.listener = p.listener) :
    p'.Serial := by
  have hBehind : p'.behind = p.behind :=
    behind_of_endings (by rw [hAccount])
  unfold Serial at hSerial ⊢
  rw [hListener, hBehind, hAccount]
  exact hSerial

/- A delivery that ends is behind the process. -/
theorem behind_of_ending
    {batch : List Transaction}
    {thrown : Option JavaException}
    {events : List (Event D)}
    (hTrace :
      p'.replica.trace =
        p.replica.trace ++
          (events ++ [.delivered batch thrown]))
    (hEvents : endings events = []) :
    p'.behind = p.behind.deliver batch := by
  simp [behind, delivered, hTrace, hEvents]

omit [DoubleArithmetic D] in
theorem account_of_ending
    {batch : List Transaction}
    {thrown : Option JavaException}
    {events : List (Event D)}
    (hClient : p'.replica.client = p.replica.client)
    (hTrace :
      p'.replica.trace =
        p.replica.trace ++
          (events ++ [.delivered batch thrown]))
    (hEvents : endings events = [])
    (hApplied : applied events = []) :
    p'.account =
      { p.account with
        endings := p.account.endings ++ [(batch, thrown)] } := by
  simp [account, hClient, hTrace, hEvents, hApplied]

variable {batch todo : List Transaction}
variable {tx : Transaction}
variable {position : Position}

/- What is known while a batch is processed. -/
theorem Serial.exists_progress
    (hSerial : p.Serial)
    (hBefore : p.listener = .busy batch position) :
    ∃ executed counted,
      Progress D batch position executed counted ∧
        p.account =
          { p.behind.execute executed with
            orderCounter :=
              (p.behind.execute counted).orderCounter } := by
  unfold Serial at hSerial
  simpa only [hBefore] using hSerial

theorem Serial.of_progress
    (hListener : p'.listener = .busy batch position)
    {executed counted : List Transaction}
    (hProgress : Progress D batch position executed counted)
    (hAccount :
      p'.account =
        { p'.behind.execute executed with
          orderCounter :=
            (p'.behind.execute counted).orderCounter }) :
    p'.Serial := by
  unfold Serial
  simp only [hListener]
  exact ⟨executed, counted, hProgress, hAccount⟩

/- The listener is given a message. -/
theorem Serial.receives
    (hSerial : p.Serial)
    (hIdle : p.listener = .idle)
    (hReplica : p'.replica = p.replica)
    (hListener : p'.listener = .busy batch (.next batch)) :
    p'.Serial := by
  have hAccount : p'.account = p.account := by
    simp only [account, hReplica]
  have hBehind := behind_of_endings (congrArg _ hAccount)
  unfold Serial at hSerial
  simp only [hIdle] at hSerial
  refine .of_progress hListener (.next [] batch rfl (by simp)) ?_
  simp [hAccount, hSerial, hBehind]

/- A transaction leaves the outstanding collection. -/
theorem Serial.removes
    (hSerial : p.Serial)
    (hBefore : p.listener = .busy batch (.next (tx :: todo)))
    (hAccount : p'.account = p.account)
    (hListener : p'.listener = .busy batch (.removed tx todo)) :
    p'.Serial := by
  have hBehind := behind_of_endings (congrArg _ hAccount)
  rcases hSerial.exists_progress hBefore with
    ⟨executed, counted, hProgress, hSame⟩
  cases hProgress with
  | next done todo hSplit hDone =>
      refine .of_progress hListener
        (.removed _ _ _ hSplit hDone) ?_
      rw [hAccount, hBehind, hSame]

/- An operation changes the balance, but not the counter. -/
theorem Serial.executes
    (hSerial : p.Serial)
    {operation : Operation D}
    (hBefore : p.listener = .busy batch (.removed tx todo))
    (hDisposition : disposition tx = .execute operation)
    (hClient :
      p'.replica.client = p.replica.client.credited operation)
    (hTrace :
      p'.replica.trace = p.replica.trace ++ [.applied tx])
    (hListener : p'.listener = .busy batch (.applied tx todo)) :
    p'.Serial := by
  have hExecutable : executable D tx = true := by
    simp [executable, hDisposition]
  have hBehind : p'.behind = p.behind := by
    apply behind_of_endings
    simp [account, hTrace]
  rcases hSerial.exists_progress hBefore with
    ⟨executed, counted, hProgress, hSame⟩
  cases hProgress with
  | removed done todo tx hSplit hDone =>
      refine .of_progress hListener
        (.applied _ _ _ hSplit hDone hExecutable) ?_
      have hDoneSame : p.behind.execute executed = p.account :=
        hSame.symm
      rw [hBehind, Account.execute_append, hDoneSame]
      simp [account, hClient, hTrace, Client.credited,
        Account.execute, applyTransaction, hDisposition,
        hExecutable]

/- A transaction that changes nothing is passed over. -/
theorem Serial.passes
    (hSerial : p.Serial)
    (hBefore : p.listener = .busy batch (.removed tx todo))
    (hNotExecutable : executable D tx = false)
    (hNotAborting : aborting D tx = false)
    (hAccount : p'.account = p.account)
    (hListener : p'.listener = .busy batch (.next todo)) :
    p'.Serial := by
  have hBehind := behind_of_endings (congrArg _ hAccount)
  rcases hSerial.exists_progress hBefore with
    ⟨executed, counted, hProgress, hSame⟩
  cases hProgress with
  | removed done todo tx hSplit hDone =>
      refine .of_progress hListener
        (.next (executed ++ [tx]) todo (by simp [hSplit]) ?_) ?_
      · intro t hMember
        rcases List.mem_append.mp hMember with hOld | hNew
        · exact hDone t hOld
        · rw [List.mem_singleton.mp hNew]
          exact hNotAborting
      · rw [hAccount, hBehind, hSame, Account.execute_append,
          Account.execute_of_not_executable _ hNotExecutable]

/- An exception ends the delivery where the batch aborts. -/
theorem Serial.aborts
    (hSerial : p.Serial)
    {e : JavaException}
    (hBefore : p.listener = .busy batch (.removed tx todo))
    (hDisposition : (disposition tx : Disposition D) = .abort e)
    (hClient : p'.replica.client = p.replica.client)
    (hTrace :
      p'.replica.trace =
        p.replica.trace ++ [.delivered batch (some e)])
    (hListener : p'.listener = .idle) :
    p'.Serial := by
  have hEnd :
      p'.replica.trace =
        p.replica.trace ++
          ([] ++ [.delivered batch (some e)]) := by
    simpa using hTrace
  have hAccount := account_of_ending hClient hEnd rfl rfl
  rcases hSerial.exists_progress hBefore with
    ⟨executed, counted, hProgress, hSame⟩
  unfold Serial
  simp only [hListener]
  cases hProgress with
  | removed done todo tx hSplit hDone =>
      rw [hAccount, hSame, behind_of_ending hEnd rfl, hSplit,
        Account.deliver_of_abort _ hDone hDisposition]
      rfl

/- The counter follows the balance. -/
theorem Serial.records
    (hSerial : p.Serial)
    (hBefore : p.listener = .busy batch (.applied tx todo))
    (hClient : p'.replica.client = p.replica.client.recorded tx)
    (hTrace : p'.replica.trace = p.replica.trace)
    (hListener : p'.listener = .busy batch (.next todo)) :
    p'.Serial := by
  have hBehind : p'.behind = p.behind := by
    apply behind_of_endings
    simp [account, hTrace]
  rcases hSerial.exists_progress hBefore with
    ⟨executed, counted, hProgress, hSame⟩
  cases hProgress with
  | applied done todo tx hSplit hDone hExecutable =>
      refine .of_progress hListener
        (.next (counted ++ [tx]) todo (by simp [hSplit]) ?_) ?_
      · intro t hMember
        rcases List.mem_append.mp hMember with hOld | hNew
        · exact hDone t hOld
        · rw [List.mem_singleton.mp hNew]
          exact not_aborting_of_executable hExecutable
      · have hCounter :
            p.replica.client.orderCounter =
              (p.behind.execute counted).orderCounter :=
          congrArg Account.orderCounter hSame
        have hRecorded :
            p'.account =
              { p.account with
                orderCounter :=
                  p.replica.client.orderCounter + 1 } := by
          simp [account, hClient, hTrace, Client.recorded]
        rw [hRecorded, hBehind, hSame, hCounter]
        simp [Account.execute, hExecutable, Int32.add_assoc]

/- The delivery ends with its batch. -/
theorem Serial.returns
    (hSerial : p.Serial)
    {events : List (Event D)}
    (hBefore : p.listener = .busy batch (.next []))
    (hClient : p'.replica.client = p.replica.client)
    (hTrace :
      p'.replica.trace =
        p.replica.trace ++ (events ++ [.delivered batch none]))
    (hQuiet : Quiet events)
    (hListener : p'.listener = .idle) :
    p'.Serial := by
  rcases hQuiet.projections with
    ⟨_, _, hApplied, _, _, hEndings⟩
  have hAccount :=
    account_of_ending hClient hTrace hEndings hApplied
  rcases hSerial.exists_progress hBefore with
    ⟨executed, counted, hProgress, hSame⟩
  unfold Serial
  simp only [hListener]
  cases hProgress with
  | next done todo hSplit hDone =>
      rw [List.append_nil] at hSplit
      subst hSplit
      rw [hAccount, hSame, behind_of_ending hTrace hEndings,
        Account.deliver_of_not_aborting _ hDone]
      rfl

/- Every step keeps the account serial. -/
theorem Serial.step
    {settings : Settings}
    (hSound : p.Sound settings)
    (hSerial : p.Serial)
    (hStep : p.step a = some p') :
    p'.Serial := by
  have hChange := change_of_step hSound.books.idsPresent hStep
  cases hChange with
  | acts b started hAction hLocal hReplica hListener hReaders
      hStarted =>
      exact hSerial.of_same
        (account_of_local hSound.books.idsPresent hLocal
          hReplica)
        hListener
  | receives batch hAction hIdle hReplica hListener hReaders =>
      exact hSerial.receives hIdle hReplica hListener
  | removes batch tx todo hAction hBefore hClient hTrace
      hListener hReaders =>
      exact hSerial.removes hBefore
        (by simp [account, hClient, hTrace, Client.withoutLocal])
        hListener
  | executes batch tx todo operation hAction hBefore
      hDisposition hClient hTrace hListener hReaders =>
      exact hSerial.executes hBefore hDisposition hClient hTrace
        hListener
  | passes batch tx todo events hAction hBefore hNotExecutable
      hNotAborting hClient hTrace hEnqueued hApplied
      hMulticasts hListener hReaders =>
      have hEndings := endings_of_listen (hAction ▸ hStep) hListener
      have hAccount : p'.account = p.account := by
        simp only [account, hClient, hEndings]
        simp [hTrace, hApplied]
      exact hSerial.passes hBefore hNotExecutable hNotAborting
        hAccount hListener
  | aborts batch tx todo e hAction hBefore hDisposition hClient
      hTrace hListener hReaders =>
      exact hSerial.aborts hBefore hDisposition hClient hTrace
        hListener
  | records batch tx todo hAction hBefore hClient hTrace
      hListener hReaders =>
      exact hSerial.records hBefore hClient hTrace hListener
  | returns batch events hAction hBefore hClient hTrace hQuiet
      hListener hReaders =>
      exact hSerial.returns hBefore hClient hTrace hQuiet
        hListener
  | reads k reader events hAction hReader hReady hClient hTrace
      hQuiet hListener hReaders =>
      rcases hQuiet.projections with
        ⟨_, _, hApplied, _, _, hEndings⟩
      exact hSerial.of_same
        (by simp [account, hClient, hTrace, hApplied, hEndings])
        hListener
  | wakes k hAction hReplica hListener hReaders =>
      exact hSerial.of_same (by simp only [account, hReplica])
        hListener

end Process

end ReplicatedAccount

------------------------------------------------------------
-- Runs of All Clients
------------------------------------------------------------

namespace ReplicatedAccount

open Foundations

variable {ι D : Type} [DecidableEq ι] [DoubleArithmetic D]
variable {settings : ι → Settings}
variable {actions : List (ConcurrentAction ι)}
variable {σ : Clients ι D}

/- The account of every client is serial in every run. -/
theorem serial_of_concurrent_run
    (hRun :
      (concurrentSystem D settings).run actions = some σ)
    (i : ι) :
    (σ i).Serial := by
  refine (concurrentSystem D settings).run_induction
    (P := fun _ σ => ∀ i, (σ i).Serial) ?_ ?_ hRun i
  · intro i
    rfl
  · intro earlier s a s' hEarlier hSerial hStep j
    rcases Clients.step_eq_some_iff.mp hStep with
      ⟨i, b, p, _, hMoved, rfl⟩
    by_cases hSame : j = i
    · subst hSame
      rw [Function.update_self]
      exact (hSerial j).step
        (sound_of_concurrent_run hEarlier j) hMoved
    · rw [Function.update_of_ne hSame]
      exact hSerial j

/- Between two deliveries the account is their result. -/
theorem account_of_idle
    (hRun :
      (concurrentSystem D settings).run actions = some σ)
    {i : ι}
    (hIdle : (σ i).listener = .idle) :
    (σ i).account = (σ i).behind := by
  have hSerial := serial_of_concurrent_run hRun i
  unfold Process.Serial at hSerial
  rw [hIdle] at hSerial
  exact hSerial

/-
  However the threads of any number of clients interleave,
  the balance, the order counter, the history and the endings
  of a client are, whenever its listener waits, those of an
  account to which whole batches are delivered one by one;
  and a client that was delivered more batches than another
  has the account of the other after the additional ones.
  While a batch is processed, the account lies between two
  of its transactions, or inside one that is not counted.
-/
theorem threads_deliver_serially
    (hRun :
      (concurrentSystem D settings).run actions = some σ) :
    (∀ i, (σ i).listener = .idle →
      (σ i).account = (σ i).behind) ∧
    (∀ i batch position,
      (σ i).listener = .busy batch position →
        ∃ executed counted,
          Progress D batch position executed counted ∧
            (σ i).account =
              { (σ i).behind.execute executed with
                orderCounter :=
                  ((σ i).behind.execute
                    counted).orderCounter }) ∧
    (∀ i j more,
      (σ i).listener = .idle → (σ j).listener = .idle →
        (σ j).delivered = (σ i).delivered ++ more →
          (σ j).account =
            more.foldl Account.deliver (σ i).account) := by
  refine ⟨fun i hIdle => account_of_idle hRun hIdle, ?_, ?_⟩
  · intro i batch position hBusy
    have hSerial := serial_of_concurrent_run hRun i
    unfold Process.Serial at hSerial
    rw [hBusy] at hSerial
    exact hSerial
  · intro i j more hIdle hOther hMore
    rw [account_of_idle hRun hOther, account_of_idle hRun hIdle]
    simp [Process.behind, Account.after, hMore]

/-
  While the first client processes its own deposit, its user
  cleans the history and enqueues an interest; the second
  client processes both batches.
-/
def interruptedRun : List (ConcurrentAction Bool) :=
  [.command true "deposit 100", .tick true true,
    .deliver true true 0, .deliver false true 0, .listen true,
    .command true "addInterest 10", .listen true, .listen false,
    .command true "cleanHistory", .listen false, .listen true,
    .listen false, .listen false, .listen true, .tick true true,
    .deliver false true 1, .listen false, .listen false,
    .listen false, .listen false]

theorem threads_deliver_serially_interrupted :
    ∃ σ : Clients Bool Decimal,
      (concurrentSystem Decimal twoClients).run
          interruptedRun = some σ ∧
        (σ false).account =
          (σ true).account.deliver
            [⟨some "addInterest 10", some "3 1"⟩] := by
  have hRuns :
      ((concurrentSystem Decimal twoClients).run
        interruptedRun).any
        (fun σ =>
          decide ((σ true).listener = .idle) &&
            decide ((σ false).listener = .idle) &&
              decide
                ((σ false).delivered =
                  (σ true).delivered ++
                    [[⟨some "addInterest 10",
                      some "3 1"⟩]])) := by
    decide +kernel
  rcases (Option.any_eq_true _ _).mp hRuns with
    ⟨σ, hRun, hState⟩
  simp only [Bool.and_eq_true, decide_eq_true_eq] at hState
  rcases hState with ⟨⟨hIdle, hOther⟩, hMore⟩
  exact ⟨σ, hRun,
    (threads_deliver_serially hRun).2.2 true false _ hIdle
      hOther hMore⟩

end ReplicatedAccount
