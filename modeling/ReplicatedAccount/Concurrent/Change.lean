import ReplicatedAccount.Client.Bookkeeping
import ReplicatedAccount.Client.Language
import ReplicatedAccount.Concurrent.Process

/-
  What one step changes in a process: an action of the
  command thread or the scheduler, a step of the listener, or
  a step of a thread that reads the naive balance.

  Key definitions include:
    * `Process.Change`
    * `Process.naiveOutcome`

  Key theorems include:
    * `Client.naive_of_threadStarted`
    * `Process.change_of_step`
-/

------------------------------------------------------------
-- What a Step Does
------------------------------------------------------------

namespace ReplicatedAccount

open Foundations Foundations.Method

variable {D : Type} [DoubleArithmetic D]

/- The naive balance is read exactly when nothing is left. -/
omit [DoubleArithmetic D] in
theorem Client.run_readNaive
    (c : Client D) :
    Client.readNaive.run c =
      if c.outstandingCollection = [] then
        ⟨c, [.println
            (.balance "Naive Synced balance: " c.balance)],
          .ok (some c.balance)⟩
      else
        ⟨c, [], .ok none⟩ := by
  unfold Client.readNaive Client.println
  cases hOutstanding : c.outstandingCollection with
  | nil => simp [hOutstanding, Except.map]
  | cons tx rest => simp [hOutstanding]

namespace Process

/- What a reading thread finds. -/
def naiveOutcome
    (p : Process D) :
    Option (D × List Transaction) :=
  if p.replica.client.outstandingCollection = [] then
    some (p.replica.client.balance, applied p.replica.trace)
  else
    none

/-
  What a step does to a process whose lists hold no null id:
  an action of the command thread or the scheduler, a step of
  the listener, or a step of a reading thread.
-/
inductive Change
    (p : Process D)
    (a : ProcessAction)
    (p' : Process D) : Prop
  | acts
      (b : ReplicaAction)
      (started : List (List Transaction))
      (hAction : a ≠ .listen ∧ ∀ reader, a ≠ .read reader)
      (hLocal : ∀ batch, b ≠ .deliver batch)
      (hReplica : p'.replica = p.replica.act b)
      (hListener : p'.listener = p.listener)
      (hReaders :
        p'.readers = p.readers ++ started.map Waiter.start)
      (hStarted :
        ∀ earlier ∈ started,
          earlier = enqueued p.replica.trace ∧
            p.replica.client.naiveSyncBalance = true)
  | receives
      (batch : List Transaction)
      (hAction : a = .receive batch)
      (hIdle : p.listener = .idle)
      (hReplica : p'.replica = p.replica)
      (hListener : p'.listener = .busy batch (.next batch))
      (hReaders : p'.readers = p.readers)
  | removes
      (batch : List Transaction)
      (tx : Transaction)
      (todo : List Transaction)
      (hAction : a = .listen)
      (hBefore : p.listener = .busy batch (.next (tx :: todo)))
      (hClient :
        p'.replica.client = p.replica.client.withoutLocal tx)
      (hTrace :
        p'.replica.trace = p.replica.trace ++ [.processing tx])
      (hListener : p'.listener = .busy batch (.removed tx todo))
      (hReaders : p'.readers = p.readers)
  | executes
      (batch : List Transaction)
      (tx : Transaction)
      (todo : List Transaction)
      (operation : Operation D)
      (hAction : a = .listen)
      (hBefore : p.listener = .busy batch (.removed tx todo))
      (hDisposition : disposition tx = .execute operation)
      (hClient :
        p'.replica.client = p.replica.client.credited operation)
      (hTrace :
        p'.replica.trace = p.replica.trace ++ [.applied tx])
      (hListener : p'.listener = .busy batch (.applied tx todo))
      (hReaders : p'.readers = p.readers)
  | passes
      (batch : List Transaction)
      (tx : Transaction)
      (todo : List Transaction)
      (events : List (Event D))
      (hAction : a = .listen)
      (hBefore : p.listener = .busy batch (.removed tx todo))
      (hNotExecutable : executable D tx = false)
      (hNotAborting : aborting D tx = false)
      (hClient : p'.replica.client = p.replica.client)
      (hTrace : p'.replica.trace = p.replica.trace ++ events)
      (hEnqueued : enqueued events = [])
      (hApplied : applied events = [])
      (hMulticasts : multicasts events = [])
      (hListener : p'.listener = .busy batch (.next todo))
      (hReaders : p'.readers = p.readers)
  | aborts
      (batch : List Transaction)
      (tx : Transaction)
      (todo : List Transaction)
      (e : JavaException)
      (hAction : a = .listen)
      (hBefore : p.listener = .busy batch (.removed tx todo))
      (hDisposition : disposition (D := D) tx = .abort e)
      (hClient : p'.replica.client = p.replica.client)
      (hTrace :
        p'.replica.trace =
          p.replica.trace ++ [.delivered batch (some e)])
      (hListener : p'.listener = .idle)
      (hReaders : p'.readers = p.readers)
  | records
      (batch : List Transaction)
      (tx : Transaction)
      (todo : List Transaction)
      (hAction : a = .listen)
      (hBefore : p.listener = .busy batch (.applied tx todo))
      (hClient : p'.replica.client = p.replica.client.recorded tx)
      (hTrace : p'.replica.trace = p.replica.trace)
      (hListener : p'.listener = .busy batch (.next todo))
      (hReaders : p'.readers = p.readers)
  | returns
      (batch : List Transaction)
      (events : List (Event D))
      (hAction : a = .listen)
      (hBefore : p.listener = .busy batch (.next []))
      (hClient : p'.replica.client = p.replica.client)
      (hTrace :
        p'.replica.trace =
          p.replica.trace ++ (events ++ [.delivered batch none]))
      (hQuiet : Quiet events)
      (hListener : p'.listener = .idle)
      (hReaders :
        p'.readers =
          if p.replica.client.outstandingCollection = [] ∧
              p.replica.client.naiveSyncBalance = true then
            notifyAll p.readers
          else
            p.readers)
  | reads
      (k : Nat)
      (reader : Reader D)
      (events : List (Event D))
      (hAction : a = .read k)
      (hReader : p.readers[k]? = some reader)
      (hReady : reader.phase = .ready)
      (hClient : p'.replica.client = p.replica.client)
      (hTrace : p'.replica.trace = p.replica.trace ++ events)
      (hQuiet : Quiet events)
      (hListener : p'.listener = p.listener)
      (hReaders :
        p'.readers =
          p.readers.modify k (Waiter.enter p.naiveOutcome))
  | wakes
      (k : Nat)
      (hAction : a = .wake k)
      (hReplica : p'.replica = p.replica)
      (hListener : p'.listener = p.listener)
      (hReaders : p'.readers = p.readers.modify k Waiter.wake)

end Process

end ReplicatedAccount

------------------------------------------------------------
-- Started Threads
------------------------------------------------------------

namespace ReplicatedAccount

open Foundations Foundations.JavaText Foundations.Method

variable {D : Type}

/- Of all commands only a naive request starts a thread. -/
theorem CommandName.naive_of_threadStarted
    {command : String}
    {name : CommandName}
    {c : Client D}
    (hStarted :
      .threadStarted ∈ ((name.body command).run c).events) :
    c.naiveSyncBalance = true := by
  cases name with
  | deposit => simp [body, Client.run_enqueue] at hStarted
  | addInterest =>
      simp [body, Client.run_enqueue] at hStarted
  | checkTxStatus =>
      cases hArgument : arrayElement (split command) 1 with
      | error e => simp [body, hArgument] at hStarted
      | ok transactionId =>
          cases hStatus : c.getTxStatus transactionId <;>
            simp [body, Client.printTxStatus, hArgument,
              hStatus] at hStarted
  | sleep =>
      cases hArgument : arrayElement (split command) 1 with
      | error e => simp [body, hArgument] at hStarted
      | ok argument =>
          cases hDuration : parseInt argument with
          | none =>
              simp [body, hArgument, hDuration, parsed]
                at hStarted
          | some duration =>
              simp only [body, Client.sleep, hArgument,
                hDuration, parsed, run_ofExcept_ok_bind,
                run_get_bind] at hStarted
              split_ifs at hStarted <;> simp at hStarted
  | getSynchedBalance =>
      by_contra hNaive
      simp [body, hNaive, Client.getSyncedBalanceCorrect,
        Client.run_enqueue] at hStarted
  | getQuickBalance =>
      simp [body, Client.getQuickBalance, Client.println]
        at hStarted
  | getHistory =>
      simp [body, Client.getHistory, Client.println]
        at hStarted
  | cleanHistory =>
      simp [body, Client.cleanHistory] at hStarted
  | memberInfo =>
      simp [body, Client.memberInfo, Client.println]
        at hStarted
  | exit => simp [body, Client.exit] at hStarted

theorem Client.naive_of_threadStarted
    {input : String}
    {c : Client D}
    (hStarted :
      .threadStarted ∈ ((processCommand input).run c).events) :
    c.naiveSyncBalance = true := by
  rw [processCommand_eq_selected] at hStarted
  cases hSelected : CommandName.selected (trim input) with
  | error diagnostic =>
      rw [hSelected] at hStarted
      simp [println] at hStarted
  | ok name =>
      rw [hSelected] at hStarted
      exact CommandName.naive_of_threadStarted hStarted

end ReplicatedAccount

------------------------------------------------------------
-- Every Step Is a Change
------------------------------------------------------------

namespace ReplicatedAccount

open Foundations Foundations.Method

variable {D : Type} [DoubleArithmetic D]

namespace Process

variable {p p' : Process D}

omit [DoubleArithmetic D] in
theorem mem_started
    {input : String}
    {earlier : List Transaction}
    (hStarted : earlier ∈ p.started input) :
    earlier = enqueued p.replica.trace ∧
      p.replica.client.naiveSyncBalance = true := by
  rcases List.mem_map.mp hStarted with ⟨event, hEvent, rfl⟩
  rcases List.mem_filter.mp hEvent with ⟨hMember, hStart⟩
  refine ⟨rfl, ?_⟩
  cases event with
  | threadStarted =>
      exact Client.naive_of_threadStarted hMember
  | _ => cases hStart

/- A command is an action of the replica on its own. -/
theorem change_of_command
    (p : Process D)
    (input : String) :
    Change p (.command input) (p.runCommand input) := by
  refine .acts (.command input) (p.started input) (by simp)
    (by simp) (p.replica_runCommand input) ?_ ?_
    (fun _ => mem_started)
  · simp only [runCommand]
  · simp only [runCommand]

/- A reader's section prints the balance or starts a wait. -/
theorem change_of_read
    {k : Nat}
    {reader : Reader D}
    (hReader : p.readers[k]? = some reader)
    (hReady : reader.phase = .ready) :
    Change p (.read k) (p.runReader k) := by
  by_cases hEmpty : p.replica.client.outstandingCollection = []
  · refine .reads k reader
      [.println
        (.balance "Naive Synced balance: "
          p.replica.client.balance)]
      rfl hReader hReady ?_ ?_ ?_ rfl ?_
    all_goals
      simp [runReader, Replica.after, Client.run_readNaive,
        hEmpty, Quiet, naiveOutcome, printed]
  · refine .reads k reader [] rfl hReader hReady ?_ ?_ ?_ rfl ?_
    all_goals
      simp [runReader, Replica.after, Client.run_readNaive,
        hEmpty, Quiet, naiveOutcome, printed]

theorem change_of_return
    {batch : List Transaction}
    (hBusy : p.listener = .busy batch (.next [])) :
    Change p .listen (p.runListener batch (.next [])) := by
  have hRun := Position.run_advance_nil p.replica.client
  by_cases hWoken :
      p.replica.client.outstandingCollection = [] ∧
        p.replica.client.naiveSyncBalance = true
  · rw [if_pos hWoken] at hRun
    refine .returns batch [.notifyAll] rfl hBusy ?_ ?_ ?_ ?_ ?_
    all_goals simp [runListener, hRun, leave, Quiet, hWoken]
  · rw [if_neg hWoken] at hRun
    refine .returns batch [] rfl hBusy ?_ ?_ ?_ ?_ ?_
    all_goals simp [runListener, hRun, leave, Quiet, hWoken]

theorem change_of_removal
    {batch : List Transaction}
    {tx : Transaction}
    {todo : List Transaction}
    (hIds : p.replica.client.IdsPresent)
    (hBusy : p.listener = .busy batch (.next (tx :: todo))) :
    Change p .listen
      (p.runListener batch (.next (tx :: todo))) := by
  have hRun := Position.run_advance_next tx todo hIds
  refine .removes batch tx todo rfl hBusy ?_ ?_ ?_ ?_
  all_goals simp [runListener, hRun, Replica.after]

/- After its removal a transaction meets its disposition. -/
theorem change_of_removed
    {batch : List Transaction}
    {tx : Transaction}
    {todo : List Transaction}
    (hBusy : p.listener = .busy batch (.removed tx todo)) :
    Change p .listen
      (p.runListener batch (.removed tx todo)) := by
  have hRun := Position.run_advance_removed tx todo p.replica.client
  cases hDisposition : disposition (D := D) tx with
  | execute operation =>
      simp only [hDisposition, Client.perform] at hRun
      refine .executes batch tx todo operation rfl hBusy
        hDisposition ?_ ?_ ?_ ?_
      all_goals
        simp [runListener, hRun, Replica.after, Except.map]
  | answer issuer =>
      simp only [hDisposition, Client.perform] at hRun
      by_cases hOwn : issuer = p.replica.client.id
      · rw [if_pos hOwn] at hRun
        refine .passes batch tx todo
          [.println
            (.balance "Correct Synced Balance: "
              p.replica.client.balance),
            .answered tx]
          rfl hBusy (by simp [executable, hDisposition])
          (by simp [aborting, hDisposition]) ?_ ?_ ?_ ?_ ?_ ?_
            ?_
        all_goals
          simp [runListener, hRun, Replica.after, Except.map]
      · rw [if_neg hOwn] at hRun
        refine .passes batch tx todo [] rfl hBusy
          (by simp [executable, hDisposition])
          (by simp [aborting, hDisposition]) ?_ ?_ ?_ ?_ ?_ ?_
            ?_
        all_goals
          simp [runListener, hRun, Replica.after, Except.map]
  | skip =>
      simp only [hDisposition, Client.perform] at hRun
      refine .passes batch tx todo [] rfl hBusy
        (by simp [executable, hDisposition])
        (by simp [aborting, hDisposition]) ?_ ?_ ?_ ?_ ?_ ?_ ?_
      all_goals
        simp [runListener, hRun, Replica.after, Except.map]
  | abort e =>
      simp only [hDisposition, Client.perform] at hRun
      refine .aborts batch tx todo e rfl hBusy hDisposition
        ?_ ?_ ?_ ?_
      all_goals simp [runListener, hRun, leave, Except.map]

theorem change_of_applied
    {batch : List Transaction}
    {tx : Transaction}
    {todo : List Transaction}
    (hBusy : p.listener = .busy batch (.applied tx todo)) :
    Change p .listen
      (p.runListener batch (.applied tx todo)) := by
  have hRun := Position.run_advance_applied tx todo p.replica.client
  refine .records batch tx todo rfl hBusy ?_ ?_ ?_ ?_
  all_goals simp [runListener, hRun, Replica.after]

/- Every step of a process is one of the changes. -/
theorem change_of_step
    {a : ProcessAction}
    (hIds : p.replica.client.IdsPresent)
    (hStep : p.step a = some p') :
    Change p a p' := by
  unfold step at hStep
  split_ifs at hStep
  cases a with
  | command input =>
      rw [← Option.some.inj hStep]
      exact p.change_of_command input
  | tick accepted =>
      rw [← Option.some.inj hStep]
      refine .acts (.tick accepted) [] (by simp) (by simp)
        ?_ ?_ (by simp) (by simp)
      · rfl
      · rfl
  | receive batch =>
      cases hListener : p.listener with
      | idle =>
          simp only [hListener, Option.some.injEq] at hStep
          subst hStep
          exact .receives batch rfl hListener rfl rfl rfl
      | busy b position => simp [hListener] at hStep
  | listen =>
      cases hListener : p.listener with
      | idle => simp [hListener] at hStep
      | busy batch position =>
          simp only [hListener, Option.some.injEq] at hStep
          subst hStep
          cases position with
          | next todo =>
              cases todo with
              | nil => exact change_of_return hListener
              | cons tx todo =>
                  exact change_of_removal hIds hListener
          | removed tx todo => exact change_of_removed hListener
          | applied tx todo => exact change_of_applied hListener
  | read k =>
      cases hReader : p.readers[k]? with
      | none => simp [hReader] at hStep
      | some reader =>
          cases hPhase : reader.phase <;>
            simp only [hReader, hPhase, Option.map_some,
              Option.some.injEq, reduceCtorEq] at hStep
          subst hStep
          exact change_of_read hReader hPhase
  | wake k =>
      cases hReader : p.readers[k]? with
      | none => simp [hReader] at hStep
      | some reader =>
          cases hPhase : reader.phase <;>
            simp only [hReader, hPhase, Option.map_some,
              Option.some.injEq, reduceCtorEq] at hStep
          subst hStep
          exact .wakes k rfl rfl rfl rfl

end Process

end ReplicatedAccount
