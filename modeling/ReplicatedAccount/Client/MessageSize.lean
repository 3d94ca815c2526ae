import ReplicatedAccount.Client.ExactArithmetic
import ReplicatedAccount.Client.Language
import ReplicatedAccount.Client.Replica

/-
  Which outstanding collections are short enough to be sent.

  A broadcast puts the whole collection into one message, and
  the connection refuses a message that is too long.  Only
  the delivery of a sent message makes the collection
  shorter, so a collection that is too long stays too long.

  Key definitions include:
    * `Serialisation`
    * `Serialisation.Fits`
    * `objectStream`
    * `sendingSystem`
    * `Replica.SendsAll`
    * `Replica.Trapped`

  Key theorems include:
    * `Replica.multicasts_of_local_run`
    * `Replica.keepsSending_iff`
    * `keepsSending_iff_fits`
    * `too_many_deposits`
    * `queue_never_sent_again`
-/

------------------------------------------------------------
-- Message Lengths
------------------------------------------------------------

namespace ReplicatedAccount

/- `MAX_MESSAGE_LENGTH` of the connection. -/
def maxMessageLength : Nat := 140000

/- `MAX_GROUP_NAME` of the connection. -/
def maxGroupName : Nat := 32

/-
  The bytes before the data of a message: four numbers, the
  private group of the sender, and the groups it goes to.
-/
def headerBytes (groups : Nat) : Nat :=
  16 + maxGroupName + maxGroupName * groups

/-
  How many bytes `setObject` makes of a list.  Every further
  transaction takes at least one.
-/
structure Serialisation where
  size : List Transaction → Nat
  grows : ∀ txs tx, size txs < size (txs ++ [tx])

namespace Serialisation

variable (s : Serialisation)

/- `multicast` accepts the list, for the one account group. -/
def Fits (txs : List Transaction) : Prop :=
  headerBytes 1 + s.size txs ≤ maxMessageLength

instance (txs : List Transaction) : Decidable (s.Fits txs) :=
  inferInstanceAs (Decidable (_ ≤ _))

theorem size_le_append
    (txs later : List Transaction) :
    s.size txs ≤ s.size (txs ++ later) := by
  induction later using List.reverseRecOn with
  | nil => simp
  | append_singleton later tx ih =>
      rw [← List.append_assoc]
      exact Nat.le_trans ih (Nat.le_of_lt (s.grows _ tx))

/- A list is at least as long in bytes as in transactions. -/
theorem length_le_size
    (txs : List Transaction) :
    txs.length ≤ s.size txs := by
  induction txs using List.reverseRecOn with
  | nil => simp
  | append_singleton txs tx ih =>
      have hGrows := s.grows txs tx
      rw [List.length_append, List.length_singleton]
      omega

/- What is too long stays too long when it grows. -/
theorem not_fits_append
    {txs : List Transaction}
    (hLong : ¬ s.Fits txs)
    (later : List Transaction) :
    ¬ s.Fits (txs ++ later) := by
  have hSize := s.size_le_append txs later
  unfold Fits at hLong ⊢
  omega

end Serialisation

/- A string reference in an object stream, or a null. -/
def referenceBytes : Option String → Nat
| none => 1
| some content => 3 + content.utf8ByteSize

/- An object whose class the stream has described before. -/
def transactionBytes (tx : Transaction) : Nat :=
  6 + referenceBytes tx.command + referenceBytes tx.uniqueId

/-
  An object stream with one array list whose transactions
  share no strings.  The first transaction comes with the
  description of its class.
-/
def objectStream : Serialisation where
  size := fun txs =>
    58 + (if txs = [] then 0 else 81) +
      (txs.map transactionBytes).sum
  grows := by
    intro txs tx
    have hPositive : 0 < transactionBytes tx := by
      unfold transactionBytes
      omega
    by_cases hEmpty : txs = [] <;> simp [hEmpty] <;> omega

end ReplicatedAccount

------------------------------------------------------------
-- A Connection With a Limit
------------------------------------------------------------

namespace ReplicatedAccount

open Foundations

variable {D : Type}

namespace Serialisation

/- The connection accepts a tick exactly if its data fits. -/
def Answers
    (s : Serialisation)
    (r : Replica D) :
    ReplicaAction → Prop
| .tick accepted =>
    accepted = decide (s.Fits r.client.outstandingCollection)
| _ => True

instance
    (s : Serialisation)
    (r : Replica D)
    (a : ReplicaAction) :
    Decidable (s.Answers r a) :=
  match a with
  | .tick accepted =>
      inferInstanceAs
        (Decidable
          (accepted =
            decide (s.Fits r.client.outstandingCollection)))
  | .command _ => inferInstanceAs (Decidable True)
  | .deliver _ => inferInstanceAs (Decidable True)

end Serialisation

/- A client over a connection with a message limit. -/
def sendingSystem
    [DoubleArithmetic D]
    (s : Serialisation)
    (start : Client D) :
    TransitionSystem (Replica D) ReplicaAction :=
  (replicaSystem start).restrict s.Answers

namespace Replica

/- The client is connected and sends what is outstanding. -/
def Broadcasting (r : Replica D) : Prop :=
  hasExited r.trace = false ∧
    r.client.clientSyncronising = false

variable [DoubleArithmetic D]
variable (s : Serialisation)

/-
  The messages of the next tick contain, one after the other,
  all outstanding transactions in order.
-/
def SendsAll (r : Replica D) : Prop :=
  ∀ accepted r',
    (sendingSystem s r.client).step r (.tick accepted) =
        some r' →
      ∃ sent,
        multicasts r'.trace = multicasts r.trace ++ sent ∧
          r.client.outstandingCollection.Sublist sent.flatten

/-
  However many ticks follow and whatever is enqueued, none of
  the outstanding transactions is ever sent again.
-/
def Trapped (r : Replica D) : Prop :=
  r.client.outstandingCollection ≠ [] ∧
    ∀ actions r',
      (∀ a ∈ actions, ∀ batch, a ≠ .deliver batch) →
        (sendingSystem s r.client).runFrom r actions =
            some r' →
          ∃ sent,
            multicasts r'.trace = multicasts r.trace ++ sent ∧
              ∀ batch ∈ sent,
                ∀ tx ∈ r.client.outstandingCollection,
                  tx ∉ batch

/- The next tick sends everything, and nothing is stuck. -/
def KeepsSending (r : Replica D) : Prop :=
  r.SendsAll s ∧ ¬ r.Trapped s

end Replica

end ReplicatedAccount

------------------------------------------------------------
-- Collections That Are Too Long
------------------------------------------------------------

namespace ReplicatedAccount

open Foundations Foundations.Method

variable {D : Type} [DoubleArithmetic D]
variable {s : Serialisation}

namespace Replica

/- A tick that the connection refuses changes nothing. -/
theorem act_tick_refused
    (r : Replica D) :
    (r.act (.tick false)).client = r.client ∧
      multicasts (r.act (.tick false)).trace =
        multicasts r.trace := by
  simp only [act, call, Client.broadcastOutstanding,
    Client.sendOutstanding, run_get_bind]
  by_cases hSync : r.client.clientSyncronising <;> simp [hSync]

/- A tick that is accepted sends the whole collection. -/
theorem act_tick_accepted
    {r : Replica D}
    (hNormal : r.client.clientSyncronising = false) :
    multicasts (r.act (.tick true)).trace =
      multicasts r.trace ++
        [r.client.outstandingCollection] := by
  simp [act, call, Client.broadcastOutstanding,
    Client.sendOutstanding, hNormal]

/- The tick of the limited connection. -/
theorem step_tick_iff
    {start : Client D}
    {r r' : Replica D}
    {accepted : Bool} :
    (sendingSystem s start).step r (.tick accepted) = some r' ↔
      accepted = decide (s.Fits r.client.outstandingCollection) ∧
        hasExited r.trace = false ∧
          r.act (.tick accepted) = r' := by
  unfold sendingSystem
  rw [TransitionSystem.step_restrict_iff]
  exact and_congr_right fun _ => r.step_eq_some_iff _ r'

/-
  Nothing is sent from a collection that is too long, and
  commands and ticks leave it too long.
-/
theorem not_fits_of_local_step
    {start : Client D}
    {r r' : Replica D}
    {a : ReplicaAction}
    (hLong : ¬ s.Fits r.client.outstandingCollection)
    (hLocal : ∀ batch, a ≠ .deliver batch)
    (hStep : (sendingSystem s start).step r a = some r') :
    ¬ s.Fits r'.client.outstandingCollection ∧
      multicasts r'.trace = multicasts r.trace := by
  unfold sendingSystem at hStep
  rcases (TransitionSystem.step_restrict_iff _ _ r a r').mp
      hStep with
    ⟨hAnswer, hNext⟩
  rcases (r.step_eq_some_iff a r').mp hNext with ⟨_, rfl⟩
  cases a with
  | command input =>
      rcases r.act_command_localEffect input with
        ⟨hEffect, hMulticasts⟩
      rcases hEffect.queue with ⟨fresh, hQueue, _⟩
      rw [hQueue]
      exact ⟨s.not_fits_append hLong fresh, hMulticasts⟩
  | tick accepted =>
      have hRefused : accepted = false := by
        simpa [Serialisation.Answers, hLong] using hAnswer
      subst hRefused
      rcases r.act_tick_refused with ⟨hClient, hMulticasts⟩
      rw [hClient]
      exact ⟨hLong, hMulticasts⟩
  | deliver batch => exact absurd rfl (hLocal batch)

theorem multicasts_of_local_run
    {start : Client D}
    {actions : List ReplicaAction}
    {r r' : Replica D}
    (hLong : ¬ s.Fits r.client.outstandingCollection)
    (hLocal : ∀ a ∈ actions, ∀ batch, a ≠ .deliver batch)
    (hRun :
      (sendingSystem s start).runFrom r actions = some r') :
    multicasts r'.trace = multicasts r.trace := by
  induction actions generalizing r with
  | nil =>
      cases hRun
      rfl
  | cons a actions ih =>
      cases hStep : (sendingSystem s start).step r a with
      | none => simp [TransitionSystem.runFrom, hStep] at hRun
      | some next =>
          have hRest :
              (sendingSystem s start).runFrom next actions =
                some r' := by
            simpa [TransitionSystem.runFrom, hStep] using hRun
          rcases not_fits_of_local_step hLong
              (hLocal a (by simp)) hStep with
            ⟨hStill, hMulticasts⟩
          rw [← hMulticasts]
          exact ih hStill
            (fun b hb => hLocal b (by simp [hb])) hRest

/-
  A client keeps sending exactly when nothing is outstanding
  or everything outstanding fits into one message.
-/
theorem keepsSending_iff
    {r : Replica D}
    (hBroadcasting : r.Broadcasting) :
    r.KeepsSending s ↔
      r.client.outstandingCollection = [] ∨
        s.Fits r.client.outstandingCollection := by
  rcases hBroadcasting with ⟨hRunning, hNormal⟩
  constructor
  · rintro ⟨_, hFree⟩
    by_contra hStuck
    rw [not_or] at hStuck
    refine hFree ⟨hStuck.1, ?_⟩
    intro actions r' hLocal hRun
    exact ⟨[], by
      simpa using multicasts_of_local_run hStuck.2 hLocal hRun,
      by simp⟩
  · rintro (hEmpty | hFits)
    · refine ⟨?_, fun hTrapped => hTrapped.1 hEmpty⟩
      intro accepted r' hStep
      rcases step_tick_iff.mp hStep with ⟨_, _, rfl⟩
      rw [hEmpty]
      cases accepted with
      | true =>
          exact ⟨_, act_tick_accepted hNormal,
            List.nil_sublist _⟩
      | false =>
          exact ⟨[], by simpa using r.act_tick_refused.2,
            List.nil_sublist _⟩
    · have hTick := act_tick_accepted hNormal
      have hStep :
          (sendingSystem s r.client).step r (.tick true) =
            some (r.act (.tick true)) :=
        step_tick_iff.mpr ⟨by simp [hFits], hRunning, rfl⟩
      refine ⟨?_, ?_⟩
      · intro accepted r' hNext
        rcases step_tick_iff.mp hNext with ⟨hAnswer, _, rfl⟩
        have hAccepted : accepted = true := by
          simpa [hFits] using hAnswer
        subst hAccepted
        exact ⟨_, hTick, by simp⟩
      · rintro ⟨hNonempty, hNever⟩
        rcases hNever [.tick true] (r.act (.tick true)) (by simp)
            (by simp [TransitionSystem.runFrom, hStep]) with
          ⟨sent, hSent, hNone⟩
        have hSame : [r.client.outstandingCollection] = sent :=
          List.append_cancel_left (hTick.symm.trans hSent)
        rcases List.exists_mem_of_ne_nil _ hNonempty with
          ⟨tx, hTx⟩
        exact hNone r.client.outstandingCollection
          (by simp [← hSame]) tx hTx hTx

end Replica

/-
  In every state that a run reaches, the client keeps
  sending, if and only if in every such state nothing is
  outstanding or everything outstanding fits into one
  message of 140000 bytes.
-/
theorem keepsSending_iff_fits
    (s : Serialisation)
    (id : Int32)
    (fileName : String)
    (naiveSyncBalance : Bool)
    (actions : List ReplicaAction) :
    (sendingSystem (D := D) s
        (Client.new id fileName naiveSyncBalance)).EveryState
        (fun r => r.Broadcasting → r.KeepsSending s) actions ↔
      (sendingSystem (D := D) s
        (Client.new id fileName naiveSyncBalance)).EveryState
        (fun r => r.Broadcasting →
          r.client.outstandingCollection = [] ∨
            s.Fits r.client.outstandingCollection)
        actions := by
  constructor
  · intro hKeeps before r hPrefix hRun hBroadcasting
    exact (Replica.keepsSending_iff hBroadcasting).mp
      (hKeeps before r hPrefix hRun hBroadcasting)
  · intro hFits before r hPrefix hRun hBroadcasting
    exact (Replica.keepsSending_iff hBroadcasting).mpr
      (hFits before r hPrefix hRun hBroadcasting)

/- After `n` deposits without a delivery. -/
theorem deposits_run
    (s : Serialisation)
    (n : Nat) :
    ∃ r : Replica Decimal,
      (sendingSystem s (Client.new 3 "" false)).run
          (List.replicate n (.command "deposit 1")) = some r ∧
        r.Broadcasting ∧
          r.client.outstandingCollection.length = n := by
  induction n with
  | zero => exact ⟨_, rfl, ⟨rfl, rfl⟩, rfl⟩
  | succ n ih =>
      rcases ih with ⟨r, hRun, ⟨hRunning, hNormal⟩, hLength⟩
      have hCall :
          (Client.processCommand "deposit 1").run r.client =
            ⟨r.client.afterEnqueue "deposit 1",
              [.enqueued (r.client.nextTransaction "deposit 1")],
              .ok ()⟩ := by
        rw [Client.processCommand_eq_selected]
        exact Client.run_enqueue "deposit 1" r.client
      refine ⟨r.act (.command "deposit 1"), ?_, ⟨?_, ?_⟩, ?_⟩
      · rw [List.replicate_succ',
          TransitionSystem.run_concat_iff]
        refine ⟨r, hRun, ?_⟩
        exact (TransitionSystem.step_restrict_iff _ _ _ _ _).mpr
          ⟨trivial, (r.step_eq_some_iff _ _).mpr
            ⟨hRunning, rfl⟩⟩
      · simp [Replica.act, Replica.call, hCall, hasExited]
        simpa [hasExited] using hRunning
      · simp [Replica.act, Replica.call, hCall,
          Client.afterEnqueue, hNormal]
      · simp [Replica.act, Replica.call, hCall,
          Client.afterEnqueue, hLength]

/-
  140000 deposits in a row cannot be sent, however few bytes
  each of them takes.
-/
theorem too_many_deposits
    (s : Serialisation) :
    ∃ r : Replica Decimal,
      (sendingSystem s (Client.new 3 "" false)).run
          (List.replicate 140000 (.command "deposit 1")) =
            some r ∧
        r.Broadcasting ∧ ¬ r.KeepsSending s := by
  rcases deposits_run s 140000 with
    ⟨r, hRun, hBroadcasting, hLength⟩
  refine ⟨r, hRun, hBroadcasting, ?_⟩
  have hSize :=
    s.length_le_size r.client.outstandingCollection
  rw [Replica.keepsSending_iff hBroadcasting]
  rintro (hEmpty | hFits)
  · simp [hEmpty] at hLength
  · unfold Serialisation.Fits headerBytes maxGroupName
      maxMessageLength at hFits
    omega

/- In particular when they are written to an object stream. -/
theorem queue_never_sent_again :
    ∃ r : Replica Decimal,
      (sendingSystem objectStream (Client.new 3 "" false)).run
          (List.replicate 140000 (.command "deposit 1")) =
            some r ∧
        r.Broadcasting ∧ ¬ r.KeepsSending objectStream :=
  too_many_deposits objectStream

end ReplicatedAccount
