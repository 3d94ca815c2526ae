import ReplicatedAccount.Client.ExtendedArithmetic
import ReplicatedAccount.Network.Reachable

/-
  Whether the balances of all replicas stay finite numbers.

  The value of a command passes unexamined through the queue,
  and `Double.parseDouble` reads infinities and NaN.  A value
  that is not finite makes the balance of every replica that
  executes it infinite or NaN for ever.

  Key definitions include:
    * `Network.DeliversFinite`

  Key theorems include:
    * `Network.Sound.finite_step_iff`
    * `balances_live_iff_deliversFinite`
    * `deposit_NaN_spoils_account`
-/

------------------------------------------------------------
-- Finite Steps
------------------------------------------------------------

namespace ReplicatedAccount

open Foundations

variable {D : Type} [DoubleArithmetic D]

/- A delivery replays the reached part of its batch. -/
theorem Replica.balance_act_deliver
    (r : Replica D)
    (batch : List Transaction)
    (hIds : r.client.IdsPresent)
    (hBatch : ∀ tx ∈ batch, tx.uniqueId ≠ none) :
    (r.act (.deliver batch)).client.balance =
      replay r.client.balance (reached D batch) := by
  rcases Client.regularMessageReceived_outcome batch r.client
      hIds hBatch with
    ⟨events, hCall, _⟩
  simp [act, call, hCall, Client.absorb]

variable {ι : Type} [DecidableEq ι]
variable {parse : String → Option (Extended ℚ)}

namespace Network

/- All balances are finite. -/
def AllFinite
    (σ : Network ι (ExtendedDouble parse)) :
    Prop :=
  ∀ i, (σ.replica i).client.balance.isFinite

/-
  No transaction that a delivery reaches is executed with a
  value that is not finite.
-/
def DeliversFinite
    (σ : Network ι (ExtendedDouble parse))
    (a : NetworkAction ι) :
    Prop :=
  ∀ receiver sender index batch,
    a = .deliver receiver sender index →
      (σ.sent sender)[index]? = some batch →
        ∀ tx ∈ reached (ExtendedDouble parse) batch,
          tx.FiniteValue parse

variable {settings : ι → Settings}
variable {σ σ' : Network ι (ExtendedDouble parse)}
variable {a : NetworkAction ι}

/- A replica that receives nothing keeps its balance. -/
theorem allFinite_of_acts
    {client : ι}
    {b : ReplicaAction}
    (hLocal : ∀ batch, b ≠ .deliver batch)
    (hReplica :
      σ'.replica =
        Function.update σ.replica client
          ((σ.replica client).act b)) :
    σ'.AllFinite ↔ σ.AllFinite := by
  apply forall_congr'
  intro i
  rw [hReplica]
  by_cases hSame : i = client
  · subst hSame
    rw [Function.update_self,
      ((σ.replica i).act_localEffect b hLocal).balance]
  · rw [Function.update_of_ne hSame]

/-
  A step keeps the balances finite if and only if it
  delivers finite values.
-/
theorem Sound.finite_step_iff
    (hSound : σ.Sound settings)
    (hCases : StepCases σ a σ') :
    σ'.AllFinite ↔ σ.AllFinite ∧ σ.DeliversFinite a := by
  cases hCases with
  | acts client b hAction hLocal hReplica hDelivered =>
      rw [allFinite_of_acts hLocal hReplica]
      refine (and_iff_left ?_).symm
      intro receiver sender index batch hDeliver
      exact absurd hDeliver (hAction receiver sender index)
  | receives receiver sender index batch hAction hSent hReplica
      hDelivered =>
      have hBalance :=
        (σ.replica receiver).balance_act_deliver batch
          (hSound.books receiver).idsPresent
          (hSound.sent_ids (List.mem_of_getElem? hSent))
      have hDelivers :
          σ.DeliversFinite a ↔
            ∀ tx ∈ reached (ExtendedDouble parse) batch,
              tx.FiniteValue parse := by
        constructor
        · exact fun hFinite =>
            hFinite receiver sender index batch hAction hSent
        · rintro hFinite r s n received hDeliver hGet
          rw [hAction] at hDeliver
          cases hDeliver
          cases Option.some.inj (hGet.symm.trans hSent)
          exact hFinite
      have hReceiver :
          (σ'.replica receiver).client.balance.isFinite ↔
            (σ.replica receiver).client.balance.isFinite ∧
              σ.DeliversFinite a := by
        rw [hReplica, Function.update_self, hBalance,
          isFinite_replay_iff, hDelivers]
      have hOthers :
          ∀ i, i ≠ receiver →
            σ'.replica i = σ.replica i := by
        intro i hOther
        rw [hReplica, Function.update_of_ne hOther]
      constructor
      · intro hFinite
        refine ⟨?_, (hReceiver.mp (hFinite receiver)).2⟩
        intro i
        by_cases hSame : i = receiver
        · rw [hSame]
          exact (hReceiver.mp (hFinite receiver)).1
        · rw [← hOthers i hSame]
          exact hFinite i
      · rintro ⟨hFinite, hValues⟩ i
        by_cases hSame : i = receiver
        · rw [hSame]
          exact hReceiver.mpr ⟨hFinite receiver, hValues⟩
        · rw [hOthers i hSame]
          exact hFinite i

end Network

end ReplicatedAccount

------------------------------------------------------------
-- Runs of the Network
------------------------------------------------------------

namespace ReplicatedAccount

open Foundations

variable {ι : Type} [DecidableEq ι]

/-
  In every state along a run, the balance of every replica is
  finite and can still be changed, exactly when no delivery
  of the run reaches a deposit or an addInterest whose value
  is an infinity or NaN.
-/
theorem balances_live_iff_deliversFinite
    (settings : ι → Settings)
    (actions : List (NetworkAction ι))
    (σ : Network ι JavaDouble)
    (hRun :
      (networkSystem JavaDouble settings).run actions =
        some σ) :
    (networkSystem JavaDouble settings).EveryState
        (fun σ => ∀ i,
          (σ.replica i).client.balance.Live) actions ↔
      (networkSystem JavaDouble settings).EveryStep
        Network.DeliversFinite actions := by
  have hAny :
      (networkSystem JavaDouble settings).EveryStep
        (fun _ _ => True) actions :=
    fun _ _ _ _ _ _ => trivial
  apply (networkSystem JavaDouble settings).everyState_iff_everyStep
    (I := Network.AllFinite) ?_ ?_ ?_ ?_ hRun hAny
  · exact fun _ => rfl
  · intro bs s a s' hBefore hFinite _ hDelivers hStep
    exact ((sound_of_run hBefore).finite_step_iff
      (Network.step_cases hStep)).mpr ⟨hFinite, hDelivers⟩
  · exact fun s hFinite i =>
      (ExtendedDouble.live_iff _).mpr (hFinite i)
  · intro bs s a s' hBefore hStep hLive
    exact (((sound_of_run hBefore).finite_step_iff
      (Network.step_cases hStep)).mp fun i => (hLive i).1).2

/- One deposit with interest reaches both replicas. -/
theorem balances_live_iff_deliversFinite_twoClients :
    ∃ σ : Network Bool JavaDouble,
      (networkSystem JavaDouble twoClients).run
          [.command true "deposit 1e2",
            .command true "addInterest 0x1p3",
            .tick true true, .deliver true true 0,
            .deliver false true 0] = some σ ∧
        ((networkSystem JavaDouble twoClients).EveryState
            (fun σ => ∀ i,
              (σ.replica i).client.balance.Live)
            [.command true "deposit 1e2",
              .command true "addInterest 0x1p3",
              .tick true true, .deliver true true 0,
              .deliver false true 0] ↔
          (networkSystem JavaDouble twoClients).EveryStep
            Network.DeliversFinite
            [.command true "deposit 1e2",
              .command true "addInterest 0x1p3",
              .tick true true, .deliver true true 0,
              .deliver false true 0]) := by
  have hRuns :
      ((networkSystem JavaDouble twoClients).run
        [.command true "deposit 1e2",
          .command true "addInterest 0x1p3",
          .tick true true, .deliver true true 0,
          .deliver false true 0]).isSome := by
    decide +kernel
  rcases Option.isSome_iff_exists.mp hRuns with ⟨σ, hRun⟩
  exact ⟨σ, hRun,
    balances_live_iff_deliversFinite twoClients _ σ hRun⟩

/-
  The command `deposit NaN` is accepted and executed by both
  replicas, and no deposit or addInterest changes their
  balances from then on.
-/
theorem deposit_NaN_spoils_account :
    ∃ σ : Network Bool JavaDouble,
      (networkSystem JavaDouble twoClients).run
          [.command true "deposit NaN", .tick true true,
            .deliver true true 0, .deliver false true 0] =
            some σ ∧
        ∀ i,
          (σ.replica i).client.balance.isFinite = false ∧
            ∀ operation : Operation JavaDouble,
              operation.apply (σ.replica i).client.balance =
                (σ.replica i).client.balance := by
  have hRuns :
      ((networkSystem JavaDouble twoClients).run
        [.command true "deposit NaN", .tick true true,
          .deliver true true 0, .deliver false true 0]).any
        (fun σ => ∀ i,
          (σ.replica i).client.balance =
            ExtendedDouble.nan) := by
    decide +kernel
  rcases (Option.any_eq_true _ _).mp hRuns with
    ⟨σ, hRun, hNaN⟩
  refine ⟨σ, hRun, ?_⟩
  intro i
  rw [of_decide_eq_true hNaN i]
  exact ⟨rfl, Operation.apply_nan⟩

end ReplicatedAccount
