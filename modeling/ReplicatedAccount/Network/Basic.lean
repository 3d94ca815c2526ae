import ReplicatedAccount.Client.Chronicle
import Mathlib.Logic.Function.Basic

/-
  Any number of clients that exchange their outstanding
  collections.

  A multicast message stays available: it can be delivered
  to any replica, the sender included, at any time and any
  number of times.  The FIFO system restricts deliveries to
  the next message of the sender that the receiver has not
  received yet.

  Key definitions include:
    * `Network`
    * `Network.step`
    * `networkSystem`
    * `Network.Fifo`
    * `fifoSystem`

  Key theorems include:
    * `Network.step_cases`
-/

------------------------------------------------------------
-- Networks
------------------------------------------------------------

namespace ReplicatedAccount

open Foundations

/- The replicas, and what each of them has received. -/
structure Network (ι D : Type) where
  replica : ι → Replica D
  -- the received batches with their senders, oldest first
  delivered : ι → List (ι × List Transaction)

/- A message is named by its sender and its number. -/
inductive NetworkAction (ι : Type) where
  | command (client : ι) (input : String)
  | tick (client : ι) (accepted : Bool)
  | deliver (receiver sender : ι) (index : Nat)
deriving DecidableEq, Repr

namespace Network

variable {ι D : Type} [DecidableEq ι]

/- Everything a client has enqueued, oldest first. -/
def issued
    (σ : Network ι D)
    (client : ι) :
    List Transaction :=
  enqueued (σ.replica client).trace

/- Everything a client has multicast, oldest first. -/
def sent
    (σ : Network ι D)
    (client : ι) :
    List (List Transaction) :=
  multicasts (σ.replica client).trace

/- The batches of one sender that a replica has received. -/
def received
    (σ : Network ι D)
    (receiver sender : ι) :
    List (List Transaction) :=
  ((σ.delivered receiver).filter
    fun message => message.1 = sender).map (·.2)

/- Note that a replica received a batch. -/
def record
    (σ : Network ι D)
    (receiver sender : ι)
    (batch : List Transaction) :
    Network ι D where
  replica := σ.replica
  delivered :=
    Function.update σ.delivered receiver
      (σ.delivered receiver ++ [(sender, batch)])

variable [DoubleArithmetic D]

/- One client takes an action of its own. -/
def advance
    (σ : Network ι D)
    (client : ι)
    (a : ReplicaAction) :
    Option (Network ι D) :=
  match (σ.replica client).step a with
  | none => none
  | some r =>
      some { σ with
        replica := Function.update σ.replica client r }

def step
    (σ : Network ι D) :
    NetworkAction ι → Option (Network ι D)
| .command client input => σ.advance client (.command input)
| .tick client accepted => σ.advance client (.tick accepted)
| .deliver receiver sender index =>
    match (σ.sent sender)[index]? with
    | none => none
    | some batch =>
        (σ.record receiver sender batch).advance receiver
          (.deliver batch)

end Network

/- Two clients with different ids. -/
def twoClients (i : Bool) : Settings where
  id := if i then 3 else 7
  fileName := ""
  naiveSyncBalance := false

theorem twoClients_injective :
    Function.Injective fun i => (twoClients i).id := by
  intro i j hSame
  revert i j
  decide

/- Clients that have just been constructed. -/
def networkSystem
    {ι : Type} [DecidableEq ι]
    (D : Type) [DoubleArithmetic D]
    (settings : ι → Settings) :
    TransitionSystem (Network ι D) (NetworkAction ι) where
  start :=
    { replica := fun i =>
        ⟨Client.new (settings i).id (settings i).fileName
          (settings i).naiveSyncBalance, []⟩
      delivered := fun _ => [] }
  step := Network.step

end ReplicatedAccount

------------------------------------------------------------
-- Ordered Delivery
------------------------------------------------------------

namespace ReplicatedAccount

open Foundations

variable {ι D : Type} [DecidableEq ι]

namespace Network

/- A delivery hands over the next message of its sender. -/
def Fifo
    (σ : Network ι D) :
    NetworkAction ι → Prop
| .deliver receiver sender index =>
    index = (σ.received receiver sender).length
| _ => True

instance
    (σ : Network ι D)
    (a : NetworkAction ι) :
    Decidable (σ.Fifo a) :=
  match a with
  | .deliver receiver sender index =>
      inferInstanceAs
        (Decidable
          (index = (σ.received receiver sender).length))
  | .command _ _ => inferInstanceAs (Decidable True)
  | .tick _ _ => inferInstanceAs (Decidable True)

end Network

/- The network over a service with reliable FIFO delivery. -/
def fifoSystem
    (D : Type) [DoubleArithmetic D]
    (settings : ι → Settings) :
    TransitionSystem (Network ι D) (NetworkAction ι) :=
  (networkSystem D settings).restrict Network.Fifo

end ReplicatedAccount

------------------------------------------------------------
-- Step Cases
------------------------------------------------------------

namespace ReplicatedAccount

open Foundations

variable {ι D : Type} [DecidableEq ι] [DoubleArithmetic D]

namespace Network

/-
  What a step does: one replica acts on its own, or one
  replica receives a batch that its sender has sent.
-/
inductive StepCases
    (σ : Network ι D)
    (a : NetworkAction ι)
    (σ' : Network ι D) : Prop
  | acts
      (client : ι)
      (b : ReplicaAction)
      (hAction :
        ∀ receiver sender index,
          a ≠ .deliver receiver sender index)
      (hLocal : ∀ batch, b ≠ .deliver batch)
      (hReplica :
        σ'.replica =
          Function.update σ.replica client
            ((σ.replica client).act b))
      (hDelivered : σ'.delivered = σ.delivered)
  | receives
      (receiver sender : ι)
      (index : Nat)
      (batch : List Transaction)
      (hAction : a = .deliver receiver sender index)
      (hSent : (σ.sent sender)[index]? = some batch)
      (hReplica :
        σ'.replica =
          Function.update σ.replica receiver
            ((σ.replica receiver).act (.deliver batch)))
      (hDelivered :
        σ'.delivered =
          Function.update σ.delivered receiver
            (σ.delivered receiver ++ [(sender, batch)]))

theorem advance_eq_some
    {σ σ' : Network ι D}
    {client : ι}
    {b : ReplicaAction}
    (hStep : σ.advance client b = some σ') :
    σ'.replica =
        Function.update σ.replica client
          ((σ.replica client).act b) ∧
      σ'.delivered = σ.delivered := by
  unfold advance at hStep
  cases hNext : (σ.replica client).step b with
  | none => simp [hNext] at hStep
  | some r =>
      simp only [hNext, Option.some.injEq] at hStep
      rcases ((σ.replica client).step_eq_some_iff b r).mp hNext
        with ⟨_, rfl⟩
      subst hStep
      exact ⟨rfl, rfl⟩

/- Every step of the network is one of the two kinds. -/
theorem step_cases
    {σ σ' : Network ι D}
    {a : NetworkAction ι}
    (hStep : σ.step a = some σ') :
    StepCases σ a σ' := by
  cases a with
  | command client input =>
      rcases advance_eq_some hStep with ⟨hReplica, hSame⟩
      exact .acts client (.command input) (by simp) (by simp)
        hReplica hSame
  | tick client accepted =>
      rcases advance_eq_some hStep with ⟨hReplica, hSame⟩
      exact .acts client (.tick accepted) (by simp) (by simp)
        hReplica hSame
  | deliver receiver sender index =>
      unfold step at hStep
      cases hSent : (σ.sent sender)[index]? with
      | none => simp [hSent] at hStep
      | some batch =>
          simp only [hSent] at hStep
          rcases advance_eq_some hStep with ⟨hReplica, hSame⟩
          exact .receives receiver sender index batch rfl
            hSent hReplica hSame

/- Every replica stays as it is or takes one action. -/
theorem StepCases.replica_cases
    {σ σ' : Network ι D}
    {a : NetworkAction ι}
    (hCases : StepCases σ a σ')
    (i : ι) :
    σ'.replica i = σ.replica i ∨
      ∃ b,
        σ'.replica i = (σ.replica i).act b ∧
          ∀ batch, b = .deliver batch →
            ∃ sender, batch ∈ σ.sent sender := by
  cases hCases with
  | acts client b hAction hLocal hReplica hDelivered =>
      by_cases hSame : i = client
      · subst hSame
        refine Or.inr ⟨b, by simp [hReplica], ?_⟩
        exact fun batch hDeliver =>
          absurd hDeliver (hLocal batch)
      · exact Or.inl (by simp [hReplica, hSame])
  | receives receiver sender index batch hAction hSent
      hReplica hDelivered =>
      by_cases hSame : i = receiver
      · subst hSame
        refine Or.inr ⟨.deliver batch, by simp [hReplica], ?_⟩
        rintro _ ⟨⟩
        exact ⟨sender, List.mem_of_getElem? hSent⟩
      · exact Or.inl (by simp [hReplica, hSame])

end Network

end ReplicatedAccount
