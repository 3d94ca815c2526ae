import ReplicatedAccount.Spread.Protocol
import ReplicatedAccount.Foundations.Transition
import Mathlib.Data.Fin.Basic

/-
  The daemons of a membership, and the network between them.

  A packet can arrive at any daemon that it was sent to, at
  any time, any number of times or never, and so can a token.
  What is assumed of the network and of the numbers stands at
  `RingState.Arrives` and `RingState.step`.

  Key definitions include:
    * `RingState`
    * `Installation`
    * `ringSystem`

  Key theorems include:
    * `RingState.step_cases`
-/

------------------------------------------------------------
-- The Ring
------------------------------------------------------------

namespace ReplicatedAccount

namespace Protocol

open Foundations

variable {n : Nat}
variable {Body : Type}

/- A copy of a token, with the tokens its sender has handled. -/
structure Envelope (n : Nat) where
  source : Fin n
  round : Nat
  token : Token n
deriving DecidableEq, Repr

structure RingState (n : Nat) (Body : Type) where
  daemons : Fin n → ProtocolState n Body
  exited : Fin n → Bool
  -- how many tokens each daemon has handled
  rounds : Fin n → Nat
  -- all packets that were ever sent, in this order
  sent : List (Packet n Body)
  -- the packets in the network, each as often as it was sent
  net : List (Transmission n Body)
  tokens : List (Envelope n)
  -- what the sessions of each daemon have given to it
  submitted : Fin n → List (DownLink Body)

inductive RingAction (n : Nat) (Body : Type) where
  | submit (i : Fin n) (link : DownLink Body)
  -- a datagram with packets, named by their places in `net`
  | bcast (i : Fin n) (places : List Nat)
  -- the copy at a place of `tokens`
  | token (i : Fin n) (place : Nat)
  | hurry
deriving DecidableEq, Repr

/- The packet can arrive; a daemon ignores its own packets. -/
def Transmission.Reaches
    (segment : Fin n → Nat)
    (i : Fin n)
    (t : Transmission n Body) :
    Bool :=
  t.transmiterId ≠ i &&
    match t.target with
    | .all => true
    | .segment index => segment i = index
    | .proc id => id = i

namespace RingState

variable [NeZero n]

/- The daemon ends, or goes on and sends its token. -/
def finish
    (σ : RingState n Body)
    (i : Fin n)
    (round : Nat) :
    Option (Handled n Body) → RingState n Body
| none => { σ with exited := Function.update σ.exited i true }
| some handled =>
    { σ with
      daemons := Function.update σ.daemons i handled.state
      rounds := Function.update σ.rounds i round
      sent := σ.sent ++ handled.packets
      net :=
        σ.net ++ handled.answers ++
          handled.packets.map fun p => ⟨i, p, .all⟩
      tokens :=
        σ.tokens ++
          (handled.token.map fun token =>
            ⟨i, round, token⟩).toList }

/- The tokens a daemon has handled, with one more. -/
def roundAfter
    (σ : RingState n Body)
    (me : Proc n)
    (token : Token n) :
    Nat :=
  match arrival me (σ.daemons me.id).lastToken token with
  | .accept => σ.rounds me.id + 1
  | _ => σ.rounds me.id

/-
  The copy can still be in the network, for this daemon.  It
  is assumed to be gone when its sender has handled fifteen
  more tokens: its number is one of sixteen, and would then be
  taken for a new one.
-/
def Arrives
    (σ : RingState n Body)
    (i : Fin n)
    (copy : Envelope n) : Prop :=
  copy.source + 1 = i ∧ σ.rounds copy.source < copy.round + 15

instance
    (σ : RingState n Body)
    (i : Fin n)
    (copy : Envelope n) :
    Decidable (σ.Arrives i copy) :=
  inferInstanceAs (Decidable (_ ∧ _))

/- The packets at some places, of those sent to a daemon. -/
def datagram
    (segment : Fin n → Nat)
    (σ : RingState n Body)
    (i : Fin n)
    (places : List Nat) :
    List (Packet n Body) :=
  places.filterMap fun place =>
    (σ.net[place]?).bind fun t =>
      if t.Reaches segment i then some t.packet else none

/-
  The numbers of packets are unbounded here, while they are
  32 bits wide in the daemons: the ring is that of a membership
  with fewer than 2147473648 packets.  The flow control of a
  token has 16 bits.  What a daemon sends is sent, since its
  `DL_send` does not fail; it may be lost in the network.
-/
def step
    (segment : Fin n → Nat)
    (σ : RingState n Body) :
    RingAction n Body → Option (RingState n Body)
| .submit i link =>
    if σ.exited i then
      none
    else
      some { σ with
        daemons :=
          Function.update σ.daemons i
            (protNewMessage (σ.daemons i) link)
        submitted :=
          Function.update σ.submitted i
            (σ.submitted i ++ [link]) }
| .bcast i places =>
    if σ.exited i then
      none
    else
      some
        (σ.finish i (σ.rounds i)
          ((protHandleBcast (σ.daemons i)
              (σ.datagram segment i places)).map
            fun d => ⟨d, [], [], none⟩))
| .token i place =>
    match σ.tokens[place]? with
    | none => none
    | some copy =>
        let me : Proc n := ⟨i, segment i⟩
        if σ.exited i ∨ ¬ σ.Arrives i copy then
          none
        else
          some
            (σ.finish i (σ.roundAfter me copy.token)
              (protHandleToken me (σ.daemons i) copy.token))
| .hurry =>
    if σ.exited 0 then
      none
    else
      some
        (σ.finish 0 (σ.rounds 0)
          (some
            (protTokenHurry ⟨0, segment 0⟩ (σ.daemons 0))))

end RingState

end Protocol

end ReplicatedAccount

------------------------------------------------------------
-- The Start of a Membership
------------------------------------------------------------

namespace ReplicatedAccount

namespace Protocol

open Foundations

variable {n : Nat}
variable {Body : Type}

/-
  What the daemons have agreed on when they have installed a
  membership: the daemon that handles the first token, and the
  tokens they have handled, up to sixteen.
-/
structure Installation (n : Nat) [NeZero n] where
  first : Fin n
  round : Nat
  token : Token n
  last : Fin n → Token n
  lastNumRetrans : Fin n → Nat
  lastNumSent : Fin n → Nat
  -- copies of the tokens before the first one
  stale : List (Envelope n)
  token_seq : token.seq = 0
  -- `Last_seq`, which is larger than any number in use
  token_aru : 3333 ≤ token.aru
  token_arq :
    token.arq =
      (if first - 1 < first then round + 1 else round) % 0x10
  last_seq : ∀ i, (last i).seq = 0
  last_aru : ∀ i, (last i).aru = 0
  last_arq :
    ∀ i,
      (last i).arq =
        (if i < first then round + 1 else round) % 0x10
  stale_round :
    ∀ copy ∈ stale,
      copy.round <
        if copy.source < first then round + 1 else round
  stale_arq :
    ∀ copy ∈ stale, copy.token.arq = copy.round % 0x10

namespace Installation

variable [NeZero n]

/- The daemons before the first one are a token ahead. -/
def rounds
    (I : Installation n)
    (i : Fin n) :
    Nat :=
  if i < I.first then I.round + 1 else I.round

/-
  The state `Discard_packets` leaves when the membership is
  delivered.
-/
def daemon
    (I : Installation n)
    (i : Fin n) :
    ProtocolState n Body where
  highestSeq := 0
  myAru := 0
  aru := 0
  setAru := none
  delivery :=
    { packets := fun _ => none
      upQueue := fun _ => none
      lastDiscarded := 0
      lastDelivered := 0
      delivered := [] }
  downQueue := ⟨[], 0⟩
  lastToken := I.last i
  tokenCounter := 0
  lastNumRetrans := I.lastNumRetrans i
  lastNumSent := I.lastNumSent i

def start (I : Installation n) : RingState n Body where
  daemons := I.daemon
  exited := fun _ => false
  rounds := I.rounds
  sent := []
  net := []
  tokens :=
    ⟨I.first - 1, I.rounds (I.first - 1), I.token⟩ :: I.stale
  submitted := fun _ => []

/- The first daemon is the one that has set `Last_seq`. -/
def Clean (I : Installation n) : Prop :=
  I.token.aruLastId = some I.first

instance
    (I : Installation n) :
    Decidable I.Clean :=
  inferInstanceAs (Decidable (_ = _))

end Installation

/- The daemons from the installation of a membership on. -/
def ringSystem
    [NeZero n]
    (Body : Type)
    (segment : Fin n → Nat)
    (I : Installation n) :
    TransitionSystem (RingState n Body)
      (RingAction n Body) where
  start := I.start
  step := RingState.step segment

end Protocol

end ReplicatedAccount

------------------------------------------------------------
-- What a Step Does
------------------------------------------------------------

namespace ReplicatedAccount

namespace Protocol

variable {n : Nat}
variable {Body : Type}

/- A token that says the same, but for retransmissions. -/
structure Token.Resembles (token token' : Token n) : Prop where
  arq : token'.arq = token.arq
  seq : token'.seq = token.seq
  aru : token'.aru = token.aru
  aruLastId : token'.aruLastId = token.aruLastId

namespace RingState

variable [NeZero n]

omit [NeZero n] in
theorem exists_of_mem_datagram
    {segment : Fin n → Nat}
    {σ : RingState n Body}
    {i : Fin n}
    {places : List Nat}
    {p : Packet n Body}
    (hMember : p ∈ σ.datagram segment i places) :
    ∃ t ∈ σ.net, t.packet = p := by
  rcases List.mem_filterMap.mp hMember with
    ⟨place, _, hPlace⟩
  rcases Option.bind_eq_some_iff.mp hPlace with
    ⟨t, hSent, hReaches⟩
  split_ifs at hReaches
  exact ⟨t, List.mem_of_getElem? hSent,
    Option.some.inj hReaches⟩

/- A copy that a daemon takes as its next token. -/
structure Accepts
    (segment : Fin n → Nat)
    (σ : RingState n Body)
    (i : Fin n)
    (place : Nat)
    (copy : Envelope n) : Prop where
  alive : σ.exited i = false
  place : σ.tokens[place]? = some copy
  arrives : σ.Arrives i copy
  accepted :
    arrival ⟨i, segment i⟩ (σ.daemons i).lastToken copy.token =
      .accept

/- The ring after a daemon has accepted a token. -/
def pass
    (σ : RingState n Body)
    (i : Fin n)
    (handled : Handled n Body) :
    RingState n Body :=
  { σ with
    daemons := Function.update σ.daemons i handled.state
    rounds := Function.update σ.rounds i (σ.rounds i + 1)
    sent := σ.sent ++ handled.packets
    net :=
      σ.net ++ handled.answers ++
        handled.packets.map fun p => ⟨i, p, .all⟩
    tokens :=
      σ.tokens ++
        (handled.token.map fun token =>
          ⟨i, σ.rounds i + 1, token⟩).toList }

/- The ring after a daemon has sent its last token again. -/
def resend
    (σ : RingState n Body)
    (i : Fin n)
    (last : Token n) :
    RingState n Body :=
  { σ with
    daemons :=
      Function.update σ.daemons i
        { σ.daemons i with lastToken := last }
    tokens := σ.tokens ++ [⟨i, σ.rounds i, last⟩] }

/- Everything that a step can do. -/
inductive Next
    (segment : Fin n → Nat)
    (σ : RingState n Body) :
    RingAction n Body → RingState n Body → Prop
| submitted
    (i : Fin n)
    (link : DownLink Body)
    (hAlive : σ.exited i = false) :
    Next segment σ (.submit i link)
      { σ with
        daemons :=
          Function.update σ.daemons i
            (protNewMessage (σ.daemons i) link)
        submitted :=
          Function.update σ.submitted i
            (σ.submitted i ++ [link]) }
| received
    (i : Fin n)
    (places : List Nat)
    (d : ProtocolState n Body)
    (hAlive : σ.exited i = false)
    (hResult :
      protHandleBcast (σ.daemons i)
          (σ.datagram segment i places) =
        some d) :
    Next segment σ (.bcast i places)
      { σ with daemons := Function.update σ.daemons i d }
| swallowed
    (i : Fin n)
    (place : Nat) :
    Next segment σ (.token i place) σ
| resent
    (a : RingAction n Body)
    (i : Fin n)
    (last : Token n)
    (hAlive : σ.exited i = false)
    (hSame : (σ.daemons i).lastToken.Resembles last)
    (hNone : last.rtr = []) :
    Next segment σ a (σ.resend i last)
| accepted
    (i : Fin n)
    (place : Nat)
    (copy : Envelope n)
    (handled : Handled n Body)
    (hAccepts : σ.Accepts segment i place copy)
    (hResult :
      acceptToken ⟨i, segment i⟩ (σ.daemons i) copy.token =
        some handled) :
    Next segment σ (.token i place) (σ.pass i handled)
| exitedBcast
    (i : Fin n)
    (places : List Nat)
    (hAlive : σ.exited i = false)
    (hResult :
      protHandleBcast (σ.daemons i)
          (σ.datagram segment i places) =
        none) :
    Next segment σ (.bcast i places)
      { σ with exited := Function.update σ.exited i true }
| exitedToken
    (i : Fin n)
    (place : Nat)
    (copy : Envelope n)
    (hAccepts : σ.Accepts segment i place copy)
    (hResult :
      acceptToken ⟨i, segment i⟩ (σ.daemons i) copy.token =
        none) :
    Next segment σ (.token i place)
      { σ with exited := Function.update σ.exited i true }

omit [NeZero n] in
theorem finish_same
    (σ : RingState n Body)
    (i : Fin n)
    (d : ProtocolState n Body) :
    σ.finish i (σ.rounds i) (some ⟨d, [], [], none⟩) =
      { σ with daemons := Function.update σ.daemons i d } := by
  simp [finish]

omit [NeZero n] in
theorem finish_resend
    (σ : RingState n Body)
    (i : Fin n)
    (last : Token n) :
    σ.finish i (σ.rounds i)
        (some
          ⟨{ σ.daemons i with lastToken := last }, [], [],
            some last⟩) =
      σ.resend i last := by
  simp [finish, resend]

theorem finish_token
    (segment : Fin n → Nat)
    (σ : RingState n Body)
    (i : Fin n)
    (place : Nat)
    (copy : Envelope n)
    (hAlive : σ.exited i = false)
    (hPlace : σ.tokens[place]? = some copy)
    (hArrives : σ.Arrives i copy) :
    Next segment σ (.token i place)
      (σ.finish i (σ.roundAfter ⟨i, segment i⟩ copy.token)
        (protHandleToken ⟨i, segment i⟩ (σ.daemons i)
          copy.token)) := by
  unfold roundAfter protHandleToken
  cases hArrival :
      arrival ⟨i, segment i⟩ (σ.daemons i).lastToken
        copy.token with
  | swallow =>
      simp only [finish_same, Function.update_eq_self]
      exact .swallowed i place
  | resend =>
      simp only [protTokenHurry]
      rw [finish_resend]
      exact .resent _ i _ hAlive ⟨rfl, rfl, rfl, rfl⟩ rfl
  | accept =>
      have hAccepts : σ.Accepts segment i place copy :=
        ⟨hAlive, hPlace, hArrives, hArrival⟩
      cases hResult :
          acceptToken ⟨i, segment i⟩ (σ.daemons i)
            copy.token with
      | none => exact .exitedToken i place copy hAccepts hResult
      | some handled =>
          exact .accepted i place copy handled hAccepts hResult

theorem step_cases
    {segment : Fin n → Nat}
    {σ σ' : RingState n Body}
    {a : RingAction n Body}
    (hStep : σ.step segment a = some σ') :
    Next segment σ a σ' := by
  cases a with
  | submit i link =>
      rw [step] at hStep
      split at hStep
      · cases hStep
      · rename_i hAlive
        cases hStep
        exact .submitted i link (Bool.eq_false_of_not_eq_true hAlive)
  | bcast i places =>
      rw [step] at hStep
      split at hStep
      · cases hStep
      · rename_i hAlive
        have hAlive := Bool.eq_false_of_not_eq_true hAlive
        cases hStep
        cases hResult :
            protHandleBcast (σ.daemons i)
              (σ.datagram segment i places) with
        | none =>
            exact .exitedBcast i places hAlive hResult
        | some d =>
            rw [Option.map_some, finish_same]
            exact .received i places d hAlive hResult
  | token i place =>
      rw [step] at hStep
      split at hStep
      · cases hStep
      · rename_i copy hPlace
        split_ifs at hStep with hStops
        rw [not_or, not_not, Bool.not_eq_true] at hStops
        cases hStep
        exact finish_token segment σ i place copy hStops.1
          hPlace hStops.2
  | hurry =>
      rw [step] at hStep
      split at hStep
      · cases hStep
      · rename_i hAlive
        cases hStep
        simp only [protTokenHurry]
        rw [finish_resend]
        exact .resent _ 0 _
          (Bool.eq_false_of_not_eq_true hAlive)
          ⟨rfl, rfl, rfl, rfl⟩ rfl

end RingState

end Protocol

end ReplicatedAccount
