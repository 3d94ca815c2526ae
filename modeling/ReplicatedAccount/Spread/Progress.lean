import ReplicatedAccount.Spread.Growth
import ReplicatedAccount.Spread.TotalOrder

/-
  The ring of daemons never comes to a standstill.

  The last token is always in the network, or with the leader
  of the ring, who sends it again.  The daemon whose turn it is
  can receive all packets that were sent, and then the token.

  Key definitions include:
    * `RingState.Available`
    * `RingState.Claimed`
    * `Live`

  Key theorems include:
    * `RingState.Circulates.accepts`
    * `live_of_run`
    * `Live.visit`
-/

------------------------------------------------------------
-- The Last Token
------------------------------------------------------------

namespace ReplicatedAccount

namespace Protocol

open Foundations RoundRobin

variable {n : Nat}
variable {Body : Type}

namespace RingState

variable [NeZero n]
variable {segment : Fin n → Nat}
variable {I : Installation n}
variable {σ σ' : RingState n Body}
variable {now : Nat}
variable {a : RingAction n Body}

/- The last token is in the network, or its daemon leads. -/
def Available
    (σ : RingState n Body)
    (now : Nat) : Prop :=
  ∃ last, now = time σ.rounds last + 1 ∧
    ((∃ copy, σ.CurrentCopy last copy) ∨ last.val = 0)

theorem Next.tokens_subset
    (hNext : Next segment σ a σ') :
    σ.tokens ⊆ σ'.tokens := by
  cases hNext with
  | submitted i link hAlive => exact List.Subset.refl _
  | received i places d hAlive hResult =>
      exact List.Subset.refl _
  | swallowed i place => exact List.Subset.refl _
  | resent _ i last hAlive hSame hNone =>
      exact List.subset_append_left _ _
  | accepted i place copy handled hAccepts hResult =>
      exact List.subset_append_left _ _
  | exitedBcast i places hAlive hResult =>
      exact List.Subset.refl _
  | exitedToken i place copy hAccepts hResult =>
      exact List.Subset.refl _

omit [NeZero n] in
theorem Available.quiet
    (hAvailable : σ.Available now)
    (hRounds : σ'.rounds = σ.rounds)
    (hTokens : σ.tokens ⊆ σ'.tokens) :
    σ'.Available now := by
  rcases hAvailable with ⟨last, hTurn, hCopy⟩
  refine ⟨last, hRounds ▸ hTurn, ?_⟩
  rcases hCopy with ⟨copy, hMember, hSource, hRound⟩ | hLeader
  · exact Or.inl
      ⟨copy, hTokens hMember, hSource, hRounds ▸ hRound⟩
  · exact Or.inr hLeader

theorem Available.pass
    (hCirculates : σ.Circulates now)
    {i : Fin n}
    {place : Nat}
    {copy : Envelope n}
    (hAccepts : σ.Accepts segment i place copy)
    {handled : Handled n Body}
    (hResult :
      acceptToken ⟨i, segment i⟩ (σ.daemons i) copy.token =
        some handled) :
    (σ.pass i handled).Available (now + 1) := by
  have hNow := (hCirculates.next_of_accepts hAccepts).2.1
  refine ⟨i, ?_, ?_⟩
  · simp only [RingState.pass, time_update_same]
    omega
  · cases hToken : handled.token with
    | none =>
        exact Or.inr ((held_of_token_none hResult hToken).1)
    | some token =>
        refine Or.inl ⟨⟨i, σ.rounds i + 1, token⟩, ?_, rfl, ?_⟩
        · simp [RingState.pass, hToken]
        · simp [RingState.pass]

/- The daemon whose turn it is accepts the last token. -/
theorem Circulates.accepts
    (segment : Fin n → Nat)
    (hCirculates : σ.Circulates now)
    {last : Fin n}
    (hTurn : now = time σ.rounds last + 1)
    {copy : Envelope n}
    (hCopy : σ.CurrentCopy last copy)
    (hAlive : σ.exited (last + 1) = false) :
    ∃ place, σ.Accepts segment (last + 1) place copy := by
  rcases hCopy with ⟨hMember, rfl, hRound⟩
  rcases List.getElem?_of_mem hMember with ⟨place, hPlace⟩
  have hArrives : σ.Arrives (copy.source + 1) copy :=
    ⟨rfl, by omega⟩
  have hNumber := hCirculates.copy_arq copy hMember
  have hLast := hCirculates.arq (copy.source + 1)
  have hBefore := hCirculates.turn.before (copy.source + 1)
  rw [hRound] at hNumber
  refine ⟨place, hAlive, hPlace, hArrives, ?_⟩
  unfold arrival Proc.isLeader
  have hNext : copy.source + 1 = copy.source + 1 := rfl
  rcases next_cases hNext with
    hBehind | ⟨hFirst, hEnd⟩
  · have hVisits := hCirculates.turn.visits_succ hBehind
    have hAhead :
        σ.rounds copy.source =
          σ.rounds (copy.source + 1) + 1 := by
      by_contra hNot
      have hSame :
          σ.rounds copy.source =
            σ.rounds (copy.source + 1) := by
        omega
      simp only [time, hSame] at hTurn hBefore
      omega
    have hOther : (copy.source + 1).val ≠ 0 := by
      omega
    simp only [hOther, decide_false, Bool.false_eq_true,
      if_false]
    rw [if_neg (by omega), if_pos (by omega)]
  · have hVisits :=
      hCirculates.turn.visits_first hFirst hEnd
    have hSame :
        σ.rounds copy.source =
          σ.rounds (copy.source + 1) := by
      by_contra hNot
      have hAhead :
          σ.rounds (copy.source + 1) =
            σ.rounds copy.source + 1 := by
        omega
      simp only [time, hAhead, hFirst, Nat.succ_mul] at *
      omega
    simp only [hFirst, decide_true, if_true]
    rw [if_pos (by omega)]

end RingState

theorem Installation.available
    [NeZero n]
    (I : Installation n)
    (Body : Type) :
    (I.start : RingState n Body).Available
      (time I.rounds I.first + n) := by
  refine ⟨I.first - 1, ?_, Or.inl ⟨_, List.mem_cons_self, rfl, rfl⟩⟩
  have hNext : I.first - 1 + 1 = I.first :=
    sub_add_cancel _ _
  have hSize := (I.first - 1).isLt
  have hSize' := I.first.isLt
  simp only [time, Installation.start, Installation.rounds,
    lt_irrefl, if_false]
  rcases next_cases hNext with hBehind | ⟨hFirst, hEnd⟩
  · have hLess : I.first - 1 < I.first := by
      rw [Fin.lt_def]
      omega
    rw [if_pos hLess, Nat.succ_mul]
    omega
  · have hMore : ¬ I.first - 1 < I.first := by
      rw [Fin.lt_def]
      omega
    rw [if_neg hMore]
    omega

end Protocol

end ReplicatedAccount

------------------------------------------------------------
-- The Setter of the Token
------------------------------------------------------------

namespace ReplicatedAccount

namespace Protocol

open Foundations RoundRobin

variable {n : Nat}
variable {Body : Type}

/- Somebody will raise the number of the token. -/
def Token.Claimed (token : Token n) : Prop :=
  token.aruLastId ≠ none ∨ token.aru = token.seq

theorem Token.Claimed.resembles
    {token token' : Token n}
    (hClaimed : token.Claimed)
    (hSame : token.Resembles token') :
    token'.Claimed := by
  rw [Token.Claimed, hSame.aruLastId, hSame.aru, hSame.seq]
  exact hClaimed

/- A daemon sets the number, or leaves it to its setter. -/
theorem Visit.aru_cases
    {me : Proc n}
    {d : ProtocolState n Body}
    {token : Token n}
    {answer : Answer n Body}
    {sending : Sending n Body}
    {handled : Handled n Body}
    (visit : Visit me d token answer sending handled) :
    handled.state.lastToken.aru = handled.state.myAru ∧
        handled.state.lastToken.aruLastId = some me.id ∨
      handled.state.lastToken.aru = token.aru ∧
        handled.state.lastToken.aruLastId = token.aruLastId ∧
        token.aruLastId ≠ some me.id ∧
        token.aru ≠ token.seq := by
  rw [visit.lastToken_eq, visit.advanced_eq.2]
  simp only [Sending.next, nextToken, tokenAru]
  split
  · exact Or.inl ⟨rfl, rfl⟩
  · rename_i hRaises
    rw [not_or, not_or] at hRaises
    split
    · exact Or.inl ⟨rfl, rfl⟩
    · exact Or.inr ⟨rfl, rfl, hRaises.2⟩

namespace RingState

variable [NeZero n]
variable {segment : Fin n → Nat}
variable {I : Installation n}
variable {σ σ' : RingState n Body}
variable {now : Nat}

structure Claimed (σ : RingState n Body) : Prop where
  last : ∀ i, (σ.daemons i).lastToken.Claimed
  copies :
    ∀ copy ∈ σ.tokens,
      copy.round = σ.rounds copy.source → copy.token.Claimed

omit [NeZero n] in
theorem Claimed.quiet
    (hClaimed : σ.Claimed)
    (hQuiet : Quiet σ σ') :
    σ'.Claimed := by
  have hLast : ∀ i, (σ'.daemons i).lastToken.Claimed :=
    fun i => (hClaimed.last i).resembles
      (hQuiet.keeps i).lastToken
  refine ⟨hLast, ?_⟩
  intro copy hCopy hRound
  rw [hQuiet.rounds] at hRound
  rcases hQuiet.copies copy hCopy with hOld | ⟨_, hToken, _⟩
  · exact hClaimed.copies copy hOld hRound
  · rw [hToken]
    exact hLast copy.source

theorem Claimed.pass
    (hClaimed : σ.Claimed)
    (hCirculates : σ.Circulates now)
    {i : Fin n}
    {place : Nat}
    {copy : Envelope n}
    (hAccepts : σ.Accepts segment i place copy)
    {answer : Answer n Body}
    {sending : Sending n Body}
    {handled : Handled n Body}
    (visit :
      Visit ⟨i, segment i⟩ (σ.daemons i) copy.token answer
        sending handled) :
    (σ.pass i handled).Claimed := by
  have hCopy :=
    hClaimed.copies copy (List.mem_of_getElem? hAccepts.place)
      (hCirculates.next_of_accepts hAccepts).1
  have hNew : handled.state.lastToken.Claimed := by
    left
    rcases visit.aru_cases with
      ⟨_, hMine⟩ | ⟨_, hSame, _, hNot⟩
    · rw [hMine]
      exact Option.some_ne_none _
    · rw [hSame]
      exact hCopy.resolve_right hNot
  constructor
  · intro p
    simp only [RingState.pass]
    by_cases hMe : p = i
    · subst hMe
      rw [Function.update_self]
      exact hNew
    · rw [Function.update_of_ne hMe]
      exact hClaimed.last p
  · intro c hMember hRound
    rcases mem_tokens_pass visit.token_eq hMember with
      hOld | rfl
    · have hLess := hCirculates.round_le c hOld
      simp only [RingState.pass] at hRound
      by_cases hMe : c.source = i
      · rw [hMe, Function.update_self] at hRound
        rw [hMe] at hLess
        omega
      · rw [Function.update_of_ne hMe] at hRound
        exact hClaimed.copies c hOld hRound
    · exact hNew

end RingState

theorem Installation.claimed
    [NeZero n]
    {I : Installation n}
    (hClean : I.Clean)
    (Body : Type) :
    (I.start : RingState n Body).Claimed where
  last i := Or.inr ((I.last_aru i).trans (I.last_seq i).symm)
  copies copy hCopy hRound := by
    rcases List.mem_cons.mp hCopy with rfl | hStale
    · left
      rw [show I.token.aruLastId = some I.first from hClean]
      exact Option.some_ne_none _
    · have hLess := I.stale_round copy hStale
      simp only [Installation.start,
        Installation.rounds] at hRound
      omega

end Protocol

end ReplicatedAccount

------------------------------------------------------------
-- Visits that Receive Everything
------------------------------------------------------------

namespace ReplicatedAccount

namespace Protocol

open Foundations RoundRobin

variable {n : Nat}
variable {Body : Type}

/- All packets up to a number are there, so they are counted. -/
theorem le_advanceAru_of_isSome
    {packets : Nat → Option (PacketInfo n Body)}
    {k aru top : Nat}
    (hThere :
      ∀ seq, aru < seq → seq ≤ top →
        (packets (packEntry seq)).isSome)
    (hTurns : top ≤ aru + k) :
    top ≤ advanceAru packets k aru := by
  induction k generalizing aru with
  | zero => exact hTurns
  | succ k ih =>
      rw [advanceAru]
      split_ifs with hNext
      · exact ih
          (fun seq hAbove => hThere seq (Nat.lt_of_succ_lt hAbove))
          (by omega)
      · by_contra hLess
        exact hNext (hThere _ (Nat.lt_succ_self _) (by omega))

/- A daemon that has all packets counts them. -/
theorem Visit.le_myAru
    {me : Proc n}
    {d : ProtocolState n Body}
    {token : Token n}
    {answer : Answer n Body}
    {sending : Sending n Body}
    {handled : Handled n Body}
    (visit : Visit me d token answer sending handled)
    {top : Nat}
    (hTop : top ≤ max d.highestSeq token.seq)
    (hKnown : d.aru ≤ d.myAru)
    (hCovers : ∀ seq, 0 < seq → seq ≤ top → Covers d seq) :
    top ≤ handled.state.myAru := by
  have hMine : sending.state.myAru = d.myAru :=
    visit.sends.myAru_eq
  have hHighest : top ≤ sending.state.highestSeq := by
    rw [visit.sends.highestSeq_eq]
    exact hTop.trans (Nat.le_add_right _ _)
  rw [visit.advanced_eq.2]
  refine le_advanceAru_of_isSome ?_ (by omega)
  intro seq hAbove hLess
  rcases hCovers seq (by omega) hLess with hOld | hSome
  · omega
  · exact isSome_of_sendNewPackets visit.sent hSome

end Protocol

end ReplicatedAccount

------------------------------------------------------------
-- Clean Memberships
------------------------------------------------------------

namespace ReplicatedAccount

namespace Protocol

open Foundations RoundRobin

variable {n : Nat}
variable {Body : Type}

variable [NeZero n]

/- The daemons have only received more. -/
structure Calm (σ τ : RingState n Body) : Prop where
  rounds : τ.rounds = σ.rounds
  sent : τ.sent = σ.sent
  keeps : ∀ i, Keeps (σ.daemons i) (τ.daemons i)
  lastHandled :
    ∀ (I : Installation n) (now : Nat) (last : Fin n),
      σ.LastHandled I now last → τ.LastHandled I now last

theorem RingState.Quiet.calm
    {σ τ : RingState n Body}
    (hQuiet : RingState.Quiet σ τ) :
    Calm σ τ :=
  ⟨hQuiet.rounds, hQuiet.sent, hQuiet.keeps,
    fun _ _ _ hHandled => hHandled.quiet hQuiet⟩

/- Everything that holds at all times in a clean membership. -/
structure Live
    (I : Installation n)
    (σ : RingState n Body)
    (now : Nat) : Prop where
  acknowledged : σ.Acknowledged I now
  agreed : σ.Agreed
  available : σ.Available now
  claimed : σ.Claimed
  owned : σ.Owned

variable {segment : Fin n → Nat}
variable {I : Installation n}
variable {σ σ' : RingState n Body}
variable {now : Nat}
variable {a : RingAction n Body}

theorem Live.grows
    (hLive : Live I σ now)
    (hClean : I.Clean)
    (hStep : σ.step segment a = some σ') :
    σ.Grows σ' :=
  hLive.agreed.grows hLive.acknowledged
    (hLive.acknowledged.earned hClean a) hStep

theorem Live.quiet
    (hLive : Live I σ now)
    (hClean : I.Clean)
    (hStep : σ.step segment a = some σ')
    (hQuiet : RingState.Quiet σ σ') :
    Live I σ' now where
  acknowledged :=
    hLive.acknowledged.quiet hLive.agreed.sourced hQuiet
  agreed :=
    (hLive.agreed.step hLive.acknowledged
      (hLive.acknowledged.earned hClean a) hStep).1
  available :=
    hLive.available.quiet hQuiet.rounds
      (RingState.step_cases hStep).tokens_subset
  claimed := hLive.claimed.quiet hQuiet
  owned :=
    hLive.owned.grows (hLive.grows hClean hStep) hQuiet.sent

theorem Live.pass
    (hLive : Live I σ now)
    (hClean : I.Clean)
    {i : Fin n}
    {place : Nat}
    {copy : Envelope n}
    (hAccepts : σ.Accepts segment i place copy)
    {handled : Handled n Body}
    (hResult :
      acceptToken ⟨i, segment i⟩ (σ.daemons i) copy.token =
        some handled) :
    Live I (σ.pass i handled) (now + 1) := by
  have hEarned : σ.Earned segment (.token i place) :=
    hLive.acknowledged.earned hClean _
  have hCirculates := hLive.acknowledged.circulates
  rcases acceptToken_eq_some hResult with
    ⟨answer, sending, visit⟩
  rcases hLive.agreed.token hLive.acknowledged hEarned
      hAccepts with
    ⟨handled', hResult', hAgreed, _⟩
  rw [hResult, Option.some.injEq] at hResult'
  subst hResult'
  exact
    { acknowledged :=
        hLive.acknowledged.pass hAccepts visit
          (hEarned copy hAccepts)
      agreed := hAgreed
      available := .pass hCirculates hAccepts hResult
      claimed := hLive.claimed.pass hCirculates hAccepts visit
      owned :=
        hLive.owned.pass hLive.agreed hLive.acknowledged
          hEarned hAccepts visit }

theorem Live.step
    (hLive : Live I σ now)
    (hClean : I.Clean)
    (hStep : σ.step segment a = some σ') :
    ∃ now', Live I σ' now' := by
  rcases RingState.quiet_or_visit hStep with
    hQuiet | ⟨i, place, copy, answer, sending, handled, _,
      hAccepts, _, hResult, rfl⟩
  · exact ⟨now, hLive.quiet hClean hStep hQuiet⟩
  · exact ⟨now + 1, hLive.pass hClean hAccepts hResult⟩

theorem live_of_run
    (hClean : I.Clean)
    {as : List (RingAction n Body)}
    (hRun : (ringSystem Body segment I).run as = some σ) :
    ∃ now, Live I σ now := by
  refine (ringSystem Body segment I).invariant
    (I := fun σ => ∃ now, Live I σ now) ?_ ?_ hRun
  · refine ⟨_, I.acknowledged Body, I.agreed Body,
      I.available Body, Installation.claimed hClean Body, ?_⟩
    intro seq hNone
    exact ⟨I.first, Or.inl hNone⟩
  · rintro _ _ _ ⟨now, hLive⟩ hStep
    exact hLive.step hClean hStep

/- A later state of a run has lost nothing. -/
theorem Live.grows_run
    (hLive : Live I σ now)
    (hClean : I.Clean)
    {as : List (RingAction n Body)}
    (hRun :
      (ringSystem Body segment I).runFrom σ as = some σ') :
    σ.Grows σ' := by
  induction as generalizing σ now with
  | nil =>
      cases hRun
      exact .refl _
  | cons a as ih =>
      rw [TransitionSystem.runFrom] at hRun
      split at hRun
      · cases hRun
      · rename_i τ hStep
        rcases hLive.step hClean hStep with ⟨now', hLive'⟩
        exact (hLive.grows hClean hStep).trans
          (ih hLive' hRun)

end Protocol

end ReplicatedAccount

------------------------------------------------------------
-- Runs that Need No Packet of the Network
------------------------------------------------------------

namespace ReplicatedAccount

namespace Protocol

open Foundations RoundRobin

variable {n : Nat}
variable {Body : Type}
variable [NeZero n]
variable {segment : Fin n → Nat}
variable {I : Installation n}
variable {σ σ' τ : RingState n Body}
variable {now : Nat}
variable {a : RingAction n Body}

/-
  A step that needs no packet that is in the network, and of
  the tokens there only the last one of a daemon.
-/
def RingState.Anew (σ : RingState n Body) :
    RingAction n Body → Prop
| .bcast _ places => ∀ place ∈ places, σ.net.length ≤ place
| .token _ place =>
    ∀ copy, σ.tokens[place]? = some copy →
      copy.round = σ.rounds copy.source
| _ => True

/- What a later state does not need, an earlier one does not. -/
omit [NeZero n] in
theorem RingState.Anew.of_grows
    (hAnew : τ.Anew a)
    (hGrows : σ.Grows τ)
    (hCirculates : σ.Circulates now) :
    σ.Anew a := by
  cases a with
  | submit i link => trivial
  | hurry => trivial
  | bcast i places =>
      intro place hMember
      exact hGrows.net.length_le.trans (hAnew place hMember)
  | token i place =>
      intro copy hPlace
      have hLess := (List.getElem?_eq_some_iff.mp hPlace).1
      have hLater : τ.tokens[place]? = some copy := by
        rcases hGrows.tokens with ⟨rest, hTokens⟩
        rw [← hTokens, List.getElem?_append_left hLess]
        exact hPlace
      have hSame := hAnew copy hLater
      have hOld :=
        hCirculates.round_le copy (List.mem_of_getElem? hPlace)
      have hMore := hGrows.rounds_le copy.source
      omega

/- The steps lead on, whatever the network has lost. -/
def Leads
    (segment : Fin n → Nat)
    (I : Installation n)
    (σ : RingState n Body)
    (as : List (RingAction n Body))
    (τ : RingState n Body) : Prop :=
  (ringSystem Body segment I).runFrom σ as = some τ ∧
    ∀ a ∈ as, σ.Anew a

theorem Leads.refl
    (segment : Fin n → Nat)
    (I : Installation n)
    (σ : RingState n Body) :
    Leads segment I σ [] σ :=
  ⟨rfl, fun _ hMember => absurd hMember List.not_mem_nil⟩

theorem Leads.single
    (hStep : σ.step segment a = some τ)
    (hAnew : σ.Anew a) :
    Leads segment I σ [a] τ := by
  refine ⟨?_, fun _ hMember => ?_⟩
  · rw [TransitionSystem.runFrom]
    dsimp only [ringSystem]
    rw [hStep]
    rfl
  · rw [List.mem_singleton.mp hMember]
    exact hAnew

theorem Leads.trans
    (hLive : Live I σ now)
    (hClean : I.Clean)
    {υ : RingState n Body}
    {as bs : List (RingAction n Body)}
    (hFirst : Leads segment I σ as τ)
    (hSecond : Leads segment I τ bs υ) :
    Leads segment I σ (as ++ bs) υ := by
  have hGrows := hLive.grows_run hClean hFirst.1
  refine ⟨?_, ?_⟩
  · rw [TransitionSystem.runFrom_append, hFirst.1]
    exact hSecond.1
  · intro a hMember
    rcases List.mem_append.mp hMember with hBefore | hAfter
    · exact hFirst.2 a hBefore
    · exact (hSecond.2 a hAfter).of_grows hGrows
        hLive.acknowledged.circulates

end Protocol

end ReplicatedAccount

------------------------------------------------------------
-- The Next Visit
------------------------------------------------------------

namespace ReplicatedAccount

namespace Protocol

open Foundations RoundRobin

variable {n : Nat}
variable {Body : Type}
variable [NeZero n]
variable {segment : Fin n → Nat}
variable {I : Installation n}
variable {σ : RingState n Body}
variable {now : Nat}

/- The leader sends the last token again, if need be. -/
theorem Live.exists_copy
    (hLive : Live I σ now)
    (hClean : I.Clean)
    (segment : Fin n → Nat) :
    ∃ cs τ last copy,
      Leads segment I σ cs τ ∧
        Calm σ τ ∧ Live I τ now ∧
          now = time τ.rounds last + 1 ∧
            τ.CurrentCopy last copy := by
  rcases hLive.available with
    ⟨last, hTurn, ⟨copy, hCopy⟩ | hLeader⟩
  · exact ⟨[], σ, last, copy, .refl segment I σ,
      ⟨rfl, rfl, fun _ => .refl _, fun _ _ _ => id⟩, hLive,
      hTurn, hCopy⟩
  · have hFirst : last = 0 :=
      Fin.ext hLeader
    subst hFirst
    have hStep :
        ∃ token,
          σ.step segment .hurry = some (σ.resend 0 token) := by
      rw [RingState.step,
        if_neg (Bool.eq_false_iff.mp (hLive.agreed.alive 0))]
      simp only [protTokenHurry]
      rw [RingState.finish_resend]
      exact ⟨_, rfl⟩
    rcases hStep with ⟨token, hStep⟩
    rcases RingState.quiet_or_visit hStep with
      hQuiet | ⟨i, place, _, _, _, _, hToken, _⟩
    · refine ⟨[.hurry], _, 0, ⟨0, σ.rounds 0, token⟩,
        .single hStep trivial, hQuiet.calm,
        hLive.quiet hClean hStep hQuiet, hTurn, ?_, rfl, rfl⟩
      exact List.mem_append_right _ (List.mem_singleton_self _)
    · cases hToken

theorem RingState.step_of_accepts
    {i : Fin n}
    {place : Nat}
    {copy : Envelope n}
    (hAccepts : σ.Accepts segment i place copy)
    {handled : Handled n Body}
    (hResult :
      acceptToken ⟨i, segment i⟩ (σ.daemons i) copy.token =
        some handled) :
    σ.step segment (.token i place) =
      some (σ.pass i handled) := by
  have hGoes :
      ¬ (σ.exited i = true ∨ ¬ σ.Arrives i copy) := by
    rw [hAccepts.alive]
    simp [hAccepts.arrives]
  rw [RingState.step, hAccepts.place]
  dsimp only
  rw [if_neg hGoes, RingState.roundAfter, protHandleToken,
    hAccepts.accepted]
  dsimp only
  rw [hResult]
  rfl

/- The next daemon handles the copy of the last token. -/
theorem Live.visit_copy
    (hLive : Live I σ now)
    (hClean : I.Clean)
    (segment : Fin n → Nat)
    {last : Fin n}
    (hTurn : now = time σ.rounds last + 1)
    {copy : Envelope n}
    (hCopy : σ.CurrentCopy last copy) :
    ∃ place handled,
      σ.Accepts segment (last + 1) place copy ∧
        acceptToken ⟨last + 1, segment (last + 1)⟩
            (σ.daemons (last + 1)) copy.token =
          some handled ∧
        σ.step segment (.token (last + 1) place) =
          some (σ.pass (last + 1) handled) ∧
        σ.Anew (.token (last + 1) place) ∧
        Live I (σ.pass (last + 1) handled) (now + 1) := by
  have hAcknowledged := hLive.acknowledged
  rcases hAcknowledged.circulates.accepts segment
      hTurn hCopy (hLive.agreed.alive _) with
    ⟨place, hAccepts⟩
  have hEarned : σ.Earned segment (.token (last + 1) place) :=
    hAcknowledged.earned hClean _
  rcases hLive.agreed.token hAcknowledged hEarned hAccepts with
    ⟨handled, hResult, _, _⟩
  refine ⟨place, handled, hAccepts, hResult,
    RingState.step_of_accepts hAccepts hResult, ?_,
    hLive.pass hClean hAccepts hResult⟩
  intro copy' hPlace
  rw [hAccepts.place, Option.some.injEq] at hPlace
  subst hPlace
  rw [hCopy.2.1]
  exact hCopy.2.2

/- The daemon whose turn it is can handle the last token. -/
theorem Live.visit
    (hLive : Live I σ now)
    (hClean : I.Clean)
    (segment : Fin n → Nat) :
    ∃ cs τ i place copy handled,
      Leads segment I σ cs (τ.pass i handled) ∧
        Calm σ τ ∧ Live I τ now ∧ σ.Grows τ ∧
        now = time σ.rounds i + n ∧
        τ.Accepts segment i place copy ∧
        acceptToken ⟨i, segment i⟩ (τ.daemons i) copy.token =
          some handled ∧
        Live I (τ.pass i handled) (now + 1) := by
  rcases hLive.exists_copy hClean segment with
    ⟨cs, τ, last, copy, hLeads, hCalm, hLiveτ, hTurn, hCopy⟩
  rcases hLiveτ.visit_copy hClean segment hTurn hCopy with
    ⟨place, handled, hAccepts, hResult, hStep, hAnew, hLive'⟩
  have hNext := hLiveτ.acknowledged.circulates.turn.next hTurn
  rw [hCalm.rounds] at hNext
  exact ⟨cs ++ [.token (last + 1) place], τ, last + 1, place,
    copy, handled, hLeads.trans hLive hClean
      (.single hStep hAnew),
    hCalm, hLiveτ, hLive.grows_run hClean hLeads.1, hNext,
    hAccepts, hResult, hLive'⟩

end Protocol

end ReplicatedAccount
