import ReplicatedAccount.Spread.Ring
import ReplicatedAccount.Spread.Handlers
import ReplicatedAccount.Foundations.RoundRobin
import Mathlib.Tactic.Common

/-
  How the token goes round: only the daemon whose turn it is
  takes a copy of the token, and only a copy of the last one.

  Key definitions include:
    * `RingState.Quiet`
    * `RingState.Circulates`

  Key theorems include:
    * `RingState.quiet_or_visit`
    * `RingState.Circulates.next_of_accepts`
    * `circulates_of_run`
-/

------------------------------------------------------------
-- Quiet Steps
------------------------------------------------------------

namespace ReplicatedAccount

namespace Protocol

variable {n : Nat}
variable {Body : Type}

/- What a daemon keeps while it accepts no token. -/
structure Keeps (d d' : ProtocolState n Body) : Prop where
  lastToken : d.lastToken.Resembles d'.lastToken
  setAru : d'.setAru = d.setAru
  aru : d'.aru = d.aru
  myAru_le : d.myAru ≤ d'.myAru
  myAru_le_highestSeq :
    d.myAru ≤ d.highestSeq → d'.myAru ≤ d'.highestSeq

theorem Keeps.refl
    (d : ProtocolState n Body) :
    Keeps d d :=
  ⟨⟨rfl, rfl, rfl, rfl⟩, rfl, rfl, Nat.le_refl _, id⟩

theorem Receives.keeps
    {d d' : ProtocolState n Body}
    (hReceives : Receives d d') :
    Keeps d d' where
  lastToken := by
    rw [hReceives.lastToken_eq]
    exact ⟨rfl, rfl, rfl, rfl⟩
  setAru := hReceives.setAru_eq
  aru := hReceives.aru_eq
  myAru_le := hReceives.myAru_le
  myAru_le_highestSeq := hReceives.myAru_le_highestSeq

namespace RingState

/- A step in which no token is accepted. -/
structure Quiet (σ σ' : RingState n Body) : Prop where
  rounds : σ'.rounds = σ.rounds
  sent : σ'.sent = σ.sent
  net : σ'.net = σ.net
  keeps : ∀ i, Keeps (σ.daemons i) (σ'.daemons i)
  highestSeq_le :
    ∀ i bound,
      (σ.daemons i).highestSeq ≤ bound →
        (∀ t ∈ σ.net, t.packet.seq ≤ bound) →
          (σ'.daemons i).highestSeq ≤ bound
  copies :
    ∀ copy ∈ σ'.tokens,
      copy ∈ σ.tokens ∨
        copy.round = σ.rounds copy.source ∧
          copy.token = (σ'.daemons copy.source).lastToken ∧
            copy.token.rtr = []

variable {σ σ' : RingState n Body}

/- A daemon that changes is a quiet step of the ring. -/
theorem Quiet.of_update
    {i : Fin n}
    {d : ProtocolState n Body}
    (hKeeps : Keeps (σ.daemons i) d)
    (hHighest :
      ∀ bound, (σ.daemons i).highestSeq ≤ bound →
        (∀ t ∈ σ.net, t.packet.seq ≤ bound) →
          d.highestSeq ≤ bound)
    (hDaemons : σ'.daemons = Function.update σ.daemons i d)
    (hRounds : σ'.rounds = σ.rounds)
    (hSent : σ'.sent = σ.sent)
    (hNet : σ'.net = σ.net)
    (hCopies :
      ∀ copy ∈ σ'.tokens,
        copy ∈ σ.tokens ∨
          copy = ⟨i, σ.rounds i, d.lastToken⟩ ∧
            d.lastToken.rtr = []) :
    Quiet σ σ' where
  rounds := hRounds
  sent := hSent
  net := hNet
  keeps p := by
    rw [hDaemons]
    by_cases hMe : p = i
    · subst hMe
      rw [Function.update_self]
      exact hKeeps
    · rw [Function.update_of_ne hMe]
      exact .refl _
  highestSeq_le p bound hBound hSeqs := by
    rw [hDaemons]
    by_cases hMe : p = i
    · subst hMe
      rw [Function.update_self]
      exact hHighest bound hBound hSeqs
    · rw [Function.update_of_ne hMe]
      exact hBound
  copies copy hCopy := by
    rcases hCopies copy hCopy with hOld | ⟨rfl, hNone⟩
    · exact Or.inl hOld
    · exact Or.inr
        ⟨rfl, by rw [hDaemons, Function.update_self], hNone⟩

/- A daemon that ends changes nothing for the others. -/
theorem Quiet.exit
    (σ : RingState n Body)
    (i : Fin n) :
    Quiet σ
      { σ with exited := Function.update σ.exited i true } :=
  ⟨rfl, rfl, rfl, fun _ => .refl _,
    fun _ _ hBound _ => hBound,
    fun _ hCopy => Or.inl hCopy⟩

variable [NeZero n]
variable {segment : Fin n → Nat}

/- A step is quiet, or the visit of a token at a daemon. -/
theorem quiet_or_visit
    {a : RingAction n Body}
    (hStep : σ.step segment a = some σ') :
    Quiet σ σ' ∨
      ∃ i place copy answer sending handled,
        a = .token i place ∧
        σ.Accepts segment i place copy ∧
        Visit ⟨i, segment i⟩ (σ.daemons i) copy.token answer
          sending handled ∧
        acceptToken ⟨i, segment i⟩ (σ.daemons i) copy.token =
          some handled ∧
        σ' = σ.pass i handled := by
  cases step_cases hStep with
  | submitted i link hAlive =>
      exact Or.inl
        (.of_update (i := i)
          (d := protNewMessage (σ.daemons i) link)
          ⟨⟨rfl, rfl, rfl, rfl⟩, rfl, rfl, Nat.le_refl _, id⟩
          (fun _ hBound _ => hBound) rfl rfl rfl rfl
          fun _ hCopy => Or.inl hCopy)
  | received i places d hAlive hResult =>
      refine Or.inl
        (.of_update (protHandleBcast_eq_some hResult).keeps
          ?_ rfl rfl rfl rfl fun _ hCopy => Or.inl hCopy)
      intro bound hBound hSeqs
      refine highestSeq_le_of_protHandleBcast hResult hBound ?_
      intro p hMember
      rcases exists_of_mem_datagram hMember with ⟨t, hSent, rfl⟩
      exact hSeqs t hSent
  | swallowed i place =>
      exact Or.inl
        ⟨rfl, rfl, rfl, fun _ => .refl _,
          fun _ _ hBound _ => hBound,
          fun _ hCopy => Or.inl hCopy⟩
  | resent a i last hAlive hSame hNone =>
      refine Or.inl
        (.of_update (i := i)
          (d := { σ.daemons i with lastToken := last })
          ⟨hSame, rfl, rfl, Nat.le_refl _, id⟩
          (fun _ hBound _ => hBound) rfl rfl rfl rfl ?_)
      intro copy hCopy
      rcases List.mem_append.mp hCopy with hOld | hNew
      · exact Or.inl hOld
      · exact Or.inr ⟨List.mem_singleton.mp hNew, hNone⟩
  | accepted i place copy handled hAccepts hResult =>
      rcases acceptToken_eq_some hResult with
        ⟨answer, sending, visit⟩
      exact Or.inr
        ⟨i, place, copy, answer, sending, handled, rfl,
          hAccepts, visit, hResult, rfl⟩
  | exitedBcast i places hAlive hResult =>
      exact Or.inl (.exit σ i)
  | exitedToken i place copy hAccepts hResult =>
      exact Or.inl (.exit σ i)

end RingState

end Protocol

end ReplicatedAccount

------------------------------------------------------------
-- Circulation
------------------------------------------------------------

namespace ReplicatedAccount

namespace Protocol

open Foundations RoundRobin

variable {n : Nat}
variable {Body : Type}
variable [NeZero n]

/- The numbers on tokens say how often they went round. -/
structure RingState.Circulates
    (σ : RingState n Body)
    (now : Nat) : Prop where
  turn : Turn σ.rounds now
  arq :
    ∀ i, (σ.daemons i).lastToken.arq = σ.rounds i % 0x10
  round_le :
    ∀ copy ∈ σ.tokens, copy.round ≤ σ.rounds copy.source
  copy_arq :
    ∀ copy ∈ σ.tokens, copy.token.arq = copy.round % 0x10

omit [NeZero n] in
theorem arrival_eq_accept
    {me : Proc n}
    {last token : Token n}
    (hAccept : arrival me last token = .accept) :
    (me.id.val = 0 → token.arq = last.arq) ∧
      (me.id.val ≠ 0 → token.arq = (last.arq + 1) % 0x10) := by
  unfold arrival Proc.isLeader at hAccept
  split_ifs at hAccept with hLeader hSame hSame hMore hNext
  · simp only [decide_eq_true_eq] at hLeader
    exact ⟨fun _ => hSame, fun hNot => absurd hLeader hNot⟩
  · simp only [decide_eq_true_eq] at hLeader
    exact ⟨fun hZero => absurd hZero hLeader, fun _ => hNext⟩

namespace RingState

variable {segment : Fin n → Nat}
variable {σ σ' : RingState n Body}
variable {now : Nat}

/-
  A daemon only accepts a copy of the last token of the daemon
  before it, and only when it is its turn.
-/
theorem Circulates.next_of_accepts
    (hCirculates : σ.Circulates now)
    {i : Fin n}
    {place : Nat}
    {copy : Envelope n}
    (hAccepts : σ.Accepts segment i place copy) :
    copy.round = σ.rounds copy.source ∧
      now = time σ.rounds i + n ∧
      now = time σ.rounds copy.source + 1 := by
  have hCopy := List.mem_of_getElem? hAccepts.place
  have hRound := hCirculates.round_le copy hCopy
  have hArq := hCirculates.copy_arq copy hCopy
  have hLast := hCirculates.arq i
  rcases hAccepts.arrives with ⟨hSource, hFresh⟩
  rcases arrival_eq_accept hAccepts.accepted with
    ⟨hLeader, hOther⟩
  rcases next_cases hSource with hBehind | ⟨hFirst, hEnd⟩
  · have hVisits := hCirculates.turn.visits_succ hBehind
    have hNumber := hOther (by simp only; omega)
    have hAhead : σ.rounds copy.source = σ.rounds i + 1 := by
      omega
    exact ⟨by omega,
      hCirculates.turn.next_of_succ hBehind hAhead⟩
  · have hVisits := hCirculates.turn.visits_first hFirst hEnd
    have hNumber := hLeader hFirst
    have hSame : σ.rounds copy.source = σ.rounds i := by
      omega
    exact ⟨by omega,
      hCirculates.turn.next_of_last hFirst hEnd hSame⟩

/- The number of the next token is the next round. -/
theorem Circulates.next_arq
    (hCirculates : σ.Circulates now)
    {i : Fin n}
    {place : Nat}
    {copy : Envelope n}
    (hAccepts : σ.Accepts segment i place copy)
    {handled : Handled n Body}
    {answer : Answer n Body}
    {sending : Sending n Body}
    (visit :
      Visit ⟨i, segment i⟩ (σ.daemons i) copy.token answer
        sending handled) :
    handled.state.lastToken.arq = (σ.rounds i + 1) % 0x10 := by
  have hLast := hCirculates.arq i
  rcases arrival_eq_accept hAccepts.accepted with
    ⟨hLeader, hOther⟩
  rw [visit.lastToken_eq, Sending.next, nextToken,
    Proc.isLeader]
  by_cases hZero : i.val = 0
  · have hNumber := hLeader hZero
    simp only [hZero, decide_true, if_true]
    omega
  · have hNumber := hOther hZero
    simp only [hZero, decide_false, Bool.false_eq_true, if_false]
    omega

/- A copy after a visit is an old one, or of the new token. -/
omit [NeZero n] in
theorem mem_tokens_pass
    {i : Fin n}
    {handled : Handled n Body}
    {copy : Envelope n}
    (hToken :
      handled.token = none ∨
        handled.token = some handled.state.lastToken)
    (hCopy : copy ∈ (σ.pass i handled).tokens) :
    copy ∈ σ.tokens ∨
      copy = ⟨i, σ.rounds i + 1, handled.state.lastToken⟩ := by
  rcases List.mem_append.mp hCopy with hOld | hNew
  · exact Or.inl hOld
  · rcases hToken with hNone | hSome
    · rw [hNone] at hNew
      cases hNew
    · rw [hSome] at hNew
      exact Or.inr (List.mem_singleton.mp hNew)

theorem Circulates.pass
    (hCirculates : σ.Circulates now)
    {i : Fin n}
    {place : Nat}
    {copy : Envelope n}
    (hAccepts : σ.Accepts segment i place copy)
    {handled : Handled n Body}
    {answer : Answer n Body}
    {sending : Sending n Body}
    (visit :
      Visit ⟨i, segment i⟩ (σ.daemons i) copy.token answer
        sending handled) :
    (σ.pass i handled).Circulates (now + 1) where
  turn :=
    hCirculates.turn.visit
      (hCirculates.next_of_accepts hAccepts).2.1
  arq p := by
    by_cases hMe : p = i
    · subst hMe
      simp only [RingState.pass, Function.update_self]
      exact hCirculates.next_arq hAccepts visit
    · simp only [RingState.pass, Function.update_of_ne hMe]
      exact hCirculates.arq p
  round_le c hCopy := by
    rcases mem_tokens_pass visit.token_eq hCopy with
      hOld | rfl
    · have hRound := hCirculates.round_le c hOld
      simp only [RingState.pass]
      by_cases hMe : c.source = i
      · rw [hMe] at hRound ⊢
        rw [Function.update_self]
        exact hRound.trans (Nat.le_succ _)
      · rw [Function.update_of_ne hMe]
        exact hRound
    · simp only [RingState.pass, Function.update_self,
        Nat.le_refl]
  copy_arq c hCopy := by
    rcases mem_tokens_pass visit.token_eq hCopy with
      hOld | rfl
    · exact hCirculates.copy_arq c hOld
    · exact hCirculates.next_arq hAccepts visit

/- A step without an accepted token keeps the numbers. -/
omit [NeZero n] in
theorem Circulates.quiet
    (hCirculates : σ.Circulates now)
    (hQuiet : Quiet σ σ') :
    σ'.Circulates now where
  turn := hQuiet.rounds ▸ hCirculates.turn
  arq i := by
    rw [hQuiet.rounds, (hQuiet.keeps i).lastToken.arq]
    exact hCirculates.arq i
  round_le copy hCopy := by
    rw [hQuiet.rounds]
    rcases hQuiet.copies copy hCopy with hOld | ⟨hRound, _, _⟩
    · exact hCirculates.round_le copy hOld
    · exact Nat.le_of_eq hRound
  copy_arq copy hCopy := by
    rcases hQuiet.copies copy hCopy with
      hOld | ⟨hRound, hToken, _⟩
    · exact hCirculates.copy_arq copy hOld
    · rw [hToken, (hQuiet.keeps copy.source).lastToken.arq,
        hRound]
      exact hCirculates.arq copy.source

/- The time of the next visit, which a step may be. -/
theorem Circulates.step
    (hCirculates : σ.Circulates now)
    {a : RingAction n Body}
    (hStep : σ.step segment a = some σ') :
    ∃ now', σ'.Circulates now' := by
  rcases quiet_or_visit hStep with
    hQuiet | ⟨i, place, copy, answer, sending, handled, _,
      hAccepts, visit, _, rfl⟩
  · exact ⟨now, hCirculates.quiet hQuiet⟩
  · exact ⟨now + 1, hCirculates.pass hAccepts visit⟩

end RingState

theorem Installation.circulates
    (I : Installation n)
    (Body : Type) :
    (I.start : RingState n Body).Circulates
      (time I.rounds I.first + n) where
  turn :=
    { before := by
        intro i
        have hSize := i.isLt
        have hSize' := I.first.isLt
        simp only [time, Installation.start,
          Installation.rounds, lt_irrefl, if_false]
        split_ifs with hAhead
        · have hLess : i.val < I.first.val := hAhead
          rw [Nat.succ_mul]
          omega
        · omega
      recent := by
        intro i
        have hSize := i.isLt
        simp only [time, Installation.start,
          Installation.rounds, lt_irrefl, if_false]
        split_ifs with hAhead
        · rw [Nat.succ_mul]
          have hSize' := I.first.isLt
          omega
        · have hMore : I.first.val ≤ i.val :=
            Nat.le_of_not_lt hAhead
          omega }
  arq := I.last_arq
  round_le copy hCopy := by
    rcases List.mem_cons.mp hCopy with rfl | hStale
    · exact Nat.le_refl _
    · exact Nat.le_of_lt (I.stale_round copy hStale)
  copy_arq copy hCopy := by
    rcases List.mem_cons.mp hCopy with rfl | hStale
    · exact I.token_arq
    · exact I.stale_arq copy hStale

/- In every run, the token circulates. -/
theorem circulates_of_run
    {segment : Fin n → Nat}
    {I : Installation n}
    {actions : List (RingAction n Body)}
    {σ : RingState n Body}
    (hRun :
      (ringSystem Body segment I).run actions = some σ) :
    ∃ now, σ.Circulates now :=
  (ringSystem Body segment I).invariant
    (I := fun σ => ∃ now, σ.Circulates now)
    ⟨_, I.circulates Body⟩
    (fun _ _ _ ⟨_, hCirculates⟩ hStep =>
      hCirculates.step hStep)
    hRun

end Protocol

end ReplicatedAccount
