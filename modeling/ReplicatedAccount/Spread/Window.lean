import ReplicatedAccount.Spread.Circulation
import ReplicatedAccount.Foundations.Acknowledgement

/-
  What the daemons know of one another from the token.

  The `Aru` of a daemon is what all daemons have received, and
  no daemon is far behind in knowing it.  For this no daemon
  may raise the number of a token only because it equals
  `Set_aru`, when another daemon has set it.

  Key definitions include:
    * `Token.ack`
    * `RingState.site`
    * `RingState.LastHandled`
    * `RingState.Earned`

  Key theorems include:
    * `RingState.Acknowledged.step`
    * `RingState.Acknowledged.aru_le_myAru`
    * `RingState.Acknowledged.length_sent_le`
-/

------------------------------------------------------------
-- Tokens as Acknowledgements
------------------------------------------------------------

namespace ReplicatedAccount

namespace Protocol

open Foundations RoundRobin

variable {n : Nat}
variable {Body : Type}

def Token.ack (token : Token n) : Acknowledgement (Fin n) where
  seq := token.seq
  aru := token.aru
  setter := token.aruLastId

theorem Token.Resembles.ack_eq
    {token token' : Token n}
    (hSame : token.Resembles token') :
    token'.ack = token.ack := by
  rw [Token.ack, Token.ack, hSame.seq, hSame.aru,
    hSame.aruLastId]

/- How far a daemon may send before all have received. -/
def window : Nat := maxSeqGap + maxPacketsPerToken

namespace RingState

/- What a daemon knows from its last token. -/
def site
    (σ : RingState n Body)
    (i : Fin n) :
    AckSite where
  time := time σ.rounds i
  received := (σ.daemons i).myAru
  mark := (σ.daemons i).setAru
  seq := (σ.daemons i).lastToken.seq
  aru := (σ.daemons i).lastToken.aru
  stable := (σ.daemons i).aru

/-
  A daemon that finds the number it has marked has set it, or
  all packets are covered.
-/
def Earned
    [NeZero n]
    (segment : Fin n → Nat)
    (σ : RingState n Body) :
    RingAction n Body → Prop
| .token i place =>
    ∀ copy, σ.Accepts segment i place copy →
      (σ.daemons i).setAru = some copy.token.aru →
        copy.token.aruLastId = some i ∨
          copy.token.aru = copy.token.seq
| _ => True

end RingState

/- The new token is the one that leaves the site. -/
theorem tokenAru_ack
    (me : Proc n)
    (d : ProtocolState n Body)
    (answer : Answer n Body)
    (numSent : Nat)
    (token : Token n)
    {site : AckSite}
    (hMark : site.mark = d.setAru) :
    (nextToken me d answer numSent token).ack =
        token.ack.leave me.id site d.myAru d.highestSeq ∧
      (tokenAru me d token).2.2 =
        token.ack.nextMark me.id site d.myAru
          d.highestSeq := by
  have hRaises :
      token.ack.Raises me.id site ↔
        some token.aru = d.setAru ∨
          token.aruLastId = some me.id ∨
            token.aru = token.seq := by
    rw [Acknowledgement.Raises, hMark, eq_comm]
    rfl
  simp only [nextToken, Token.ack, tokenAru,
    Acknowledgement.leave, Acknowledgement.nextMark, ← hRaises]
  by_cases hRaise : token.ack.Raises me.id site
  · have hRaise' := hRaise
    rw [Token.ack] at hRaise'
    simp [hRaise']
  · have hRaise' := hRaise
    rw [Token.ack] at hRaise'
    by_cases hLess : d.myAru < token.aru
    · simp [hRaise', hLess]
    · simp [hRaise', hLess]

end Protocol

end ReplicatedAccount

------------------------------------------------------------
-- The Numbers of the Ring
------------------------------------------------------------

namespace ReplicatedAccount

namespace Protocol

open Foundations RoundRobin Acknowledgement

variable {n : Nat}
variable {Body : Type}

namespace RingState

/- No daemon counts packets that were not sent. -/
structure Counts (σ : RingState n Body) : Prop where
  myAru_le :
    ∀ i, (σ.daemons i).myAru ≤ (σ.daemons i).highestSeq
  highestSeq_le :
    ∀ i, (σ.daemons i).highestSeq ≤ σ.sent.length
  seq : ∀ k p, σ.sent[k]? = some p → p.seq = k + 1

/- What is in the network are packets that were sent. -/
def Sourced (σ : RingState n Body) : Prop :=
  ∀ t ∈ σ.net, t.packet ∈ σ.sent

variable [NeZero n]

/- Before the first token of the membership is handled. -/
structure Fresh
    (I : Installation n)
    (σ : RingState n Body)
    (now : Nat) : Prop where
  turn : now = time σ.rounds I.first + n
  site : ∀ i, σ.site i = .fresh (time σ.rounds i)
  sent : σ.sent = []
  copies :
    ∀ copy ∈ σ.tokens,
      copy.round = σ.rounds copy.source →
        copy.token.seq = 0 ∧
          (copy.token.aru = 0 ∨
            3333 ≤ copy.token.aru ∧
              (I.Clean →
                copy.token.aruLastId = some I.first))

/- The copies of the token that has left a daemon last. -/
def CurrentCopy
    (σ : RingState n Body)
    (last : Fin n)
    (copy : Envelope n) : Prop :=
  copy ∈ σ.tokens ∧ copy.source = last ∧
    copy.round = σ.rounds last

/- After a daemon was the last one that has handled a token. -/
structure LastHandled
    (I : Installation n)
    (σ : RingState n Body)
    (now : Nat)
    (last : Fin n) : Prop where
  turn : now = time σ.rounds last + 1
  consistent :
    Consistent (σ.daemons last).lastToken.ack σ.site
  bounded :
    Bounded window (σ.daemons last).lastToken.ack σ.site
  marked :
    I.Clean → Marked (σ.daemons last).lastToken.ack σ.site
  seq : (σ.daemons last).lastToken.seq = σ.sent.length
  copies :
    ∀ copy, σ.CurrentCopy last copy →
      copy.token.ack = (σ.daemons last).lastToken.ack
  requests :
    ∀ copy, σ.CurrentCopy last copy →
      ∀ rtr ∈ copy.token.rtr, ∀ seq ∈ rtr.seqs,
        ∀ p, (σ.daemons p).aru ≤ seq

/- Everything that holds of the numbers at all times. -/
structure Acknowledged
    (I : Installation n)
    (σ : RingState n Body)
    (now : Nat) : Prop where
  circulates : σ.Circulates now
  counts : σ.Counts
  lastHandled : σ.Fresh I now ∨ ∃ last, σ.LastHandled I now last

variable {segment : Fin n → Nat}
variable {I : Installation n}
variable {σ σ' : RingState n Body}
variable {now : Nat}

/- A token that is accepted is the last one. -/
theorem LastHandled.current_of_accepts
    {last : Fin n}
    (hHandled : σ.LastHandled I now last)
    (hCirculates : σ.Circulates now)
    {i : Fin n}
    {place : Nat}
    {copy : Envelope n}
    (hAccepts : σ.Accepts segment i place copy) :
    σ.CurrentCopy last copy := by
  rcases hCirculates.next_of_accepts hAccepts with
    ⟨hRound, _, hSource⟩
  have hTime := hHandled.turn
  have hLast : copy.source = last :=
    time_injective σ.rounds (by omega)
  exact ⟨List.mem_of_getElem? hAccepts.place, hLast,
    hLast ▸ hRound⟩

/- The sites after a visit. -/
theorem site_pass
    {i : Fin n}
    {place : Nat}
    {copy : Envelope n}
    (hCirculates : σ.Circulates now)
    (hAccepts : σ.Accepts segment i place copy)
    {answer : Answer n Body}
    {sending : Sending n Body}
    {handled : Handled n Body}
    (visit :
      Visit ⟨i, segment i⟩ (σ.daemons i) copy.token answer
        sending handled) :
    (σ.pass i handled).site =
        copy.token.ack.passAll σ.site i now
          handled.state.myAru handled.state.highestSeq ∧
      handled.state.lastToken.ack =
        copy.token.ack.leave i (σ.site i)
          handled.state.myAru handled.state.highestSeq := by
  have hNow := (hCirculates.next_of_accepts hAccepts).2.1
  have hMark :
      (σ.site i).mark = sending.state.advanced.setAru :=
    visit.setAru_advanced.symm
  rcases tokenAru_ack ⟨i, segment i⟩ sending.state.advanced
      answer sending.numSent copy.token hMark with
    ⟨hAck, hSet⟩
  rw [← visit.advanced_eq.1, ← visit.advanced_eq.2] at hAck hSet
  have hLeave :
      handled.state.lastToken.ack =
        copy.token.ack.leave i (σ.site i)
          handled.state.myAru handled.state.highestSeq := by
    rw [visit.lastToken_eq]
    exact hAck
  refine ⟨?_, hLeave⟩
  funext p
  by_cases hMe : p = i
  · subst hMe
    rw [passAll_same, Acknowledgement.pass, ← hLeave, ← hSet,
      ← visit.setAru_eq]
    have hSeq :
        handled.state.lastToken.seq =
          handled.state.highestSeq := by
      have hLeft := congrArg Acknowledgement.seq hLeave
      rwa [leave_seq] at hLeft
    simp only [site, RingState.pass, Function.update_self,
      time_update_same, ← hNow, hSeq, visit.aru_eq]
    rfl
  · rw [passAll_of_ne hMe]
    simp only [site, RingState.pass, Function.update_of_ne hMe,
      time_update_of_ne _ hMe]

end RingState

end Protocol

end ReplicatedAccount

------------------------------------------------------------
-- Quiet Steps
------------------------------------------------------------

namespace ReplicatedAccount

namespace Protocol

open Foundations RoundRobin Acknowledgement

variable {n : Nat}
variable {Body : Type}

namespace RingState

variable {σ σ' : RingState n Body}
variable {now : Nat}

theorem Counts.seq_le
    (hCounts : σ.Counts)
    {p : Packet n Body}
    (hSent : p ∈ σ.sent) :
    p.seq ≤ σ.sent.length := by
  rcases List.getElem?_of_mem hSent with ⟨k, hPlace⟩
  have hLess := (List.getElem?_eq_some_iff.mp hPlace).1
  rw [hCounts.seq k p hPlace]
  exact hLess

theorem Counts.quiet
    (hCounts : σ.Counts)
    (hSourced : σ.Sourced)
    (hQuiet : Quiet σ σ') :
    σ'.Counts where
  myAru_le i :=
    (hQuiet.keeps i).myAru_le_highestSeq (hCounts.myAru_le i)
  highestSeq_le i := by
    rw [hQuiet.sent]
    exact hQuiet.highestSeq_le i _ (hCounts.highestSeq_le i)
      fun t hMember => hCounts.seq_le (hSourced t hMember)
  seq := by
    rw [hQuiet.sent]
    exact hCounts.seq

/- The sites have only received more. -/
theorem Quiet.received
    (hQuiet : Quiet σ σ') :
    Received σ.site σ'.site := by
  intro i
  have hKeeps := hQuiet.keeps i
  refine ⟨(σ'.daemons i).myAru, hKeeps.myAru_le, ?_⟩
  simp only [site, time, hQuiet.rounds, hKeeps.setAru,
    hKeeps.aru, hKeeps.lastToken.seq, hKeeps.lastToken.aru]

variable [NeZero n]
variable {I : Installation n}

theorem Fresh.quiet
    (hFresh : σ.Fresh I now)
    (hQuiet : Quiet σ σ')
    (hCounts : σ'.Counts) :
    σ'.Fresh I now where
  turn := hQuiet.rounds ▸ hFresh.turn
  site i := by
    rcases hQuiet.received i with ⟨received, hMore, hSame⟩
    have hMine : (σ'.site i).received = 0 := by
      have hLess := hCounts.myAru_le i
      have hLess' := hCounts.highestSeq_le i
      rw [hQuiet.sent, hFresh.sent, List.length_nil] at hLess'
      change (σ'.daemons i).myAru = 0
      omega
    have hZero : received = 0 := by
      rw [hSame] at hMine
      exact hMine
    rw [hSame, hZero, hFresh.site i, hQuiet.rounds]
    rfl
  sent := hQuiet.sent.trans hFresh.sent
  copies copy hCopy hRound := by
    rw [hQuiet.rounds] at hRound
    rcases hQuiet.copies copy hCopy with hOld | ⟨_, hToken, _⟩
    · exact hFresh.copies copy hOld hRound
    · -- a copy of the last token says nothing
      have hKeeps := hQuiet.keeps copy.source
      have hSite := hFresh.site copy.source
      have hSeq : (σ.site copy.source).seq = 0 := by
        rw [hSite]
        rfl
      have hAru : (σ.site copy.source).aru = 0 := by
        rw [hSite]
        rfl
      rw [hToken, hKeeps.lastToken.seq, hKeeps.lastToken.aru]
      exact ⟨hSeq, Or.inl hAru⟩

theorem LastHandled.quiet
    {last : Fin n}
    (hHandled : σ.LastHandled I now last)
    (hQuiet : Quiet σ σ') :
    σ'.LastHandled I now last := by
  have hAck :
      (σ'.daemons last).lastToken.ack =
        (σ.daemons last).lastToken.ack :=
    (hQuiet.keeps last).lastToken.ack_eq
  have hReceived := hQuiet.received
  have hCopies :
      ∀ copy, σ'.CurrentCopy last copy →
        σ.CurrentCopy last copy ∨
          copy.token = (σ'.daemons last).lastToken ∧
            copy.token.rtr = [] := by
    rintro copy ⟨hCopy, rfl, hRound⟩
    rw [hQuiet.rounds] at hRound
    rcases hQuiet.copies copy hCopy with hOld | hNew
    · exact Or.inl ⟨hOld, rfl, hRound⟩
    · exact Or.inr hNew.2
  exact
    { turn := hQuiet.rounds ▸ hHandled.turn
      consistent :=
        hAck ▸ hHandled.consistent.receive hReceived
      bounded := hAck ▸ hHandled.bounded.receive hReceived
      marked := fun hClean =>
        hAck ▸ (hHandled.marked hClean).receive hReceived
      seq := by
        rw [hQuiet.sent, (hQuiet.keeps last).lastToken.seq]
        exact hHandled.seq
      copies := by
        intro copy hCopy
        rcases hCopies copy hCopy with hOld | ⟨hToken, _⟩
        · rw [hAck]
          exact hHandled.copies copy hOld
        · rw [hToken]
      requests := by
        intro copy hCopy rtr hRtr seq hSeq p
        rw [(hQuiet.keeps p).aru]
        rcases hCopies copy hCopy with hOld | ⟨_, hNone⟩
        · exact hHandled.requests copy hOld rtr hRtr seq hSeq p
        · rw [hNone] at hRtr
          cases hRtr }

theorem Acknowledged.quiet
    (hAcknowledged : σ.Acknowledged I now)
    (hSourced : σ.Sourced)
    (hQuiet : Quiet σ σ') :
    σ'.Acknowledged I now := by
  have hCounts := hAcknowledged.counts.quiet hSourced hQuiet
  refine
    ⟨hAcknowledged.circulates.quiet hQuiet, hCounts, ?_⟩
  rcases hAcknowledged.lastHandled with hFresh | ⟨last, hHandled⟩
  · exact Or.inl (hFresh.quiet hQuiet hCounts)
  · exact Or.inr ⟨last, hHandled.quiet hQuiet⟩

end RingState

end Protocol

end ReplicatedAccount

------------------------------------------------------------
-- Visits
------------------------------------------------------------

namespace ReplicatedAccount

namespace Protocol

open Foundations RoundRobin Acknowledgement

variable {n : Nat}
variable {Body : Type}

theorem le_of_mem_missingSeqs
    {packets : Nat → Option (PacketInfo n Body)}
    {k i seq : Nat}
    (hMember : seq ∈ missingSeqs packets k i) :
    i ≤ seq := by
  induction k generalizing i with
  | zero =>
      rw [missingSeqs] at hMember
      cases hMember
  | succ k ih =>
      rw [missingSeqs] at hMember
      split_ifs at hMember
      · exact Nat.le_of_succ_le (ih hMember)
      · rcases List.mem_cons.mp hMember with rfl | hLater
        · exact Nat.le_refl _
        · exact Nat.le_of_succ_le (ih hLater)

/- A daemon only asks for packets it has not received. -/
theorem Visit.myAru_lt_of_request
    {me : Proc n}
    {d : ProtocolState n Body}
    {token : Token n}
    {answer : Answer n Body}
    {sending : Sending n Body}
    {handled : Handled n Body}
    (visit : Visit me d token answer sending handled)
    {rtr : RingRtr n}
    (hRtr : rtr ∈ handled.state.lastToken.rtr)
    {seq : Nat}
    (hSeq : seq ∈ rtr.seqs) :
    handled.state.myAru < seq := by
  rw [visit.lastToken_eq] at hRtr
  simp only [Sending.next, nextToken, retransRequests] at hRtr
  rw [visit.advanced_eq.2]
  split_ifs at hRtr with hMissing
  · rw [List.mem_singleton.mp hRtr] at hSeq
    exact le_of_mem_missingSeqs hSeq
  · cases hRtr

namespace RingState

variable [NeZero n]
variable {segment : Fin n → Nat}
variable {I : Installation n}
variable {σ : RingState n Body}
variable {now : Nat}
variable {i : Fin n}
variable {place : Nat}
variable {copy : Envelope n}
variable {answer : Answer n Body}
variable {sending : Sending n Body}
variable {handled : Handled n Body}

variable
  (hAcknowledged : σ.Acknowledged I now)
  (hAccepts : σ.Accepts segment i place copy)
  (visit :
    Visit ⟨i, segment i⟩ (σ.daemons i) copy.token answer
      sending handled)

include hAcknowledged hAccepts

/- The token knows of all packets that were sent. -/
theorem Acknowledged.seq_eq :
    max (σ.daemons i).highestSeq copy.token.seq =
      σ.sent.length := by
  have hHighest := hAcknowledged.counts.highestSeq_le i
  rcases hAcknowledged.lastHandled with hFresh | ⟨last, hHandled⟩
  · have hRound :=
      (hAcknowledged.circulates.next_of_accepts hAccepts).1
    have hZero :=
      (hFresh.copies copy
        (List.mem_of_getElem? hAccepts.place) hRound).1
    rw [hFresh.sent, List.length_nil] at hHighest ⊢
    omega
  · have hCopy :=
      hHandled.current_of_accepts hAcknowledged.circulates
        hAccepts
    have hSeq : copy.token.seq = σ.sent.length := by
      rw [← hHandled.seq]
      exact congrArg Acknowledgement.seq
        (hHandled.copies copy hCopy)
    omega

include visit

theorem Acknowledged.highestSeq_eq :
    handled.state.highestSeq =
      (σ.pass i handled).sent.length := by
  rw [visit.highestSeq_eq, hAcknowledged.seq_eq hAccepts]
  exact List.length_append.symm

theorem Acknowledged.counts_pass :
    (σ.pass i handled).Counts := by
  have hHighest := hAcknowledged.highestSeq_eq hAccepts visit
  have hCounts := hAcknowledged.counts
  refine ⟨?_, ?_, ?_⟩
  · intro p
    by_cases hMe : p = i
    · subst hMe
      simp only [RingState.pass, Function.update_self]
      exact visit.myAru_le_highestSeq (hCounts.myAru_le p)
    · simp only [RingState.pass, Function.update_of_ne hMe]
      exact hCounts.myAru_le p
  · intro p
    by_cases hMe : p = i
    · subst hMe
      rw [← hHighest]
      simp only [RingState.pass, Function.update_self,
        Nat.le_refl]
    · simp only [RingState.pass, Function.update_of_ne hMe,
        List.length_append]
      exact (hCounts.highestSeq_le p).trans
        (Nat.le_add_right _ _)
  · intro k p hPlace
    simp only [RingState.pass] at hPlace
    rw [List.getElem?_append] at hPlace
    split_ifs at hPlace with hOld
    · exact hCounts.seq k p hPlace
    · rw [visit.packets] at hPlace
      have hSeq := visit.sends.seqs _ p hPlace
      have hTop := hAcknowledged.seq_eq hAccepts
      simp only [ProtocolState.heard] at hSeq
      omega

/- The visit of a daemon, when it is not the first one. -/
theorem LastHandled.next_visit
    {last : Fin n}
    (hHandled : σ.LastHandled I now last)
    (hEarned :
      (σ.daemons i).setAru = some copy.token.aru →
        copy.token.aruLastId = some i ∨
          copy.token.aru = copy.token.seq) :
    copy.token.ack = (σ.daemons last).lastToken.ack ∧
      Acknowledgement.Visit copy.token.ack σ.site i now
        handled.state.myAru handled.state.highestSeq := by
  have hCirculates := hAcknowledged.circulates
  have hNow := hCirculates.next_of_accepts hAccepts
  have hHighest := visit.highestSeq_eq
  refine ⟨hHandled.copies copy
    (hHandled.current_of_accepts hCirculates hAccepts), ?_⟩
  exact
    { first := fun p hOther =>
        hCirculates.turn.first hNow.2.1 hOther
      later := hCirculates.turn.before
      more := visit.myAru_le
      seq_le := by
        simp only [Token.ack]
        omega
      received_le :=
        visit.myAru_le_highestSeq
          (hAcknowledged.counts.myAru_le i)
      earned := hEarned }

/- The visit, as the token and the sites see it. -/
theorem Acknowledged.exists_pass
    (hEarned :
      (σ.daemons i).setAru = some copy.token.aru →
        copy.token.aruLastId = some i ∨
          copy.token.aru = copy.token.seq) :
    Consistent handled.state.lastToken.ack
        (σ.pass i handled).site ∧
      Bounded window handled.state.lastToken.ack
        (σ.pass i handled).site ∧
      (I.Clean →
        Marked handled.state.lastToken.ack
          (σ.pass i handled).site) := by
  have hCirculates := hAcknowledged.circulates
  have hNow := hCirculates.next_of_accepts hAccepts
  have hReceived :=
    visit.myAru_le_highestSeq
      (hAcknowledged.counts.myAru_le i)
  have hHighest := visit.highestSeq_eq
  have hTop := hAcknowledged.seq_eq hAccepts
  rcases visit.length_packets_le with ⟨hLimit, hGap⟩
  rcases site_pass hCirculates hAccepts visit with
    ⟨hSite, hAck⟩
  rw [hSite, hAck]
  rcases hAcknowledged.lastHandled with hFresh | ⟨last, hHandled⟩
  · have hMe : i = I.first := by
      have hTurn := hFresh.turn
      exact time_injective σ.rounds (by omega)
    rw [hFresh.sent, List.length_nil] at hTop
    rcases hFresh.copies copy
        (List.mem_of_getElem? hAccepts.place) hNow.1 with
      ⟨hSeq, hAru⟩
    have hFirst :
        FirstVisit copy.token.ack σ.site i now
          handled.state.myAru handled.state.highestSeq :=
      { fresh := fun p => hFresh.site p
        later := hCirculates.turn.before
        received_le := hReceived
        sets := by
          rcases hAru with hZero | ⟨hLast, _⟩
          · exact Or.inl
              (Or.inr (Or.inr (hZero.trans hSeq.symm)))
          · right
            simp only [Token.ack, maxPacketsPerToken] at *
            omega }
    refine ⟨hFirst.consistent, hFirst.bounded ?_, ?_⟩
    · simp only [window]
      omega
    · intro hClean
      refine hFirst.marked ?_
      rcases hAru with hZero | ⟨_, hSetter⟩
      · exact Or.inr (Or.inr (hZero.trans hSeq.symm))
      · exact Or.inr (Or.inl (hMe ▸ hSetter hClean))
  · rcases
        hHandled.next_visit hAcknowledged hAccepts visit
          hEarned with
      ⟨hCurrent, hVisit⟩
    have hFlows :
        Flows window copy.token.ack (σ.site i)
          handled.state.highestSeq := by
      have hSeq : copy.token.seq = σ.sent.length := by
        rw [← hHandled.seq]
        exact congrArg Acknowledgement.seq hCurrent
      by_cases hMore :
          (σ.daemons i).aru + maxSeqGap <
            max (σ.daemons i).highestSeq copy.token.seq
      · left
        rw [hHighest, hGap hMore, hTop]
        exact hSeq.symm
      · right
        simp only [site, window]
        omega
    have hConsistent :
        Consistent copy.token.ack σ.site :=
      hCurrent ▸ hHandled.consistent
    have hBounded :
        Bounded window copy.token.ack σ.site :=
      hCurrent ▸ hHandled.bounded
    refine ⟨hConsistent.pass hVisit,
      hBounded.pass hConsistent hVisit hFlows, ?_⟩
    intro hClean
    have hMarked : Marked copy.token.ack σ.site :=
      hCurrent ▸ hHandled.marked hClean
    exact hMarked.pass hConsistent hVisit

/- What a daemon knows to be received only grows. -/
theorem Acknowledged.aru_le
    (hEarned :
      (σ.daemons i).setAru = some copy.token.aru →
        copy.token.aruLastId = some i ∨
          copy.token.aru = copy.token.seq) :
    (σ.daemons i).aru ≤ handled.state.aru := by
  rcases hAcknowledged.lastHandled with hFresh | ⟨last, hHandled⟩
  · have hZero : (σ.daemons i).aru = 0 :=
      congrArg AckSite.stable (hFresh.site i)
    rw [hZero]
    exact Nat.zero_le _
  · rcases
        hHandled.next_visit hAcknowledged hAccepts visit
          hEarned with
      ⟨hCurrent, hVisit⟩
    have hConsistent :
        Consistent copy.token.ack σ.site :=
      hCurrent ▸ hHandled.consistent
    have hGrows :=
      hConsistent.stable_le_pass hVisit
        (hHandled.bounded.stable_le_aru i)
    have hSite :=
      congrFun
        (site_pass hAcknowledged.circulates hAccepts visit).1 i
    rw [passAll_same] at hSite
    rw [← hSite] at hGrows
    have hNew : ((σ.pass i handled).site i).stable =
        handled.state.aru := by
      simp only [site, RingState.pass, Function.update_self]
    exact hGrows.trans (Nat.le_of_eq hNew)

/- After the visit, the daemon was the last one. -/
theorem Acknowledged.lastHandled_pass
    (hEarned :
      (σ.daemons i).setAru = some copy.token.aru →
        copy.token.aruLastId = some i ∨
          copy.token.aru = copy.token.seq) :
    (σ.pass i handled).LastHandled I (now + 1) i := by
  have hCirculates := hAcknowledged.circulates
  have hState :
      (σ.pass i handled).daemons i = handled.state :=
    Function.update_self _ _ _
  rcases hAcknowledged.exists_pass hAccepts visit hEarned with
    ⟨hConsistent, hBounded, hMarked⟩
  have hCopies :
      ∀ c, (σ.pass i handled).CurrentCopy i c →
        c.token = handled.state.lastToken := by
    rintro c ⟨hCopy, hSource, hRound⟩
    rcases mem_tokens_pass visit.token_eq hCopy with
      hOld | rfl
    · have hLess := hCirculates.round_le c hOld
      simp only [RingState.pass, Function.update_self] at hRound
      rw [hSource] at hLess
      omega
    · rfl
  refine
    { turn := ?_
      consistent := hState.symm ▸ hConsistent
      bounded := hState.symm ▸ hBounded
      marked := fun hClean => hState.symm ▸ hMarked hClean
      seq := ?_
      copies := ?_
      requests := ?_ }
  · have hNow := (hCirculates.next_of_accepts hAccepts).2.1
    simp only [RingState.pass, time_update_same]
    omega
  · rw [hState, visit.lastToken_eq,
      ← hAcknowledged.highestSeq_eq hAccepts visit,
      visit.advanced_eq.1]
    rfl
  · intro c hCopy
    rw [hState, hCopies c hCopy]
  · intro c hCopy rtr hRtr seq hSeq p
    rw [hCopies c hCopy] at hRtr
    have hMissing := visit.myAru_lt_of_request hRtr hSeq
    have hStable := hConsistent.stable_le p i
    have hMine :
        ((σ.pass i handled).site i).received =
          handled.state.myAru := by
      rw [site, hState]
    rw [hMine] at hStable
    exact Nat.le_of_lt (hStable.trans_lt hMissing)

/- A visit keeps all numbers, if its number was earned. -/
theorem Acknowledged.pass
    (hEarned :
      (σ.daemons i).setAru = some copy.token.aru →
        copy.token.aruLastId = some i ∨
          copy.token.aru = copy.token.seq) :
    (σ.pass i handled).Acknowledged I (now + 1) :=
  ⟨hAcknowledged.circulates.pass hAccepts visit,
    hAcknowledged.counts_pass hAccepts visit,
    Or.inr ⟨i, hAcknowledged.lastHandled_pass hAccepts visit hEarned⟩⟩

end RingState

end Protocol

end ReplicatedAccount

------------------------------------------------------------
-- Runs
------------------------------------------------------------

namespace ReplicatedAccount

namespace Protocol

open Foundations RoundRobin Acknowledgement

variable {n : Nat}
variable {Body : Type}
variable [NeZero n]
variable {segment : Fin n → Nat}
variable {I : Installation n}
variable {σ σ' : RingState n Body}

theorem Installation.acknowledged
    (I : Installation n)
    (Body : Type) :
    (I.start : RingState n Body).Acknowledged I
      (time I.rounds I.first + n) where
  circulates := I.circulates Body
  counts :=
    { myAru_le := fun _ => Nat.le_refl _
      highestSeq_le := fun _ => Nat.le_refl _
      seq := by simp [Installation.start] }
  lastHandled := by
    refine Or.inl ⟨rfl, ?_, rfl, ?_⟩
    · intro i
      simp only [RingState.site, Installation.start,
        Installation.daemon, AckSite.fresh, I.last_seq,
        I.last_aru]
    · intro copy hCopy hRound
      rcases List.mem_cons.mp hCopy with rfl | hStale
      · exact ⟨I.token_seq, Or.inr ⟨I.token_aru, id⟩⟩
      · have hLess := I.stale_round copy hStale
        simp only [Installation.start,
          Installation.rounds] at hRound
        omega

namespace RingState

/- What the token says, all daemons have received. -/
theorem Acknowledged.aru_le_myAru
    {now : Nat}
    (hAcknowledged : σ.Acknowledged I now)
    (p q : Fin n) :
    (σ.daemons p).aru ≤ (σ.daemons q).myAru := by
  rcases hAcknowledged.lastHandled with hFresh | ⟨last, hHandled⟩
  · have hZero : (σ.site p).stable = 0 := by
      rw [hFresh.site p]
      rfl
    exact (Nat.le_of_eq hZero).trans (Nat.zero_le _)
  · exact hHandled.consistent.stable_le p q

/- The packets that are not known to be received are few. -/
theorem Acknowledged.length_sent_le
    {now : Nat}
    (hAcknowledged : σ.Acknowledged I now)
    (p : Fin n) :
    σ.sent.length ≤ (σ.daemons p).aru + 3 * window := by
  rcases hAcknowledged.lastHandled with hFresh | ⟨last, hHandled⟩
  · rw [hFresh.sent]
    exact Nat.zero_le _
  · rw [← hHandled.seq]
    exact hHandled.bounded.seq_le p

theorem Acknowledged.step
    {now : Nat}
    (hAcknowledged : σ.Acknowledged I now)
    (hSourced : σ.Sourced)
    {a : RingAction n Body}
    (hEarned : σ.Earned segment a)
    (hStep : σ.step segment a = some σ') :
    ∃ now', σ'.Acknowledged I now' := by
  rcases quiet_or_visit hStep with
    hQuiet | ⟨i, place, copy, answer, sending, handled, rfl,
      hAccepts, visit, _, rfl⟩
  · exact ⟨now, hAcknowledged.quiet hSourced hQuiet⟩
  · exact ⟨now + 1,
      hAcknowledged.pass hAccepts visit
        (hEarned copy hAccepts)⟩

/- In a clean membership every number is earned. -/
theorem Acknowledged.earned
    {now : Nat}
    (hAcknowledged : σ.Acknowledged I now)
    (hClean : I.Clean)
    (a : RingAction n Body) :
    σ.Earned segment a := by
  cases a with
  | token i place =>
      intro copy hAccepts hMine
      rcases hAcknowledged.lastHandled with
        hFresh | ⟨last, hHandled⟩
      · have hNone : (σ.daemons i).setAru = none :=
          congrArg AckSite.mark (hFresh.site i)
        rw [hNone] at hMine
        cases hMine
      · have hCurrent :=
          hHandled.copies copy
            (hHandled.current_of_accepts hAcknowledged.circulates
              hAccepts)
        have hMarked : Marked copy.token.ack σ.site :=
          hCurrent ▸ hHandled.marked hClean
        exact hMarked.earned i hMine
  | submit i link => trivial
  | bcast i places => trivial
  | hurry => trivial

end RingState

end Protocol

end ReplicatedAccount
