import ReplicatedAccount.Spread.Recovery

/-
  What was sent can always still be delivered everywhere, even
  when all packets that are in the network are lost.

  A packet is sent again until all daemons have it, and a round
  of the token is then enough for all to have counted it.  In
  three more rounds the number on the token is raised, seen by
  all daemons and known to be stable.

  Key definitions include:
    * `Visited`
    * `Reached`

  Key theorems include:
    * `Live.visited`
    * `Live.round`
    * `Live.exists_known`
    * `every_message_can_be_delivered`
-/

------------------------------------------------------------
-- One Visit After Another
------------------------------------------------------------

namespace ReplicatedAccount

namespace Protocol

open Foundations RoundRobin

variable {n : Nat}
variable {Body : Type}
variable [NeZero n]

/- What a visit does. -/
structure Visited
    (I : Installation n)
    (σ σ' : RingState n Body)
    (now : Nat)
    (i : Fin n) : Prop where
  rounds :
    σ'.rounds = Function.update σ.rounds i (σ.rounds i + 1)
  grows : σ.Grows σ'
  counted :
    ∀ top, top ≤ σ.sent.length →
      (∀ seq, seq ≤ top → Covers (σ.daemons i) seq) →
        top ≤ (σ'.daemons i).myAru
  others :
    ∀ p, p ≠ i →
      (σ'.daemons p).lastToken.aru =
          (σ.daemons p).lastToken.aru ∧
        (σ'.daemons p).aru = (σ.daemons p).aru
  aru :
    (σ'.daemons i).aru =
      min (σ'.daemons i).lastToken.aru
        (σ.daemons i).lastToken.aru
  token :
    ∀ last, σ.LastHandled I now last →
      (σ'.daemons i).lastToken.aru = (σ'.daemons i).myAru ∨
        (σ'.daemons i).lastToken.aru =
            (σ.daemons last).lastToken.aru ∧
          (σ'.daemons i).lastToken.aruLastId =
            (σ.daemons last).lastToken.aruLastId ∧
          (σ.daemons last).lastToken.aruLastId ≠ some i
  lastHandled : σ'.LastHandled I (now + 1) i

variable {segment : Fin n → Nat}
variable {I : Installation n}
variable {σ σ' : RingState n Body}
variable {now : Nat}

theorem Live.visited
    (hLive : Live I σ now)
    (hClean : I.Clean)
    (segment : Fin n → Nat) :
    ∃ cs σ' i,
      Leads segment I σ cs σ' ∧
        Live I σ' (now + 1) ∧ Visited I σ σ' now i := by
  rcases hLive.visit hClean segment with
    ⟨cs, τ, i, place, copy, handled, hLeads, hCalm, hLiveτ,
      hGrows, _, hAccepts, hResult, hLive'⟩
  rcases acceptToken_eq_some hResult with
    ⟨answer, sending, visit⟩
  have hAcknowledged := hLiveτ.acknowledged
  have hEarned : τ.Earned segment (.token i place) :=
    hAcknowledged.earned hClean _
  have hState :
      (τ.pass i handled).daemons i = handled.state :=
    Function.update_self _ _ _
  have hOther :
      ∀ p, p ≠ i →
        (τ.pass i handled).daemons p = τ.daemons p :=
    fun p hMe => Function.update_of_ne hMe _ _
  refine ⟨cs, _, i, hLeads, hLive', ?_⟩
  refine
    { rounds := ?_
      grows := hLive.grows_run hClean hLeads.1
      counted := ?_
      others := ?_
      aru := ?_
      token := ?_
      lastHandled :=
        hAcknowledged.lastHandled_pass hAccepts visit
          (hEarned copy hAccepts) }
  · rw [← hCalm.rounds]
    rfl
  · intro top hTop hCovers
    have hSent := hTop.trans hGrows.sent.length_le
    rw [hState]
    refine visit.le_myAru ?_
      (hAcknowledged.aru_le_myAru _ _) ?_
    · rw [hAcknowledged.seq_eq hAccepts]
      exact hSent
    · intro seq _ hLess
      exact hGrows.covers i seq (hLess.trans hTop)
        (hCovers seq hLess)
  · intro p hMe
    rw [hOther p hMe]
    exact ⟨(hCalm.keeps p).lastToken.aru, (hCalm.keeps p).aru⟩
  · rw [hState, visit.aru_eq, (hCalm.keeps i).lastToken.aru]
  · intro last hHandled
    have hHandledτ := hCalm.lastHandled I now last hHandled
    have hAck :=
      hHandledτ.copies copy
        (hHandledτ.current_of_accepts hAcknowledged.circulates
          hAccepts)
    have hAru : copy.token.aru = (σ.daemons last).lastToken.aru :=
      (congrArg Acknowledgement.aru hAck).trans
        (hCalm.keeps last).lastToken.aru
    have hSetter :
        copy.token.aruLastId =
          (σ.daemons last).lastToken.aruLastId :=
      (congrArg Acknowledgement.setter hAck).trans
        (hCalm.keeps last).lastToken.aruLastId
    rw [hState, ← hAru, ← hSetter]
    rcases visit.aru_cases with
      ⟨hMine, _⟩ | ⟨hSame, hSame', hNot, _⟩
    · exact Or.inl hMine
    · exact Or.inr ⟨hSame, hSame', hNot⟩

/- In a round, every daemon is visited. -/
theorem Live.round
    (Inv : RingState n Body → Nat → Prop)
    (Good : RingState n Body → Fin n → Prop)
    (hInv :
      ∀ σ σ' now i,
        Live I σ now → Visited I σ σ' now i → Inv σ now →
          Inv σ' (now + 1) ∧ Good σ' i ∧
            ∀ p, p ≠ i → Good σ p → Good σ' p)
    (hLive : Live I σ now)
    (hClean : I.Clean)
    (segment : Fin n → Nat)
    (hStart : Inv σ now) :
    ∃ cs σ',
      Leads segment I σ cs σ' ∧
        Live I σ' (now + n) ∧ Inv σ' (now + n) ∧
          (∀ p, now ≤ time σ'.rounds p) ∧
            ∀ p, Good σ' p := by
  have hVisits :
      ∀ k, ∃ cs σ',
        Leads segment I σ cs σ' ∧
          Live I σ' (now + k) ∧ Inv σ' (now + k) ∧
            ∀ p, now ≤ time σ'.rounds p → Good σ' p := by
    intro k
    induction k with
    | zero =>
        refine ⟨[], σ, .refl segment I σ, hLive, hStart, ?_⟩
        intro p hLate
        have hBefore :=
          hLive.acknowledged.circulates.turn.before p
        omega
    | succ k ih =>
        rcases ih with
          ⟨cs, τ, hRun, hLiveτ, hInvτ, hGood⟩
        rcases hLiveτ.visited hClean segment with
          ⟨cs', σ', i, hRun', hLive', hVisited⟩
        rcases hInv τ σ' _ i hLiveτ hVisited hInvτ with
          ⟨hInv', hMine, hKept⟩
        refine ⟨cs ++ cs', σ', ?_, hLive', hInv', ?_⟩
        · exact hRun.trans hLive hClean hRun'
        · intro p hLate
          by_cases hMe : p = i
          · exact hMe ▸ hMine
          · rw [hVisited.rounds, time_update_of_ne _ hMe] at hLate
            exact hKept p hMe (hGood p hLate)
  rcases hVisits n with
    ⟨cs, σ', hRun, hLive', hInv', hGood⟩
  have hAll : ∀ p, now ≤ time σ'.rounds p := by
    intro p
    have hRecent :=
      hLive'.acknowledged.circulates.turn.recent p
    omega
  exact ⟨cs, σ', hRun, hLive', hInv', hAll,
    fun p => hGood p (hAll p)⟩

end Protocol

end ReplicatedAccount

------------------------------------------------------------
-- Rounds
------------------------------------------------------------

namespace ReplicatedAccount

namespace Protocol

open Foundations RoundRobin

variable {n : Nat}
variable {Body : Type}
variable [NeZero n]

/- All daemons have received the packets that were sent then. -/
structure Reached
    (I : Installation n)
    (sent : List (Packet n Body))
    (σ : RingState n Body)
    (now : Nat) : Prop where
  before : sent <+: σ.sent
  myAru : ∀ p, sent.length ≤ (σ.daemons p).myAru
  lastHandled : ∃ last, σ.LastHandled I now last

variable {segment : Fin n → Nat}
variable {I : Installation n}
variable {sent : List (Packet n Body)}
variable {σ σ' : RingState n Body}
variable {now : Nat}
variable {i : Fin n}

theorem Reached.visited
    (hReached : Reached I sent σ now)
    (hVisited : Visited I σ σ' now i) :
    Reached I sent σ' (now + 1) where
  before := hReached.before.trans hVisited.grows.sent
  myAru p := (hReached.myAru p).trans (hVisited.grows.myAru_le p)
  lastHandled := ⟨i, hVisited.lastHandled⟩

/- One more packet is counted by all daemons. -/
theorem Live.count
    (hLive : Live I σ now)
    (hClean : I.Clean)
    (segment : Fin n → Nat)
    {m : Nat}
    (hAll : ∀ p, m ≤ (σ.daemons p).myAru)
    (hSent : m < σ.sent.length) :
    ∃ cs σ' now',
      Leads segment I σ cs σ' ∧ Live I σ' now' ∧
        ∀ p, m + 1 ≤ (σ'.daemons p).myAru := by
  rcases hLive.spread hClean segment hAll hSent with
    ⟨cs, τ, now', hLeads, hLiveτ, hCovers⟩
  have hGrows := hLive.grows_run hClean hLeads.1
  have hRound :=
    Live.round
      (fun υ _ =>
        m + 1 ≤ υ.sent.length ∧
          (∀ p, m ≤ (υ.daemons p).myAru) ∧
            ∀ p, Covers (υ.daemons p) (m + 1))
      (fun υ p => m + 1 ≤ (υ.daemons p).myAru)
      ?_ hLiveτ hClean segment
      ⟨hSent.trans_le hGrows.sent.length_le,
        fun p => (hAll p).trans (hGrows.myAru_le p), hCovers⟩
  · rcases hRound with ⟨cs', σ', hLeads', hLive', _, _, hGood⟩
    exact ⟨cs ++ cs', σ', _,
      hLeads.trans hLive hClean hLeads', hLive', hGood⟩
  · rintro υ υ' now'' i hLiveυ hVisited ⟨hMore, hBefore, hHas⟩
    refine ⟨⟨hMore.trans hVisited.grows.sent.length_le,
      fun p => (hBefore p).trans (hVisited.grows.myAru_le p),
      fun p => hVisited.grows.covers p (m + 1) hMore (hHas p)⟩,
      ?_, ?_⟩
    · refine hVisited.counted (m + 1) hMore ?_
      intro seq hLess
      rcases Nat.lt_or_ge m seq with hLast | hOld
      · have hSame : seq = m + 1 :=
          Nat.le_antisymm hLess hLast
        exact hSame ▸ hHas i
      · exact (hLiveυ.agreed.holds i).covers
          (hOld.trans (hBefore i))
    · intro p _ hOld
      exact hOld.trans (hVisited.grows.myAru_le p)

/- Packet by packet, everything is received. -/
theorem Live.receive
    (hLive : Live I σ now)
    (hClean : I.Clean)
    (segment : Fin n → Nat)
    {m : Nat}
    (hSent : m ≤ σ.sent.length) :
    ∃ cs σ' now',
      Leads segment I σ cs σ' ∧ Live I σ' now' ∧
        ∀ p, m ≤ (σ'.daemons p).myAru := by
  induction m with
  | zero =>
      exact ⟨[], σ, now, .refl segment I σ, hLive,
        fun _ => Nat.zero_le _⟩
  | succ m ih =>
      rcases ih (Nat.le_of_succ_le hSent) with
        ⟨cs, τ, now', hLeads, hLiveτ, hAll⟩
      have hGrows := hLive.grows_run hClean hLeads.1
      rcases hLiveτ.count hClean segment hAll
          (Nat.lt_of_lt_of_le hSent hGrows.sent.length_le) with
        ⟨cs', σ', now'', hLeads', hLive', hMore⟩
      exact ⟨cs ++ cs', σ', now'',
        hLeads.trans hLive hClean hLeads', hLive', hMore⟩

/- A round later, the token has been handled by all. -/
theorem Live.reach
    (hLive : Live I σ now)
    (hClean : I.Clean)
    (segment : Fin n → Nat) :
    ∃ cs σ' now',
      Leads segment I σ cs σ' ∧ Live I σ' now' ∧
        Reached I σ.sent σ' now' := by
  rcases hLive.receive hClean segment le_rfl with
    ⟨cs, τ, now', hLeads, hLiveτ, hAll⟩
  have hGrows := hLive.grows_run hClean hLeads.1
  rcases hLiveτ.visited hClean segment with
    ⟨cs', σ', i, hLeads', hLive', hVisited⟩
  exact ⟨cs ++ cs', σ', now' + 1,
    hLeads.trans hLive hClean hLeads', hLive',
    hGrows.sent.trans hVisited.grows.sent,
    fun p => (hAll p).trans (hVisited.grows.myAru_le p),
    i, hVisited.lastHandled⟩

/- The second round: the setter of the number raises it. -/
theorem Live.raise
    (hLive : Live I σ now)
    (hClean : I.Clean)
    (segment : Fin n → Nat)
    (hReached : Reached I sent σ now) :
    ∃ cs σ',
      Leads segment I σ cs σ' ∧
        Live I σ' (now + n) ∧ Reached I sent σ' (now + n) ∧
          ∃ last, σ'.LastHandled I (now + n) last ∧
            sent.length ≤ (σ'.daemons last).lastToken.aru := by
  have hRound :=
    Live.round
      (fun τ now' =>
        Reached I sent τ now' ∧ ∃ last, τ.LastHandled I now' last ∧
          (sent.length ≤ (τ.daemons last).lastToken.aru ∨
            ∃ r, (τ.daemons last).lastToken.aruLastId = some r ∧
              time τ.rounds r < now))
      (fun _ _ => True) ?_ hLive hClean segment ?_
  · rcases hRound with
      ⟨cs, σ', hRun, hLive', ⟨hReached', last, hHandled, hCases⟩,
        hAll, _⟩
    refine ⟨cs, σ', hRun, hLive', hReached', last, hHandled, ?_⟩
    rcases hCases with hDone | ⟨r, _, hLess⟩
    · exact hDone
    · exact absurd (hAll r) (Nat.not_le.mpr hLess)
  · rintro τ τ' now' i _ hVisited
      ⟨hReachedτ, last, hHandled, hCases⟩
    refine
      ⟨⟨hReachedτ.visited hVisited, i, hVisited.lastHandled,
          ?_⟩,
        trivial, fun _ _ _ => trivial⟩
    rcases hVisited.token last hHandled with
      hMine | ⟨hSame, hSetter, hNot⟩
    · left
      rw [hMine]
      exact (hReachedτ.visited hVisited).myAru i
    · rw [hSame, hSetter]
      rcases hCases with hDone | ⟨r, hSet, hLess⟩
      · exact Or.inl hDone
      · have hOther : r ≠ i := by
          rintro rfl
          exact hNot hSet
        refine Or.inr ⟨r, hSet, ?_⟩
        rw [hVisited.rounds, time_update_of_ne _ hOther]
        exact hLess
  · rcases hReached.lastHandled with ⟨last, hHandled⟩
    refine ⟨hReached, last, hHandled, ?_⟩
    rcases hLive.claimed.last last with hSome | hAll
    · rcases Option.ne_none_iff_exists'.mp hSome with ⟨r, hSet⟩
      exact Or.inr
        ⟨r, hSet, hLive.acknowledged.circulates.turn.before r⟩
    · left
      rw [hAll, hHandled.seq]
      exact hReached.before.length_le

/- The third round: all daemons have seen that number. -/
theorem Live.see
    (hLive : Live I σ now)
    (hClean : I.Clean)
    (segment : Fin n → Nat)
    (hReached : Reached I sent σ now)
    {last : Fin n}
    (hHandled : σ.LastHandled I now last)
    (hToken : sent.length ≤ (σ.daemons last).lastToken.aru) :
    ∃ cs σ',
      Leads segment I σ cs σ' ∧
        Live I σ' (now + n) ∧ Reached I sent σ' (now + n) ∧
          ∀ p, sent.length ≤ (σ'.daemons p).lastToken.aru := by
  have hRound :=
    Live.round
      (fun τ now' =>
        Reached I sent τ now' ∧ ∃ last, τ.LastHandled I now' last ∧
          sent.length ≤ (τ.daemons last).lastToken.aru)
      (fun τ p =>
        sent.length ≤ (τ.daemons p).lastToken.aru)
      ?_ hLive hClean segment ⟨hReached, last, hHandled, hToken⟩
  · rcases hRound with
      ⟨cs, σ', hRun, hLive', ⟨hReached', _⟩, _, hGood⟩
    exact ⟨cs, σ', hRun, hLive', hReached', hGood⟩
  · rintro τ τ' now' i _ hVisited
      ⟨hReachedτ, last, hHandled, hToken⟩
    have hReached' := hReachedτ.visited hVisited
    have hNew : sent.length ≤ (τ'.daemons i).lastToken.aru := by
      rcases hVisited.token last hHandled with
        hMine | ⟨hSame, _⟩
      · rw [hMine]
        exact hReached'.myAru i
      · rw [hSame]
        exact hToken
    refine ⟨⟨hReached', i, hVisited.lastHandled, hNew⟩, hNew, ?_⟩
    intro p hMe hBefore
    rw [(hVisited.others p hMe).1]
    exact hBefore

/- The fourth round: all daemons know that it is so. -/
theorem Live.know
    (hLive : Live I σ now)
    (hClean : I.Clean)
    (segment : Fin n → Nat)
    (hReached : Reached I sent σ now)
    (hSeen :
      ∀ p, sent.length ≤ (σ.daemons p).lastToken.aru) :
    ∃ cs σ',
      Leads segment I σ cs σ' ∧
        Live I σ' (now + n) ∧ Reached I sent σ' (now + n) ∧
          ∀ p, sent.length ≤ (σ'.daemons p).aru := by
  have hRound :=
    Live.round
      (fun τ now' =>
        Reached I sent τ now' ∧
          ∀ p, sent.length ≤ (τ.daemons p).lastToken.aru)
      (fun τ p => sent.length ≤ (τ.daemons p).aru)
      ?_ hLive hClean segment ⟨hReached, hSeen⟩
  · rcases hRound with
      ⟨cs, σ', hRun, hLive', ⟨hReached', _⟩, _, hGood⟩
    exact ⟨cs, σ', hRun, hLive', hReached', hGood⟩
  · rintro τ τ' now' i _ hVisited ⟨hReachedτ, hSeenτ⟩
    have hReached' := hReachedτ.visited hVisited
    rcases hReachedτ.lastHandled with ⟨last, hHandled⟩
    have hNew : sent.length ≤ (τ'.daemons i).lastToken.aru := by
      rcases hVisited.token last hHandled with
        hMine | ⟨hSame, _⟩
      · rw [hMine]
        exact hReached'.myAru i
      · rw [hSame]
        exact hSeenτ last
    refine ⟨⟨hReached', ?_⟩, ?_, ?_⟩
    · intro p
      by_cases hMe : p = i
      · exact hMe ▸ hNew
      · rw [(hVisited.others p hMe).1]
        exact hSeenτ p
    · rw [hVisited.aru]
      exact Nat.le_min.mpr ⟨hNew, hSeenτ i⟩
    · intro p hMe hBefore
      rw [(hVisited.others p hMe).2]
      exact hBefore

/- Everything that was sent can become known to all. -/
theorem Live.exists_known
    (hLive : Live I σ now)
    (hClean : I.Clean)
    (segment : Fin n → Nat) :
    ∃ cs σ' now',
      Leads segment I σ cs σ' ∧
        Live I σ' now' ∧ σ.sent <+: σ'.sent ∧
          ∀ p, σ.sent.length ≤ (σ'.daemons p).aru := by
  rcases hLive.reach hClean segment with
    ⟨cs, τ, _, hRun, hLiveτ, hReached⟩
  rcases hLiveτ.raise hClean segment hReached with
    ⟨cs', τ', hRun', hLive', hReached', last, hHandled, hToken⟩
  rcases hLive'.see hClean segment hReached' hHandled hToken with
    ⟨ds, υ, hRunυ, hLiveυ, hReachedυ, hSeen⟩
  rcases hLiveυ.know hClean segment hReachedυ hSeen with
    ⟨ds', υ', hRunυ', hLiveυ', hReachedυ', hKnown⟩
  exact ⟨cs ++ (cs' ++ (ds ++ ds')), υ', _,
    hRun.trans hLive hClean
      (hRun'.trans hLiveτ hClean
        (hRunυ.trans hLive' hClean hRunυ')),
    hLiveυ', hReachedυ'.before, hKnown⟩

end Protocol

end ReplicatedAccount

------------------------------------------------------------
-- Delivery Everywhere
------------------------------------------------------------

namespace ReplicatedAccount

namespace Protocol

open Foundations

variable {n : Nat}
variable {Body : Type}

/- What is known to be received is delivered. -/
theorem RingState.Agreed.whole_subset
    {σ : RingState n Body}
    (hAgreed : σ.Agreed)
    {sent : List (Packet n Body)}
    (hPrefix : sent <+: σ.sent)
    {a : Assembly (Packet n Body) (Option (Fin n))
      (Fragment Body)}
    (hPart : packetFraming.assemble sent = some a)
    {q : Fin n}
    (hKnown : sent.length ≤ (σ.daemons q).aru) :
    a.whole ⊆ (σ.daemons q).delivery.delivered := by
  have hSound := hAgreed.served.sound
  have hHolds := hAgreed.holds q
  have hDelivered := hHolds.tracks.discarded_le
  rw [hHolds.discarded] at hDelivered
  rcases hSound.assembles with ⟨b, hAll⟩
  rcases hPrefix with ⟨rest, hSent⟩
  rw [← hSent] at hAll
  rcases packetFraming.exists_assemble_of_append hAll with
    ⟨a', hSame, hRest⟩
  rw [hPart, Option.some.injEq] at hSame
  subst hSame
  have hMore := packetFraming.isPrefix_whole hRest
  rw [hSent] at hAll
  intro m hMember
  refine hHolds.tracks.mem_delivered hSound hAll
    (hMore.subset hMember) ?_
  rcases List.getElem?_of_mem
      (packetFraming.mem_of_mem_whole hPart hMember) with
    ⟨k, hPlace⟩
  have hLess := (List.getElem?_eq_some_iff.mp hPlace).1
  have hPlace' : σ.sent[k]? = some m.1 := by
    rw [← hSent, List.getElem?_append_left hLess]
    exact hPlace
  have hSeq := hSound.seq k _ hPlace'
  omega

variable [NeZero n]
variable {segment : Fin n → Nat}
variable {I : Installation n}
variable {as : List (RingAction n Body)}
variable {σ : RingState n Body}

/-
  Every run of a clean membership can go on so that all
  daemons deliver everything that some daemon has delivered,
  and all messages that were sent completely.  No packet that
  is in the network need arrive for this, and of the tokens
  there only the last one.
-/
theorem every_message_can_be_delivered
    (hClean : I.Clean)
    (hRun : (ringSystem Body segment I).run as = some σ) :
    ∃ bs σ',
      (ringSystem Body segment I).run (as ++ bs) = some σ' ∧
        (∀ a ∈ bs, σ.Anew a) ∧
        (∀ p q,
          (σ.daemons p).delivery.delivered ⊆
            (σ'.daemons q).delivery.delivered) ∧
        ∀ i, ∃ done,
          σ.submitted i =
              done ++ (σ.daemons i).downQueue.links ∧
            ∀ q,
              (done.map DownLink.message).Subperm
                (messagesOf i
                  (σ'.daemons q).delivery.delivered) := by
  rcases live_of_run hClean hRun with ⟨now, hLive⟩
  rcases hLive.exists_known hClean segment with
    ⟨bs, σ', now', hRun', hLive', hPrefix, hKnown⟩
  have hSound := hLive.agreed.served.sound
  rcases hLive.agreed.served.serves with ⟨a, hAll, hServes⟩
  have hWhole :
      ∀ q, a.whole ⊆ (σ'.daemons q).delivery.delivered :=
    fun q => hLive'.agreed.whole_subset hPrefix hAll (hKnown q)
  refine ⟨bs, σ', ?_, hRun'.2, ?_, ?_⟩
  · rw [TransitionSystem.run_append_iff]
    exact ⟨σ, hRun, hRun'.1⟩
  · intro p q
    exact List.Subset.trans
      ((hLive.agreed.holds p).tracks.delivered_subset hAll)
      (hWhole q)
  · intro i
    rcases (hServes i).messages with ⟨done, hSubmitted, hDone⟩
    refine ⟨done, hSubmitted, ?_⟩
    intro q
    have hNodup : a.whole.Nodup :=
      List.Nodup.of_map Prod.fst
        ((packetFraming.whole_sublist hAll).nodup hSound.nodup)
    rcases (List.subperm_of_subset hNodup (hWhole q)).filter
        (fun m => m.1.procId = i) with
      ⟨ms, hPerm, hSublist⟩
    rw [← hDone]
    exact ⟨_, hPerm.map _, hSublist.map _⟩

/- Daemon 1 has nothing yet, and can still get everything. -/
theorem threeMessages_can_be_delivered :
    ∃ σ : RingState 3 Nat,
      σ.deliveredAt 1 = [] ∧ σ.deliveredAt 2 = [3] ∧
        ∃ bs σ',
          (ringSystem Nat oneSegment
              (threeDaemons (some 0))).run
            (threeMessages.take 5 ++ bs) = some σ' ∧
          (∀ a ∈ bs, σ.Anew a) ∧
          (σ.daemons 2).delivery.delivered ⊆
            (σ'.daemons 1).delivery.delivered := by
  have hFirst :
      ((ringSystem Nat oneSegment (threeDaemons (some 0))).run
          (threeMessages.take 5)).map
        (fun σ => (σ.deliveredAt 1, σ.deliveredAt 2)) =
          some ([], [3]) := by
    decide +kernel
  rcases Option.map_eq_some_iff.mp hFirst with
    ⟨σ, hRun, hDelivered⟩
  rw [Prod.mk.injEq] at hDelivered
  rcases every_message_can_be_delivered threeDaemons_clean
      hRun with
    ⟨bs, σ', hRun', hAnew, hSubset, _⟩
  exact ⟨σ, hDelivered.1, hDelivered.2, bs, σ', hRun', hAnew,
    hSubset 2 1⟩

end Protocol

end ReplicatedAccount
