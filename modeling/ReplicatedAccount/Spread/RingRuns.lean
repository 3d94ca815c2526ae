import ReplicatedAccount.Spread.Sending
import ReplicatedAccount.Spread.Requests
import Mathlib.Data.List.Nodup

/-
  What holds of the packets in every run of the ring.

  No daemon ever ends with an `Alarm`, and each holds what it
  has received and not discarded.  This is so if a number on
  the token is only raised by a daemon that has set it, which
  is so in a clean membership.

  Key definitions include:
    * `Ready`
    * `RingState.Agreed`
    * `RingState.Extends`

  Key theorems include:
    * `Holds.acceptToken`
    * `RingState.Agreed.step`
    * `agreed_of_run`
    * `everyStep_of_clean`
-/

------------------------------------------------------------
-- Answers
------------------------------------------------------------

namespace ReplicatedAccount

namespace Protocol

variable {n : Nat}
variable {Body : Type}
variable {d : ProtocolState n Body}

theorem exists_answerRequest
    (me : Proc n)
    (rtr : RingRtr n)
    (answer : Answer n Body)
    {seq : Nat}
    (hAbove : d.aru ≤ seq) :
    ∃ answer', answerRequest me d rtr answer seq =
      some answer' := by
  rw [answerRequest, if_neg (Nat.not_lt.mpr hAbove)]
  split
  · exact ⟨_, rfl⟩
  · split_ifs
    · exact ⟨_, rfl⟩
    · exact ⟨_, rfl⟩

theorem exists_answerRequests
    (me : Proc n)
    (rtr : RingRtr n)
    (answer : Answer n Body)
    {seqs : List Nat}
    (hAbove : ∀ seq ∈ seqs, d.aru ≤ seq) :
    ∃ answer', answerRequests me d rtr answer seqs =
      some answer' := by
  induction seqs generalizing answer with
  | nil => exact ⟨answer, rfl⟩
  | cons seq seqs ih =>
      rcases exists_answerRequest me rtr answer
          (hAbove seq (by simp)) with
        ⟨next, hNext⟩
      rw [answerRequests, hNext]
      exact ih next fun seq' hMember =>
        hAbove seq' (by simp [hMember])

theorem exists_answerRings
    (me : Proc n)
    (answer : Answer n Body)
    {rtrs : List (RingRtr n)}
    (hAbove :
      ∀ rtr ∈ rtrs, ∀ seq ∈ rtr.seqs, d.aru ≤ seq) :
    ∃ answer', answerRings me d answer rtrs =
      some answer' := by
  induction rtrs generalizing answer with
  | nil => exact ⟨answer, rfl⟩
  | cons rtr rtrs ih =>
      rcases exists_answerRequests me rtr answer
          (hAbove rtr (by simp)) with
        ⟨next, hNext⟩
      rw [answerRings, hNext]
      exact ih next fun rtr' hMember =>
        hAbove rtr' (by simp [hMember])

/- Requests for packets that were not discarded are answered. -/
theorem exists_answerRetrans
    (me : Proc n)
    {rtrs : List (RingRtr n)}
    (hAbove :
      ∀ rtr ∈ rtrs, ∀ seq ∈ rtr.seqs, d.aru ≤ seq) :
    ∃ answer, answerRetrans me d rtrs = some answer := by
  rcases exists_answerRings me
      ⟨0, some me.id, some me.segIndex, ⟨0, 0⟩, []⟩ hAbove with
    ⟨answer, hAnswer⟩
  rw [answerRetrans, hAnswer]
  exact ⟨_, rfl⟩

end Protocol

end ReplicatedAccount

------------------------------------------------------------
-- Visits of the Token
------------------------------------------------------------

namespace ReplicatedAccount

namespace Protocol

open Foundations

variable {n : Nat}
variable {Body : Type}
variable {sent : List (Packet n Body)}
variable {submitted : Fin n → List (DownLink Body)}
variable {queues : Fin n → DownQueue Body}
variable {d : ProtocolState n Body}

theorem tokenAru_le
    (me : Proc n)
    (d : ProtocolState n Body)
    (token : Token n) :
    (tokenAru me d token).1 ≤ d.myAru := by
  unfold tokenAru
  split
  · exact Nat.le_refl _
  · split
    · exact Nat.le_refl _
    · rename_i hMore
      exact Nat.le_of_not_lt hMore

/- The end of the handler of the token, never an `Alarm`. -/
theorem Tracks.deliverPackets
    (hSound : Sound sent)
    {bound : Nat}
    (hTracks : Tracks sent d.myAru bound d.delivery)
    (hCounted : d.aru ≤ d.myAru)
    (hBound : d.aru ≤ bound)
    (numSent : Nat) :
    ∃ h,
      Protocol.deliverPackets d numSent =
          some { d with delivery := h } ∧
        Tracks sent d.myAru bound h ∧
        h.lastDiscarded = max d.delivery.lastDiscarded d.aru ∧
        d.delivery.delivered <+: h.delivered := by
  rcases hTracks.discardPackets hSound hCounted hBound with
    ⟨h, hDiscard, hTracks', hDiscarded, hPrefix⟩
  rcases hTracks'.deliverAgreedPackets hSound with
    ⟨h', hAgreed, hTracks'', hDelivers⟩
  rcases hTracks''.deliverReliablePackets hSound
      (d.highestSeq + 1 - numSent) numSent with
    ⟨h'', hReliable, hTracks''', hDelivers'⟩
  refine ⟨h'', ?_, hTracks''', ?_, ?_⟩
  · rw [Protocol.deliverPackets, hDiscard]
    dsimp only
    rw [hAgreed]
    dsimp only
    rw [hReliable]
  · rw [hDelivers'.discarded, hDelivers.discarded, hDiscarded]
  · exact hPrefix.trans
      (hDelivers.prefix_le.trans hDelivers'.prefix_le)

/- What other daemons hold when more packets were sent. -/
theorem Holds.extend
    (hHolds : Holds sent d)
    {packets : List (Packet n Body)}
    (hSound : Sound (sent ++ packets))
    (hLength : sent.length ≤ d.aru + 3 * window)
    (hPackets : packets.length ≤ maxPacketsPerToken) :
    Holds (sent ++ packets) d := by
  have hHighest := hHolds.highestSeq_le
  refine ⟨hHolds.tracks.extend hSound ?_, hHolds.discarded, ?_⟩
  · rw [hHolds.discarded, List.length_append]
    simp only [window, maxSeqGap, maxPacketsPerToken,
      maxPacketsInStruct] at *
    omega
  · rw [List.length_append]
    omega

/- What the token says is known, and no daemon is far behind. -/
structure Ready
    (sent : List (Packet n Body))
    (d : ProtocolState n Body)
    (token : Token n) : Prop where
  top : max d.highestSeq token.seq = sent.length
  length_le : sent.length ≤ d.aru + 3 * window
  requests :
    ∀ rtr ∈ token.rtr, ∀ seq ∈ rtr.seqs, d.aru ≤ seq

theorem Holds.acceptToken
    (me : Proc n)
    (hServed : Served sent submitted queues)
    (hQueue : queues me.id = d.downQueue)
    (hHolds : Holds sent d)
    {token : Token n}
    (hReady : Ready sent d token) :
    ∃ handled,
      Protocol.acceptToken me d token = some handled ∧
        Served (sent ++ handled.packets) submitted
          (Function.update queues me.id
            handled.state.downQueue) ∧
        (d.aru ≤ handled.state.aru →
          Holds (sent ++ handled.packets) handled.state) ∧
        d.delivery.delivered <+:
          handled.state.delivery.delivered := by
  rcases exists_answerRetrans me (d := d.heard token)
      hReady.requests with
    ⟨answer, hAnswer⟩
  have hLength :
      sent.length ≤ d.delivery.lastDiscarded + 3 * window := by
    rw [hHolds.discarded]
    exact hReady.length_le
  rcases exists_sendNewPackets (d := d.heard token) hServed
      hQueue hHolds.tracks hReady.top hLength answer.queue
      (d.heard token).highestSeq (d.heard token).aru
      token.flowControl with
    ⟨sending, hSending, hServed', hTracks, hSends⟩
  change Tracks _ d.myAru d.aru _ at hTracks
  have hMine : sending.state.myAru = d.myAru :=
    hSends.myAru_eq
  have hTop :
      sending.state.highestSeq =
        (sent ++ sending.packets).length := by
    rw [hSends.highestSeq_eq, List.length_append, ← hReady.top]
    rfl
  have hDiscarded :
      sending.state.delivery.lastDiscarded = d.aru :=
    hSends.lastDiscarded_eq.trans hHolds.discarded
  have hDelivered :
      sending.state.delivery.delivered =
        d.delivery.delivered :=
    hSends.delivered_eq
  have hCounted := hTracks.myAru_le
  rw [← hMine] at hTracks
  have hAdvanced :=
    hTracks.advance
      (k := sending.state.highestSeq - sending.state.myAru)
      (by rw [hMine, hTop]; omega)
  have hClaims :
      (sending.passed me answer token).aru ≤
        sending.state.advanced.myAru :=
    (Nat.min_le_left _ _).trans (tokenAru_le _ _ _)
  rcases Tracks.deliverPackets
      (d := sending.passed me answer token) hServed'.sound
      (hAdvanced.weaken
        (Nat.le_max_left d.aru
          (sending.passed me answer token).aru))
      hClaims (Nat.le_max_right _ _) sending.numSent with
    ⟨h, hDeliver, hTracks', hDiscarded', hPrefix⟩
  have hAccept :
      ∃ next,
        Protocol.acceptToken me d token =
          some
            ⟨{ sending.passed me answer token with
                delivery := h },
              answer.sends, sending.packets, next⟩ := by
    simp only [Protocol.acceptToken]
    rw [hAnswer]
    dsimp only
    rw [hSending]
    dsimp only
    simp only [Sending.passed, Sending.next] at hDeliver
    rw [hDeliver]
    exact ⟨_, rfl⟩
  rcases hAccept with ⟨next, hAccept⟩
  refine ⟨_, hAccept, hServed', ?_, ?_⟩
  · intro hGrows
    dsimp only at hGrows ⊢
    rw [Nat.max_eq_right hGrows] at hTracks'
    refine ⟨hTracks', ?_, Nat.le_of_eq hTop⟩
    rw [hDiscarded']
    exact (congrArg (max · _) hDiscarded).trans
      (Nat.max_eq_right hGrows)
  · exact hDelivered ▸ hPrefix

end Protocol

end ReplicatedAccount

------------------------------------------------------------
-- The Packets of the Ring
------------------------------------------------------------

namespace ReplicatedAccount

namespace Protocol

open Foundations

variable {n : Nat}
variable {Body : Type}

namespace RingState

/- Everything that holds of the packets at all times. -/
structure Agreed (σ : RingState n Body) : Prop where
  served :
    Served σ.sent σ.submitted fun i => (σ.daemons i).downQueue
  holds : ∀ i, Holds σ.sent (σ.daemons i)
  sourced : σ.Sourced
  alive : ∀ i, σ.exited i = false

/- What was delivered stays delivered. -/
def Extends (σ σ' : RingState n Body) : Prop :=
  ∀ i,
    (σ.daemons i).delivery.delivered <+:
      (σ'.daemons i).delivery.delivered

theorem Extends.refl
    (σ : RingState n Body) :
    Extends σ σ :=
  fun _ => List.prefix_rfl

theorem Extends.trans
    {σ σ' σ'' : RingState n Body}
    (hFirst : Extends σ σ')
    (hSecond : Extends σ' σ'') :
    Extends σ σ'' :=
  fun i => (hFirst i).trans (hSecond i)

variable {σ σ' : RingState n Body}
variable {i : Fin n}
variable {d : ProtocolState n Body}

/- Only one daemon has delivered more. -/
theorem Extends.of_update
    (hPrefix :
      (σ.daemons i).delivery.delivered <+: d.delivery.delivered)
    (hDaemons : σ'.daemons = Function.update σ.daemons i d) :
    Extends σ σ' := by
  intro j
  rw [hDaemons]
  by_cases hMe : j = i
  · subst hMe
    rw [Function.update_self]
    exact hPrefix
  · rw [Function.update_of_ne hMe]

/- The daemon that changes keeps its queue. -/
theorem Agreed.update
    (hAgreed : σ.Agreed)
    (hHolds : Holds σ.sent d)
    (hQueue : d.downQueue = (σ.daemons i).downQueue)
    (hDaemons : σ'.daemons = Function.update σ.daemons i d)
    (hSent : σ'.sent = σ.sent)
    (hNet : σ'.net = σ.net)
    (hSubmitted : σ'.submitted = σ.submitted)
    (hExited : σ'.exited = σ.exited) :
    σ'.Agreed where
  served := by
    have hSame :
        (fun j => (σ'.daemons j).downQueue) =
          fun j => (σ.daemons j).downQueue := by
      funext j
      rw [hDaemons]
      by_cases hMe : j = i
      · subst hMe
        rw [Function.update_self, hQueue]
      · rw [Function.update_of_ne hMe]
    rw [hSame, hSent, hSubmitted]
    exact hAgreed.served
  holds j := by
    rw [hDaemons, hSent]
    by_cases hMe : j = i
    · subst hMe
      rw [Function.update_self]
      exact hHolds
    · rw [Function.update_of_ne hMe]
      exact hAgreed.holds j
  sourced := by
    rw [Sourced, hNet, hSent]
    exact hAgreed.sourced
  alive := by
    rw [hExited]
    exact hAgreed.alive

theorem Agreed.submit
    (hAgreed : σ.Agreed)
    (i : Fin n)
    (link : DownLink Body) :
    Agreed
      { σ with
        daemons :=
          Function.update σ.daemons i
            (protNewMessage (σ.daemons i) link)
        submitted :=
          Function.update σ.submitted i
            (σ.submitted i ++ [link]) } where
  served := by
    refine ⟨hAgreed.served.seq, ?_⟩
    rcases hAgreed.served.serves with ⟨a, hAll, hServes⟩
    refine ⟨a, hAll, ?_⟩
    intro j
    dsimp only
    by_cases hMe : j = i
    · subst hMe
      rw [Function.update_self, Function.update_self]
      exact (hServes j).submit link
    · rw [Function.update_of_ne hMe, Function.update_of_ne hMe]
      exact hServes j
  holds j := by
    dsimp only
    by_cases hMe : j = i
    · subst hMe
      rw [Function.update_self]
      have hHolds := hAgreed.holds j
      exact ⟨hHolds.tracks, hHolds.discarded,
        hHolds.highestSeq_le⟩
    · rw [Function.update_of_ne hMe]
      exact hAgreed.holds j
  sourced := hAgreed.sourced
  alive := hAgreed.alive

theorem Agreed.mem_sent_of_mem_datagram
    (hAgreed : σ.Agreed)
    {segment : Fin n → Nat}
    {places : List Nat}
    {p : Packet n Body}
    (hMember : p ∈ σ.datagram segment i places) :
    p ∈ σ.sent := by
  rcases exists_of_mem_datagram hMember with ⟨t, hSent, rfl⟩
  exact hAgreed.sourced t hSent

/- A datagram is handled without an `Alarm`. -/
theorem Agreed.bcast
    (hAgreed : σ.Agreed)
    (segment : Fin n → Nat)
    (i : Fin n)
    (places : List Nat) :
    ∃ d,
      protHandleBcast (σ.daemons i)
          (σ.datagram segment i places) =
        some d ∧
      Agreed { σ with daemons := Function.update σ.daemons i d } ∧
      Gains (σ.daemons i) d ∧
      ∀ p ∈ σ.datagram segment i places, Covers d p.seq := by
  rcases (hAgreed.holds i).protHandleBcast hAgreed.served.sound
      (fun p => hAgreed.mem_sent_of_mem_datagram) with
    ⟨d, hResult, hHolds, hGains, hCovers⟩
  have hQueue : d.downQueue = (σ.daemons i).downQueue := by
    rw [(protHandleBcast_eq_some hResult).same]
  exact ⟨d, hResult,
    hAgreed.update hHolds hQueue rfl rfl rfl rfl rfl, hGains,
    hCovers⟩

variable [NeZero n]
variable {segment : Fin n → Nat}
variable {I : Installation n}
variable {now : Nat}

theorem Acknowledged.ready
    (hAcknowledged : σ.Acknowledged I now)
    {place : Nat}
    {copy : Envelope n}
    (hAccepts : σ.Accepts segment i place copy) :
    Ready σ.sent (σ.daemons i) copy.token where
  top := hAcknowledged.seq_eq hAccepts
  length_le := hAcknowledged.length_sent_le i
  requests := by
    intro rtr hRtr seq hSeq
    rcases hAcknowledged.lastHandled with
      hFresh | ⟨last, hHandled⟩
    · have hZero : (σ.daemons i).aru = 0 :=
        congrArg AckSite.stable (hFresh.site i)
      rw [hZero]
      exact Nat.zero_le _
    · have hCopy :=
        hHandled.current_of_accepts hAcknowledged.circulates
          hAccepts
      exact hHandled.requests copy hCopy rtr hRtr seq hSeq i

/- A token is handled without an `Alarm`. -/
theorem Agreed.token
    (hAgreed : σ.Agreed)
    (hAcknowledged : σ.Acknowledged I now)
    {place : Nat}
    (hEarned : σ.Earned segment (.token i place))
    {copy : Envelope n}
    (hAccepts : σ.Accepts segment i place copy) :
    ∃ handled,
      acceptToken ⟨i, segment i⟩ (σ.daemons i) copy.token =
          some handled ∧
        (σ.pass i handled).Agreed ∧
          Extends σ (σ.pass i handled) := by
  rcases (hAgreed.holds i).acceptToken
      ⟨i, segment i⟩ hAgreed.served rfl
      (hAcknowledged.ready hAccepts) with
    ⟨handled, hResult, hServed, hHolds, hPrefix⟩
  rcases acceptToken_eq_some hResult with
    ⟨answer, sending, visit⟩
  have hGrows :=
    hAcknowledged.aru_le hAccepts visit
      (hEarned copy hAccepts)
  refine ⟨handled, hResult, ?_, .of_update hPrefix rfl⟩
  refine ⟨?_, ?_, ?_, hAgreed.alive⟩
  · have hQueues :
        (fun j => ((σ.pass i handled).daemons j).downQueue) =
          Function.update (fun j => (σ.daemons j).downQueue) i
            handled.state.downQueue := by
      funext j
      simp only [pass]
      by_cases hMe : j = i
      · subst hMe
        rw [Function.update_self, Function.update_self]
      · rw [Function.update_of_ne hMe,
          Function.update_of_ne hMe]
    rw [hQueues]
    exact hServed
  · intro j
    simp only [pass]
    by_cases hMe : j = i
    · subst hMe
      rw [Function.update_self]
      exact hHolds hGrows
    · rw [Function.update_of_ne hMe]
      exact (hAgreed.holds j).extend hServed.sound
        (hAcknowledged.length_sent_le j)
        visit.length_packets_le.1
  · intro t hMember
    simp only [pass, List.mem_append, List.mem_map] at hMember ⊢
    rcases hMember with (hOld | hAnswer) | ⟨p, hNew, rfl⟩
    · exact Or.inl (hAgreed.sourced t hOld)
    · rcases visit.held_of_answer hAnswer with
        ⟨entry, info, hInfo, hSame⟩
      rw [hSame]
      exact Or.inl
        ((hAgreed.holds i).tracks.stored entry info hInfo).1
    · exact Or.inr hNew

/- A step of the ring ends no daemon. -/
theorem Agreed.step
    (hAgreed : σ.Agreed)
    (hAcknowledged : σ.Acknowledged I now)
    {a : RingAction n Body}
    (hEarned : σ.Earned segment a)
    (hStep : σ.step segment a = some σ') :
    σ'.Agreed ∧ Extends σ σ' := by
  cases step_cases hStep with
  | submitted i link hAlive =>
      exact ⟨hAgreed.submit i link,
        .of_update (d := protNewMessage (σ.daemons i) link)
          List.prefix_rfl rfl⟩
  | received i places d hAlive hResult =>
      rcases hAgreed.bcast segment i places with
        ⟨d', hResult', hAgreed', hGains, _⟩
      rw [hResult, Option.some.injEq] at hResult'
      subst hResult'
      exact ⟨hAgreed', .of_update hGains.delivered rfl⟩
  | swallowed i place => exact ⟨hAgreed, .refl σ⟩
  | resent _ i last hAlive hSame hNone =>
      have hHolds := hAgreed.holds i
      exact ⟨hAgreed.update
          (d := { σ.daemons i with lastToken := last })
          ⟨hHolds.tracks, hHolds.discarded,
            hHolds.highestSeq_le⟩
          rfl rfl rfl rfl rfl rfl,
        .of_update
          (d := { σ.daemons i with lastToken := last })
          List.prefix_rfl rfl⟩
  | accepted i place copy handled hAccepts hResult =>
      rcases hAgreed.token hAcknowledged hEarned hAccepts with
        ⟨handled', hResult', hAgreed', hExtends⟩
      rw [hResult, Option.some.injEq] at hResult'
      subst hResult'
      exact ⟨hAgreed', hExtends⟩
  | exitedBcast i places hAlive hResult =>
      rcases hAgreed.bcast segment i places with ⟨d', hResult', _⟩
      rw [hResult] at hResult'
      cases hResult'
  | exitedToken i place copy hAccepts hResult =>
      rcases hAgreed.token hAcknowledged hEarned hAccepts with
        ⟨handled', hResult', _⟩
      rw [hResult] at hResult'
      cases hResult'

end RingState

end Protocol

end ReplicatedAccount

------------------------------------------------------------
-- Runs of the Ring
------------------------------------------------------------

namespace ReplicatedAccount

namespace Protocol

open Foundations RoundRobin

variable {n : Nat}
variable {Body : Type}
variable [NeZero n]

theorem Installation.tracks
    (I : Installation n)
    (Body : Type)
    (i : Fin n) :
    Tracks ([] : List (Packet n Body)) 0 0
      (I.daemon i).delivery where
  window := Nat.zero_le _
  myAru_le := Nat.le_refl _
  discarded_le := Nat.le_refl _
  delivered_le := Nat.le_refl _
  stored _ _ hSome := by cases hSome
  held seq hAbove hCounted := by
    simp only [Installation.daemon] at hAbove
    omega
  marked _ _ hSome := by cases hSome
  early _ _ hSome := by cases hSome
  assembled := ⟨⟨fun _ => [], []⟩, rfl, rfl, rfl⟩
  singles m _ := by simp [Installation.daemon]
  once := List.nodup_nil
  safe m hMember := by cases hMember

theorem Installation.agreed
    (I : Installation n)
    (Body : Type) :
    (I.start : RingState n Body).Agreed where
  served :=
    { seq := by simp [Installation.start]
      serves :=
        ⟨⟨fun _ => [], []⟩, rfl, fun _ =>
          ⟨⟨[], rfl, rfl⟩, rfl, rfl⟩⟩ }
  holds i := ⟨I.tracks Body i, rfl, Nat.le_refl _⟩
  sourced _ hMember := absurd hMember List.not_mem_nil
  alive _ := rfl

variable {segment : Fin n → Nat}
variable {I : Installation n}
variable {as bs : List (RingAction n Body)}
variable {σ σ' : RingState n Body}

theorem agreed_of_run
    (hRun : (ringSystem Body segment I).run as = some σ)
    (hEarned :
      (ringSystem Body segment I).EveryStep
        (RingState.Earned segment) as) :
    (∃ now, σ.Acknowledged I now) ∧ σ.Agreed := by
  refine TransitionSystem.run_induction _
    (P := fun as σ =>
      (ringSystem Body segment I).EveryStep
          (RingState.Earned segment) as →
        (∃ now, σ.Acknowledged I now) ∧ σ.Agreed)
    ?_ ?_ hRun hEarned
  · intro _
    exact ⟨⟨_, I.acknowledged Body⟩, I.agreed Body⟩
  · intro as σ a σ' hBefore ih hStep hEvery
    rcases (TransitionSystem.everyStep_concat_iff _ _ as a σ
        hBefore).mp hEvery with
      ⟨hEarlier, hLast⟩
    rcases ih hEarlier with ⟨⟨now, hAcknowledged⟩, hAgreed⟩
    exact ⟨hAcknowledged.step hAgreed.sourced hLast hStep,
      (hAgreed.step hAcknowledged hLast hStep).1⟩

/- In a clean membership all steps are earned. -/
theorem everyStep_of_clean
    (hClean : I.Clean)
    (hRun : (ringSystem Body segment I).run as = some σ) :
    (ringSystem Body segment I).EveryStep
      (RingState.Earned segment) as := by
  refine
    (TransitionSystem.run_induction _
      (P := fun as σ =>
        (ringSystem Body segment I).EveryStep
            (RingState.Earned segment) as ∧
          (∃ now, σ.Acknowledged I now) ∧ σ.Agreed)
      ?_ ?_ hRun).1
  · refine ⟨?_, ⟨_, I.acknowledged Body⟩, I.agreed Body⟩
    intro before a rest σ hSplit
    simp at hSplit
  · rintro as σ a σ' hBefore
      ⟨hEvery, ⟨now, hAcknowledged⟩, hAgreed⟩ hStep
    have hLast : σ.Earned segment a :=
      hAcknowledged.earned hClean a
    exact ⟨(TransitionSystem.everyStep_concat_iff _ _ as a σ
        hBefore).mpr ⟨hEvery, hLast⟩,
      hAcknowledged.step hAgreed.sourced hLast hStep,
      (hAgreed.step hAcknowledged hLast hStep).1⟩

theorem everyStep_of_clean_or
    (hRun : (ringSystem Body segment I).run as = some σ)
    (hEarned :
      I.Clean ∨
        (ringSystem Body segment I).EveryStep
          (RingState.Earned segment) as) :
    (ringSystem Body segment I).EveryStep
      (RingState.Earned segment) as :=
  hEarned.elim (fun hClean => everyStep_of_clean hClean hRun) id

/- Later states of a run have delivered more. -/
theorem extends_of_run
    (hPrefix : as <+: bs)
    (hBefore : (ringSystem Body segment I).run as = some σ)
    (hAfter : (ringSystem Body segment I).run bs = some σ')
    (hEarned :
      (ringSystem Body segment I).EveryStep
        (RingState.Earned segment) bs) :
    σ.Extends σ' := by
  rcases hPrefix with ⟨rest, rfl⟩
  induction rest using List.reverseRecOn generalizing σ' with
  | nil =>
      rw [List.append_nil, hBefore, Option.some.injEq] at hAfter
      exact hAfter ▸ .refl σ
  | append_singleton rest a ih =>
      rw [← List.append_assoc] at hAfter hEarned
      rcases (TransitionSystem.run_concat_iff _ _ a σ').mp
          hAfter with
        ⟨τ, hRun, hStep⟩
      rcases (TransitionSystem.everyStep_concat_iff _ _ _ a τ
          hRun).mp hEarned with
        ⟨hEarlier, hLast⟩
      rcases agreed_of_run hRun hEarlier with
        ⟨⟨now, hAcknowledged⟩, hAgreed⟩
      exact (ih hRun hEarlier).trans
        (hAgreed.step hAcknowledged hLast hStep).2

end Protocol

end ReplicatedAccount
