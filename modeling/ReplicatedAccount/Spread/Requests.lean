import ReplicatedAccount.Spread.Handlers
import ReplicatedAccount.Spread.Ring

/-
  Requests for packets, and the answers to them.

  A daemon that lacks a packet asks for it with its token.  The
  next daemon that has it sends it again, so that it reaches
  the one that has asked.  Handling a token takes no packet
  from its slot but those that are discarded.

  Key definitions include:
    * `Answer.Grows`

  Key theorems include:
    * `Visit.exists_request`
    * `Visit.mem_answers`
    * `Visit.isSome_slot`
-/

------------------------------------------------------------
-- Answers
------------------------------------------------------------

namespace ReplicatedAccount

namespace Protocol

variable {n : Nat}
variable {Body : Type}
variable {me : Proc n}
variable {d : ProtocolState n Body}
variable {rtr : RingRtr n}
variable {answer answer' : Answer n Body}

/- More answers, with packets that the daemon holds. -/
structure Answer.Grows
    (d : ProtocolState n Body)
    (answer answer' : Answer n Body) : Prop where
  sends : answer.sends <+: answer'.sends
  held :
    ∀ t ∈ answer'.sends, t ∈ answer.sends ∨
      ∃ entry info,
        d.delivery.packets entry = some info ∧
          t.packet = info.packet
  procId :
    answer'.procId = answer.procId ∨ answer'.procId = none
  segIndex :
    answer'.segIndex = answer.segIndex ∨
      answer'.segIndex = none

theorem Answer.Grows.refl
    (d : ProtocolState n Body)
    (answer : Answer n Body) :
    Answer.Grows d answer answer :=
  ⟨List.prefix_rfl, fun _ => Or.inl, Or.inl rfl, Or.inl rfl⟩

theorem Answer.Grows.trans
    {answer'' : Answer n Body}
    (hFirst : Answer.Grows d answer answer')
    (hSecond : Answer.Grows d answer' answer'') :
    Answer.Grows d answer answer'' where
  sends := hFirst.sends.trans hSecond.sends
  held t hMember := by
    rcases hSecond.held t hMember with hOld | hNew
    · exact hFirst.held t hOld
    · exact Or.inr hNew
  procId := by
    rcases hSecond.procId with hSame | hNone
    · rw [hSame]
      exact hFirst.procId
    · exact Or.inr hNone
  segIndex := by
    rcases hSecond.segIndex with hSame | hNone
    · rw [hSame]
      exact hFirst.segIndex
    · exact Or.inr hNone

/- One more packet is sent. -/
theorem Answer.Grows.of_send
    (id : Fin n)
    {entry : Nat}
    {info : PacketInfo n Body}
    (hInfo : d.delivery.packets entry = some info)
    {target : Target n}
    (hSends :
      answer'.sends =
        answer.sends ++ [⟨id, info.packet, target⟩])
    (hProc : answer'.procId = answer.procId)
    (hSeg : answer'.segIndex = answer.segIndex) :
    Answer.Grows d answer answer' where
  sends := ⟨_, hSends.symm⟩
  held t hMember := by
    rw [hSends] at hMember
    rcases List.mem_append.mp hMember with hOld | hNew
    · exact Or.inl hOld
    · rw [List.mem_singleton.mp hNew]
      exact Or.inr ⟨entry, info, hInfo, rfl⟩
  procId := Or.inl hProc
  segIndex := Or.inl hSeg

theorem answerRequest_eq_some
    {seq : Nat}
    (hResult : answerRequest me d rtr answer seq = some answer') :
    Answer.Grows d answer answer' ∧
      ∀ info, d.delivery.packets (packEntry seq) = some info →
        ⟨me.id, info.packet, rtr.target⟩ ∈ answer'.sends := by
  have hKnown : ¬ seq < d.aru := by
    intro hOld
    rw [answerRequest, if_pos hOld] at hResult
    cases hResult
  rw [answerRequest, if_neg hKnown] at hResult
  cases hInfo : d.delivery.packets (packEntry seq) with
  | none =>
      rw [hInfo] at hResult
      cases hResult
      refine ⟨⟨List.prefix_rfl, fun _ => Or.inl,
        Or.inr rfl, ?_⟩, fun _ hSome => by cases hSome⟩
      dsimp only
      split_ifs
      · exact Or.inl rfl
      · exact Or.inr rfl
  | some info =>
      rw [hInfo] at hResult
      dsimp only at hResult
      split_ifs at hResult
      all_goals
        cases hResult
        refine ⟨.of_send me.id hInfo rfl rfl rfl, ?_⟩
        intro info' hSame
        rw [← Option.some.inj hSame]
        exact List.mem_append_right _
          (List.mem_singleton_self _)

theorem answerRequests_eq_some
    {seqs : List Nat}
    (hResult :
      answerRequests me d rtr answer seqs = some answer') :
    Answer.Grows d answer answer' ∧
      ∀ seq ∈ seqs, ∀ info,
        d.delivery.packets (packEntry seq) = some info →
          ⟨me.id, info.packet, rtr.target⟩ ∈ answer'.sends := by
  induction seqs generalizing answer with
  | nil =>
      cases hResult
      exact ⟨.refl d _,
        fun _ hMember => absurd hMember List.not_mem_nil⟩
  | cons seq seqs ih =>
      rw [answerRequests] at hResult
      split at hResult
      · cases hResult
      · rename_i next hNext
        rcases answerRequest_eq_some hNext with ⟨hOne, hFirst⟩
        rcases ih hResult with ⟨hMore, hRest⟩
        refine ⟨hOne.trans hMore, ?_⟩
        intro seq' hMember info hInfo
        rcases List.mem_cons.mp hMember with rfl | hLater
        · exact hMore.sends.subset (hFirst info hInfo)
        · exact hRest seq' hLater info hInfo

theorem answerRings_eq_some
    {rtrs : List (RingRtr n)}
    (hResult : answerRings me d answer rtrs = some answer') :
    Answer.Grows d answer answer' ∧
      ∀ rtr ∈ rtrs, ∀ seq ∈ rtr.seqs, ∀ info,
        d.delivery.packets (packEntry seq) = some info →
          ⟨me.id, info.packet, rtr.target⟩ ∈ answer'.sends := by
  induction rtrs generalizing answer with
  | nil =>
      cases hResult
      exact ⟨.refl d _,
        fun _ hMember => absurd hMember List.not_mem_nil⟩
  | cons rtr rtrs ih =>
      rw [answerRings] at hResult
      split at hResult
      · cases hResult
      · rename_i next hNext
        rcases answerRequests_eq_some hNext with ⟨hOne, hFirst⟩
        rcases ih hResult with ⟨hMore, hRest⟩
        refine ⟨hOne.trans hMore, ?_⟩
        intro rtr' hMember seq hSeq info hInfo
        rcases List.mem_cons.mp hMember with rfl | hLater
        · exact hMore.sends.subset (hFirst seq hSeq info hInfo)
        · exact hRest rtr' hLater seq hSeq info hInfo

/- All packets that are asked for and held are sent. -/
theorem answerRetrans_eq_some
    {rtrs : List (RingRtr n)}
    (hResult : answerRetrans me d rtrs = some answer) :
    Answer.Grows d
        ⟨0, some me.id, some me.segIndex, ⟨0, 0⟩, []⟩ answer ∧
      ∀ rtr ∈ rtrs, ∀ seq ∈ rtr.seqs, ∀ info,
        d.delivery.packets (packEntry seq) = some info →
          ⟨me.id, info.packet, rtr.target⟩ ∈ answer.sends := by
  unfold answerRetrans at hResult
  split at hResult
  · cases hResult
  · rename_i last hLast
    cases hResult
    rcases answerRings_eq_some hLast with ⟨hGrows, hAll⟩
    exact ⟨⟨hGrows.sends, hGrows.held, hGrows.procId,
      hGrows.segIndex⟩, hAll⟩

/- An answer has a packet that the daemon holds. -/
theorem Visit.held_of_answer
    {token : Token n}
    {sending : Sending n Body}
    {handled : Handled n Body}
    (visit : Visit me d token answer sending handled)
    {t : Transmission n Body}
    (hMember : t ∈ handled.answers) :
    ∃ entry info,
      d.delivery.packets entry = some info ∧
        t.packet = info.packet := by
  rw [visit.answers] at hMember
  rcases (answerRetrans_eq_some visit.answered).1.held t
      hMember with
    hOld | hHeld
  · cases hOld
  · exact hHeld

/- What the token asks for and the daemon holds is sent. -/
theorem Visit.mem_answers
    {token : Token n}
    {sending : Sending n Body}
    {handled : Handled n Body}
    (visit : Visit me d token answer sending handled)
    (hRtr : rtr ∈ token.rtr)
    {seq : Nat}
    (hSeq : seq ∈ rtr.seqs)
    {info : PacketInfo n Body}
    (hInfo : d.delivery.packets (packEntry seq) = some info) :
    ⟨me.id, info.packet, rtr.target⟩ ∈ handled.answers := by
  rw [visit.answers]
  exact (answerRetrans_eq_some visit.answered).2 rtr hRtr seq
    hSeq info hInfo

end Protocol

end ReplicatedAccount

------------------------------------------------------------
-- Requests
------------------------------------------------------------

namespace ReplicatedAccount

namespace Protocol

variable {n : Nat}
variable {Body : Type}

/- The count stops before a packet that is missing. -/
theorem none_of_advanceAru_lt
    {packets : Nat → Option (PacketInfo n Body)}
    {k aru : Nat}
    (hLess : advanceAru packets k aru < aru + k) :
    packets (packEntry (advanceAru packets k aru + 1)) =
      none := by
  induction k generalizing aru with
  | zero =>
      rw [advanceAru] at hLess
      exact absurd hLess (Nat.lt_irrefl _)
  | succ k ih =>
      rw [advanceAru] at hLess ⊢
      split_ifs at hLess ⊢ with hNext
      · exact ih (by omega)
      · exact Option.not_isSome_iff_eq_none.mp hNext

/- The target is the daemon, its segment or all. -/
def Target.Covers
    (target : Target n)
    (me : Proc n) : Prop :=
  target = .all ∨ target = .segment me.segIndex ∨
    target = .proc me.id

theorem Transmission.reaches
    {segment : Fin n → Nat}
    {i j : Fin n}
    {target : Target n}
    (hTarget : target.Covers ⟨i, segment i⟩)
    (hOther : j ≠ i)
    (p : Packet n Body) :
    (⟨j, p, target⟩ : Transmission n Body).Reaches segment i =
      true := by
  unfold Transmission.Reaches
  rcases hTarget with rfl | rfl | rfl <;> simp [hOther]

variable {me : Proc n}
variable {d : ProtocolState n Body}
variable {token : Token n}
variable {answer : Answer n Body}
variable {sending : Sending n Body}
variable {handled : Handled n Body}

/- The answers to its requests reach the daemon. -/
theorem Visit.target_covers
    (visit : Visit me d token answer sending handled)
    (seqs : List Nat) :
    (RingRtr.target
      ⟨answer.procId, answer.segIndex, seqs⟩).Covers me := by
  have hGrows := (answerRetrans_eq_some visit.answered).1
  rcases hGrows.procId with hProc | hProc
  · exact Or.inr (Or.inr (by rw [RingRtr.target, hProc]))
  · rcases hGrows.segIndex with hSeg | hSeg
    · exact Or.inr (Or.inl (by rw [RingRtr.target, hProc, hSeg]))
    · exact Or.inl (by rw [RingRtr.target, hProc, hSeg])

/- A daemon asks for the first packet that it lacks. -/
theorem Visit.exists_request
    (visit : Visit me d token answer sending handled)
    (hMissing :
      handled.state.myAru < handled.state.highestSeq) :
    ∃ rtr ∈ handled.state.lastToken.rtr,
      handled.state.myAru + 1 ∈ rtr.seqs ∧
        rtr.target.Covers me := by
  have hHighest := visit.advanced_eq.1
  have hMine := visit.advanced_eq.2
  rw [hHighest, hMine] at hMissing
  have hNone :
      sending.state.delivery.packets
          (packEntry (sending.state.advanced.myAru + 1)) =
        none := by
    refine none_of_advanceAru_lt ?_
    simp only [ProtocolState.advanced] at hMissing
    omega
  have hRtr :
      handled.state.lastToken.rtr =
        [⟨answer.procId, answer.segIndex,
          missingSeqs sending.state.delivery.packets
            (min ((tokenBodySize - ringRtrSize) / 4)
              (sending.state.advanced.highestSeq -
                sending.state.advanced.myAru))
            (sending.state.advanced.myAru + 1)⟩] := by
    rw [visit.lastToken_eq]
    simp only [Sending.next, nextToken, retransRequests]
    rw [if_pos hMissing]
    rfl
  have hTurns :
      min ((tokenBodySize - ringRtrSize) / 4)
          (sending.state.advanced.highestSeq -
            sending.state.advanced.myAru) ≠
        0 := by
    simp only [tokenBodySize, ringRtrSize]
    omega
  rcases Nat.exists_eq_succ_of_ne_zero hTurns with ⟨k, hTurns⟩
  rw [hRtr]
  refine ⟨_, List.mem_singleton_self _, ?_,
    visit.target_covers _⟩
  rw [hMine, hTurns, missingSeqs, if_neg (by simp [hNone])]
  exact List.mem_cons_self

/- Only the leader holds a token, when nothing is missing. -/
theorem held_of_token_none
    (hResult : acceptToken me d token = some handled)
    (hNone : handled.token = none) :
    me.id.val = 0 ∧ d.aru = handled.state.highestSeq := by
  simp only [acceptToken] at hResult
  split at hResult
  · cases hResult
  · split at hResult
    · cases hResult
    · rename_i sending hSending
      split at hResult
      · cases hResult
      · rename_i delivered hDelivered
        cases hResult
        have hAru : sending.state.aru = d.aru := by
          rw [(sends_of_sendNewPackets hSending).same]
          rfl
        rcases deliverPackets_eq_some hDelivered with
          ⟨h, hState⟩
        simp only [Proc.isLeader, toHoldToken,
          ite_eq_left_iff, reduceCtorEq, imp_false, not_not,
          Bool.and_eq_true, decide_eq_true_eq] at hNone
        refine ⟨hNone.1, ?_⟩
        rw [← hAru, hState]
        exact hNone.2.1.2

/- A token with requests is sent, and not held. -/
theorem token_eq_some_of_missing
    (hResult : acceptToken me d token = some handled)
    (hMissing : d.aru < handled.state.highestSeq) :
    handled.token = some handled.state.lastToken := by
  rcases acceptToken_eq_some hResult with
    ⟨answer, sending, visit⟩
  rcases visit.token_eq with hNone | hSome
  · have hAll := (held_of_token_none hResult hNone).2
    omega
  · exact hSome

end Protocol

end ReplicatedAccount

------------------------------------------------------------
-- Slots
------------------------------------------------------------

namespace ReplicatedAccount

namespace Protocol

variable {n : Nat}
variable {Body : Type}
variable {h h' : Delivery n Body}

theorem isSome_of_deliverPacket
    {entry : Nat}
    (hResult : deliverPacket h entry = some h')
    {entry' : Nat}
    (hSome : (h.packets entry').isSome) :
    (h'.packets entry').isSome := by
  have hKept :
      ∀ info,
        (Function.update h.packets entry (some info)
          entry').isSome := by
    intro info
    by_cases hSame : entry' = entry
    · rw [hSame, Function.update_self]
      rfl
    · rw [Function.update_of_ne hSame]
      exact hSome
  unfold deliverPacket at hResult
  split at hResult
  · cases hResult
  · dsimp only at hResult
    split_ifs at hResult
    all_goals
      cases hResult
      exact hKept _

theorem isSome_of_deliverReliableLoop
    {k i : Nat}
    (hResult : deliverReliableLoop k i h = some h')
    {entry : Nat}
    (hSome : (h.packets entry).isSome) :
    (h'.packets entry).isSome := by
  induction k generalizing h i with
  | zero =>
      cases hResult
      exact hSome
  | succ k ih =>
      rw [deliverReliableLoop] at hResult
      split at hResult
      · exact ih hResult hSome
      · split_ifs at hResult
        · split at hResult
          · cases hResult
          · rename_i next hNext
            exact ih hResult
              (isSome_of_deliverPacket hNext hSome)
        · exact ih hResult hSome

theorem isSome_of_deliverAgreedLoop
    {k : Nat}
    (hResult : deliverAgreedLoop k h = some h')
    {entry : Nat}
    (hSome : (h.packets entry).isSome) :
    (h'.packets entry).isSome := by
  induction k generalizing h with
  | zero =>
      cases hResult
      exact hSome
  | succ k ih =>
      rw [deliverAgreedLoop] at hResult
      split at hResult
      · cases hResult
      · split_ifs at hResult
        · exact ih hResult hSome
        · cases hResult
          exact hSome
        · split at hResult
          · cases hResult
          · rename_i next hNext
            exact ih hResult
              (isSome_of_deliverPacket hNext hSome)

theorem isSome_of_deliverAgreedPackets
    {myAru : Nat}
    (hResult : deliverAgreedPackets myAru h = some h')
    {entry : Nat}
    (hSome : (h.packets entry).isSome) :
    (h'.packets entry).isSome := by
  unfold deliverAgreedPackets at hResult
  split_ifs at hResult
  · cases hResult
    exact hSome
  · exact isSome_of_deliverAgreedLoop hResult hSome

theorem isSome_of_discardLoop
    {k i : Nat}
    (hResult : discardLoop k i h = some h')
    {entry : Nat}
    (hSome : (h.packets entry).isSome)
    (hOther :
      ∀ seq, i ≤ seq → seq < i + k → packEntry seq ≠ entry) :
    (h'.packets entry).isSome := by
  induction k generalizing h i with
  | zero =>
      cases hResult
      exact hSome
  | succ k ih =>
      rw [discardLoop] at hResult
      split at hResult
      · cases hResult
      · rename_i info _
        split at hResult
        · cases hResult
        · rename_i next hNext
          have hKept : (next.packets entry).isSome := by
            split_ifs at hNext
            · cases hNext
              exact hSome
            · exact isSome_of_deliverPacket hNext hSome
          have hNot := hOther i (Nat.le_refl i) (by omega)
          refine ih hResult ?_ fun seq hLow hHigh =>
            hOther seq (by omega) (by omega)
          dsimp only
          rw [Function.update_of_ne (Ne.symm hNot)]
          exact hKept

theorem isSome_of_discardPackets
    {aru : Nat}
    (hResult : discardPackets aru h = some h')
    {entry : Nat}
    (hSome : (h.packets entry).isSome)
    (hOther :
      ∀ seq, h.lastDiscarded < seq → seq ≤ aru →
        packEntry seq ≠ entry) :
    (h'.packets entry).isSome := by
  unfold discardPackets at hResult
  split_ifs at hResult
  · cases hResult
    exact hSome
  · split at hResult
    · cases hResult
    · rename_i next hNext
      cases hResult
      exact isSome_of_discardLoop hNext hSome
        fun seq hLow hHigh =>
          hOther seq (by omega) (by omega)

/- Only what is discarded leaves its slot. -/
theorem isSome_of_deliverPackets
    {d d' : ProtocolState n Body}
    {numSent : Nat}
    (hResult : deliverPackets d numSent = some d')
    {entry : Nat}
    (hSome : (d.delivery.packets entry).isSome)
    (hOther :
      ∀ seq, d.delivery.lastDiscarded < seq → seq ≤ d.aru →
        packEntry seq ≠ entry) :
    (d'.delivery.packets entry).isSome := by
  unfold deliverPackets at hResult
  split at hResult
  · cases hResult
  · rename_i discarded hDiscard
    split at hResult
    · cases hResult
    · rename_i agreed hAgreed
      split at hResult
      · cases hResult
      · rename_i reliable hReliable
        cases hResult
        have hFirst :=
          isSome_of_discardPackets hDiscard hSome hOther
        have hSecond :=
          isSome_of_deliverAgreedPackets hAgreed hFirst
        exact isSome_of_deliverReliableLoop hReliable hSecond

/- Handling a token keeps all other packets. -/
theorem Visit.isSome_slot
    {me : Proc n}
    {d : ProtocolState n Body}
    {token : Token n}
    {answer : Answer n Body}
    {sending : Sending n Body}
    {handled : Handled n Body}
    (visit : Visit me d token answer sending handled)
    {entry : Nat}
    (hSome :
      (sending.state.delivery.packets entry).isSome)
    (hOther :
      ∀ seq, d.delivery.lastDiscarded < seq →
        seq ≤ handled.state.aru → packEntry seq ≠ entry) :
    (handled.state.delivery.packets entry).isSome := by
  rcases visit.exists_delivery with ⟨h, hState⟩
  refine isSome_of_deliverPackets visit.delivered hSome ?_
  intro seq hAbove hLess
  refine hOther seq ?_ ?_
  · have hDiscarded :
        sending.state.delivery.lastDiscarded =
          d.delivery.lastDiscarded :=
      visit.sends.lastDiscarded_eq
    rw [← hDiscarded]
    exact hAbove
  · rw [hState]
    exact hLess

end Protocol

end ReplicatedAccount
