import ReplicatedAccount.Foundations.Transition
import Mathlib.Data.List.Infix
import Mathlib.Data.List.Nodup

/-
  A sender that keeps what it issues in a queue, multicasts
  snapshots of the whole queue, and takes elements off the
  queue only when one of its own messages comes back to it.

  A receiver looks at a prefix of each message, given by a
  function `cover`.  The messages are overlapping windows of
  what was issued; a receiver that gets them in the order
  they were sent meets the issued elements in the order they
  were issued, without gaps.

  Key definitions include:
    * `SendQueue`
    * `sendQueueSystem`
    * `covered`
    * `SendQueue.Windowed`

  Key theorems include:
    * `window_extends`
    * `SendQueue.Windowed.covered_isPrefix`
    * `windowed_of_run`
-/

------------------------------------------------------------
-- Orders of First Occurrence
------------------------------------------------------------

namespace Foundations

variable {α : Type} [BEq α] [LawfulBEq α]

theorem eraseDups_of_nodup
    {l : List α}
    (hNodup : l.Nodup) :
    l.eraseDups = l := by
  induction l with
  | nil => rfl
  | cons a l ih =>
      rcases List.nodup_cons.mp hNodup with ⟨hNew, hTail⟩
      have hKept : l.filter (fun b => !b == a) = l := by
        apply List.filter_eq_self.mpr
        intro b hMember
        have hOther : b ≠ a := fun hSame => hNew (hSame ▸ hMember)
        simpa using hOther
      rw [List.eraseDups_cons, hKept, ih hTail]

/- Later elements never change the order of the first. -/
theorem eraseDups_isPrefix
    {l l' : List α}
    (hPrefix : l <+: l') :
    l.eraseDups <+: l'.eraseDups := by
  rcases hPrefix with ⟨later, rfl⟩
  rw [List.eraseDups_append]
  exact List.prefix_append _ _

/- Selecting elements commutes with removing repetitions. -/
theorem eraseDups_filter
    (p : α → Bool)
    (l : List α) :
    (l.filter p).eraseDups = l.eraseDups.filter p := by
  induction l using List.reverseRecOn with
  | nil => rfl
  | append_singleton l a ih =>
      rw [List.filter_append, List.eraseDups_append,
        List.eraseDups_append, ih, List.filter_append]
      congr 1
      by_cases hOld : a ∈ l <;> by_cases hKept : p a <;>
        simp [List.removeAll, hOld, hKept,
          List.eraseDups_cons]

/- What stands before the first occurrence of an element. -/
theorem eraseDups_before_first
    {before after front back : List α}
    {a : α}
    (hFirst : a ∉ before)
    (hNodup : (front ++ a :: back).Nodup)
    (hPrefix :
      (before ++ a :: after).eraseDups <+:
        front ++ a :: back) :
    before.eraseDups = front := by
  have hHead : (before ++ [a]).eraseDups <+: front ++ a :: back :=
    (eraseDups_isPrefix ⟨after, by simp⟩).trans hPrefix
  rw [List.eraseDups_append] at hHead
  have hNew : ([a].removeAll before).eraseDups = [a] := by
    simp [List.removeAll, hFirst, List.eraseDups_cons]
  rw [hNew] at hHead
  rcases hHead with ⟨rest, hSplit⟩
  rw [List.append_assoc, List.singleton_append] at hSplit
  have hAbsent := (List.nodup_middle.mp hNodup)
  rw [List.nodup_cons, List.mem_append, not_or] at hAbsent
  have hParts :=
    (List.append_cons_inj_of_notMem hAbsent.1.1
      hAbsent.1.2).mp hSplit.symm
  exact hParts.1.symm

end Foundations

------------------------------------------------------------
-- Windows
------------------------------------------------------------

namespace Foundations

variable {α : Type} [DecidableEq α]

/-
  Let the elements seen so far be the first part of a list.
  A window of the list that starts in this part extends it by
  the beginning of the rest, and hits nothing else there.
-/
theorem window_extends
    {seen rest window : List α}
    {start : Nat}
    (hNodup : (seen.eraseDups ++ rest).Nodup)
    (hStart : start ≤ seen.eraseDups.length)
    (hWindow :
      window <+: (seen.eraseDups ++ rest).drop start) :
    ∃ new later,
      rest = new ++ later ∧
        (seen ++ window).eraseDups =
          seen.eraseDups ++ new ∧
        rest.filter (· ∉ window) = later := by
  rcases List.nodup_append.mp hNodup with
    ⟨_, hRestNodup, hDisjoint⟩
  have hUnseen : ∀ a ∈ rest, a ∉ seen := by
    intro a hRest hSeen
    exact hDisjoint a (by simpa using hSeen) a hRest rfl
  rw [List.eraseDups_append]
  rw [List.drop_append_of_le_length hStart] at hWindow
  rcases hWindow with ⟨tail, hSplit⟩
  rcases List.append_eq_append_iff.mp hSplit with
    ⟨missed, hInside, _⟩ | ⟨new, rfl, rfl⟩
  · -- the whole window was seen before
    have hOld : ∀ a ∈ window, a ∈ seen := by
      intro a hMember
      have hDropped : a ∈ seen.eraseDups.drop start := by
        rw [hInside]
        exact List.mem_append_left _ hMember
      simpa using List.mem_of_mem_drop hDropped
    refine ⟨[], rest, rfl, ?_, ?_⟩
    · have hNothing : window.removeAll seen = [] := by
        simpa [List.removeAll] using hOld
      rw [hNothing]
      rfl
    · apply List.filter_eq_self.mpr
      intro a hRest
      simpa using fun hMember => hUnseen a hRest (hOld a hMember)
  · -- the window reaches into the rest
    have hOld : ∀ a ∈ seen.eraseDups.drop start, a ∈ seen := by
      intro a hMember
      simpa using List.mem_of_mem_drop hMember
    rcases List.nodup_append.mp hRestNodup with
      ⟨hNewNodup, _, hApart⟩
    refine ⟨new, tail, rfl, ?_, ?_⟩
    · have hLeft :
          (seen.eraseDups.drop start ++ new).removeAll seen =
            new := by
        unfold List.removeAll
        rw [List.filter_append]
        have hGone :
            (seen.eraseDups.drop start).filter
              (fun a => !seen.elem a) = [] := by
          simpa using hOld
        have hKept :
            new.filter (fun a => !seen.elem a) = new := by
          apply List.filter_eq_self.mpr
          intro a hMember
          simpa using hUnseen a (by simp [hMember])
        rw [hGone, hKept, List.nil_append]
      rw [hLeft, eraseDups_of_nodup hNewNodup]
    · rw [List.filter_append]
      have hGone :
          new.filter
            (· ∉ seen.eraseDups.drop start ++ new) = [] := by
        simp +contextual
      have hKept :
          tail.filter
            (· ∉ seen.eraseDups.drop start ++ new) =
            tail := by
        apply List.filter_eq_self.mpr
        intro a hMember
        have hNotOld : a ∉ seen.eraseDups.drop start :=
          fun hDropped =>
            hUnseen a (by simp [hMember]) (hOld a hDropped)
        have hNotNew : a ∉ new :=
          fun hFirst => hApart a hFirst a hMember rfl
        simp [hNotOld, hNotNew]
      rw [hGone, hKept, List.nil_append]

end Foundations

------------------------------------------------------------
-- Send Queues
------------------------------------------------------------

namespace Foundations

/- A sender and the messages it has multicast so far. -/
structure SendQueue (α : Type) where
  issued : List α
  outstanding : List α
  sent : List (List α)
  -- how many of its own messages came back to the sender
  returned : Nat

/- What a sender does. -/
inductive SendQueueAction (α : Type) where
  | issue (a : α)
  | multicast
  | takeBack

variable {α : Type} [DecidableEq α]

/- What a receiver of the messages has looked at. -/
def covered
    (cover : List α → List α)
    (messages : List (List α)) :
    List α :=
  messages.flatMap cover

/- The next own message takes its elements off the queue. -/
def SendQueue.step
    (cover : List α → List α)
    (q : SendQueue α) :
    SendQueueAction α → Option (SendQueue α)
| .issue a =>
    some { q with
      issued := q.issued ++ [a]
      outstanding := q.outstanding ++ [a] }
| .multicast =>
    some { q with sent := q.sent ++ [q.outstanding] }
| .takeBack =>
    match q.sent[q.returned]? with
    | none => none
    | some message =>
        some { q with
          outstanding :=
            q.outstanding.filter (· ∉ cover message)
          returned := q.returned + 1 }

/- A sender that starts with nothing. -/
def sendQueueSystem
    (cover : List α → List α) :
    TransitionSystem (SendQueue α) (SendQueueAction α) where
  start := ⟨[], [], [], 0⟩
  step := SendQueue.step cover

omit [DecidableEq α] in
theorem covered_concat
    (cover : List α → List α)
    (messages : List (List α))
    (message : List α) :
    covered cover (messages ++ [message]) =
      covered cover messages ++ cover message := by
  simp [covered]

omit [DecidableEq α] in
theorem covered_of_isPrefix
    (cover : List α → List α)
    {messages later : List (List α)}
    (hPrefix : messages <+: later) :
    covered cover messages <+: covered cover later := by
  rcases hPrefix with ⟨rest, rfl⟩
  simp [covered]

end Foundations

------------------------------------------------------------
-- The Window Invariant
------------------------------------------------------------

namespace Foundations

variable {α : Type} [DecidableEq α]
variable {cover : List α → List α}

/-
  The messages of a sender are windows: each one is cut out
  of the issued elements at a place that the messages before
  it have covered.  What the sender itself has covered and
  what is outstanding make up everything issued.
-/
structure SendQueue.Windowed
    (cover : List α → List α)
    (q : SendQueue α) : Prop where
  windows :
    ∀ earlier message later,
      q.sent = earlier ++ message :: later →
        ∃ start,
          start ≤ (covered cover earlier).eraseDups.length ∧
            message <+: q.issued.drop start
  returned : q.returned ≤ q.sent.length
  issued :
    q.issued =
      (covered cover (q.sent.take q.returned)).eraseDups ++
        q.outstanding

namespace SendQueue

variable {q : SendQueue α}

/-
  Receiving the messages in the order sent means meeting the
  issued elements in the order issued, without gaps.
-/
theorem Windowed.covered_isPrefix
    (hWindowed : Windowed cover q)
    (hCover : ∀ message, cover message <+: message)
    (hNodup : q.issued.Nodup)
    {messages : List (List α)}
    (hSent : messages <+: q.sent) :
    (covered cover messages).eraseDups <+: q.issued := by
  induction messages using List.reverseRecOn with
  | nil => exact List.nil_prefix
  | append_singleton earlier message ih =>
      rcases ih ((List.prefix_append _ _).trans hSent) with
        ⟨rest, hIssued⟩
      rcases hSent with ⟨later, hSplit⟩
      rcases hWindowed.windows earlier message later
          (by simp [← hSplit]) with
        ⟨start, hStart, hWindow⟩
      rw [← hIssued] at hNodup hWindow
      rcases window_extends hNodup hStart
          ((hCover message).trans hWindow) with
        ⟨new, tail, hRest, hSeen, _⟩
      rw [covered_concat, hSeen, ← hIssued, hRest]
      exact ⟨tail, by simp⟩

theorem Windowed.issue
    (hWindowed : Windowed cover q)
    (a : α) :
    Windowed cover
      { q with
        issued := q.issued ++ [a]
        outstanding := q.outstanding ++ [a] } := by
  refine ⟨?_, hWindowed.returned, ?_⟩
  · intro earlier message later hSplit
    rcases hWindowed.windows earlier message later hSplit with
      ⟨start, hStart, hWindow⟩
    refine ⟨start, hStart, hWindow.trans ?_⟩
    exact (List.prefix_append _ _).drop start
  · dsimp only
    rw [← List.append_assoc, ← hWindowed.issued]

theorem Windowed.multicast
    (hWindowed : Windowed cover q) :
    Windowed cover
      { q with sent := q.sent ++ [q.outstanding] } := by
  have hReturned := hWindowed.returned
  refine ⟨?_, ?_, ?_⟩
  · intro earlier message later hSplit
    rcases List.eq_nil_or_concat later with rfl | hConcat
    · -- the new message starts where the sender stands
      rcases List.append_inj' hSplit rfl with ⟨rfl, hLast⟩
      cases hLast
      refine
        ⟨(covered cover
            (q.sent.take q.returned)).eraseDups.length,
          ?_, ?_⟩
      · apply List.IsPrefix.length_le
        apply eraseDups_isPrefix
        exact covered_of_isPrefix cover
          (List.take_prefix _ _)
      · dsimp only
        conv_rhs => rw [hWindowed.issued]
        rw [List.drop_left]
    · rcases hConcat with ⟨middle, last, rfl⟩
      have hFront : q.sent = earlier ++ message :: middle := by
        have hJoined :
            q.sent ++ [q.outstanding] =
              (earlier ++ message :: middle) ++ [last] := by
          simpa using hSplit
        exact (List.append_inj' hJoined rfl).1
      exact hWindowed.windows earlier message middle hFront
  · simp only [List.length_append]
    omega
  · dsimp only
    rw [List.take_append_of_le_length hReturned]
    exact hWindowed.issued

theorem Windowed.takeBack
    (hWindowed : Windowed cover q)
    (hCover : ∀ message, cover message <+: message)
    (hNodup : q.issued.Nodup)
    {message : List α}
    (hNext : q.sent[q.returned]? = some message) :
    Windowed cover
      { q with
        outstanding :=
          q.outstanding.filter (· ∉ cover message)
        returned := q.returned + 1 } := by
  have hInside : q.returned < q.sent.length :=
    (List.getElem?_eq_some_iff.mp hNext).1
  have hTake :
      q.sent.take (q.returned + 1) =
        q.sent.take q.returned ++ [message] := by
    rw [List.take_add_one, hNext]
    rfl
  refine ⟨hWindowed.windows, hInside, ?_⟩
  rcases hWindowed.windows (q.sent.take q.returned) message
      (q.sent.drop (q.returned + 1))
      (by
        rw [← List.singleton_append, ← List.append_assoc,
          ← hTake, List.take_append_drop]) with
    ⟨start, hStart, hWindow⟩
  rw [hWindowed.issued] at hNodup hWindow
  rcases window_extends hNodup hStart
      ((hCover message).trans hWindow) with
    ⟨new, tail, hRest, hSeen, hKept⟩
  dsimp only
  rw [hTake, covered_concat, hSeen, hKept, List.append_assoc,
    ← hRest]
  exact hWindowed.issued

end SendQueue

/-
  Every reachable sender is windowed, as long as it never
  issues an element twice.
-/
theorem windowed_of_run
    (hCover : ∀ message, cover message <+: message)
    {actions : List (SendQueueAction α)}
    {q : SendQueue α}
    (hRun : (sendQueueSystem cover).run actions = some q) :
    q.issued.Nodup → q.Windowed cover := by
  apply (sendQueueSystem cover).invariant
    (I := fun q => q.issued.Nodup → q.Windowed cover)
    ?_ ?_ hRun
  · intro _
    refine ⟨?_, Nat.le_refl 0, rfl⟩
    intro earlier message later hSplit
    simp [sendQueueSystem] at hSplit
  · intro s a s' hInv hStep hNodup
    cases a with
    | issue a =>
        cases hStep
        exact (hInv hNodup.of_append_left).issue a
    | multicast =>
        cases hStep
        exact (hInv hNodup).multicast
    | takeBack =>
        simp only [sendQueueSystem, SendQueue.step] at hStep
        cases hNext : s.sent[s.returned]? with
        | none => simp [hNext] at hStep
        | some message =>
            simp only [hNext, Option.some.injEq] at hStep
            subst hStep
            exact (hInv hNodup).takeBack hCover hNodup hNext

end Foundations
