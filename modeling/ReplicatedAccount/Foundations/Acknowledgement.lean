import Mathlib.Order.Nat
import Mathlib.Logic.Function.Basic
import Mathlib.Tactic.Common

/-
  Acknowledgement by a token that goes from site to site.

  The token bears a number up to which all sites may have
  received everything.  A site that has received less lowers
  it, and the site that has set it, or one that finds it as it
  left it, may raise it again.  What two tokens in a row say is
  stable: every site has received that much, if no site raises
  a number that another one has set.

  Key definitions include:
    * `Acknowledgement`
    * `Acknowledgement.pass`
    * `Acknowledgement.Earned`
    * `Acknowledgement.Consistent`

  Key theorems include:
    * `Acknowledgement.Consistent.pass`
    * `Acknowledgement.Marked.earned`
    * `Acknowledgement.Marked.pass`
    * `Acknowledgement.Bounded.pass`
    * `Acknowledgement.Bounded.seq_le`
    * `Acknowledgement.FirstVisit.consistent`
    * `Acknowledgement.FirstVisit.bounded`
-/

------------------------------------------------------------
-- Tokens and Sites
------------------------------------------------------------

namespace Foundations

/- What a token says, and who has set its second number. -/
structure Acknowledgement (ι : Type) where
  -- the packets that were sent
  seq : Nat
  -- all received up to here
  aru : Nat
  setter : Option ι
deriving DecidableEq, Repr

/- What a site has known since its last visit. -/
structure AckSite where
  -- when the visit was
  time : Nat
  received : Nat
  -- the number the site has set and may raise
  mark : Option Nat
  -- the numbers of the token when it left
  seq : Nat
  aru : Nat
  -- what every site has received
  stable : Nat
deriving DecidableEq, Repr

/- A site that has neither received nor sent anything. -/
def AckSite.fresh (time : Nat) : AckSite where
  time := time
  received := 0
  mark := none
  seq := 0
  aru := 0
  stable := 0

namespace Acknowledgement

variable {ι : Type}
variable [DecidableEq ι]

/- The site may raise the number that all have received. -/
def Raises
    (token : Acknowledgement ι)
    (me : ι)
    (site : AckSite) : Prop :=
  site.mark = some token.aru ∨ token.setter = some me ∨
    token.aru = token.seq

instance
    (token : Acknowledgement ι)
    (me : ι)
    (site : AckSite) :
    Decidable (token.Raises me site) :=
  inferInstanceAs (Decidable (_ ∨ _))

/- What the site has marked is not set by another one. -/
def Earned
    (token : Acknowledgement ι)
    (me : ι)
    (site : AckSite) : Prop :=
  site.mark = some token.aru →
    token.setter = some me ∨ token.aru = token.seq

instance
    (token : Acknowledgement ι)
    (me : ι)
    (site : AckSite) :
    Decidable (token.Earned me site) :=
  inferInstanceAs (Decidable (_ → _))

/-
  The token when it leaves a site that has received everything
  up to a number, and has sent packets up to another one.
-/
def leave
    (token : Acknowledgement ι)
    (me : ι)
    (site : AckSite)
    (received highest : Nat) :
    Acknowledgement ι :=
  if token.Raises me site ∨ received < token.aru then
    ⟨highest, received, some me⟩
  else
    { token with seq := highest }

/- The number a site marks as one that it has set. -/
def nextMark
    (token : Acknowledgement ι)
    (me : ι)
    (site : AckSite)
    (received highest : Nat) :
    Option Nat :=
  if token.Raises me site then
    if received < highest then some received else none
  else if received < token.aru then
    some received
  else
    none

/- The site after the visit. -/
def pass
    (token : Acknowledgement ι)
    (me : ι)
    (site : AckSite)
    (now received highest : Nat) :
    AckSite where
  time := now
  received := received
  mark := token.nextMark me site received highest
  seq := highest
  aru := (token.leave me site received highest).aru
  stable :=
    min (token.leave me site received highest).aru site.aru

/- What holds of the token and all sites. -/
structure Consistent
    (token : Acknowledgement ι)
    (sites : ι → AckSite) : Prop where
  aru_le : token.aru ≤ token.seq
  sent_le : ∀ p, (sites p).aru ≤ token.seq
  -- nobody has changed the number since it was set
  set :
    ∀ r, token.setter = some r →
      (sites r).aru = token.aru ∧
        ∀ p, (sites r).time < (sites p).time →
          (sites p).aru = token.aru
  -- what is still claimed has been received
  claimed :
    ∀ p q, (sites p).time < (sites q).time →
      min (sites p).aru token.aru ≤ (sites q).received
  stable_le : ∀ p q, (sites p).stable ≤ (sites q).received
  stable_claimed : ∀ p, (sites p).stable ≤ token.aru

/- What holds of the marks that sites have made. -/
structure Marked
    (token : Acknowledgement ι)
    (sites : ι → AckSite) : Prop where
  less : ∀ r c, (sites r).mark = some c → c < token.seq
  aru_le : ∀ r c, (sites r).mark = some c → token.aru ≤ c
  -- a number that is not lower is the one the site has set
  set :
    ∀ r, (sites r).mark = some token.aru →
      token.setter = some r
  since :
    ∀ r c, (sites r).mark = some c →
      ∃ s, token.setter = some s ∧
        (sites r).time ≤ (sites s).time

end Acknowledgement

end Foundations

------------------------------------------------------------
-- A Visit
------------------------------------------------------------

namespace Foundations

namespace Acknowledgement

variable {ι : Type}
variable [DecidableEq ι]
variable {token : Acknowledgement ι}
variable {sites : ι → AckSite}
variable {me : ι}
variable {now received highest : Nat}

@[simp] theorem leave_seq
    (site : AckSite) :
    (token.leave me site received highest).seq = highest := by
  unfold leave
  split_ifs <;> rfl

/- A site never lets the token claim more than it has. -/
theorem leave_aru_le
    (site : AckSite) :
    (token.leave me site received highest).aru ≤ received := by
  unfold leave
  split_ifs with hSets
  · exact Nat.le_refl _
  · exact Nat.le_of_not_lt fun hLess => hSets (Or.inr hLess)

/- Only a site that may raise the number raises it. -/
theorem leave_aru_le_of_not_raises
    (received highest : Nat)
    {site : AckSite}
    (hRaises : ¬ token.Raises me site) :
    (token.leave me site received highest).aru ≤ token.aru := by
  unfold leave
  split_ifs with hSets
  · rcases hSets with hRaises' | hLess
    · exact absurd hRaises' hRaises
    · exact Nat.le_of_lt hLess
  · exact Nat.le_refl _

/- What the token claims is lowered to what a site has. -/
theorem le_leave_aru
    {site : AckSite}
    {n : Nat}
    (hReceived : n ≤ received)
    (hClaimed : n ≤ token.aru) :
    n ≤ (token.leave me site received highest).aru := by
  unfold leave
  split_ifs
  · exact hReceived
  · exact hClaimed

/- A mark that is found is the site's own number. -/
omit [DecidableEq ι] in
theorem Marked.earned
    (hMarked : Marked token sites)
    (me : ι) :
    token.Earned me (sites me) :=
  fun hMine => Or.inl (hMarked.set me hMine)

/- While another site has a mark, nobody raises the number. -/
omit [DecidableEq ι] in
theorem Marked.not_raises
    (hMarked : Marked token sites)
    (hFirst : ∀ p, p ≠ me → (sites me).time < (sites p).time)
    {r : ι}
    (hOther : r ≠ me)
    {c : Nat}
    (hMark : (sites r).mark = some c) :
    ¬ token.Raises me (sites me) := by
  have hEarlier := hFirst r hOther
  have hNotSet : token.setter ≠ some me := by
    intro hSet
    rcases hMarked.since r c hMark with ⟨s, hSetter, hSince⟩
    rw [hSet, Option.some.injEq] at hSetter
    rw [← hSetter] at hSince
    omega
  rintro (hMine | hSet | hAll)
  · exact hNotSet (hMarked.set me hMine)
  · exact hNotSet hSet
  · have hLess := hMarked.less r c hMark
    have hClaim := hMarked.aru_le r c hMark
    omega

namespace Consistent

variable (hConsistent : Consistent token sites)

include hConsistent

/- When the number is raised, no site has sent a larger one. -/
omit [DecidableEq ι] in
theorem sent_le_of_raises
    (hFirst : ∀ p, p ≠ me → (sites me).time < (sites p).time)
    (hEarned : token.Earned me (sites me))
    (hRaises : token.Raises me (sites me))
    (p : ι) :
    (sites p).aru ≤ token.aru := by
  have hOwn : token.setter = some me ∨ token.aru = token.seq :=
    hRaises.elim hEarned id
  rcases hOwn with hSet | hAll
  · by_cases hMe : p = me
    · subst hMe
      exact Nat.le_of_eq (hConsistent.set p hSet).1
    · exact Nat.le_of_eq
        ((hConsistent.set me hSet).2 p (hFirst p hMe))
  · rw [hAll]
    exact hConsistent.sent_le p

/- What becomes stable at a site, all sites have received. -/
theorem next_stable_le
    (hFirst : ∀ p, p ≠ me → (sites me).time < (sites p).time)
    (hEarned : token.Earned me (sites me))
    {q : ι}
    (hOther : q ≠ me) :
    min (token.leave me (sites me) received highest).aru
        (sites me).aru ≤
      (sites q).received := by
  have hClaimed :=
    hConsistent.claimed me q (hFirst q hOther)
  by_cases hRaises : token.Raises me (sites me)
  · have hSent :=
      hConsistent.sent_le_of_raises hFirst hEarned hRaises me
    omega
  · have hLower :=
      leave_aru_le_of_not_raises received highest hRaises
    omega

end Consistent

end Acknowledgement

end Foundations

------------------------------------------------------------
-- Visits Keep the Site Consistent
------------------------------------------------------------

namespace Foundations

namespace Acknowledgement

variable {ι : Type}
variable [DecidableEq ι]
variable {token : Acknowledgement ι}
variable {sites : ι → AckSite}
variable {me : ι}
variable {now received highest : Nat}

/- All sites, after one of them was visited. -/
def passAll
    (token : Acknowledgement ι)
    (sites : ι → AckSite)
    (me : ι)
    (now received highest : Nat) :
    ι → AckSite :=
  Function.update sites me
    (token.pass me (sites me) now received highest)

@[simp] theorem passAll_same :
    token.passAll sites me now received highest me =
      token.pass me (sites me) now received highest :=
  Function.update_self _ _ _

theorem passAll_of_ne
    {p : ι}
    (hOther : p ≠ me) :
    token.passAll sites me now received highest p = sites p :=
  Function.update_of_ne hOther _ _

/- What holds of the visited site, and of all others. -/
theorem forall_passAll
    {P : ι → AckSite → Prop}
    (hMe : P me (token.pass me (sites me) now received highest))
    (hOthers : ∀ p, p ≠ me → P p (sites p))
    (p : ι) :
    P p (token.passAll sites me now received highest p) :=
  (Function.forall_update_iff _ P).mpr ⟨hMe, hOthers⟩ p

/- The site leaves a mark only with the number it has set. -/
theorem nextMark_eq_some
    {site : AckSite}
    {c : Nat}
    (hMark :
      token.nextMark me site received highest = some c) :
    c = received ∧
      token.leave me site received highest =
        ⟨highest, received, some me⟩ ∧
      (received < highest ∨ received < token.aru) := by
  unfold nextMark at hMark
  unfold leave
  split_ifs at hMark with hRaises hMore hLess
  · cases hMark
    exact ⟨rfl, if_pos (Or.inl hRaises), Or.inl hMore⟩
  · cases hMark
    exact ⟨rfl, if_pos (Or.inr hLess), Or.inr hLess⟩

/- The token was set by the site, or left as it was. -/
theorem leave_cases
    (token : Acknowledgement ι)
    (me : ι)
    (site : AckSite)
    (received highest : Nat) :
    token.leave me site received highest =
        ⟨highest, received, some me⟩ ∨
      ¬ token.Raises me site ∧ token.aru ≤ received ∧
        token.leave me site received highest =
          { token with seq := highest } := by
  unfold leave
  by_cases hSets : token.Raises me site ∨ received < token.aru
  · exact Or.inl (if_pos hSets)
  · rw [not_or, Nat.not_lt] at hSets
    exact Or.inr ⟨hSets.1, hSets.2,
      if_neg (by rw [not_or, Nat.not_lt]; exact hSets)⟩

/- The visit of a site that was not visited for longest. -/
structure Visit
    (token : Acknowledgement ι)
    (sites : ι → AckSite)
    (me : ι)
    (now received highest : Nat) : Prop where
  first : ∀ p, p ≠ me → (sites me).time < (sites p).time
  later : ∀ p, (sites p).time < now
  more : (sites me).received ≤ received
  seq_le : token.seq ≤ highest
  received_le : received ≤ highest
  earned : token.Earned me (sites me)

variable (hConsistent : Consistent token sites)
variable (hVisit : Visit token sites me now received highest)

include hConsistent hVisit

theorem Consistent.pass_set
    (r : ι)
    (hSetter :
      (token.leave me (sites me) received highest).setter =
        some r) :
    (token.passAll sites me now received highest r).aru =
        (token.leave me (sites me) received highest).aru ∧
      ∀ p,
        (token.passAll sites me now received highest r).time <
            (token.passAll sites me now received highest
              p).time →
          (token.passAll sites me now received highest p).aru =
            (token.leave me (sites me) received
              highest).aru := by
  rcases leave_cases token me (sites me) received highest with
    hLeave | ⟨hRaises, _, hLeave⟩
  · rw [hLeave, Option.some.injEq] at hSetter
    subst hSetter
    refine ⟨by rw [passAll_same, pass], ?_⟩
    intro p hLater
    by_cases hSame : p = me
    · subst hSame
      exact absurd hLater (Nat.lt_irrefl _)
    · rw [passAll_same, passAll_of_ne hSame] at hLater
      have hNow := hVisit.later p
      simp only [pass] at hLater
      omega
  · have hAru :
        (token.leave me (sites me) received highest).aru =
          token.aru := by
      rw [hLeave]
    rw [hLeave] at hSetter
    have hOther : r ≠ me := by
      rintro rfl
      exact hRaises (Or.inr (Or.inl hSetter))
    rcases hConsistent.set r hSetter with ⟨hSent, hLater⟩
    rw [passAll_of_ne hOther, hAru]
    refine ⟨hSent, ?_⟩
    intro p hTime
    by_cases hSame : p = me
    · subst hSame
      rw [passAll_same]
      exact hAru
    · rw [passAll_of_ne hSame] at hTime ⊢
      exact hLater p hTime

theorem Consistent.pass_claimed
    (p q : ι)
    (hLater :
      (token.passAll sites me now received highest p).time <
        (token.passAll sites me now received highest q).time) :
    min (token.passAll sites me now received highest p).aru
        (token.leave me (sites me) received highest).aru ≤
      (token.passAll sites me now received highest
        q).received := by
  by_cases hMe : q = me
  · subst hMe
    rw [passAll_same]
    exact (Nat.min_le_right _ _).trans (leave_aru_le _)
  rw [passAll_of_ne hMe] at hLater ⊢
  by_cases hSame : p = me
  · subst hSame
    rw [passAll_same] at hLater
    have hNow := hVisit.later q
    simp only [pass] at hLater
    omega
  · rw [passAll_of_ne hSame] at hLater ⊢
    have hClaimed := hConsistent.claimed p q hLater
    by_cases hRaises : token.Raises me (sites me)
    · have hSent :=
        hConsistent.sent_le_of_raises hVisit.first
          hVisit.earned hRaises p
      omega
    · have hLower :=
        leave_aru_le_of_not_raises received highest hRaises
      omega

/- A visit keeps everything that holds of token and sites. -/
theorem Consistent.pass :
    Consistent (token.leave me (sites me) received highest)
      (token.passAll sites me now received highest) where
  aru_le := by
    rw [leave_seq]
    exact (leave_aru_le _).trans hVisit.received_le
  sent_le p := by
    rw [leave_seq]
    by_cases hSame : p = me
    · subst hSame
      rw [passAll_same]
      exact (leave_aru_le _).trans hVisit.received_le
    · rw [passAll_of_ne hSame]
      exact (hConsistent.sent_le p).trans hVisit.seq_le
  set := hConsistent.pass_set hVisit
  claimed := hConsistent.pass_claimed hVisit
  stable_le p q := by
    by_cases hP : p = me <;> by_cases hQ : q = me
    · subst hP hQ
      rw [passAll_same]
      exact (Nat.min_le_left _ _).trans (leave_aru_le _)
    · subst hP
      rw [passAll_same, passAll_of_ne hQ]
      exact hConsistent.next_stable_le hVisit.first
        hVisit.earned hQ
    · subst hQ
      rw [passAll_same, passAll_of_ne hP]
      exact (hConsistent.stable_le p q).trans hVisit.more
    · rw [passAll_of_ne hP, passAll_of_ne hQ]
      exact hConsistent.stable_le p q
  stable_claimed p := by
    by_cases hP : p = me
    · subst hP
      rw [passAll_same]
      exact Nat.min_le_left _ _
    · rw [passAll_of_ne hP]
      exact le_leave_aru
        ((hConsistent.stable_le p me).trans hVisit.more)
        (hConsistent.stable_claimed p)

/- A visit keeps what holds of the marks. -/
theorem Marked.pass
    (hMarked : Marked token sites) :
    Marked (token.leave me (sites me) received highest)
      (token.passAll sites me now received highest) where
  less r c hMark := by
    rw [leave_seq]
    by_cases hMe : r = me
    · subst hMe
      rw [passAll_same] at hMark
      rcases nextMark_eq_some hMark with ⟨rfl, _, hLess⟩
      have hAru := hConsistent.aru_le
      have hSeq := hVisit.seq_le
      omega
    · rw [passAll_of_ne hMe] at hMark
      exact (hMarked.less r c hMark).trans_le hVisit.seq_le
  aru_le r c hMark := by
    by_cases hMe : r = me
    · subst hMe
      rw [passAll_same] at hMark
      rcases nextMark_eq_some hMark with ⟨rfl, hLeave, _⟩
      rw [hLeave]
    · rw [passAll_of_ne hMe] at hMark
      have hRaises :=
        hMarked.not_raises hVisit.first hMe hMark
      exact (leave_aru_le_of_not_raises received highest
        hRaises).trans (hMarked.aru_le r c hMark)
  set r hMark := by
    by_cases hMe : r = me
    · subst hMe
      rw [passAll_same] at hMark
      rw [(nextMark_eq_some hMark).2.1]
    · rw [passAll_of_ne hMe] at hMark
      have hRaises :=
        hMarked.not_raises hVisit.first hMe hMark
      have hOld := hMarked.aru_le r _ hMark
      -- the number was not lowered, since the mark is as low
      by_cases hLess : received < token.aru
      · rw [leave, if_pos (Or.inr hLess)] at hOld
        simp only at hOld
        omega
      · have hLeave :
            token.leave me (sites me) received highest =
              { token with seq := highest } :=
          if_neg (by rw [not_or]; exact ⟨hRaises, hLess⟩)
        rw [hLeave] at hMark ⊢
        exact hMarked.set r hMark
  since r c hMark := by
    have hEarlier : ∀ p,
        (sites p).time ≤
          (token.passAll sites me now received highest
            p).time := by
      intro p
      by_cases hSame : p = me
      · subst hSame
        rw [passAll_same]
        exact Nat.le_of_lt (hVisit.later p)
      · rw [passAll_of_ne hSame]
    by_cases hMe : r = me
    · subst hMe
      rw [passAll_same] at hMark
      exact ⟨r, by rw [(nextMark_eq_some hMark).2.1],
        Nat.le_refl _⟩
    · rw [passAll_of_ne hMe] at hMark ⊢
      rcases leave_cases token me (sites me) received highest with
        hLeave | ⟨_, _, hLeave⟩
      · refine ⟨me, by rw [hLeave], ?_⟩
        rw [passAll_same]
        exact Nat.le_of_lt (hVisit.later r)
      · rcases hMarked.since r c hMark with
          ⟨s, hSetter, hSince⟩
        exact ⟨s, by rw [hLeave]; exact hSetter,
          hSince.trans (hEarlier s)⟩

/- What is stable at a site stays stable. -/
theorem Consistent.stable_le_pass
    (hSent : (sites me).stable ≤ (sites me).aru) :
    (sites me).stable ≤
      (token.pass me (sites me) now received highest).stable :=
  Nat.le_min.mpr
    ⟨le_leave_aru
      ((hConsistent.stable_le me me).trans hVisit.more)
      (hConsistent.stable_claimed me), hSent⟩

end Acknowledgement

end Foundations

------------------------------------------------------------
-- How Far a Site Is Behind
------------------------------------------------------------

namespace Foundations

namespace Acknowledgement

variable {ι : Type}
variable [DecidableEq ι]
variable {token : Acknowledgement ι}
variable {sites : ι → AckSite}
variable {me : ι}
variable {now received highest room : Nat}

/-
  What holds when a site only sends packets that are less than
  a number above what is stable for it.
-/
structure Bounded
    (room : Nat)
    (token : Acknowledgement ι)
    (sites : ι → AckSite) : Prop where
  aru_le : ∀ p, (sites p).aru ≤ (sites p).seq
  ordered :
    ∀ p q, (sites p).time ≤ (sites q).time →
      (sites p).seq ≤ (sites q).seq
  seq_le_token : ∀ p, (sites p).seq ≤ token.seq
  stable_le_aru : ∀ p, (sites p).stable ≤ (sites p).aru
  reach : ∃ p, token.seq ≤ (sites p).stable + room
  behind : ∀ p q, (sites p).stable ≤ (sites q).seq
  claimed : ∀ p, (sites p).seq ≤ (sites p).aru + room
  lag : ∀ p, (sites p).seq ≤ (sites p).stable + 2 * room

/- A site that sends only as far as the flow control allows. -/
def Flows
    (room : Nat)
    (token : Acknowledgement ι)
    (site : AckSite)
    (highest : Nat) : Prop :=
  highest = token.seq ∨ highest ≤ site.stable + room

omit [DecidableEq ι] in
/- The packets that are not stable are at most so many. -/
theorem Bounded.seq_le
    (hBounded : Bounded room token sites)
    (p : ι) :
    token.seq ≤ (sites p).stable + 3 * room := by
  rcases hBounded.reach with ⟨q, hReach⟩
  have hBehind := hBounded.behind q p
  have hLag := hBounded.lag p
  omega

namespace Bounded

variable (hConsistent : Consistent token sites)
variable (hBounded : Bounded room token sites)
variable (hVisit : Visit token sites me now received highest)
variable (hFlows : Flows room token (sites me) highest)

include hBounded

/- All stable packets were sent before the last visit. -/
theorem pass_stable_le (p : ι) :
    (token.passAll sites me now received highest p).stable ≤
      (sites me).seq := by
  refine forall_passAll
    (P := fun _ site => site.stable ≤ (sites me).seq) ?_ ?_ p
  · exact (Nat.min_le_right _ _).trans (hBounded.aru_le me)
  · exact fun q _ => hBounded.behind q me

include hVisit

omit [DecidableEq ι] in
/- What was sent at the last visit is behind all other sites. -/
theorem seq_le_of_ne
    {q : ι}
    (hOther : q ≠ me) :
    (sites me).seq ≤ (sites q).seq :=
  hBounded.ordered me q (Nat.le_of_lt (hVisit.first q hOther))

omit [DecidableEq ι] in
theorem seq_le_highest (p : ι) :
    (sites p).seq ≤ highest :=
  (hBounded.seq_le_token p).trans hVisit.seq_le

/- Sites that were visited later have sent more. -/
theorem pass_ordered
    (p q : ι)
    (hTime :
      (token.passAll sites me now received highest p).time ≤
        (token.passAll sites me now received highest q).time) :
    (token.passAll sites me now received highest p).seq ≤
      (token.passAll sites me now received highest q).seq := by
  have hSeq := hBounded.seq_le_highest hVisit
  by_cases hQ : q = me
  · subst hQ
    rw [passAll_same]
    exact forall_passAll
      (P := fun _ site => site.seq ≤ highest)
      (Nat.le_refl _) (fun r _ => hSeq r) p
  · have hLater := hVisit.later q
    by_cases hP : p = me
    · subst hP
      rw [passAll_same, passAll_of_ne hQ] at hTime
      simp only [Acknowledgement.pass] at hTime
      omega
    · rw [passAll_of_ne hP, passAll_of_ne hQ] at hTime ⊢
      exact hBounded.ordered p q hTime

include hConsistent hFlows

theorem pass_reach :
    ∃ p,
      highest ≤
        (token.passAll sites me now received highest p).stable +
          room := by
  have hGrows :=
    hConsistent.stable_le_pass hVisit
      (hBounded.stable_le_aru me)
  rcases hFlows with rfl | hLess
  · rcases hBounded.reach with ⟨p, hReach⟩
    by_cases hSame : p = me
    · subst hSame
      refine ⟨p, ?_⟩
      rw [passAll_same]
      omega
    · exact ⟨p, by rw [passAll_of_ne hSame]; exact hReach⟩
  · refine ⟨me, ?_⟩
    rw [passAll_same]
    omega

/- What the token claims is near to what was sent. -/
theorem leave_claimed :
    highest ≤
      (token.leave me (sites me) received highest).aru +
        room := by
  rcases hBounded.pass_reach hConsistent hVisit hFlows with
    ⟨p, hReach⟩
  have hHeld := (hConsistent.pass hVisit).stable_claimed p
  omega

theorem pass_lag :
    highest ≤
      (token.pass me (sites me) now received highest).stable +
        2 * room := by
  rcases hBounded.pass_reach hConsistent hVisit hFlows with
    ⟨q, hReach⟩
  have hBehind :
      highest ≤ (sites me).seq + room :=
    hReach.trans
      (Nat.add_le_add_right (hBounded.pass_stable_le q) room)
  have hClaimed :=
    hBounded.leave_claimed hConsistent hVisit hFlows
  have hBefore := hBounded.claimed me
  simp only [Acknowledgement.pass]
  omega

/- A visit keeps the bounds. -/
theorem pass :
    Bounded room
      (token.leave me (sites me) received highest)
      (token.passAll sites me now received highest) where
  aru_le :=
    forall_passAll (P := fun _ site => site.aru ≤ site.seq)
      ((leave_aru_le _).trans hVisit.received_le)
      fun p _ => hBounded.aru_le p
  ordered := hBounded.pass_ordered hVisit
  seq_le_token := by
    rw [leave_seq]
    exact forall_passAll
      (P := fun _ site => site.seq ≤ highest)
      (Nat.le_refl _)
      fun p _ => hBounded.seq_le_highest hVisit p
  stable_le_aru :=
    forall_passAll (P := fun _ site => site.stable ≤ site.aru)
      (Nat.min_le_left _ _)
      fun p _ => hBounded.stable_le_aru p
  reach := by
    rw [leave_seq]
    exact hBounded.pass_reach hConsistent hVisit hFlows
  behind := fun p q =>
    (hBounded.pass_stable_le p).trans
      (forall_passAll
        (P := fun _ site => (sites me).seq ≤ site.seq)
        (hBounded.seq_le_highest hVisit me)
        (fun r hOther => hBounded.seq_le_of_ne hVisit hOther)
        q)
  claimed :=
    forall_passAll
      (P := fun _ site => site.seq ≤ site.aru + room)
      (hBounded.leave_claimed hConsistent hVisit hFlows)
      fun p _ => hBounded.claimed p
  lag :=
    forall_passAll
      (P := fun _ site => site.seq ≤ site.stable + 2 * room)
      (hBounded.pass_lag hConsistent hVisit hFlows)
      fun p _ => hBounded.lag p

end Bounded

end Acknowledgement

end Foundations

------------------------------------------------------------
-- Receiving
------------------------------------------------------------

namespace Foundations

namespace Acknowledgement

variable {ι : Type}
variable {token : Acknowledgement ι}
variable {sites sites' : ι → AckSite}

/- Sites that differ only in that some have received more. -/
def Received (sites sites' : ι → AckSite) : Prop :=
  ∀ p, ∃ received, (sites p).received ≤ received ∧
    sites' p = { sites p with received := received }

variable (hReceived : Received sites sites')

include hReceived

theorem Consistent.receive
    (hConsistent : Consistent token sites) :
    Consistent token sites' := by
  choose received hMore hSame using hReceived
  have hSites : sites' = _ := funext hSame
  rw [hSites]
  exact
    { aru_le := hConsistent.aru_le
      sent_le := hConsistent.sent_le
      set := hConsistent.set
      claimed := fun p q hTime =>
        (hConsistent.claimed p q hTime).trans (hMore q)
      stable_le := fun p q =>
        (hConsistent.stable_le p q).trans (hMore q)
      stable_claimed := hConsistent.stable_claimed }

theorem Marked.receive
    (hMarked : Marked token sites) :
    Marked token sites' := by
  choose received _ hSame using hReceived
  have hSites : sites' = _ := funext hSame
  rw [hSites]
  exact ⟨hMarked.less, hMarked.aru_le, hMarked.set,
    hMarked.since⟩

theorem Bounded.receive
    {room : Nat}
    (hBounded : Bounded room token sites) :
    Bounded room token sites' := by
  choose received _ hSame using hReceived
  have hSites : sites' = _ := funext hSame
  rw [hSites]
  exact ⟨hBounded.aru_le, hBounded.ordered,
    hBounded.seq_le_token, hBounded.stable_le_aru,
    hBounded.reach, hBounded.behind, hBounded.claimed,
    hBounded.lag⟩

end Acknowledgement

end Foundations

------------------------------------------------------------
-- The First Visit
------------------------------------------------------------

namespace Foundations

namespace Acknowledgement

variable {ι : Type}
variable [DecidableEq ι]
variable {token : Acknowledgement ι}
variable {sites : ι → AckSite}
variable {me : ι}
variable {now received highest : Nat}

/-
  The token comes to the first of sites that are all fresh.
  Its number may be one from before, if that is larger.
-/
structure FirstVisit
    (token : Acknowledgement ι)
    (sites : ι → AckSite)
    (me : ι)
    (now received highest : Nat) : Prop where
  fresh : ∀ p, sites p = .fresh (sites p).time
  later : ∀ p, (sites p).time < now
  received_le : received ≤ highest
  sets : token.Raises me (sites me) ∨ received < token.aru

variable
  (hFirst : FirstVisit token sites me now received highest)

include hFirst

theorem FirstVisit.leave_eq :
    token.leave me (sites me) received highest =
      ⟨highest, received, some me⟩ :=
  if_pos hFirst.sets

theorem FirstVisit.passAll_same :
    ∃ mark,
      token.passAll sites me now received highest me =
        { AckSite.fresh now with
          received := received
          mark := mark
          seq := highest
          aru := received } := by
  have hAru : (sites me).aru = 0 := by
    rw [hFirst.fresh me]
    rfl
  refine ⟨token.nextMark me (sites me) received highest, ?_⟩
  rw [Acknowledgement.passAll_same, pass, hFirst.leave_eq, hAru,
    Nat.min_zero]
  rfl

theorem FirstVisit.passAll_of_ne
    {p : ι}
    (hOther : p ≠ me) :
    token.passAll sites me now received highest p =
      .fresh (sites p).time := by
  rw [Acknowledgement.passAll_of_ne hOther, ← hFirst.fresh p]

theorem FirstVisit.consistent :
    Consistent
      (token.leave me (sites me) received highest)
      (token.passAll sites me now received highest) := by
  rcases hFirst.passAll_same with ⟨mark, hMe⟩
  have hLast :
      ∀ p,
        ¬ (token.passAll sites me now received highest me).time <
          (token.passAll sites me now received highest
            p).time := by
    intro p hTime
    by_cases hSame : p = me
    · rw [hSame] at hTime
      exact Nat.lt_irrefl _ hTime
    · rw [hMe, hFirst.passAll_of_ne hSame] at hTime
      exact Nat.lt_asymm hTime (hFirst.later p)
  have hStable :
      ∀ p,
        (token.passAll sites me now received highest p).stable =
          0 := by
    intro p
    by_cases hSame : p = me
    · rw [hSame, hMe]
      rfl
    · rw [hFirst.passAll_of_ne hSame]
      rfl
  rw [hFirst.leave_eq]
  refine ⟨hFirst.received_le, ?_, ?_, ?_, ?_, ?_⟩
  · intro p
    by_cases hSame : p = me
    · rw [hSame, hMe]
      exact hFirst.received_le
    · rw [hFirst.passAll_of_ne hSame]
      exact Nat.zero_le _
  · intro r hSetter
    rw [Option.some.injEq] at hSetter
    subst hSetter
    exact ⟨by rw [hMe], fun p hTime => absurd hTime (hLast p)⟩
  · intro p q hTime
    by_cases hSame : p = me
    · rw [hSame] at hTime
      exact absurd hTime (hLast q)
    · rw [hFirst.passAll_of_ne hSame]
      exact (Nat.min_le_left _ _).trans (Nat.zero_le _)
  · intro p q
    rw [hStable p]
    exact Nat.zero_le _
  · intro p
    rw [hStable p]
    exact Nat.zero_le _

/- If the first site raises the number, its mark is its own. -/
theorem FirstVisit.marked
    (hRaises : token.Raises me (sites me)) :
    Marked
      (token.leave me (sites me) received highest)
      (token.passAll sites me now received highest) := by
  have hMine :
      ∀ r c,
        (token.passAll sites me now received highest r).mark =
            some c →
          r = me ∧ c = received ∧ received < highest := by
    intro r c hMark
    by_cases hSame : r = me
    · subst hSame
      rw [Acknowledgement.passAll_same, pass] at hMark
      rw [nextMark, if_pos hRaises] at hMark
      split_ifs at hMark with hLess
      cases hMark
      exact ⟨rfl, rfl, hLess⟩
    · rw [hFirst.passAll_of_ne hSame] at hMark
      cases hMark
  rw [hFirst.leave_eq]
  refine ⟨?_, ?_, ?_, ?_⟩
  · intro r c hMark
    rcases hMine r c hMark with ⟨_, rfl, hLess⟩
    exact hLess
  · intro r c hMark
    exact Nat.le_of_eq (hMine r c hMark).2.1.symm
  · intro r hMark
    rw [(hMine r _ hMark).1]
  · intro r c hMark
    rw [(hMine r c hMark).1]
    exact ⟨me, rfl, Nat.le_refl _⟩

theorem FirstVisit.bounded
    {room : Nat}
    (hRoom : highest ≤ room) :
    Bounded room
      (token.leave me (sites me) received highest)
      (token.passAll sites me now received highest) := by
  rcases hFirst.passAll_same with ⟨mark, hMe⟩
  rw [hFirst.leave_eq]
  refine ⟨?_, ?_, ?_, ?_, ⟨me, ?_⟩, ?_, ?_, ?_⟩
  · intro p
    by_cases hSame : p = me
    · rw [hSame, hMe]
      exact hFirst.received_le
    · rw [hFirst.passAll_of_ne hSame]
      exact Nat.le_refl _
  · intro p q hTime
    by_cases hP : p = me <;> by_cases hQ : q = me
    · rw [hP, hQ]
    · rw [hP, hMe, hFirst.passAll_of_ne hQ] at hTime
      exact absurd (hFirst.later q) (Nat.not_lt.mpr hTime)
    · rw [hFirst.passAll_of_ne hP]
      exact Nat.zero_le _
    · rw [hFirst.passAll_of_ne hP]
      exact Nat.zero_le _
  · intro p
    by_cases hSame : p = me
    · rw [hSame, hMe]
    · rw [hFirst.passAll_of_ne hSame]
      exact Nat.zero_le _
  · intro p
    by_cases hSame : p = me
    · rw [hSame, hMe]
      exact Nat.zero_le _
    · rw [hFirst.passAll_of_ne hSame]
      exact Nat.le_refl _
  · rw [hMe]
    exact hRoom.trans (Nat.le_add_left _ _)
  · intro p q
    by_cases hSame : p = me
    · rw [hSame, hMe]
      exact Nat.zero_le _
    · rw [hFirst.passAll_of_ne hSame]
      exact Nat.zero_le _
  · intro p
    by_cases hSame : p = me
    · rw [hSame, hMe]
      exact hRoom.trans (Nat.le_add_left _ _)
    · rw [hFirst.passAll_of_ne hSame]
      exact Nat.zero_le _
  · intro p
    by_cases hSame : p = me
    · rw [hSame, hMe]
      change highest ≤ 0 + 2 * room
      omega
    · rw [hFirst.passAll_of_ne hSame]
      exact Nat.zero_le _

end Acknowledgement

end Foundations
