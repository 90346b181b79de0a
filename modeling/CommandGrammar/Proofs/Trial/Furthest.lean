import CommandGrammar.Proofs.Command.Crossing
import CommandGrammar.Session.Dispatcher
import Mathlib.Data.List.Pairwise

/-!
# The failure that is reported

Of the failed trials of a list, the one to report is that which got furthest, of those the one whose
command ranks highest, and of those the earliest.  Successes that are mixed in play no part.  Where
the rank orders the commands, that is the first of the least by one lexicographic order
(`Trial.byFailure`); and where no two commands are of one rank, it is the same failure in whatever
order the trials come.
-/

set_option autoImplicit false

namespace CommandGrammar

open Std

variable {α : Type}

namespace Trial

/-- The failure to report of a list of trials. -/
structure FurthestFailure (trials : List (Trial α)) (p : Trial α) : Prop where
  failed : p.succeeded = false
  /-- No failure got further. -/
  furthest : ∀ q ∈ trials, q.succeeded = false → q.furthest ≤ p.furthest
  /-- No failure that got as far has a command that ranks higher. -/
  ranked : ∀ q ∈ trials, q.succeeded = false → q.furthest = p.furthest →
    q.command.rank p.command ≠ .lt
  /-- No failure in front of it got as far with a command of the same rank. -/
  earliest : ∃ front back, trials = front ++ p :: back
    ∧ ∀ q ∈ front, q.succeeded = false → q.furthest = p.furthest →
        q.command.rank p.command ≠ .eq

theorem FurthestFailure.mem {trials : List (Trial α)} {p : Trial α}
    (h : FurthestFailure trials p) : p ∈ trials := by
  obtain ⟨front, back, rfl, -⟩ := h.earliest
  simp

theorem exists_error {t : Trial α} (h : t.succeeded = false) : ∃ e, t.error = some e :=
  Option.isSome_iff_exists.mp (by simpa [succeeded] using h)

/-! ## The order of failures -/

/-- Compares failures of commands that their rank orders. -/
def byFailure : Trial α → Trial α → Ordering :=
  compareLex (fun a b => compareOn furthest b a) (fun a b => a.command.byRank b.command)

instance : TransCmp (byFailure (α := α)) := by
  have hrank := transCmp_on Command.byRank (Trial.command (α := α))
  exact inferInstanceAs (TransCmp (compareLex (fun a b : Trial α => compareOn furthest b a)
    (fun a b => a.command.byRank b.command)))

/-- One failure comes before another where it got further, or as far with a higher rank. -/
theorem byFailure_eq_lt_iff {p q : Trial α} :
    q.byFailure p = .lt
      ↔ p.furthest < q.furthest
        ∨ q.furthest = p.furthest ∧ q.command.byRank p.command = .lt := by
  simp only [byFailure, compareLex, compareOn, Ordering.then_eq_lt, Nat.compare_eq_lt,
    Nat.compare_eq_eq]
  rw [eq_comm (a := p.furthest)]

section Orderable

variable {trials : List (Trial α)} {p q : Trial α}

theorem mem_failures : q ∈ trials.filter (fun t => !t.succeeded)
    ↔ q ∈ trials ∧ q.succeeded = false := by simp

theorem rank_eq_byRank (h : Command.Orderable (trials.map command)) (hp : p ∈ trials)
    (hq : q ∈ trials) : p.command.rank q.command = p.command.byRank q.command :=
  h.rank_eq (List.mem_map_of_mem hp) (List.mem_map_of_mem hq)

/-- The first of the least failures is the one to report. -/
theorem furthestFailure_of_firstLeast (h : Command.Orderable (trials.map command))
    (hfirst : FirstLeast byFailure (trials.filter fun t => !t.succeeded) p) :
    FurthestFailure trials p := by
  obtain ⟨hp, hfailed⟩ := mem_failures.mp hfirst.mem
  have hleast (q : Trial α) (hq : q ∈ trials) (hqFailed : q.succeeded = false) :=
    mt byFailure_eq_lt_iff.mpr (hfirst.least q (mem_failures.mpr ⟨hq, hqFailed⟩))
  refine ⟨hfailed, ?_, ?_, ?_⟩
  · intro q hq hqFailed
    exact Nat.not_lt.mp fun hlt => hleast q hq hqFailed (.inl hlt)
  · intro q hq hqFailed hsame
    rw [rank_eq_byRank h hq hp]
    exact fun hlt => hleast q hq hqFailed (.inr ⟨hsame, hlt⟩)
  · obtain ⟨front, back, hsplit, hfront⟩ := hfirst.first
    obtain ⟨before, after, rfl, hbefore, hafter⟩ := List.filter_eq_append_iff.mp hsplit
    obtain ⟨between, behind, rfl, hbetween, -, -⟩ := List.filter_eq_cons_iff.mp hafter
    refine ⟨before ++ between, behind, by simp, ?_⟩
    intro q hq hqFailed hsame heq
    -- between the failures in front and this one there are successes only
    have hqBefore : q ∈ before := by
      rcases List.mem_append.mp hq with hq | hq
      · exact hq
      · exact absurd (by simp [hqFailed]) (hbetween q hq)
    have hlt := hfront q (hbefore ▸ mem_failures.mpr ⟨hqBefore, hqFailed⟩)
    rw [rank_eq_byRank h (List.mem_append_left _ hqBefore) hp] at heq
    rcases byFailure_eq_lt_iff.mp hlt with hfurther | ⟨-, hrank⟩
    · omega
    · rw [OrientedCmp.eq_comm.mp heq] at hrank
      cases hrank

theorem exists_furthestFailure? (h : Command.Orderable (trials.map command))
    (hfailed : ∃ t ∈ trials, t.succeeded = false) :
    ∃ p, furthestFailure? trials = some p ∧ FurthestFailure trials p := by
  obtain ⟨t, ht, htFailed⟩ := hfailed
  have ht := mem_failures.mpr ⟨ht, htFailed⟩
  have hpick : ∀ a ∈ trials.filter (fun t => !t.succeeded),
      ∀ b ∈ trials.filter (fun t => !t.succeeded),
        preferFailure a b = if byFailure a b = .gt then b else a := by
    intro a ha b hb
    rw [preferFailure, compareFailures,
      rank_eq_byRank h (mem_failures.mp ha).1 (mem_failures.mp hb).1]
    rfl
  unfold furthestFailure?
  cases hfilter : trials.filter fun t => !t.succeeded with
  | nil =>
    rw [hfilter] at ht
    cases ht
  | cons first rest =>
    rw [hfilter] at hpick
    refine ⟨_, rfl, furthestFailure_of_firstLeast h ?_⟩
    rw [hfilter]
    exact (firstLeast_singleton first).foldl hpick

/-- Where no two failed commands are of one rank, there is but one failure to report, in whatever
order the trials come. -/
theorem FurthestFailure.eq_of_perm {others : List (Trial α)} (hp : FurthestFailure trials p)
    (hq : FurthestFailure others q) (hperm : trials.Perm others)
    (h : Command.Orderable (trials.map command))
    (hdistinct : trials.Pairwise fun a b => a.command.rank b.command ≠ .eq) : p = q := by
  have hqMem := hperm.mem_iff.mpr hq.mem
  have hsame : q.furthest = p.furthest :=
    Nat.le_antisymm (hp.furthest q hqMem hq.failed)
      (hq.furthest p (hperm.mem_iff.mp hp.mem) hp.failed)
  have hqp := hp.ranked q hqMem hq.failed hsame
  have hpq := hq.ranked p (hperm.mem_iff.mp hp.mem) hp.failed hsame.symm
  rw [rank_eq_byRank h hqMem hp.mem] at hqp
  rw [rank_eq_byRank h hp.mem hqMem] at hpq
  have htie : p.command.byRank q.command = .eq :=
    OrientedCmp.isLE_antisymm
      (Ordering.isLE_iff_ne_gt.mpr (mt OrientedCmp.lt_of_gt hqp))
      (Ordering.isLE_iff_ne_gt.mpr (mt OrientedCmp.lt_of_gt hpq))
  have hkeys : trials.Pairwise fun a b => a.command.byRank b.command ≠ .eq :=
    hdistinct.imp_of_mem fun ha hb hne => rank_eq_byRank h ha hb ▸ hne
  have : Symm fun a b : Trial α => a.command.byRank b.command ≠ .eq :=
    ⟨fun a b hne heq => hne (OrientedCmp.eq_comm.mp heq)⟩
  by_contra hne
  exact hkeys.forall hp.mem hqMem hne htie

/-- Of trials of commands that all have a priority or that all have none, the failure that is
reported is the one that got furthest, of those one whose command ranks highest, and of those the
earliest.  If no two of the commands are of one rank, the order of the trials plays no part in it,
nor in the error that is reported. -/
theorem furthestFailure?_reports (h : Command.Orderable (trials.map command))
    (hfailed : ∃ t ∈ trials, t.succeeded = false) :
    ∃ p e, furthestFailure? trials = some p ∧ p.error = some e ∧ FurthestFailure trials p
      ∧ (∀ input, furthestError input trials = e)
      ∧ ((trials.Pairwise fun a b => a.command.rank b.command ≠ .eq) →
          ∀ others, trials.Perm others →
            furthestFailure? others = some p ∧ ∀ input, furthestError input others = e) := by
  obtain ⟨p, hreport, hp⟩ := exists_furthestFailure? h hfailed
  obtain ⟨e, he⟩ := exists_error hp.failed
  have herror (others : List (Trial α)) (hothers : furthestFailure? others = some p)
      (input : String) : furthestError input others = e := by
    rw [furthestError, hothers, Option.bind_some, he]
  refine ⟨p, e, hreport, he, hp, herror trials hreport, ?_⟩
  intro hdistinct others hperm
  have hothers := h.subset (List.map_subset command hperm.symm.subset)
  obtain ⟨q, hreported, hq⟩ :=
    exists_furthestFailure? hothers ⟨p, hperm.mem_iff.mp hp.mem, hp.failed⟩
  rw [← hp.eq_of_perm hq hperm h hdistinct] at hreported
  exact ⟨hreported, herror others hreported⟩

end Orderable

/-- A command that starts with `word`, tried on `walk`. -/
def walked (c : Command Unit) (word : String) : Trial Unit :=
  ⟨c, .start default c.info "walk",
    some ⟨.literalMismatch word "walk", some (.literal c.path word 0)⟩, false, 0⟩

/-- `warp to` and `home` fail at the same node; `home` has the priority, wherever it stands. -/
theorem reports_home :
    Command.Orderable ([walked Command.warpTo "warp", walked Command.home "home"].map command)
      ∧ FurthestFailure [walked Command.warpTo "warp", walked Command.home "home"]
          (walked Command.home "home")
      ∧ ∀ input, furthestError input [walked Command.home "home", walked Command.warpTo "warp"]
          = ⟨.literalMismatch "home" "walk", some (.literal "home" "home" 0)⟩ := by
  have horderable : Command.Orderable
      ([walked Command.warpTo "warp", walked Command.home "home"].map command) := by
    refine ⟨?_, .inl (by decide)⟩
    intro c hc
    simp only [List.map_cons, List.map_nil, List.mem_cons, List.not_mem_nil, or_false] at hc
    rcases hc with rfl | rfl
    · exact Command.compiled_warpTo
    · exact Command.compiled_home
  obtain ⟨p, e, hreport, he, hp, -, hanyOrder⟩ :=
    furthestFailure?_reports horderable ⟨_, List.mem_cons_self, rfl⟩
  have hhome : p = walked Command.home "home" := (Option.some.inj hreport).symm
  subst hhome
  obtain ⟨-, herror⟩ := hanyOrder (by decide) _ (.swap _ _ _)
  cases he
  exact ⟨horderable, hp, herror⟩

end Trial

end CommandGrammar
