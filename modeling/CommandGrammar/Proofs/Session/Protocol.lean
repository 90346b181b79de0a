import CommandGrammar.Proofs.Session.Course
import CommandGrammar.Proofs.Trial.Acceptance

/-!
# The protocol of a dispatch

A dispatch claims conditions, asks hooks, invokes an action and settles what it has claimed.  Which
of this happens, how often and in which order is a property of the entries that the dispatch leaves
in the journal.  Dispatches that are nested in its action leave theirs in between, under numbers of
their own, so the entries of one number tell the course of one dispatch.
-/

set_option autoImplicit false

namespace CommandGrammar

variable {α σ : Type}

/-! ## What happens before what -/

namespace Happening

/-- The stages of a dispatch: claims, a refusal, hooks, the invocation and its end, the settlement,
the handlers. -/
def stage : Happening → Nat
  | .claimed _ => 0
  | .refused _ => 1
  | .asked _ _ => 2
  | .invoked _ _ _ => 3
  | .ended _ => 4
  | .confirmed _ => 5
  | .released _ => 5
  | .excepted => 6
  | .responded => 6

/-- The condition or the hook that is called. -/
def place : Happening → Nat
  | .claimed i => i
  | .asked i _ => i
  | .confirmed i => i
  | .released i => i
  | _ => 0

/-- One thing comes before another in a dispatch: at an earlier stage, or at an earlier place of the
same stage. -/
def Before (x y : Happening) : Prop := x.stage < y.stage ∨ x.stage = y.stage ∧ x.place < y.place

/-- Whether an action is invoked. -/
def isInvoked (h : Happening) : Bool := decide (h.stage = 3)

theorem not_before_self (x : Happening) : ¬ x.Before x := by
  unfold Before
  omega

theorem nodup_of_pairwise_before {hs : List Happening} (h : hs.Pairwise Before) : hs.Nodup :=
  h.imp fun {_ _} hbefore heq => by
    subst heq
    exact not_before_self _ hbefore

theorem comparable_of_pairwise_before {hs : List Happening} (h : hs.Pairwise Before)
    {x y : Happening} (hx : x ∈ hs) (hy : y ∈ hs) : x = y ∨ x.Before y ∨ y.Before x := by
  induction h with
  | nil => cases hx
  | cons hfirst _ ih =>
    rcases List.mem_cons.mp hx with rfl | hxrest
    · rcases List.mem_cons.mp hy with rfl | hyrest
      · exact .inl rfl
      · exact .inr (.inl (hfirst y hyrest))
    · rcases List.mem_cons.mp hy with rfl | hyrest
      · exact .inr (.inr (hfirst x hxrest))
      · exact ih hxrest hyrest

@[simp] theorem isInvoked_iff {h : Happening} :
    h.isInvoked = true ↔ ∃ actor command cooldown, h = .invoked actor command cooldown := by
  cases h <;> simp [isInvoked, stage]

/-- Where things happen in order, one action is invoked at most. -/
theorem length_filter_isInvoked_le_one {hs : List Happening} (h : hs.Pairwise Before) :
    (hs.filter isInvoked).length ≤ 1 := by
  have hpairs := h.sublist (List.filter_sublist (p := isInvoked))
  have hall : ∀ h ∈ hs.filter isInvoked, h.stage = 3 ∧ h.place = 0 := by
    intro h hmem
    obtain ⟨_, _, _, rfl⟩ := isInvoked_iff.mp (List.mem_filter.mp hmem).2
    exact ⟨rfl, rfl⟩
  match hs.filter isInvoked, hpairs, hall with
  | [], _, _ => exact Nat.zero_le 1
  | [_], _, _ => exact Nat.le_refl 1
  | x :: y :: _, hpairs, hall =>
    have hbefore := (List.pairwise_cons.mp hpairs).1 y List.mem_cons_self
    have hx := hall x List.mem_cons_self
    have hy := hall y (List.mem_cons_of_mem _ List.mem_cons_self)
    unfold Before at hbefore
    omega

theorem mem_claims {h : Happening} {k : Nat} : h ∈ claims k ↔ ∃ i < k, h = .claimed i := by
  simp [claims, eq_comm]

theorem mem_confirms {h : Happening} {k : Nat} : h ∈ confirms k ↔ ∃ i < k, h = .confirmed i := by
  simp [confirms, eq_comm]

theorem mem_releases {h : Happening} {k : Nat} : h ∈ releases k ↔ ∃ i < k, h = .released i := by
  simp [releases, eq_comm]

theorem mem_asks {h : Happening} {answers : List Bool} :
    h ∈ asks answers ↔ ∃ j allowed, answers[j]? = some allowed ∧ h = .asked j allowed := by
  simp only [asks, asksFrom, List.mem_map, Prod.exists, List.mem_zipIdx_iff_getElem?]
  constructor
  · rintro ⟨allowed, j, hat, rfl⟩
    exact ⟨j, allowed, hat, rfl⟩
  · rintro ⟨j, allowed, hat, rfl⟩
    exact ⟨allowed, j, hat, rfl⟩

/-- In order, and all from a stage on. -/
def OrderedFrom (t : Nat) (hs : List Happening) : Prop :=
  hs.Pairwise Before ∧ ∀ h ∈ hs, t ≤ h.stage

theorem orderedFrom_nil (t : Nat) : OrderedFrom t [] := ⟨.nil, List.forall_mem_nil _⟩

/-- A stage may be put before later ones. -/
theorem OrderedFrom.append {β : Type} {t : Nat} {f : β → Happening} {l : List β}
    {ys : List Happening} (hys : OrderedFrom (t + 1) ys) (hstage : ∀ b, (f b).stage = t)
    (hl : (l.map f).Pairwise Before) : OrderedFrom t (l.map f ++ ys) := by
  refine ⟨List.pairwise_append.mpr ⟨hl, hys.1, ?_⟩, List.forall_mem_append.mpr ⟨?_, ?_⟩⟩
  · refine List.forall_mem_map.mpr fun b _ y hy => .inl ?_
    rw [hstage b]
    exact hys.2 y hy
  · exact List.forall_mem_map.mpr fun b _ => (hstage b).ge
  · exact fun y hy => Nat.le_of_succ_le (hys.2 y hy)

theorem pairwise_range_map {t : Nat} {f : Nat → Happening} (hstage : ∀ i, (f i).stage = t)
    (hplace : ∀ i, (f i).place = i) (k : Nat) : ((List.range k).map f).Pairwise Before :=
  List.pairwise_map.mpr (List.pairwise_lt_range.imp fun {i j} hlt =>
    .inr ⟨(hstage i).trans (hstage j).symm, by rwa [hplace, hplace]⟩)

theorem pairwise_asks (answers : List Bool) : (asks answers).Pairwise Before := by
  have hplaces : ((answers.zipIdx 0).map Prod.snd).Pairwise (· < ·) := by
    rw [List.zipIdx_map_snd]
    exact List.pairwise_lt_range'
  exact List.pairwise_map.mpr
    ((List.pairwise_map.mp hplaces).imp fun hlt => .inr ⟨rfl, hlt⟩)

theorem pairwise_toList_map {β : Type} (f : β → Happening) (o : Option β) :
    (o.toList.map f).Pairwise Before := by
  cases o with
  | none => exact .nil
  | some b => exact List.pairwise_singleton _ _

end Happening

/-! ## Outlines -/

namespace Outline

open Happening

/-- What every course of a dispatch keeps to. -/
structure Proper (conditions hooks : Nat) (o : Outline) : Prop where
  claimed : o.claimed ≤ conditions
  refused : ∀ i, o.refused = some i ↔ i = o.claimed ∧ o.claimed < conditions
  answered : o.answers.length = if o.claimed = conditions then hooks else 0
  invoked : o.invoked ≠ none →
    o.claimed = conditions ∧ o.answers = List.replicate hooks true ∧ o.ended ≠ none
  well : o.ended = some true → o.invoked ≠ none

/-- What is noted, case by case. -/
theorem mem_happenings {o : Outline} {h : Happening} : h ∈ o.happenings ↔
    match h with
    | .claimed i => i < o.claimed
    | .refused i => o.refused = some i
    | .asked j allowed => o.answers[j]? = some allowed
    | .invoked actor command cooldown => o.invoked = some (actor, command, cooldown)
    | .ended well => o.ended = some well
    | .confirmed i => i < o.claimed ∧ o.ended = some true
    | .released i => i < o.claimed ∧ o.ended ≠ some true
    | .excepted => o.ended = some false
    | .responded => o.ended = some true ∧ o.responded = true := by
  obtain ⟨claimed, refused, answers, invoked, ended, responded⟩ := o
  simp only [happenings, invocation, settlement, echo, List.mem_append, mem_claims, mem_asks,
    List.mem_map, Option.mem_toList]
  cases h <;> rcases ended with _ | _ | _ <;> cases responded <;>
    simp [mem_confirms, mem_releases]

theorem orderedFrom_echo (o : Outline) : OrderedFrom 6 o.echo := by
  unfold echo
  split
  · exact orderedFrom_nil 6
  · exact ⟨List.pairwise_singleton _ _, by simp [stage]⟩
  · split
    · exact ⟨List.pairwise_singleton _ _, by simp [stage]⟩
    · exact orderedFrom_nil 6

theorem orderedFrom_settlement (o : Outline) : OrderedFrom 5 (o.settlement ++ o.echo) := by
  unfold settlement
  split
  · exact o.orderedFrom_echo.append (f := .confirmed) (fun _ => rfl)
      (pairwise_range_map (t := 5) (fun _ => rfl) (fun _ => rfl) _)
  · exact o.orderedFrom_echo.append (f := .released) (fun _ => rfl)
      (pairwise_range_map (t := 5) (fun _ => rfl) (fun _ => rfl) _)

/-- What is noted is noted in order. -/
theorem pairwise_happenings (o : Outline) : o.happenings.Pairwise Before := by
  have hending := o.orderedFrom_settlement.append (f := .ended) (fun _ => rfl)
    (pairwise_toList_map _ o.ended)
  have hinvocation := hending.append (f := fun i => .invoked i.1 i.2.1 i.2.2) (fun _ => rfl)
    (pairwise_toList_map _ o.invoked)
  have hasks := hinvocation.append (f := fun answer : Bool × Nat => .asked answer.2 answer.1)
    (fun _ => rfl) (pairwise_asks o.answers)
  have hrefusal := hasks.append (f := .refused) (fun _ => rfl) (pairwise_toList_map _ o.refused)
  exact (hrefusal.append (f := .claimed) (fun _ => rfl)
    (pairwise_range_map (t := 0) (fun _ => rfl) (fun _ => rfl) o.claimed)).1

theorem nodup_happenings (o : Outline) : o.happenings.Nodup :=
  nodup_of_pairwise_before o.pairwise_happenings

end Outline

/-- What a dispatch with the given numbers of conditions and hooks may leave in the journal. -/
structure Orderly (conditions hooks : Nat) (hs : List Happening) : Prop where
  /-- Claims come first, by place; then a refusal, the hooks, by place, the invocation, its end, the
  settlement, by place, and the handlers.  Nothing happens twice. -/
  inOrder : hs.Pairwise Happening.Before
  /-- the conditions before the first that refuses are claimed, and no others -/
  claims : ∃ k ≤ conditions, (∀ i, .claimed i ∈ hs ↔ i < k)
    ∧ ∀ i, .refused i ∈ hs ↔ i = k ∧ k < conditions
  /-- once all are claimed each hook is asked, whatever the others answer -/
  asked : (∀ i < conditions, .claimed i ∈ hs) →
    ∀ j < hooks, hs.count (.asked j true) + hs.count (.asked j false) = 1
  /-- no hook is asked unless all are claimed -/
  unasked : ∀ j allowed, .asked j allowed ∈ hs → j < hooks ∧ ∀ i < conditions, .claimed i ∈ hs
  invokedOnce : (hs.filter Happening.isInvoked).length ≤ 1
  /-- nothing is invoked unless all are claimed and no hook objects -/
  cleared : ∀ h ∈ hs, h.isInvoked = true →
    (∀ i < conditions, .claimed i ∈ hs) ∧ ∀ j < hooks, .asked j true ∈ hs
  /-- every invocation comes to an end -/
  ended : ∀ h ∈ hs, h.isInvoked = true → ∃ well, .ended well ∈ hs
  /-- only an action that was invoked ends well -/
  endedWell : .ended true ∈ hs → ∃ h ∈ hs, h.isInvoked = true
  /-- what is claimed is confirmed or released, once -/
  settled : ∀ i, .claimed i ∈ hs → hs.count (.confirmed i) + hs.count (.released i) = 1
  /-- what is not claimed is neither -/
  unsettled : ∀ i, .claimed i ∉ hs → .confirmed i ∉ hs ∧ .released i ∉ hs
  /-- it is confirmed if the action ends well, and only then -/
  confirmed : ∀ i, .claimed i ∈ hs → (.confirmed i ∈ hs ↔ .ended true ∈ hs)
  /-- the exception handler hears of every invocation that fails, and of nothing else -/
  excepted : hs.count .excepted = hs.count (.ended false)
  /-- the response handler hears of invocations that end well at most -/
  responded : hs.count .responded ≤ hs.count (.ended true)

namespace Outline.Proper

open Happening

variable {conditions hooks : Nat} {o : Outline}

theorem claimed_of_forall (h : o.Proper conditions hooks)
    (hall : ∀ i < conditions, .claimed i ∈ o.happenings) : o.claimed = conditions := by
  refine Nat.le_antisymm h.claimed (Nat.le_of_not_lt fun hlt => ?_)
  exact Nat.lt_irrefl _ (mem_happenings.mp (hall o.claimed hlt))

theorem forall_of_claimed (h : o.claimed = conditions) :
    ∀ i < conditions, .claimed i ∈ o.happenings :=
  fun _ hi => mem_happenings.mpr (h ▸ hi)

theorem invoked_of_mem {h : Happening} (hmem : h ∈ o.happenings) (hinvoked : h.isInvoked = true) :
    o.invoked ≠ none := by
  obtain ⟨_, _, _, rfl⟩ := isInvoked_iff.mp hinvoked
  rw [mem_happenings.mp hmem]
  exact Option.some_ne_none _

theorem asked_once (h : o.Proper conditions hooks) (hclaimed : o.claimed = conditions) {j : Nat}
    (hj : j < hooks) :
    o.happenings.count (.asked j true) + o.happenings.count (.asked j false) = 1 := by
  have hlength : o.answers.length = hooks := by rw [h.answered, if_pos hclaimed]
  have hanswer := List.getElem?_eq_getElem (hlength.symm ▸ hj)
  rw [o.nodup_happenings.count, o.nodup_happenings.count]
  simp only [mem_happenings, hanswer]
  cases o.answers[j] <;> rfl

theorem settled_once {i : Nat} (hclaimed : i < o.claimed) :
    o.happenings.count (.confirmed i) + o.happenings.count (.released i) = 1 := by
  rw [o.nodup_happenings.count, o.nodup_happenings.count]
  simp only [mem_happenings, hclaimed, true_and]
  by_cases hwell : o.ended = some true <;> simp [hwell]

/-- What is noted of a proper course is orderly. -/
theorem orderly (h : o.Proper conditions hooks) : Orderly conditions hooks o.happenings where
  inOrder := o.pairwise_happenings
  claims := ⟨o.claimed, h.claimed, fun _ => mem_happenings,
    fun i => mem_happenings.trans (h.refused i)⟩
  asked hall _ hj := h.asked_once (h.claimed_of_forall hall) hj
  unasked := by
    intro j allowed hasked
    have hlt := (List.getElem?_eq_some_iff.mp (mem_happenings.mp hasked)).1
    rw [h.answered] at hlt
    split at hlt
    · next hclaimed => exact ⟨hlt, forall_of_claimed hclaimed⟩
    · exact absurd hlt (Nat.not_lt_zero j)
  invokedOnce := length_filter_isInvoked_le_one o.pairwise_happenings
  cleared := by
    intro x hx hinvoked
    obtain ⟨hclaimed, hanswers, _⟩ := h.invoked (invoked_of_mem hx hinvoked)
    refine ⟨forall_of_claimed hclaimed, fun j hj => mem_happenings.mpr ?_⟩
    simp [hanswers, hj]
  ended := by
    intro x hx hinvoked
    obtain ⟨_, _, hended⟩ := h.invoked (invoked_of_mem hx hinvoked)
    obtain ⟨well, hwell⟩ := Option.ne_none_iff_exists'.mp hended
    exact ⟨well, mem_happenings.mpr hwell⟩
  endedWell := by
    intro hwell
    obtain ⟨⟨actor, command, cooldown⟩, hinvoked⟩ :=
      Option.ne_none_iff_exists'.mp (h.well (mem_happenings.mp hwell))
    exact ⟨.invoked actor command cooldown, mem_happenings.mpr hinvoked, rfl⟩
  settled _ hclaimed := settled_once (mem_happenings.mp hclaimed)
  unsettled := by
    intro i hclaimed
    rw [mem_happenings] at hclaimed
    exact ⟨fun h => hclaimed (mem_happenings.mp h).1, fun h => hclaimed (mem_happenings.mp h).1⟩
  confirmed := by
    intro i hclaimed
    rw [mem_happenings, mem_happenings]
    exact and_iff_right (mem_happenings.mp hclaimed)
  excepted := by
    rw [o.nodup_happenings.count, o.nodup_happenings.count]
    simp only [mem_happenings]
  responded := by
    rw [o.nodup_happenings.count, o.nodup_happenings.count]
    simp only [mem_happenings]
    by_cases hwell : o.ended = some true <;> cases o.responded <;> simp [hwell]

end Outline.Proper

/-! ## The journal of a dispatch -/

/-- What is noted under a number. -/
def happeningsOf (n : Nat) (entries : List Entry) : List Happening :=
  (entries.filter fun e => decide (e.dispatch = n)).map Entry.happening

theorem mem_happeningsOf {n : Nat} {entries : List Entry} {h : Happening} :
    h ∈ happeningsOf n entries ↔ ⟨n, h⟩ ∈ entries := by
  simp only [happeningsOf, List.mem_map, List.mem_filter, decide_eq_true_eq]
  constructor
  · rintro ⟨⟨m, h⟩, ⟨hmem, rfl⟩, rfl⟩
    exact hmem
  · exact fun hmem => ⟨⟨n, h⟩, ⟨hmem, rfl⟩, rfl⟩

theorem happeningsOf_append (n : Nat) (xs ys : List Entry) :
    happeningsOf n (xs ++ ys) = happeningsOf n xs ++ happeningsOf n ys := by
  simp [happeningsOf]

theorem happeningsOf_entriesOf_self (n : Nat) (hs : List Happening) :
    happeningsOf n (entriesOf n hs) = hs := by
  simp [happeningsOf, entriesOf, List.filter_map, Function.comp_def]

theorem happeningsOf_eq_nil {n : Nat} {entries : List Entry} (h : ∀ e ∈ entries, e.dispatch ≠ n) :
    happeningsOf n entries = [] := by
  simpa [happeningsOf] using h

theorem happeningsOf_entriesOf_of_ne {n m : Nat} (h : n ≠ m) (hs : List Happening) :
    happeningsOf m (entriesOf n hs) = [] :=
  happeningsOf_eq_nil fun _ he => by rwa [(mem_entriesOf.mp he).1]

namespace Dispatcher

/-- A dispatch took a number and chose a winner, it came to its end within a journal, and its course
is what happened. -/
def Conducted (d : Dispatcher α σ) (journal : List Entry) (n : Nat) (hs : List Happening) : Prop :=
  ∃ depth actor input s winner s₁ o answer s', s.nextDispatch = n
    ∧ d.dispatch (depth + 1) actor input s = some (answer, s')
    ∧ s'.journal <+: journal
    ∧ d.Chooses actor input s winner s₁
    ∧ d.Course (d.dispatch depth) n winner s₁.numbered o answer s'
    ∧ hs = o.happenings

/-- A session grows by entries that tell the course of each dispatch that took a number. -/
structure Grows (d : Dispatcher α σ) (s s' : Session α σ) (entries : List Entry) : Prop where
  journal : s'.journal = s.journal ++ entries
  nextDispatch : s.nextDispatch ≤ s'.nextDispatch
  numbered : ∀ e ∈ entries, s.nextDispatch ≤ e.dispatch ∧ e.dispatch < s'.nextDispatch
  conducted : ∀ n, s.nextDispatch ≤ n → n < s'.nextDispatch →
    d.Conducted s'.journal n (happeningsOf n entries)

variable {d : Dispatcher α σ} {nested : Nested α σ} {n : Nat} {winner : Trial α} {o : Outline}
  {s s' s'' : Session α σ} {answer : Answer α} {actor : Actor} {input : String}
  {entries more : List Entry}

theorem Conducted.mono {hs : List Happening} (h : d.Conducted entries n hs)
    (hmore : entries <+: more) : d.Conducted more n hs := by
  obtain ⟨depth, actor, input, s, winner, s₁, o, answer, s', hn, hdispatch, hwithin, hcourse⟩ := h
  exact ⟨depth, actor, input, s, winner, s₁, o, answer, s', hn, hdispatch, hwithin.trans hmore,
    hcourse⟩

theorem Course.proper (h : d.Course nested n winner s o answer s') :
    o.Proper d.conditions.length d.hooks.length := by
  cases h with
  | refused hplace hcalls =>
    exact
      { claimed := Nat.le_of_lt hplace
        refused := fun i => by simp [Outline.refusedAt, hplace, eq_comm]
        answered := (if_neg (Nat.ne_of_lt hplace)).symm
        invoked := fun h => absurd rfl h
        well := fun h => by cases h }
  | cancelled hlength hheld hcalls =>
    exact
      { claimed := Nat.le_refl _
        refused := fun i => by simp [Outline.cancelled]
        answered := hlength.trans (if_pos rfl).symm
        invoked := fun h => absurd rfl h
        well := fun h => by cases h }
  | unresolved hclears hresolve hsettle =>
    exact
      { claimed := Nat.le_refl _
        refused := fun i => by simp [Outline.failed]
        answered := List.length_replicate.trans (if_pos rfl).symm
        invoked := fun h => absurd rfl h
        well := fun h => by cases h }
  | failed hbegins hrun hsettle =>
    exact
      { claimed := Nat.le_refl _
        refused := fun i => by simp [Outline.failed]
        answered := List.length_replicate.trans (if_pos rfl).symm
        invoked := fun _ => ⟨rfl, rfl, Option.some_ne_none _⟩
        well := fun h => by cases h }
  | well hbegins hrun hsettle =>
    exact
      { claimed := Nat.le_refl _
        refused := fun i => by simp [Outline.well]
        answered := List.length_replicate.trans (if_pos rfl).symm
        invoked := fun _ => ⟨rfl, rfl, Option.some_ne_none _⟩
        well := fun _ => Option.some_ne_none _ }

namespace Grows

/-- Where no dispatch takes a number, nothing is noted. -/
theorem still (hjournal : s'.journal = s.journal) (hnext : s'.nextDispatch = s.nextDispatch) :
    d.Grows s s' [] where
  journal := hjournal.trans (List.append_nil _).symm
  nextDispatch := hnext.ge
  numbered := List.forall_mem_nil _
  conducted n hfirst hlast := by
    rw [hnext] at hlast
    exact absurd hfirst (Nat.not_le_of_lt hlast)

theorem ofSameRecord (h : s.SameRecord s') : d.Grows s s' [] := still h.journal h.nextDispatch

theorem trans (h : d.Grows s s' entries) (h' : d.Grows s' s'' more) :
    d.Grows s s'' (entries ++ more) where
  journal := by rw [h'.journal, h.journal, List.append_assoc]
  nextDispatch := Nat.le_trans h.nextDispatch h'.nextDispatch
  numbered := by
    refine List.forall_mem_append.mpr ⟨fun e he => ?_, fun e he => ?_⟩
    · exact ⟨(h.numbered e he).1, Nat.lt_of_lt_of_le (h.numbered e he).2 h'.nextDispatch⟩
    · exact ⟨Nat.le_trans h.nextDispatch (h'.numbered e he).1, (h'.numbered e he).2⟩
  conducted n hfirst hlast := by
    rw [happeningsOf_append]
    -- a number belongs to one half of the entries only
    rcases Nat.lt_or_ge n s'.nextDispatch with hlt | hge
    · have hlater : happeningsOf n more = [] :=
        happeningsOf_eq_nil fun e he => Nat.ne_of_gt (Nat.lt_of_lt_of_le hlt (h'.numbered e he).1)
      rw [hlater, List.append_nil]
      exact (h.conducted n hfirst hlt).mono (h'.journal ▸ List.prefix_append _ _)
    · have hearlier : happeningsOf n entries = [] :=
        happeningsOf_eq_nil fun e he => Nat.ne_of_lt (Nat.lt_of_lt_of_le (h.numbered e he).2 hge)
      rw [hearlier, List.nil_append]
      exact h'.conducted n hge hlast

end Grows

/-- A dispatch with a winner grows the session by its own course and by those of the dispatches in
its action. -/
theorem Course.grows {depth : Nat} {s₁ : Session α σ}
    (hscript : ∀ script s result s', d.runScript (d.dispatch depth) script s = some (result, s') →
      ∃ entries, d.Grows s s' entries)
    (hdispatch : d.dispatch (depth + 1) actor input s = some (answer, s'))
    (hchooses : d.Chooses actor input s winner s₁)
    (h : d.Course (d.dispatch depth) s.nextDispatch winner s₁.numbered o answer s') :
    ∃ entries, d.Grows s s' entries ∧ happeningsOf s.nextDispatch entries = o.happenings := by
  have hsame := hchooses.hostOnly.sameRecord
  obtain ⟨opening, closing, begun, ended, hsplit, hopening, hbegun, ⟨inner, hinner⟩, hclosing,
    hended⟩ := h.frame (R := fun s s' => ∃ entries, d.Grows s s' entries)
      (fun s => ⟨[], .ofSameRecord (.refl s)⟩) hscript
  rw [Session.numbered_journal, hsame.journal] at hopening
  rw [Session.numbered_nextDispatch, hsame.nextDispatch] at hbegun
  have hlater : ∀ e ∈ inner, s.nextDispatch + 1 ≤ e.dispatch ∧ e.dispatch < s'.nextDispatch := by
    intro e he
    rw [hended, ← hbegun]
    exact hinner.numbered e he
  have hown : happeningsOf s.nextDispatch
      (entriesOf s.nextDispatch opening ++ inner ++ entriesOf s.nextDispatch closing)
        = o.happenings := by
    have hother : happeningsOf s.nextDispatch inner = [] :=
      happeningsOf_eq_nil fun e he => Nat.ne_of_gt (hlater e he).1
    rw [happeningsOf_append, happeningsOf_append, happeningsOf_entriesOf_self, hother,
      List.append_nil, happeningsOf_entriesOf_self, hsplit]
  have hnext : s.nextDispatch + 1 ≤ s'.nextDispatch := by
    rw [hended, ← hbegun]
    exact hinner.nextDispatch
  refine ⟨entriesOf s.nextDispatch opening ++ inner ++ entriesOf s.nextDispatch closing, ?_, hown⟩
  exact
    { journal := by
        rw [hclosing, hinner.journal, hopening, List.append_assoc, List.append_assoc,
          List.append_assoc]
      nextDispatch := Nat.le_of_succ_le hnext
      numbered := by
        have hself : ∀ hs, ∀ e ∈ entriesOf s.nextDispatch hs,
            s.nextDispatch ≤ e.dispatch ∧ e.dispatch < s'.nextDispatch := by
          intro hs e he
          rw [(mem_entriesOf.mp he).1]
          exact ⟨Nat.le_refl _, hnext⟩
        refine List.forall_mem_append.mpr ⟨List.forall_mem_append.mpr ⟨hself _, ?_⟩, hself _⟩
        exact fun e he => ⟨Nat.le_of_succ_le (hlater e he).1, (hlater e he).2⟩
      conducted := by
        intro n hfirst hlast
        -- the first number is that of the dispatch itself, all others were taken inside its action
        rcases Nat.eq_or_lt_of_le hfirst with rfl | hlt
        · exact ⟨depth, actor, input, s, winner, s₁, o, answer, s', rfl, hdispatch,
            List.prefix_rfl, hchooses, h, hown⟩
        · rw [happeningsOf_append, happeningsOf_append,
            happeningsOf_entriesOf_of_ne (Nat.ne_of_lt hlt),
            happeningsOf_entriesOf_of_ne (Nat.ne_of_lt hlt), List.nil_append, List.append_nil]
          exact (hinner.conducted n (hbegun ▸ hlt) (hended ▸ hlast)).mono
            (hclosing ▸ List.prefix_append _ _) }

/-- Every dispatch grows the session by the courses of all dispatches in it. -/
theorem dispatch_grows {depth : Nat} (h : d.dispatch depth actor input s = some (answer, s')) :
    ∃ entries, d.Grows s s' entries := by
  refine dispatch_induction (R := fun s s' => ∃ entries, d.Grows s s' entries) ?_ ?_ ?_ depth actor
    input s answer s' h
  · exact fun s s' hsame => ⟨[], .ofSameRecord hsame⟩
  · rintro s s' s'' ⟨entries, h⟩ ⟨more, h'⟩
    exact ⟨entries ++ more, h.trans h'⟩
  · intro depth hscript actor input s winner s₁ o answer s' hdispatch hchooses hcourse
    obtain ⟨entries, hgrows, _⟩ := hcourse.grows hscript hdispatch hchooses
    exact ⟨entries, hgrows⟩

theorem runScript_grows {depth : Nat} {script : Script α σ} {result : Except ActionError Value}
    (h : d.runScript (d.dispatch depth) script s = some (result, s')) :
    ∃ entries, d.Grows s s' entries := by
  refine runScript_induction (R := fun s s' => ∃ entries, d.Grows s s' entries) ?_ ?_ ?_ h
  · exact fun s s' hsame => ⟨[], .ofSameRecord hsame⟩
  · rintro s s' s'' ⟨entries, h⟩ ⟨more, h'⟩
    exact ⟨entries ++ more, h.trans h'⟩
  · exact fun _ _ _ _ _ hnested => dispatch_grows hnested

/-! ## Conversations -/

/-- Dispatches one after another.  In between, whatever has not been noted may change: time passes,
commands come and go, and the host changes its state. -/
inductive Conversation (d : Dispatcher α σ) : Session α σ → Prop where
  | start (now : Instant) (host : σ) : Conversation d (.start now host)
  | between {s s' : Session α σ} (h : Conversation d s) (hjournal : s'.journal = s.journal)
      (hnext : s'.nextDispatch = s.nextDispatch) : Conversation d s'
  | dispatched {s s' : Session α σ} {depth : Nat} {actor : Actor} {input : String}
      {answer : Answer α} (h : Conversation d s)
      (hdispatch : d.dispatch depth actor input s = some (answer, s')) : Conversation d s'

/-- A conversation consists of the courses of its dispatches. -/
theorem Conversation.grows (h : d.Conversation s) :
    ∃ now host, d.Grows (.start now host) s s.journal := by
  induction h with
  | start now host => exact ⟨now, host, .ofSameRecord (.refl _)⟩
  | between _ hjournal hnext ih =>
    obtain ⟨now, host, hgrows⟩ := ih
    have hlonger := hgrows.trans (.still hjournal hnext)
    rw [List.append_nil, ← hjournal] at hlonger
    exact ⟨now, host, hlonger⟩
  | dispatched _ hdispatch ih =>
    obtain ⟨now, host, hgrows⟩ := ih
    obtain ⟨entries, hmore⟩ := dispatch_grows hdispatch
    have hlonger := hgrows.trans hmore
    rw [← hmore.journal] at hlonger
    exact ⟨now, host, hlonger⟩

theorem Conducted.orderly {hs : List Happening} (h : d.Conducted entries n hs) :
    Orderly d.conditions.length d.hooks.length hs := by
  obtain ⟨_, _, _, _, _, _, _, _, _, _, _, _, _, hcourse, rfl⟩ := h
  exact hcourse.proper.orderly

/-- Whatever conditions, hooks and actions do: in a conversation, what is noted under the number of
a dispatch, also of one inside an action, tells the calls that were made for its winner, and it
keeps to the protocol of claims, consents, invocation and settlement. -/
theorem conversation_orderly (h : d.Conversation s) :
    (∀ e ∈ s.journal, e.dispatch < s.nextDispatch)
      ∧ ∀ n < s.nextDispatch, d.Conducted s.journal n (happeningsOf n s.journal)
        ∧ Orderly d.conditions.length d.hooks.length (happeningsOf n s.journal) := by
  obtain ⟨now, host, hgrows⟩ := h.grows
  refine ⟨fun e he => (hgrows.numbered e he).2, fun n hn => ?_⟩
  have hconducted := hgrows.conducted n (Nat.zero_le n) hn
  exact ⟨hconducted, hconducted.orderly⟩

/-- `halt`, which an actor may use every five microseconds. -/
def halt : Command Unit :=
  ⟨⟨0⟩, [⟨.word "halt", true, true⟩], { Metadata.none with cooldown := some ⟨5⟩ }, ⟨(), []⟩⟩

/-- A session in which `halt` is registered. -/
def halting : Session Unit Unit :=
  { (Session.start ⟨0⟩ () : Session Unit Unit) with commands := [halt] }

/-- A dispatcher with the usual conditions and one hook, which never objects. -/
def guarded : Dispatcher Unit Unit :=
  { bare Unit Unit .standard with
    conditions := Condition.standard Unit
    hooks := [⟨fun _ host => (true, host), fun _ host => host, fun _ host => (true, host)⟩] }

/-- The course of one dispatch that ends well. -/
theorem orderly_halt :
    ∃ s, guarded.Conversation s
      ∧ happeningsOf 0 s.journal = [.claimed 0, .claimed 1, .asked 0 true,
        .invoked default ⟨0⟩ (some ⟨5⟩), .ended true, .confirmed 0, .confirmed 1]
      ∧ Orderly 2 1 (happeningsOf 0 s.journal) := by
  have hstart : guarded.Conversation halting := .between (.start ⟨0⟩ ()) rfl rfl
  have hdispatched := hstart.dispatched
    (show guarded.dispatch 1 default "halt" halting = some (_, _) from rfl)
  exact ⟨_, hdispatched, rfl, ((conversation_orderly hdispatched).2 0 Nat.zero_lt_one).2⟩

end Dispatcher

end CommandGrammar
