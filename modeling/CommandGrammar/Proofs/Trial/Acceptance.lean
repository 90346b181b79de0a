import CommandGrammar.Proofs.Trial.Grammar

/-!
# Trials accept the grammar

For a command without flags and default texts, whose slots have built-in types that the actor may
use, a trial without conditions succeeds exactly on the lines that the nodes accept.  One step of
the walk is one `Reaches`, so a whole walk is `Walks`, which is `Accepts` because a compiled command
is greedy at its last node only.
-/

set_option autoImplicit false

namespace CommandGrammar

variable {α : Type}

/-- A node that is read by its place, by a built-in type if it is a slot, and that the actor may
use.  Nothing stands in for it where it is left out. -/
structure Node.Plain (actor : Actor) (n : Node) : Prop where
  filled : ∀ literal, n.segment = .word literal → literal.toList ≠ []
  placed : n.isPositional = true
  builtIn : ∀ s, n.segment = .slot s → s.type.BuiltIn
  noDefault : ∀ s, n.segment = .slot s → s.parameter.defaultText = none
  admits : ∀ s, n.segment = .slot s → s.admits actor = true

namespace Walk

/-! ## One node -/

theorem checkSeparated_of_separated {s : State} (h : Text.Separated s.cursor.rest) :
    checkSeparated s = (.ok (), s) := by
  unfold checkSeparated
  rw [Cursor.separated_rest_iff.mp h]
  rfl

theorem checkSeparated_of_not_separated {s : State} (h : ¬ Text.Separated s.cursor.rest) :
    checkSeparated s = (.error (.malformed .missingBlank), s) := by
  unfold checkSeparated
  rw [Cursor.separated_rest_iff, Bool.not_eq_false] at h
  rw [h]
  rfl

/-- A node is read when its segment is and a blank or nothing follows. -/
theorem readNode_eq_ok_iff {c : Command α} {index : Nat} {n : Node} {s s' : State} :
    readNode c index n s = (.ok (), s')
      ↔ readSegment n.segment { s with cursor := s.cursor.skipBlanks, furthest := index }
          = (.ok (), s') ∧ Text.Separated s'.cursor.rest := by
  unfold readNode
  dsimp only
  cases readSegment n.segment { s with cursor := s.cursor.skipBlanks, furthest := index } with
  | mk result after =>
    cases result with
    | error e => simp
    | ok _ =>
      by_cases hsep : Text.Separated after.cursor.rest
      · simp only [checkSeparated_of_separated hsep, Prod.mk.injEq, true_and]
        constructor
        · rintro rfl
          exact ⟨rfl, hsep⟩
        · exact And.left
      · simp only [checkSeparated_of_not_separated hsep, Prod.mk.injEq, reduceCtorEq, false_and,
          true_and, false_iff, not_and]
        rintro rfl
        exact hsep

/-- Reading a segment leaves the actor as it is. -/
theorem actor_of_readSegment {segment : Segment} {s s' : State}
    (h : readSegment segment s = (.ok (), s')) : s'.context.actor = s.context.actor := by
  unfold readSegment at h
  cases segment with
  | word literal =>
    dsimp only at h
    split at h <;> cases h
    rfl
  | slot slot =>
    dsimp only at h
    split at h <;> cases h
    rfl

/-- A word is read where the text begins with it in any case. -/
theorem readSegment_word_iff {literal : String} {s : State} {rest : List Char} :
    (∃ s', readSegment (.word literal) s = (.ok (), s') ∧ s'.cursor.rest = rest
        ∧ Text.Separated rest)
      ↔ ∃ text, s.cursor.rest = text ++ rest ∧ Text.AllInk text
        ∧ Text.foldCase text = Text.foldCase literal.toList ∧ Text.Separated rest := by
  have hword : s.cursor.readWord.1 = Text.firstWord s.cursor.rest := rfl
  have hafter : s.cursor.readWord.2.rest = Text.afterWord s.cursor.rest := rfl
  simp only [readSegment, wordMatches, hword]
  constructor
  · rintro ⟨s', hread, rfl, hsep⟩
    split at hread
    · next hmatch =>
      cases hread
      exact ⟨_, (Text.firstWord_append_afterWord _).symm, Text.allInk_firstWord _,
        (Text.sameFolded_iff.mp hmatch).symm, hsep⟩
    · cases hread
  · rintro ⟨text, hcover, hink, hfold, hsep⟩
    have hfirst : Text.firstWord s.cursor.rest = text := by
      rw [hcover, Text.firstWord_append hink hsep]
    have hrest : Text.afterWord s.cursor.rest = rest := by
      rw [hcover, Text.afterWord_append hink hsep]
    rw [hfirst, if_pos (Text.sameFolded_iff.mpr hfold.symm)]
    exact ⟨_, rfl, hafter.trans hrest, hsep⟩

/-- A slot that may be used is read by its type, where there is something to read. -/
theorem readSegment_slot_iff {slot : Slot} {s : State} (context : Context) {rest : List Char}
    (hbuiltIn : slot.type.BuiltIn) (hadmits : slot.admits s.context.actor = true)
    (hink : Text.StartsInk s.cursor.rest) :
    (∃ s', readSegment (.slot slot) s = (.ok (), s') ∧ s'.cursor.rest = rest
        ∧ Text.Separated rest)
      ↔ ∃ text v, s.cursor.rest = text ++ rest ∧ Text.StartsInk text
        ∧ slot.type.ReadsWhole context text v ∧ Text.Separated rest
        ∧ (slot.type.isGreedy = true → rest = []) := by
  have hend : s.cursor.atEnd = false := by
    cases hrest : s.cursor.rest with
    | nil => exact absurd hrest hink.ne_nil
    | cons _ _ => simp [Cursor.atEnd, hrest]
  have hparse : slot.parse s.cursor s.context = slot.type.parse s.cursor s.context := by
    simp [Slot.parse, hadmits, hend]
  have hreads (v : Value) :
      (∃ after notes, slot.type.parse s.cursor s.context = ⟨.ok v, after, notes⟩
          ∧ after.rest = rest ∧ Text.Separated rest)
        ↔ ∃ text, s.cursor.rest = text ++ rest ∧ Text.StartsInk text
          ∧ slot.type.ReadsWhole context text v ∧ Text.Separated rest
          ∧ (slot.type.isGreedy = true → rest = []) :=
    hbuiltIn.localForm.parse_iff_readsWhole hink
  rw [exists_comm]
  simp only [← hreads, readSegment, hparse]
  constructor
  · rintro ⟨s', hread, hrest, hsep⟩
    cases hvalue : slot.type.parse s.cursor s.context with
    | mk result after notes =>
      rw [hvalue] at hread
      cases result with
      | error e => cases hread
      | ok v =>
        cases hread
        exact ⟨v, after, notes, rfl, hrest, hsep⟩
  · rintro ⟨v, after, notes, hvalue, hrest, hsep⟩
    rw [hvalue]
    exact ⟨_, rfl, hrest, hsep⟩

/-- An optional slot is passed over where the text has ended. -/
theorem readSegment_slot_of_atEnd {slot : Slot} {s : State} (rest : List Char)
    (hdefault : slot.parameter.defaultText = none) (hadmits : slot.admits s.context.actor = true)
    (hend : s.cursor.rest = []) :
    (∃ s', readSegment (.slot slot) s = (.ok (), s') ∧ s'.cursor.rest = rest)
      ↔ slot.isOptional = true ∧ rest = [] := by
  have hatEnd : s.cursor.atEnd = true := by simp [Cursor.atEnd, hend]
  cases hoptional : slot.isOptional with
  | false => simp [readSegment, Slot.parse, hadmits, hatEnd, hoptional]
  | true => simp [readSegment, Slot.parse, hadmits, hatEnd, hoptional, hdefault, hend, eq_comm]

/-- Reading a node is reading its segment behind the blanks. -/
theorem exists_readNode_iff {c : Command α} {index : Nat} {n : Node} {s : State}
    {rest : List Char} :
    (∃ s', readNode c index n s = (.ok (), s') ∧ s'.cursor.rest = rest)
      ↔ ∃ s', readSegment n.segment { s with cursor := s.cursor.skipBlanks, furthest := index }
          = (.ok (), s') ∧ s'.cursor.rest = rest ∧ Text.Separated rest := by
  simp only [readNode_eq_ok_iff]
  constructor
  · rintro ⟨s', ⟨hread, hsep⟩, rfl⟩
    exact ⟨s', hread, rfl, hsep⟩
  · rintro ⟨s', hread, rfl, hsep⟩
    exact ⟨s', ⟨hread, hsep⟩, rfl⟩

/-- One node of the walk is one step of the grammar. -/
theorem readNode_iff_reaches {c : Command α} (index : Nat) {n : Node} {s : State}
    {context : Context} {rest : List Char} (hplain : n.Plain s.context.actor) :
    (∃ s', readNode c index n s = (.ok (), s') ∧ s'.cursor.rest = rest)
      ↔ Reaches context n s.cursor.rest rest := by
  have hrest : s.cursor.skipBlanks.rest = Text.trimLeft s.cursor.rest := rfl
  rw [exists_readNode_iff]
  cases hsegment : n.segment with
  | word literal =>
    rw [readSegment_word_iff, hrest, reaches_word_iff hsegment (hplain.filled literal hsegment)]
  | slot slot =>
    have hadmits := hplain.admits slot hsegment
    by_cases hblank : Text.AllBlank s.cursor.rest
    · -- nothing is left, so only leaving the slot out is possible
      have hempty := readSegment_slot_of_atEnd
        (s := { s with cursor := s.cursor.skipBlanks, furthest := index }) rest
        (hplain.noDefault slot hsegment) hadmits (Text.trimLeft_eq_nil_iff.mpr hblank)
      rw [reaches_slot_iff_of_blank hsegment hblank]
      simp only [← and_assoc, exists_and_right, hempty]
      constructor
      · rintro ⟨hmay, _⟩
        exact hmay
      · rintro ⟨hmay, rfl⟩
        exact ⟨⟨hmay, rfl⟩, Text.separated_nil⟩
    · have hink := Text.startsInk_trimLeft (mt Text.trimLeft_eq_nil_iff.mp hblank)
      rw [readSegment_slot_iff
        (s := { s with cursor := s.cursor.skipBlanks, furthest := index }) context
        (hplain.builtIn slot hsegment) hadmits hink, hrest,
        reaches_slot_iff_of_not_blank hsegment hblank]

/-! ## The whole walk -/

/-- The walk gets through exactly if the grammar lets it. -/
theorem run_iff_walks {c : Command α} (context : Context) (index : Nat) {nodes : List Node}
    {s : State} (hplain : ∀ n ∈ nodes, n.Plain s.context.actor) :
    (∃ s', run c index nodes s = (.ok (), s')) ↔ Walks context nodes s.cursor.rest := by
  induction nodes generalizing index s with
  | nil => simp [run, Walks]
  | cons n nodes ih =>
    have hn := hplain n List.mem_cons_self
    simp only [run, hn.placed, Bool.not_true, Bool.false_eq_true, if_false, Walks,
      ← readNode_iff_reaches (c := c) index hn]
    -- the nodes behind this one see the same actor
    have hlater {after : State} (hread : readNode c index n s = (.ok (), after)) :=
      ih (index + 1) (s := after) fun m hm =>
        (actor_of_readSegment (readNode_eq_ok_iff.mp hread).1).symm ▸
          hplain m (List.mem_cons_of_mem _ hm)
    constructor
    · rintro ⟨s', hrun⟩
      cases hread : readNode c index n s with
      | mk result after =>
        rw [hread] at hrun
        cases result with
        | error e => cases hrun
        | ok _ => exact ⟨_, ⟨after, rfl, rfl⟩, (hlater hread).mp ⟨s', hrun⟩⟩
    · rintro ⟨rest, ⟨after, hread, rfl⟩, hwalks⟩
      rw [hread]
      exact (hlater hread).mpr hwalks

end Walk

/-! ## Trials -/

namespace Dispatcher

variable {σ : Type}

/-- A trial that succeeds has read the line and passed every condition, and shows what was read and
what is left over. -/
theorem exists_reading_of_test {d : Dispatcher α σ} {c : Command α} {actor : Actor}
    {input : String} {t : Trial α} {before after : Session α σ}
    (h : d.test c actor input before = some (t, after)) (hsucceeded : t.succeeded = true) :
    ∃ reading rest standing standing',
      Reading.ofInput d.settings c actor input = some reading ∧ reading.result = .ok rest
        ∧ Condition.testAll reading.context d.conditions standing = (.ok (), standing')
        ∧ t = .accept reading rest := by
  unfold test at h
  split at h
  · cases h
  · next reading hreading =>
    dsimp only at h
    split at h
    · cases h
      cases hsucceeded
    · next rest hresult =>
      split at h
      · cases h
        cases hsucceeded
      · next htests =>
        cases h
        exact ⟨reading, rest, _, _, hreading, hresult, htests, rfl⟩

/-- A trial without flags and conditions succeeds exactly if the walk gets through. -/
theorem test_succeeded_iff_run {d : Dispatcher α σ} (hconditions : d.conditions = [])
    {c : Command α} (hflags : c.hasFlags = false) (actor : Actor) (input : String)
    (s : Session α σ) :
    ∃ trial s', d.test c actor input s = some (trial, s')
      ∧ (trial.succeeded = true
        ↔ ∃ after, Walk.run c 0 c.nodes
            ⟨.ofText input.toList, .start actor c.info input, [], 0⟩ = (.ok (), after)) := by
  have hreading : Reading.ofInput d.settings c actor input
      = some (.ofRest c (.ofText input.toList) (.start actor c.info input) []) := by
    unfold Reading.ofInput
    rw [hflags]
    rfl
  unfold test
  rw [hreading]
  unfold Reading.ofRest
  cases Walk.run c 0 c.nodes ⟨.ofText input.toList, .start actor c.info input, [], 0⟩ with
  | mk result after =>
    cases result with
    | error e =>
      refine ⟨_, _, rfl, ?_⟩
      simp [Trial.succeeded, Trial.refuse]
    | ok _ =>
      rw [hconditions]
      refine ⟨_, _, rfl, ?_⟩
      simp [Trial.succeeded, Trial.accept]

/-- A compiled command without flags and default texts, whose slots have built-in types and admit
the actor, is fitted by exactly the lines that its nodes accept. -/
theorem test_succeeded_iff_accepts {d : Dispatcher α σ} (hconditions : d.conditions = [])
    {c : Command α} (hcompiled : c.Compiled) (hflags : c.hasFlags = false) {actor : Actor}
    (hslots : ∀ n ∈ c.nodes, ∀ s, n.segment = .slot s →
      s.type.BuiltIn ∧ s.parameter.defaultText = none ∧ s.admits actor = true)
    (input : String) (s : Session α σ) :
    ∃ trial s', d.test c actor input s = some (trial, s')
      ∧ (trial.succeeded = true
        ↔ Accepts (.start actor c.info input) c.nodes input.toList) := by
  have hshape := hcompiled.wellShaped
  have hplaced : ∀ n ∈ c.nodes, n.isPositional = true := by
    simpa [Command.hasFlags] using hflags
  have hplain : ∀ n ∈ c.nodes, n.Plain actor := fun n hn =>
    ⟨hshape.wordsFilled n hn, hplaced n hn, fun s hs => (hslots n hn s hs).1,
      fun s hs => (hslots n hn s hs).2.1, fun s hs => (hslots n hn s hs).2.2⟩
  have hne : c.nodes ≠ [] := by
    obtain ⟨n, rest, hnodes, _⟩ := hshape.startsWithWord
    simp [hnodes]
  have hlast : ∀ n ∈ c.nodes.dropLast, n.isGreedy = false := by
    have hgreedy := hshape.greedyLast
    rwa [Command.positional, List.filter_eq_self.mpr hplaced] at hgreedy
  obtain ⟨trial, s', htest, hsucceeded⟩ := test_succeeded_iff_run hconditions hflags actor input s
  refine ⟨trial, s', htest, hsucceeded.trans ?_⟩
  rw [Walk.run_iff_walks (.start actor c.info input) 0 hplain]
  exact walks_iff_accepts hne hlast

/-- A dispatcher without conditions and hooks, whose actions end at once. -/
def bare (α σ : Type) (settings : Settings) : Dispatcher α σ where
  settings := settings
  pipeline := .standard α
  conditions := []
  hooks := []
  handlers := .standard α σ
  absorb := fun _ host => host
  derive := fun _ _ _ host => (.ok .nil, host)
  perform := fun _ _ => .finish (.ok .nil)

/-- `give <item> [count]`: a word, a string and perhaps an integer. -/
def give : Command Unit :=
  ⟨⟨0⟩, [⟨.word "give", false, false⟩,
      ⟨.slot (.ofParameter (.required "item" .string) .string), false, false⟩,
      ⟨.slot (.ofParameter (.optional (.required "count" .int)) .int), true, true⟩],
    .none, ⟨(), []⟩⟩

theorem compiled_give : give.Compiled :=
  ⟨.standard Unit, ⟨["give <item> [count]"],
    [.required "item" .string, .optional (.required "count" .int)], (), .none⟩,
    "give <item> [count]", ⟨0⟩, rfl⟩

/-- The count may be left out, and blanks at the end do not matter. -/
theorem test_give_succeeds :
    ∃ trial s', (bare Unit Unit .standard).test give default "Give apple " (.start ⟨0⟩ ())
        = some (trial, s') ∧ trial.succeeded = true := by
  have hslots : ∀ n ∈ give.nodes, ∀ s, n.segment = .slot s →
      s.type.BuiltIn ∧ s.parameter.defaultText = none ∧ s.admits default = true := by
    intro n hn s hs
    simp only [give, List.mem_cons, List.not_mem_nil, or_false] at hn
    rcases hn with rfl | rfl | rfl <;> cases hs
    · exact ⟨.string, rfl, rfl⟩
    · exact ⟨.int, rfl, rfl⟩
  obtain ⟨trial, s', htest, hsucceeded⟩ := test_succeeded_iff_accepts
    (d := bare Unit Unit .standard) rfl compiled_give rfl hslots "Give apple " (.start ⟨0⟩ ())
  refine ⟨trial, s', htest, hsucceeded.mpr ?_⟩
  refine ⟨[⟨[], "Give".toList⟩, ⟨[' '], "apple".toList⟩], [' '], ?_⟩
  exact
    { covers := rfl
      fits := .cons ⟨by decide, rfl⟩ (.cons ⟨.string "apple", rfl, rfl⟩ .nil)
      inked := by
        simp only [List.forall_mem_cons, List.not_mem_nil, false_implies, implies_true, and_true]
        exact ⟨Text.startsInk_cons_iff.mpr (by decide), Text.startsInk_cons_iff.mpr (by decide)⟩
      gaps := by decide
      blanks := by decide
      optional := by
        rintro n (_ | ⟨_, ⟨⟩⟩)
        rfl
      separated := by decide
      greedy := by rintro n ⟨rfl⟩ hgreedy; cases hgreedy
      missing := by decide }

end Dispatcher

end CommandGrammar
