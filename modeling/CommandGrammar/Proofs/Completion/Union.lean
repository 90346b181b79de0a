import CommandGrammar.Proofs.Completion.Lockstep
import Mathlib.Data.List.Sort
import Mathlib.Data.String.Basic

/-!
# Completions as a sorted union

The completions of a line form a strictly increasing list of texts, so the list is determined by its
entries.  These are what the commands offer one by one.  Each begins like the word that is being
typed, the text behind the last blank of the line.
-/

set_option autoImplicit false

namespace CommandGrammar.Completion

variable {α : Type} {settings : Settings} {commands : List (Command α)} {actor : Actor}
  {input : String}

/-! ## Sorting without repetitions -/

/-- In a sorted list each text that differs from the last one kept is greater than all that are
kept. -/
theorem pairwise_eraseRepsBy_loop {a : String} {l kept : List String}
    (hsorted : (a :: l).Pairwise (· ≤ ·)) (hkept : (kept.reverse ++ [a]).Pairwise (· < ·)) :
    (List.eraseRepsBy.loop (· == ·) a l kept).Pairwise (· < ·) := by
  induction l generalizing a kept with
  | nil => simpa [List.eraseRepsBy.loop] using hkept
  | cons x rest ih =>
    obtain ⟨hfirst, hrest⟩ := List.pairwise_cons.mp hsorted
    rw [List.eraseRepsBy.loop]
    split
    next hsame =>
      have hsame : a = x := beq_iff_eq.mp hsame
      exact ih (hsame ▸ hrest) hkept
    next hdiffer =>
      have hne : a ≠ x := by simpa using hdiffer
      have hlt : a < x := lt_of_le_of_ne (hfirst x List.mem_cons_self) hne
      refine ih hrest ?_
      rw [List.reverse_cons, List.pairwise_append]
      refine ⟨hkept, List.pairwise_singleton _ _, fun y hy z hz => ?_⟩
      rw [List.mem_singleton.mp hz]
      rcases List.mem_append.mp hy with hearlier | hlast
      · exact lt_trans ((List.pairwise_append.mp hkept).2.2 y hearlier a List.mem_cons_self) hlt
      · rwa [List.mem_singleton.mp hlast]

theorem pairwise_sortedUnique (texts : List String) : (sortedUnique texts).Pairwise (· < ·) := by
  have hsorted : (texts.mergeSort fun a b => decide (a ≤ b)).Pairwise (· ≤ ·) := by
    have hpairs : (texts.mergeSort fun a b => decide (a ≤ b)).Pairwise fun a b =>
        decide (a ≤ b) = true :=
      List.pairwise_mergeSort
        (fun a b c hab hbc => by simpa using le_trans (by simpa using hab) (by simpa using hbc))
        (fun a b => by simpa using le_total a b) texts
    exact hpairs.imp fun h => of_decide_eq_true h
  unfold sortedUnique List.eraseReps
  cases hlist : texts.mergeSort fun a b => decide (a ≤ b) with
  | nil => exact .nil
  | cons a rest =>
    rw [hlist] at hsorted
    exact pairwise_eraseRepsBy_loop hsorted (List.pairwise_singleton _ _)

/-! ## The word that is being typed -/

/-- `word` is the text behind the last blank of a line. -/
def IsTyped (line word : List Char) : Prop :=
  ∃ head, line = head ++ word ∧ Text.AllInk word ∧ (head = [] ∨ Text.endsBlank head = true)

theorem isTyped_iff {line word : List Char} : IsTyped line word ↔ word = (splitPartial line).2 := by
  constructor
  · rintro ⟨head, rfl, hink, hhead⟩
    rw [splitPartial_append_of_allInk hhead hink]
  · rintro rfl
    refine ⟨(splitPartial line).1, (splitPartial_append line).symm, fun c hc => ?_, ?_⟩
    · exact List.mem_takeWhile_imp (List.mem_reverse.mp hc)
    · have hblank := List.head?_dropWhile_not Text.isInk line.reverse
      unfold splitPartial Text.endsBlank
      rw [List.reverse_reverse, List.reverse_eq_nil_iff]
      cases hhead : line.reverse.dropWhile Text.isInk with
      | nil => exact .inl rfl
      | cons c rest =>
        rw [hhead] at hblank
        exact .inr (by simpa [Text.startsBlank, Text.isInk] using hblank)

/-- What begins like a word has a start that is the word up to ASCII case. -/
theorem exists_start_of_fits {word : List Char} {text : String} (h : fits word text = true) :
    ∃ start rest, text.toList = start ++ rest ∧ Text.sameFolded start word = true := by
  obtain ⟨back, hback⟩ := Text.startsFolded_iff.mp h
  obtain ⟨start, rest, hsplit, hstart, _⟩ := List.map_eq_append_iff.mp hback.symm
  exact ⟨start, rest, hsplit, Text.sameFolded_iff.mpr hstart⟩

theorem fits_of_mem_ofCommands {text : String}
    (h : text ∈ (ofCommands settings commands actor input).1) :
    fits (splitPartial input.toList).2 text = true := by
  obtain ⟨c, _, _, hoffered⟩ := mem_ofCommands.mp h
  obtain ⟨_, ⟨_, _, _, _, hfits⟩, _⟩ := mem_ofCommand.mp hoffered
  exact hfits

/-! ## The union of what the commands offer -/

/-- On its own, a command offers what its walk gives, if it takes part. -/
theorem mem_ofCommands_singleton {c : Command α} {text : String} :
    text ∈ (ofCommands settings [c] actor input).1
      ↔ visible c actor = true ∧ text ∈ (ofCommand settings c actor input).1 := by
  rw [mem_ofCommands, List.exists_mem_cons_iff]
  simp

/-- A text is offered exactly if one of the commands offers it on its own. -/
theorem mem_ofCommands_iff_alone {text : String} :
    text ∈ (ofCommands settings commands actor input).1
      ↔ ∃ c ∈ commands, text ∈ (ofCommands settings [c] actor input).1 := by
  simp only [mem_ofCommands_singleton]
  exact mem_ofCommands

/-- Where the completions of a line are the sorted union of what the commands offer one by one,
filtered by the word that is being typed. -/
structure SortedUnion (settings : Settings) (commands : List (Command α)) (actor : Actor)
    (input : String) : Prop where
  increasing : (ofCommands settings commands actor input).1.Pairwise (· < ·)
  /-- one word is being typed -/
  typed : ∃! word, IsTyped input.toList word
  /-- each text has a start that is this word up to ASCII case -/
  beginsTyped : ∀ {word}, IsTyped input.toList word →
    ∀ text ∈ (ofCommands settings commands actor input).1,
      ∃ start rest, text.toList = start ++ rest ∧ Text.sameFolded start word = true
  alone : ∀ {c : Command α} {text}, text ∈ (ofCommands settings [c] actor input).1
    ↔ visible c actor = true ∧ text ∈ (ofCommand settings c actor input).1
  union : ∀ {text}, text ∈ (ofCommands settings commands actor input).1
    ↔ ∃ c ∈ commands, text ∈ (ofCommands settings [c] actor input).1
  /-- there is no other strictly increasing list of these texts -/
  determined : ∀ {texts : List String}, texts.Pairwise (· < ·) →
    (∀ text, text ∈ texts ↔ ∃ c ∈ commands, text ∈ (ofCommands settings [c] actor input).1) →
    texts = (ofCommands settings commands actor input).1
  /-- neither the order of the commands nor their repetitions play a part -/
  orderFree : ∀ {others : List (Command α)}, (∀ c, c ∈ others ↔ c ∈ commands) →
    (ofCommands settings others actor input).1 = (ofCommands settings commands actor input).1

/-- The completions of a line are the strictly increasing list of what the commands offer one by
one, whatever their order; each begins like the word that is being typed, up to ASCII case. -/
theorem completions_sortedUnion (settings : Settings) (commands : List (Command α)) (actor : Actor)
    (input : String) : SortedUnion settings commands actor input := by
  have hincreasing : ∀ commands : List (Command α),
      (ofCommands settings commands actor input).1.Pairwise (· < ·) :=
    fun _ => pairwise_sortedUnique _
  have hdetermined : ∀ {texts : List String}, texts.Pairwise (· < ·) →
      (∀ text, text ∈ texts ↔ ∃ c ∈ commands, text ∈ (ofCommands settings [c] actor input).1) →
      texts = (ofCommands settings commands actor input).1 := fun htexts hmem =>
    htexts.eq_of_mem_iff (hincreasing commands) fun text =>
      (hmem text).trans mem_ofCommands_iff_alone.symm
  constructor
  case increasing => exact hincreasing commands
  case typed =>
    exact ⟨_, isTyped_iff.mpr rfl, fun _ hword => isTyped_iff.mp hword⟩
  case beginsTyped =>
    intro word hword text htext
    rw [isTyped_iff.mp hword]
    exact exists_start_of_fits (fits_of_mem_ofCommands htext)
  case alone => exact mem_ofCommands_singleton
  case union => exact mem_ofCommands_iff_alone
  case determined => exact hdetermined
  case orderFree =>
    intro others hothers
    refine hdetermined (hincreasing others) fun text => mem_ofCommands_iff_alone.trans ?_
    exact exists_congr fun c => and_congr_left fun _ => hothers c

/-- A command that is registered twice offers the name of its switch once. -/
theorem completions_repeated :
    (ofCommands .standard [giveSilently, giveSilently] default "give --s").1 = ["--silent"] := by
  have hunion := completions_sortedUnion .standard [giveSilently, giveSilently] default "give --s"
  have hone : (ofCommand .standard giveSilently default "give --s").1 = ["--silent"] := rfl
  refine (hunion.determined (List.pairwise_singleton _ _) fun text => ?_).symm
  simp only [hunion.alone, ← hone]
  constructor
  · intro htext
    exact ⟨giveSilently, List.mem_cons_self, rfl, htext⟩
  · rintro ⟨c, hc, _, htext⟩
    have hsame : c = giveSilently := (List.mem_pair.mp hc).elim id id
    rwa [hsame] at htext

end CommandGrammar.Completion
