import CommandGrammar.Proofs.Command.Shape
import Mathlib.Data.List.Nodup

/-!
# Rows of segments

While a declaration is placed, its segments go to one of two lists: what is matched by place, and
the flags.  Both lists can be read off the *row* of all segments in the order in which they were
placed.  `Orderly` says of a row what placing has to check, without the pass that checks it: adding
a segment to the chain of an orderly row succeeds exactly if the longer row is orderly.
-/

set_option autoImplicit false

namespace CommandGrammar

/-! ## Rows of segments -/

namespace Segment

/-- Whether the segment is matched by place. -/
def isPositional : Segment → Bool
  | .word _ => true
  | .slot s => s.isPositional

/-- The slot, unless the segment is a word. -/
def slot? : Segment → Option Slot
  | .word _ => none
  | .slot s => some s

/-- The word, unless the segment is a slot. -/
def word? : Segment → Option String
  | .word text => some text
  | .slot _ => none

/-- What of a row is matched by place. -/
def placesOf (row : List Segment) : List Segment := row.filter isPositional

/-- The flags and switches of a row. -/
def flagsOf (row : List Segment) : List Slot :=
  (row.filterMap slot?).filter fun s => !s.isPositional

@[simp] theorem placesOf_append (row others : List Segment) :
    placesOf (row ++ others) = placesOf row ++ placesOf others := List.filter_append _ _

@[simp] theorem flagsOf_append (row others : List Segment) :
    flagsOf (row ++ others) = flagsOf row ++ flagsOf others := by
  simp [flagsOf]

@[simp] theorem placesOf_word (text : String) : placesOf [.word text] = [.word text] := rfl

@[simp] theorem flagsOf_word (text : String) : flagsOf [.word text] = [] := rfl

theorem placesOf_slot (s : Slot) :
    placesOf [.slot s] = if s.isPositional then [.slot s] else [] := by
  cases h : s.isPositional <;> simp [placesOf, isPositional, h]

theorem flagsOf_slot (s : Slot) : flagsOf [.slot s] = if s.isPositional then [] else [s] := by
  cases h : s.isPositional <;> simp [flagsOf, slot?, h]

/-- What placing checks of the segments of a row. -/
structure Orderly (row : List Segment) : Prop where
  /-- behind an optional place all places are optional -/
  optionalLast : (placesOf row).Pairwise fun s t => s.isOptional = true → t.isOptional = true
  longNamesDistinct : ((flagsOf row).filterMap Slot.longName?).Nodup
  shorthandsDistinct : ((flagsOf row).filterMap Slot.shorthand?).Nodup

theorem orderly_nil : Orderly [] where
  optionalLast := List.Pairwise.nil
  longNamesDistinct := List.nodup_nil
  shorthandsDistinct := List.nodup_nil

/-- The front of an orderly row is orderly. -/
theorem Orderly.of_append {row others : List Segment} (h : Orderly (row ++ others)) :
    Orderly row := by
  obtain ⟨hoptional, hlong, hshort⟩ := h
  rw [placesOf_append] at hoptional
  rw [flagsOf_append, List.filterMap_append] at hlong hshort
  constructor
  · exact hoptional.sublist (List.sublist_append_left _ _)
  · exact hlong.of_append_left
  · exact hshort.of_append_left

/-- A word may follow where no place is optional. -/
theorem orderly_concat_word_iff {row : List Segment} (h : Orderly row) (text : String) :
    Orderly (row ++ [.word text]) ↔ ∀ s ∈ placesOf row, s.isOptional = false := by
  constructor
  · intro hlonger s hs
    have hpair := hlonger.optionalLast
    rw [placesOf_append, placesOf_word, List.pairwise_append] at hpair
    have hlast := hpair.2.2 s hs (.word text) List.mem_cons_self
    simpa [isOptional] using hlast
  · intro hnone
    constructor
    · rw [placesOf_append, placesOf_word, List.pairwise_append]
      refine ⟨h.optionalLast, List.pairwise_singleton _ _, ?_⟩
      intro s hs t _ hoptional
      rw [hnone s hs] at hoptional
      cases hoptional
    · simpa using h.longNamesDistinct
    · simpa using h.shorthandsDistinct

/-- A place may follow if it is optional or no place before it is. -/
theorem orderly_concat_place_iff {row : List Segment} (h : Orderly row) {s : Slot}
    (hs : s.isPositional = true) :
    Orderly (row ++ [.slot s])
      ↔ s.isOptional = true ∨ ∀ t ∈ placesOf row, t.isOptional = false := by
  have hplaces : placesOf [.slot s] = [.slot s] := by simp [placesOf_slot, hs]
  have hflags : flagsOf [.slot s] = [] := by simp [flagsOf_slot, hs]
  constructor
  · intro hlonger
    have hpair := hlonger.optionalLast
    rw [placesOf_append, hplaces, List.pairwise_append] at hpair
    cases hoptional : s.isOptional with
    | true => exact Or.inl rfl
    | false =>
      right
      intro t ht
      have hlast := hpair.2.2 t ht (.slot s) List.mem_cons_self
      simpa [isOptional, hoptional] using hlast
  · intro hmay
    constructor
    · rw [placesOf_append, hplaces, List.pairwise_append]
      refine ⟨h.optionalLast, List.pairwise_singleton _ _, ?_⟩
      intro t ht last hlast hoptional
      rw [List.mem_singleton.mp hlast]
      rcases hmay with hmay | hnone
      · exact hmay
      · rw [hnone t ht] at hoptional
        cases hoptional
    · simpa [hflags] using h.longNamesDistinct
    · simpa [hflags] using h.shorthandsDistinct

theorem nodup_filterMap_concat_iff {α β : Type} (f : α → Option β) (l : List α) (a : α) :
    ((l ++ [a]).filterMap f).Nodup ↔ (l.filterMap f).Nodup ∧ ∀ b ∈ f a, b ∉ l.filterMap f := by
  cases hf : f a with
  | none => simp [hf]
  | some b =>
    have hsplit : (l ++ [a]).filterMap f = (l.filterMap f).concat b := by simp [hf]
    rw [hsplit, List.nodup_concat]
    simp [and_comm]

/-- A flag may follow if its names are new. -/
theorem orderly_concat_flag_iff {row : List Segment} (h : Orderly row) {s : Slot}
    (hs : s.isPositional = false) :
    Orderly (row ++ [.slot s])
      ↔ (∀ long ∈ s.longName?, long ∉ (flagsOf row).filterMap Slot.longName?)
        ∧ ∀ short ∈ s.shorthand?, short ∉ (flagsOf row).filterMap Slot.shorthand? := by
  have hplaces : placesOf (row ++ [.slot s]) = placesOf row := by simp [placesOf_slot, hs]
  have hflags : flagsOf (row ++ [.slot s]) = flagsOf row ++ [s] := by simp [flagsOf_slot, hs]
  constructor
  · intro hlonger
    have hlong := hlonger.longNamesDistinct
    have hshort := hlonger.shorthandsDistinct
    rw [hflags, nodup_filterMap_concat_iff] at hlong hshort
    exact ⟨hlong.2, hshort.2⟩
  · rintro ⟨hlong, hshort⟩
    constructor
    · rw [hplaces]
      exact h.optionalLast
    · rw [hflags, nodup_filterMap_concat_iff]
      exact ⟨h.longNamesDistinct, hlong⟩
    · rw [hflags, nodup_filterMap_concat_iff]
      exact ⟨h.shorthandsDistinct, hshort⟩

end Segment

/-! ## The chain of a row -/

namespace Chain

open Segment

variable {path : String} {row : List Segment} {c : Chain}

/-- The chain in which a row has been placed. -/
def ofRow (path : String) (row : List Segment) : Chain := ⟨path, placesOf row, flagsOf row⟩

theorem sawOptional_ofRow_eq_false_iff (path : String) (row : List Segment) :
    (ofRow path row).sawOptional = false ↔ ∀ s ∈ placesOf row, s.isOptional = false := by
  simp [sawOptional, ofRow]

/-- A word is added exactly where the row stays orderly. -/
theorem addWord_ofRow_iff (h : Orderly row) {text : String} :
    (ofRow path row).addWord text = .ok c
      ↔ Orderly (row ++ [.word text]) ∧ c = ofRow path (row ++ [.word text]) := by
  rw [orderly_concat_word_iff h, ← sawOptional_ofRow_eq_false_iff path row]
  constructor
  · intro hadd
    obtain ⟨hsaw, rfl⟩ := addWord_eq_ok hadd
    exact ⟨hsaw, by simp [ofRow]⟩
  · rintro ⟨hsaw, rfl⟩
    unfold addWord
    rw [hsaw]
    simp [ofRow]

/-- A flag whose names are new is added. -/
theorem addFlag_eq_ok_iff {s : Slot} {c' : Chain} :
    c.addFlag s = .ok c'
      ↔ (∀ long ∈ s.longName?, long ∉ c.flags.filterMap Slot.longName?)
        ∧ (∀ short ∈ s.shorthand?, short ∉ c.flags.filterMap Slot.shorthand?)
        ∧ c' = { c with flags := c.flags ++ [s] } := by
  constructor
  · intro hadd
    obtain ⟨hlong, hshort, rfl⟩ := addFlag_eq_ok hadd
    refine ⟨?_, ?_, rfl⟩
    · intro long hs hmem
      obtain ⟨f, hf, hname⟩ := List.mem_filterMap.mp hmem
      exact hlong long hs f hf hname
    · intro short hs hmem
      obtain ⟨f, hf, hname⟩ := List.mem_filterMap.mp hmem
      exact hshort short hs f hf hname
  · rintro ⟨hlong, hshort, rfl⟩
    have hlongNew :
        (s.longName?.filter fun long => c.flags.any fun f => f.longName? = some long) = none := by
      rw [Option.filter_eq_none_iff]
      intro long hs htaken
      obtain ⟨f, hf, hname⟩ := List.any_eq_true.mp htaken
      exact hlong long hs (List.mem_filterMap.mpr ⟨f, hf, by simpa using hname⟩)
    have hshortNew :
        (s.shorthand?.filter fun short => c.flags.any fun f => f.shorthand? = some short)
          = none := by
      rw [Option.filter_eq_none_iff]
      intro short hs htaken
      obtain ⟨f, hf, hname⟩ := List.any_eq_true.mp htaken
      exact hshort short hs (List.mem_filterMap.mpr ⟨f, hf, by simpa using hname⟩)
    unfold addFlag
    dsimp only
    rw [hlongNew, hshortNew]

/-- Behind a first place, a slot is added exactly where the row stays orderly. -/
theorem addSlot_ofRow_iff (h : Orderly row) (hne : placesOf row ≠ []) {s : Slot} :
    (ofRow path row).addSlot s = .ok c
      ↔ Orderly (row ++ [.slot s]) ∧ c = ofRow path (row ++ [.slot s]) := by
  have hopen : (ofRow path row).positional.isEmpty = false := by simpa [ofRow] using hne
  unfold addSlot
  rw [hopen, if_neg Bool.false_ne_true]
  cases hs : s.isPositional with
  | true =>
    rw [if_pos rfl, orderly_concat_place_iff h hs, ← sawOptional_ofRow_eq_false_iff path row]
    have hrow : ofRow path (row ++ [.slot s])
        = { ofRow path row with positional := (ofRow path row).positional ++ [.slot s] } := by
      simp [ofRow, placesOf_slot, flagsOf_slot, hs]
    rw [hrow]
    unfold addPositional
    cases s.isOptional <;> cases (ofRow path row).sawOptional <;> simp [eq_comm]
  | false =>
    have hrow : ofRow path (row ++ [.slot s])
        = { ofRow path row with flags := (ofRow path row).flags ++ [s] } := by
      simp [ofRow, placesOf_slot, flagsOf_slot, hs]
    rw [if_neg Bool.false_ne_true, orderly_concat_flag_iff h hs, hrow, addFlag_eq_ok_iff, and_assoc]
    rfl

end Chain

end CommandGrammar
