import CommandGrammar.Text.Blank
import Mathlib.Data.List.TakeWhile

/-!
# Words and the blanks between them

A place in a text is *separated* when nothing is glued to what stands before it: the text ends
there or goes on with a blank.  Reading a word stops at the first such place, so a word followed
by a separated text is read as it stands.  The lemmas of this module say what the cuts at blanks
do to a text that is put together from runs of blanks and words, and how many words a text has at
most.
-/

set_option autoImplicit false

namespace CommandGrammar.Text

/-- A run of blanks, perhaps an empty one. -/
def AllBlank (text : List Char) : Prop := ∀ c ∈ text, isBlank c = true

/-- A text without a blank, perhaps an empty one. -/
def AllInk (text : List Char) : Prop := ∀ c ∈ text, isInk c = true

/-- A text that is empty or begins with a blank. -/
def Separated (text : List Char) : Prop := text = [] ∨ startsBlank text = true

/-- A text that begins with a character of a word. -/
def StartsInk (text : List Char) : Prop := ∃ c rest, text = c :: rest ∧ isInk c = true

-- these look at the text only; looking for an instance may find one that tries every character
instance (text : List Char) : Decidable (AllBlank text) :=
  List.decidableBAll (fun c => isBlank c = true) text

instance (text : List Char) : Decidable (AllInk text) :=
  List.decidableBAll (fun c => isInk c = true) text

instance (text : List Char) : Decidable (Separated text) :=
  inferInstanceAs (Decidable (text = [] ∨ startsBlank text = true))

theorem isInk_iff {c : Char} : isInk c = true ↔ isBlank c = false := by
  simp [isInk]

/-! ## Where a word may end -/

theorem separated_nil : Separated [] := Or.inl rfl

theorem separated_cons_iff {c : Char} {text : List Char} :
    Separated (c :: text) ↔ isBlank c = true := by
  simp [Separated, startsBlank]

theorem allBlank_nil : AllBlank [] := by simp [AllBlank]

theorem startsInk_cons_iff {c : Char} {text : List Char} :
    StartsInk (c :: text) ↔ isInk c = true := by
  simp [StartsInk]

theorem StartsInk.ne_nil {text : List Char} (h : StartsInk text) : text ≠ [] := by
  obtain ⟨c, rest, rfl, _⟩ := h
  simp

theorem StartsInk.not_separated {text : List Char} (h : StartsInk text) : ¬ Separated text := by
  obtain ⟨c, rest, rfl, hc⟩ := h
  rw [separated_cons_iff, isInk_iff.mp hc]
  simp

theorem StartsInk.append {text : List Char} (h : StartsInk text) (after : List Char) :
    StartsInk (text ++ after) := by
  obtain ⟨c, rest, rfl, hc⟩ := h
  exact ⟨c, rest ++ after, rfl, hc⟩

/-- A non-empty start of a text that begins with ink begins with ink. -/
theorem StartsInk.of_append {text after : List Char} (h : StartsInk (text ++ after))
    (hne : text ≠ []) : StartsInk text := by
  obtain ⟨c, rest, heq, hc⟩ := h
  cases text with
  | nil => exact absurd rfl hne
  | cons d text =>
    obtain ⟨rfl, _⟩ := List.cons.inj heq
    exact ⟨d, text, rfl, hc⟩

theorem AllInk.startsInk {text : List Char} (h : AllInk text) (hne : text ≠ []) :
    StartsInk text := by
  cases text with
  | nil => exact absurd rfl hne
  | cons c rest => exact ⟨c, rest, rfl, h c List.mem_cons_self⟩

theorem AllBlank.separated {text : List Char} (h : AllBlank text) : Separated text := by
  cases text with
  | nil => exact separated_nil
  | cons c rest => exact separated_cons_iff.mpr (h c List.mem_cons_self)

/-- A separated text that goes on with a word has a blank before it. -/
theorem gap_ne_nil_of_separated {gap text : List Char} (h : Separated (gap ++ text))
    (ht : StartsInk text) : gap ≠ [] := by
  rintro rfl
  exact ht.not_separated h

theorem AllBlank.separated_append {gap : List Char} (h : AllBlank gap) (hne : gap ≠ [])
    (text : List Char) : Separated (gap ++ text) := by
  cases gap with
  | nil => exact absurd rfl hne
  | cons c rest => exact separated_cons_iff.mpr (h c List.mem_cons_self)

/-! ## The word at the front -/

theorem allInk_firstWord (text : List Char) : AllInk (firstWord text) :=
  fun _ hc => List.mem_takeWhile_imp hc

theorem firstWord_append {word after : List Char} (hw : AllInk word) (ha : Separated after) :
    firstWord (word ++ after) = word := by
  unfold firstWord
  rw [List.takeWhile_append_of_pos hw]
  cases after with
  | nil => simp
  | cons c rest =>
    have hc : isInk c = false := by simpa [isInk] using separated_cons_iff.mp ha
    simp [hc]

theorem afterWord_append {word after : List Char} (hw : AllInk word) (ha : Separated after) :
    afterWord (word ++ after) = after := by
  have h := firstWord_append_afterWord (word ++ after)
  rw [firstWord_append hw ha] at h
  exact List.append_cancel_left h

theorem firstWord_ne_nil {text : List Char} (h : StartsInk text) : firstWord text ≠ [] := by
  obtain ⟨c, rest, rfl, hc⟩ := h
  simp [firstWord, hc]

/-! ## Leading blanks -/

theorem allBlank_leadingBlanks (text : List Char) : AllBlank (leadingBlanks text) :=
  fun _ hc => List.mem_takeWhile_imp hc

theorem startsInk_trimLeft {text : List Char} (hne : trimLeft text ≠ []) :
    StartsInk (trimLeft text) := by
  have hhead := List.head?_dropWhile_not isBlank text
  cases h : trimLeft text with
  | nil => exact absurd h hne
  | cons c rest =>
    unfold trimLeft at h
    refine ⟨c, rest, rfl, ?_⟩
    simpa [h, isInk] using hhead

theorem trimLeft_append_of_blank {gap : List Char} (h : AllBlank gap) (text : List Char) :
    trimLeft (gap ++ text) = trimLeft text :=
  List.dropWhile_append_of_pos h

theorem trimLeft_of_startsInk {text : List Char} (h : StartsInk text) : trimLeft text = text := by
  obtain ⟨c, rest, rfl, hc⟩ := h
  simp [trimLeft, isInk_iff.mp hc]

theorem trimLeft_eq_nil_iff {text : List Char} : trimLeft text = [] ↔ AllBlank text := by
  exact List.dropWhile_eq_nil_iff

/-- A text that begins with ink is what is left of a line exactly if blanks stand before it. -/
theorem trimLeft_eq_iff {line text : List Char} (h : StartsInk text) :
    trimLeft line = text ↔ ∃ gap, line = gap ++ text ∧ AllBlank gap := by
  constructor
  · rintro rfl
    exact ⟨_, (leadingBlanks_append_trimLeft line).symm, allBlank_leadingBlanks line⟩
  · rintro ⟨gap, rfl, hgap⟩
    rw [trimLeft_append_of_blank hgap, trimLeft_of_startsInk h]

/-! ## All words -/

/-- An unfinished word takes the word at the front. -/
theorem wordsFrom_of_ne_nil {word : List Char} (hne : word ≠ []) (text : List Char) :
    wordsFrom word text = (word.reverse ++ firstWord text) :: words (afterWord text) := by
  induction text generalizing word with
  | nil => simp [wordsFrom, words, firstWord, afterWord, hne]
  | cons c rest ih =>
    cases hc : isBlank c with
    | true => simp [wordsFrom, words, firstWord, afterWord, isInk, hc, hne]
    | false => simp [wordsFrom, firstWord, afterWord, isInk, hc, ih (List.cons_ne_nil c word)]

theorem words_cons_of_blank {c : Char} (hc : isBlank c = true) (rest : List Char) :
    words (c :: rest) = words rest := by
  simp [words, wordsFrom, hc]

/-- A text that starts with a word has that word and those behind it. -/
theorem words_of_startsInk {text : List Char} (h : StartsInk text) :
    words text = firstWord text :: words (afterWord text) := by
  obtain ⟨c, rest, rfl, hc⟩ := h
  have hblank : isBlank c = false := isInk_iff.mp hc
  have hfirst : words (c :: rest) = wordsFrom [c] rest := by simp [words, wordsFrom, hblank]
  rw [hfirst, wordsFrom_of_ne_nil (List.cons_ne_nil c [])]
  simp [firstWord, afterWord, hc]

theorem words_of_allBlank {text : List Char} (h : AllBlank text) : words text = [] := by
  induction text with
  | nil => rfl
  | cons c rest ih =>
    rw [words_cons_of_blank (h c List.mem_cons_self)]
    exact ih fun x hx => h x (List.mem_cons_of_mem _ hx)

/-- The end of a text has no more words than the text. -/
theorem length_words_le_append (front text : List Char) :
    (words text).length ≤ (words (front ++ text)).length := by
  induction front with
  | nil => exact Nat.le_refl _
  | cons c front ih =>
    refine Nat.le_trans ih ?_
    cases hc : isBlank c with
    | true => rw [List.cons_append, words_cons_of_blank hc]
    | false =>
      -- a character in front of a word makes it longer, and one in front of a blank is a new word
      have hink : isInk c = true := isInk_iff.mpr hc
      rw [List.cons_append, words_of_startsInk (startsInk_cons_iff.mpr hink)]
      have hafter : afterWord (c :: (front ++ text)) = afterWord (front ++ text) := by
        simp [afterWord, hink]
      rw [hafter, List.length_cons]
      by_cases hfirst : StartsInk (front ++ text)
      · rw [words_of_startsInk hfirst, List.length_cons]
      · have hsame : afterWord (front ++ text) = front ++ text := by
          cases hrest : front ++ text with
          | nil => rfl
          | cons x rest =>
            have hx : ¬ isInk x = true := by
              intro hx
              exact hfirst (hrest ▸ startsInk_cons_iff.mpr hx)
            simp [afterWord, hx]
        rw [hsame]
        exact Nat.le_succ _

/-- A text has no more words than characters. -/
theorem length_words_le (text : List Char) : (words text).length ≤ text.length := by
  induction text with
  | nil => exact Nat.le_refl _
  | cons c rest ih =>
    cases hc : isBlank c with
    | true =>
      rw [words_cons_of_blank hc, List.length_cons]
      omega
    | false =>
      have hink : isInk c = true := isInk_iff.mpr hc
      have hafter : afterWord (c :: rest) = afterWord rest := by simp [afterWord, hink]
      have hrest := length_words_le_append (firstWord rest) (afterWord rest)
      rw [firstWord_append_afterWord] at hrest
      rw [words_of_startsInk (startsInk_cons_iff.mpr hink), hafter, List.length_cons,
        List.length_cons]
      omega

end CommandGrammar.Text
