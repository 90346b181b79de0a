import CommandGrammar.Cursor.Quoted
import CommandGrammar.Proofs.Text.Seams

/-!
# Cutting at word boundaries

A place in a text is a *boundary* if no word goes over it: nothing stands before it, or a blank
does, or a blank or nothing follows.  The words of a text are those of its parts where the parts
meet at boundaries.

Whatever is cut out of a text, the runs that stay are put together so that their words do not touch:
`words_withoutRanges` says that the words left are those of the runs.
-/

set_option autoImplicit false

namespace CommandGrammar.Text

/-! ## Boundaries -/

/-- No word goes over the place between two texts. -/
def Boundary (front back : List Char) : Prop :=
  front = [] ∨ endsBlank front = true ∨ Separated back

instance (front back : List Char) : Decidable (Boundary front back) :=
  inferInstanceAs (Decidable (front = [] ∨ endsBlank front = true ∨ Separated back))

theorem endsBlank_append {text : List Char} (hne : text ≠ []) (front : List Char) :
    endsBlank (front ++ text) = endsBlank text := by
  unfold endsBlank
  rw [List.reverse_append]
  cases hreverse : text.reverse with
  | nil => exact absurd (List.reverse_eq_nil_iff.mp hreverse) hne
  | cons c rest => rfl

theorem endsBlank_of_allBlank {text : List Char} (h : AllBlank text) (hne : text ≠ []) :
    endsBlank text = true := by
  have hback := h.reverse
  unfold endsBlank
  cases hreverse : text.reverse with
  | nil => exact absurd (List.reverse_eq_nil_iff.mp hreverse) hne
  | cons c rest =>
    rw [hreverse] at hback
    exact hback c List.mem_cons_self

/-- A boundary stays one when the text before it is cut short at the front. -/
theorem Boundary.of_append {before front back : List Char} (h : Boundary (before ++ front) back) :
    Boundary front back := by
  by_cases hne : front = []
  · exact .inl hne
  · rcases h with hnil | hblank | hback
    · exact absurd (List.append_eq_nil_iff.mp hnil).2 hne
    · rw [endsBlank_append hne] at hblank
      exact .inr (.inl hblank)
    · exact .inr (.inr hback)

theorem Boundary.left {front back after : List Char} (h : Boundary front (back ++ after)) :
    Boundary front back := by
  rcases h with hnil | hblank | hback
  · exact .inl hnil
  · exact .inr (.inl hblank)
  · cases back with
    | nil => exact .inr (.inr separated_nil)
    | cons c rest => exact .inr (.inr (separated_cons_iff.mpr (separated_cons_iff.mp hback)))

/-- Behind the blanks at a boundary comes the end, or a word with a blank or nothing before it. -/
theorem Boundary.trimLeft {front back : List Char} (h : Boundary front back)
    (hback : trimLeft back ≠ []) :
    front ++ leadingBlanks back = [] ∨ endsBlank (front ++ leadingBlanks back) = true := by
  by_cases hnone : leadingBlanks back = []
  · have hsame : Text.trimLeft back = back := by
      have hsplit := leadingBlanks_append_trimLeft back
      rwa [hnone, List.nil_append] at hsplit
    rw [hnone, List.append_nil]
    rw [hsame] at hback
    rcases h with hnil | hblank | hsep
    · exact .inl hnil
    · exact .inr hblank
    · have hink := startsInk_trimLeft (hsame.symm ▸ hback)
      rw [hsame] at hink
      exact absurd hsep hink.not_separated
  · right
    rw [endsBlank_append hnone]
    exact endsBlank_of_allBlank (allBlank_leadingBlanks back) hnone

/-- Behind a word comes a blank or the end. -/
theorem separated_afterWord (text : List Char) : Separated (afterWord text) := by
  have hhead := List.head?_dropWhile_not isInk text
  unfold afterWord
  cases hrest : text.dropWhile isInk with
  | nil => exact separated_nil
  | cons c rest =>
    rw [hrest] at hhead
    exact separated_cons_iff.mpr (by simpa [isInk] using hhead)

/-! ## The words of the parts -/

theorem wordsFrom_append {back : List Char} (hback : Separated back) (word front : List Char) :
    wordsFrom word (front ++ back) = wordsFrom word front ++ words back := by
  induction front generalizing word with
  | nil =>
    cases back with
    | nil => simp [words, wordsFrom]
    | cons c rest =>
      have hc := separated_cons_iff.mp hback
      by_cases hword : word = [] <;> simp [words, wordsFrom, hc, hword]
  | cons c rest ih =>
    simp only [List.cons_append, wordsFrom, ih]
    split
    · split <;> rfl
    · rfl

/-- Parts that meet at a boundary have the words of the whole. -/
theorem words_append {front back : List Char} (h : Boundary front back) :
    words (front ++ back) = words front ++ words back := by
  have hsep {front back : List Char} (hback : Separated back) :
      words (front ++ back) = words front ++ words back := wordsFrom_append hback [] front
  rcases h with rfl | hblank | hback
  · rfl
  · rcases List.eq_nil_or_concat front with rfl | ⟨before, c, rfl⟩
    · rfl
    · -- the blank at the end of the front may as well stand at the start of the back
      rw [List.concat_eq_append] at hblank ⊢
      have hc : isBlank c = true := by simpa [endsBlank, startsBlank] using hblank
      have hlast : Separated (c :: back) := separated_cons_iff.mpr hc
      have halone : Separated [c] := separated_cons_iff.mpr hc
      rw [List.append_assoc, List.singleton_append, hsep hlast, hsep halone,
        words_cons_of_blank hc, words_cons_of_blank hc]
      simp [words, wordsFrom]
  · exact hsep hback

theorem words_blank_append {blanks : List Char} (h : AllBlank blanks) (text : List Char) :
    words (blanks ++ text) = words text := by
  induction blanks with
  | nil => rfl
  | cons c rest ih =>
    rw [List.cons_append, words_cons_of_blank (h c List.mem_cons_self)]
    exact ih fun x hx => h x (List.mem_cons_of_mem _ hx)

theorem words_append_blank (text : List Char) {blanks : List Char} (h : AllBlank blanks) :
    words (text ++ blanks) = words text := by
  rw [words_append (.inr (.inr h.separated)), words_of_allBlank h, List.append_nil]

theorem words_trimLeft (text : List Char) : words (trimLeft text) = words text := by
  have hsplit := words_blank_append (allBlank_leadingBlanks text) (trimLeft text)
  rw [leadingBlanks_append_trimLeft] at hsplit
  exact hsplit.symm

theorem words_trim (text : List Char) : words (trim text) = words text := by
  obtain ⟨after, htrim, hafter⟩ := exists_trimLeft_eq text
  have hwords := words_trimLeft text
  rw [htrim, words_append_blank _ hafter] at hwords
  exact hwords

/-- A text that is not blank has a first word, behind blanks and in front of a blank or the end. -/
theorem exists_first_word {text : List Char} (h : ¬ AllBlank text) :
    ∃ gap word after, text = gap ++ (word ++ after) ∧ AllBlank gap ∧ AllInk word ∧ word ≠ []
      ∧ Separated after ∧ words text = word :: words after := by
  have hink := startsInk_trimLeft (mt trimLeft_eq_nil_iff.mp h)
  refine ⟨leadingBlanks text, firstWord (trimLeft text), afterWord (trimLeft text), ?_,
    allBlank_leadingBlanks text, allInk_firstWord _, firstWord_ne_nil hink, separated_afterWord _,
    ?_⟩
  · rw [firstWord_append_afterWord, leadingBlanks_append_trimLeft]
  · rw [← words_trimLeft, words_of_startsInk hink]

/-- The words of a text hold no blank. -/
theorem allInk_of_mem_words {text word : List Char} (h : word ∈ words text) : AllInk word := by
  induction hlength : text.length using Nat.strong_induction_on generalizing text with
  | _ n ih =>
    by_cases hblank : AllBlank text
    · rw [words_of_allBlank hblank] at h
      cases h
    · obtain ⟨gap, first, after, rfl, _, hfirst, hne, _, hwords⟩ := exists_first_word hblank
      rw [hwords, List.mem_cons] at h
      rcases h with rfl | hlater
      · exact hfirst
      · have hpos := List.length_pos_iff.mpr hne
        simp only [List.length_append] at hlength
        exact ih after.length (by omega) hlater rfl

/-- Words with a space between any two are cut apart again. -/
theorem words_joinWith {parts : List (List Char)}
    (hparts : ∀ part ∈ parts, part ≠ [] ∧ AllInk part) : words (joinWith [' '] parts) = parts := by
  induction parts with
  | nil => rfl
  | cons part rest ih =>
    obtain ⟨⟨hne, hink⟩, hrest⟩ := List.forall_mem_cons.mp hparts
    cases rest with
    | nil =>
      have hfirst := firstWord_append hink separated_nil
      have hafter := afterWord_append hink separated_nil
      rw [List.append_nil] at hfirst hafter
      rw [joinWith_singleton, words_of_startsInk (hink.startsInk hne), hfirst, hafter]
      rfl
    | cons next others =>
      have hspace : Separated (' ' :: joinWith [' '] (next :: others)) :=
        separated_cons_iff.mpr rfl
      rw [joinWith_cons_cons, List.append_assoc, List.singleton_append,
        words_of_startsInk ((hink.startsInk hne).append _), firstWord_append hink hspace,
        afterWord_append hink hspace, words_cons_of_blank rfl, ih hrest]

/-! ## Putting runs together -/

/-- However a run is added, no word of it is joined to one before it. -/
theorem words_joinPiece (kept piece : List Char) :
    words (joinPiece kept piece) = words kept ++ words piece := by
  unfold joinPiece
  split
  · next hblank => rw [words_append (.inr (.inl hblank)), words_trimLeft]
  · split
    · next htouch =>
      rw [Bool.or_eq_true] at htouch
      rcases htouch with hempty | hblank
      · exact words_append (.inl (List.isEmpty_iff.mp hempty))
      · exact words_append (.inr (.inr (.inr hblank)))
    · have hspace : isBlank ' ' = true := by decide
      rw [words_append (.inr (.inr (separated_cons_iff.mpr hspace))), words_cons_of_blank hspace]

theorem words_foldl_joinPiece (kept : List Char) (runs : List (List Char)) :
    words (runs.foldl joinPiece kept) = words kept ++ runs.flatMap words := by
  induction runs generalizing kept with
  | nil => simp
  | cons run rest ih =>
    rw [List.foldl_cons, ih, words_joinPiece, List.flatMap_cons, List.append_assoc]

/-- A run of a text that stays, and the part behind it that is cut out. -/
structure Excision where
  kept : List Char
  cut : List Char

/-- The chunks of a text with cuts in it, where `run` stays behind the last one. -/
def chunksOf (cuts : List Excision) (run : List Char) : List Chunk :=
  cuts.flatMap (fun e => [⟨false, e.kept⟩, ⟨true, e.cut⟩]) ++ [⟨false, run⟩]

/-- The words of the runs between cuts. -/
def keptOf (cuts : List Excision) : List (List Char) := cuts.flatMap fun e => words e.kept

theorem chunksOf_cons (e : Excision) (cuts : List Excision) (run : List Char) :
    chunksOf (e :: cuts) run = ⟨false, e.kept⟩ :: ⟨true, e.cut⟩ :: chunksOf cuts run := rfl

theorem wholeText_append (chunks others : List Chunk) :
    wholeText (chunks ++ others) = wholeText chunks ++ wholeText others := List.flatMap_append

theorem wholeText_chunksOf_append (cuts : List Excision) (run more : List Char) :
    wholeText (chunksOf cuts (run ++ more)) = wholeText (chunksOf cuts run) ++ more := by
  induction cuts with
  | nil => simp [chunksOf]
  | cons e rest ih => simp [chunksOf_cons, ih]

theorem cutRanges_chunksOf_append (place : Nat) (cuts : List Excision) (run more : List Char) :
    cutRanges place (chunksOf cuts (run ++ more)) = cutRanges place (chunksOf cuts run) := by
  induction cuts generalizing place with
  | nil => rfl
  | cons e rest ih => simp [chunksOf_cons, cutRanges, ih]

/-- A cut behind the others, from the end of the run on. -/
theorem chunksOf_concat (cuts : List Excision) (run cut : List Char) :
    chunksOf (cuts ++ [⟨run, cut⟩]) [] = chunksOf cuts run ++ [⟨true, cut⟩, ⟨false, []⟩] := by
  simp [chunksOf]

theorem words_keptRuns_chunksOf (cuts : List Excision) (run : List Char) :
    (keptRuns [] (chunksOf cuts run)).flatMap words = keptOf cuts ++ words run := by
  have hrun (text : List Char) (later : List (List Char)) :
      (if text.isEmpty then later else text :: later).flatMap words
        = words text ++ later.flatMap words := by
    cases text <;> simp [words, wordsFrom]
  induction cuts with
  | nil => simpa [chunksOf, keptRuns, keptOf] using hrun run []
  | cons e rest ih =>
    rw [chunksOf_cons]
    simp only [keptRuns, if_true, Bool.false_eq_true, if_false, List.nil_append]
    rw [hrun, ih]
    simp [keptOf]

/-- What cutting leaves has the words of the runs, and no others. -/
theorem words_withoutRanges {cuts : List Excision} (hfilled : ∀ e ∈ cuts, e.cut ≠ [])
    (run : List Char) :
    words (withoutRanges (wholeText (chunksOf cuts run)) (cutRanges 0 (chunksOf cuts run)))
      = keptOf cuts ++ words run := by
  have hchunks : ∀ c ∈ chunksOf cuts run, c.isCut = true → c.text ≠ [] := by
    intro c hc hcut
    rcases List.mem_append.mp hc with hc | hc
    · obtain ⟨e, he, hc⟩ := List.mem_flatMap.mp hc
      simp only [List.mem_cons, List.not_mem_nil, or_false] at hc
      rcases hc with rfl | rfl
      · cases hcut
      · exact hfilled e he
    · cases List.mem_singleton.mp hc
      cases hcut
  rw [withoutRanges_cutRanges hchunks, words_trim, words_foldl_joinPiece]
  exact words_keptRuns_chunksOf cuts run

/-! ## Quoted texts -/

/-- Whether a text between quotes, where one begins here, ends in front of a blank or at the end. -/
def closesApart : List Char → Bool
  | '"' :: text =>
    match (Quoted.scan '"' text).result with
    | .ok _ => decide (Separated (Quoted.scan '"' text).left)
    | .error _ => true
  | _ => true

/-- Nothing is glued to the end of a text between quotes that begins where a word may begin. -/
def QuotesApart (text : List Char) : Prop :=
  ∀ n < text.length, (n = 0 ∨ endsBlank (text.take n) = true) → closesApart (text.drop n) = true

instance (text : List Char) : Decidable (QuotesApart text) :=
  inferInstanceAs (Decidable (∀ n < text.length,
    (n = 0 ∨ endsBlank (text.take n) = true) → closesApart (text.drop n) = true))

theorem QuotesApart.separated_left {text front back content : List Char} (h : QuotesApart text)
    (hsplit : text = front ++ '"' :: back) (hfront : front = [] ∨ endsBlank front = true)
    (hscan : (Quoted.scan '"' back).result = .ok content) :
    Separated (Quoted.scan '"' back).left := by
  have hplace : front.length < text.length := by
    rw [hsplit, List.length_append, List.length_cons]
    omega
  have hbegins : front.length = 0 ∨ endsBlank (text.take front.length) = true := by
    rw [hsplit, List.take_left]
    exact hfront.imp_left List.length_eq_zero_iff.mpr
  have hcloses := h front.length hplace hbegins
  rw [hsplit, List.drop_left] at hcloses
  simp only [closesApart, hscan] at hcloses
  exact of_decide_eq_true hcloses

end CommandGrammar.Text
