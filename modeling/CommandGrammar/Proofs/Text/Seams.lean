import CommandGrammar.Proofs.Text.Words
import CommandGrammar.Text.Excision
import CommandGrammar.Text.Join

/-!
# Cutting chunks out of a text

A text is given in chunks, some of which are to be cut out.  Cutting the byte ranges of those
leaves the runs between them, whatever the characters' sizes.  Where the runs hold words with a
space behind each, putting them together leaves the words with one space between any two.
-/

set_option autoImplicit false

namespace CommandGrammar

/-! ## Byte positions -/

@[simp] theorem byteLength_pos_iff {text : List Char} : 0 < byteLength text ↔ text ≠ [] := by
  cases text with
  | nil => simp
  | cons c rest =>
    have hsize := Char.utf8Size_pos c
    simp only [byteLength_cons, ne_eq, reduceCtorEq, not_false_eq_true, iff_true]
    omega

theorem dropBytes_zero (text : List Char) : dropBytes 0 text = text := by
  cases text with
  | nil => rfl
  | cons c rest =>
    have hsize := Char.utf8Size_pos c
    simp [dropBytes, Nat.not_le.mpr hsize]

theorem takeBytes_zero (text : List Char) : takeBytes 0 text = [] := by
  cases text with
  | nil => rfl
  | cons c rest =>
    have hsize := Char.utf8Size_pos c
    simp [takeBytes, Nat.not_le.mpr hsize]

@[simp] theorem dropBytes_append (front back : List Char) :
    dropBytes (byteLength front) (front ++ back) = back := by
  induction front with
  | nil => exact dropBytes_zero back
  | cons c front ih => simp [dropBytes, ih]

@[simp] theorem takeBytes_append (front back : List Char) :
    takeBytes (byteLength front) (front ++ back) = front := by
  induction front with
  | nil => exact takeBytes_zero back
  | cons c front ih => simp [takeBytes, ih]

namespace Text

theorem slice_append (front middle back : List Char) :
    slice (front ++ (middle ++ back)) (byteLength front) (byteLength front + byteLength middle)
      = middle := by
  simp [slice]

/-! ## Chunks -/

/-- A part of a text, and whether it is to be cut out. -/
structure Chunk where
  isCut : Bool
  text : List Char

/-- The text that chunks make up. -/
def wholeText (chunks : List Chunk) : List Char := chunks.flatMap Chunk.text

/-- The byte ranges of the chunks to be cut out, where the first chunk begins at `place`. -/
def cutRanges : Nat → List Chunk → List ByteRange
  | _, [] => []
  | place, c :: rest =>
    let stop := place + byteLength c.text
    if c.isCut then ⟨place, stop⟩ :: cutRanges stop rest else cutRanges stop rest

/-- The non-empty runs of what stays; `pending` is the run so far. -/
def keptRuns (pending : List Char) : List Chunk → List (List Char)
  | [] => if pending.isEmpty then [] else [pending]
  | c :: rest =>
    if c.isCut then
      if pending.isEmpty then keptRuns [] rest else pending :: keptRuns [] rest
    else keptRuns (pending ++ c.text) rest

@[simp] theorem wholeText_nil : wholeText [] = [] := rfl

@[simp] theorem wholeText_cons (c : Chunk) (rest : List Chunk) :
    wholeText (c :: rest) = c.text ++ wholeText rest := by simp [wholeText]

theorem cutRanges_append (place : Nat) (chunks others : List Chunk) :
    cutRanges place (chunks ++ others)
      = cutRanges place chunks ++ cutRanges (place + byteLength (wholeText chunks)) others := by
  induction chunks generalizing place with
  | nil => simp [cutRanges]
  | cons c rest ih =>
    simp only [List.cons_append, cutRanges, ih, wholeText_cons, byteLength_append, Nat.add_assoc]
    split <;> simp

/-- The pieces between the ranges are the runs between the chunks. -/
theorem keptPieces_cutRanges (front pending : List Char) (chunks : List Chunk) :
    keptPieces (front ++ (pending ++ wholeText chunks)) (byteLength front)
        (cutRanges (byteLength front + byteLength pending) chunks)
      = keptRuns pending chunks := by
  induction chunks generalizing front pending with
  | nil =>
    simp only [wholeText_nil, List.append_nil, cutRanges, keptPieces, keptRuns, byteLength_append,
      dropBytes_append]
    cases pending with
    | nil => simp
    | cons c pending =>
      have hsize := Char.utf8Size_pos c
      rw [if_pos (by rw [byteLength_cons]; omega)]
      rfl
  | cons c rest ih =>
    by_cases hcut : c.isCut = true
    · have hlater := ih (front ++ (pending ++ c.text)) []
      simp only [List.nil_append, byteLength_nil, Nat.add_zero, byteLength_append,
        List.append_assoc, ← Nat.add_assoc] at hlater
      simp only [cutRanges, hcut, if_true, keptPieces, keptRuns, wholeText_cons, slice_append]
      rw [Nat.max_eq_right (by omega), hlater]
      cases pending with
      | nil => simp
      | cons d pending =>
        have hsize := Char.utf8Size_pos d
        rw [if_pos (by rw [byteLength_cons]; omega)]
        rfl
    · have hlater := ih front (pending ++ c.text)
      simp only [byteLength_append, List.append_assoc, ← Nat.add_assoc] at hlater
      simp only [cutRanges, hcut, if_false, keptRuns, wholeText_cons, hlater, Bool.false_eq_true]

/-- Where no chunk to be cut out is empty, each range has bytes and lies within the text. -/
theorem mem_cutRanges {place : Nat} {chunks : List Chunk} {r : ByteRange}
    (hfilled : ∀ c ∈ chunks, c.isCut = true → c.text ≠ []) (h : r ∈ cutRanges place chunks) :
    place ≤ r.start ∧ r.start < r.stop ∧ r.stop ≤ place + byteLength (wholeText chunks) := by
  induction chunks generalizing place with
  | nil => cases h
  | cons c rest ih =>
    have hrest := fun d hd => hfilled d (List.mem_cons_of_mem c hd)
    simp only [cutRanges] at h
    simp only [wholeText_cons, byteLength_append]
    split at h
    · next hcut =>
      have hsize := byteLength_pos_iff.mpr (hfilled c List.mem_cons_self hcut)
      rcases List.mem_cons.mp h with rfl | h
      · exact ⟨Nat.le_refl _, by dsimp only; omega, by dsimp only; omega⟩
      · have hlater := ih hrest h
        omega
    · have hlater := ih hrest h
      omega

theorem pairwise_cutRanges {chunks : List Chunk} (place : Nat)
    (hfilled : ∀ c ∈ chunks, c.isCut = true → c.text ≠ []) :
    (cutRanges place chunks).Pairwise fun a b => a.start ≤ b.start := by
  induction chunks generalizing place with
  | nil => exact .nil
  | cons c rest ih =>
    have hrest := fun d hd => hfilled d (List.mem_cons_of_mem c hd)
    simp only [cutRanges]
    split
    · refine .cons ?_ (ih _ hrest)
      intro r hr
      have hbounds := mem_cutRanges hrest hr
      dsimp only
      omega
    · exact ih _ hrest

/-- Cutting the chunks out leaves the runs between them, joined and trimmed. -/
theorem withoutRanges_cutRanges {chunks : List Chunk}
    (hfilled : ∀ c ∈ chunks, c.isCut = true → c.text ≠ []) :
    withoutRanges (wholeText chunks) (cutRanges 0 chunks)
      = trim ((keptRuns [] chunks).foldl joinPiece []) := by
  have hclamp : (cutRanges 0 chunks).map (ByteRange.clamp (byteLength (wholeText chunks)))
      = cutRanges 0 chunks := by
    refine (List.map_congr_left ?_).trans (List.map_id _)
    intro r hr
    have hbounds := mem_cutRanges hfilled hr
    unfold ByteRange.clamp
    rw [Nat.min_eq_left (by omega), Nat.min_eq_left (by omega)]
    rfl
  have hkeep : (cutRanges 0 chunks).filter (fun r => !r.isEmpty) = cutRanges 0 chunks := by
    apply List.filter_eq_self.mpr
    intro r hr
    have hbounds := mem_cutRanges hfilled hr
    simp only [ByteRange.isEmpty, Bool.not_eq_true', decide_eq_false_iff_not]
    omega
  have hsorted : (cutRanges 0 chunks).mergeSort (fun a b => decide (a.start ≤ b.start))
      = cutRanges 0 chunks := by
    refine List.mergeSort_of_pairwise ?_
    simpa using pairwise_cutRanges 0 hfilled
  have hpieces := keptPieces_cutRanges [] [] chunks
  simp only [List.nil_append, byteLength_nil, Nat.add_zero] at hpieces
  simp only [withoutRanges, hclamp, hkeep, hsorted, hpieces]

/-! ## Trimming -/

theorem trimLeft_append_of_not_blank {text : List Char} (h : ¬ AllBlank text) (after : List Char) :
    trimLeft (text ++ after) = trimLeft text ++ after := by
  unfold trimLeft
  rw [List.dropWhile_append, if_neg]
  rw [List.isEmpty_iff]
  exact mt trimLeft_eq_nil_iff.mp h

theorem AllBlank.reverse {text : List Char} (h : AllBlank text) : AllBlank text.reverse :=
  fun c hc => h c (List.mem_reverse.mp hc)

theorem AllBlank.append {a b : List Char} (ha : AllBlank a) (hb : AllBlank b) : AllBlank (a ++ b) :=
  fun c hc => (List.mem_append.mp hc).elim (ha c) (hb c)

theorem trim_of_allBlank {text : List Char} (h : AllBlank text) : trim text = [] := by
  unfold trim
  rw [trimLeft_eq_nil_iff.mpr h]
  rfl

/-- Blanks in front do not matter to trimming. -/
theorem trim_blank_append {blanks : List Char} (h : AllBlank blanks) (text : List Char) :
    trim (blanks ++ text) = trim text := by
  unfold trim
  rw [trimLeft_append_of_blank h]

/-- Blanks at the end do not matter to trimming. -/
theorem trim_append_blank (text : List Char) {blanks : List Char} (h : AllBlank blanks) :
    trim (text ++ blanks) = trim text := by
  by_cases htext : AllBlank text
  · rw [trim_of_allBlank htext, trim_of_allBlank (htext.append h)]
  · unfold trim trimRight
    rw [trimLeft_append_of_not_blank htext, List.reverse_append, trimLeft_append_of_blank h.reverse]

/-- Trimming takes leading blanks off and then trailing ones. -/
theorem exists_trimLeft_eq (text : List Char) :
    ∃ after, trimLeft text = trim text ++ after ∧ AllBlank after := by
  refine ⟨(leadingBlanks (trimLeft text).reverse).reverse, ?_, (allBlank_leadingBlanks _).reverse⟩
  unfold trim trimRight
  rw [← List.reverse_append, leadingBlanks_append_trimLeft, List.reverse_reverse]

/-- A text that begins and ends with a character of a word. -/
structure Inked (text : List Char) : Prop where
  front : StartsInk text
  back : StartsInk text.reverse

theorem Inked.trim_eq {text : List Char} (h : Inked text) : trim text = text := by
  unfold trim trimRight
  rw [trimLeft_of_startsInk h.front, trimLeft_of_startsInk h.back, List.reverse_reverse]

theorem AllInk.inked {text : List Char} (h : AllInk text) (hne : text ≠ []) : Inked text :=
  ⟨h.startsInk hne,
    AllInk.startsInk (fun c hc => h c (List.mem_reverse.mp hc)) (List.reverse_ne_nil_iff.mpr hne)⟩

/-- What trimming leaves, if it leaves something, begins and ends with ink. -/
theorem inked_trim {text : List Char} (h : trim text ≠ []) : Inked (trim text) := by
  obtain ⟨after, heq, _⟩ := exists_trimLeft_eq text
  have hleft : trimLeft text ≠ [] := by
    rw [heq]
    exact List.append_ne_nil_of_left_ne_nil h after
  constructor
  · exact (heq ▸ startsInk_trimLeft hleft).of_append h
  · unfold trim trimRight at h ⊢
    rw [List.reverse_reverse]
    exact startsInk_trimLeft (List.reverse_ne_nil_iff.mp h)

/-! ## Words with a space behind each -/

/-- Words with a space behind each. -/
def spaced (words : List (List Char)) : List Char := words.flatMap fun word => word ++ [' ']

@[simp] theorem spaced_nil : spaced [] = [] := rfl

@[simp] theorem spaced_append (words others : List (List Char)) :
    spaced (words ++ others) = spaced words ++ spaced others := by simp [spaced]

@[simp] theorem spaced_singleton (word : List Char) : spaced [word] = word ++ [' '] := by
  simp [spaced]

theorem spaced_append_eq_joinWith (words : List (List Char)) (last : List Char) :
    spaced words ++ last = joinWith [' '] (words ++ [last]) := by
  induction words with
  | nil => rfl
  | cons word rest ih =>
    have hcons : spaced (word :: rest) ++ last = word ++ ' ' :: (spaced rest ++ last) := by
      simp [spaced]
    rw [hcons, ih]
    cases rest with
    | nil => simp [joinWith]
    | cons next rest => simp [joinWith]

/-- Inked words, joined with spaces, are inked. -/
theorem inked_spaced_append {words : List (List Char)} {last : List Char}
    (hwords : ∀ word ∈ words, Inked word) (hlast : Inked last) : Inked (spaced words ++ last) := by
  constructor
  · cases words with
    | nil => exact hlast.front
    | cons word rest =>
      have hword := (hwords word List.mem_cons_self).front
      simpa [spaced] using hword.append (' ' :: (spaced rest ++ last))
  · rw [List.reverse_append]
    exact hlast.back.append _

/-- Words with a space behind each, and a text after them, trimmed: one space between any two. -/
theorem trim_spaced_append {words : List (List Char)} (hwords : ∀ word ∈ words, Inked word)
    (text : List Char) :
    trim (spaced words ++ trimLeft text)
      = joinWith [' '] (words ++ if (trim text).isEmpty then [] else [trim text]) := by
  obtain ⟨after, heq, hafter⟩ := exists_trimLeft_eq text
  rw [heq, ← List.append_assoc, trim_append_blank _ hafter]
  by_cases hempty : trim text = []
  · simp only [hempty, List.append_nil, List.isEmpty_nil, if_true]
    rcases List.eq_nil_or_concat words with rfl | ⟨front, last, rfl⟩
    · rfl
    · rw [List.concat_eq_append] at hwords ⊢
      have hlast := hwords last (by simp)
      have hfront : ∀ word ∈ front, Inked word := fun word hword => hwords word (by simp [hword])
      have hspace : AllBlank [' '] := by decide
      rw [spaced_append, spaced_singleton, ← List.append_assoc, trim_append_blank _ hspace,
        (inked_spaced_append hfront hlast).trim_eq, spaced_append_eq_joinWith]
  · have hink := inked_trim hempty
    rw [(inked_spaced_append hwords hink).trim_eq, spaced_append_eq_joinWith,
      if_neg (mt List.isEmpty_iff.mp hempty)]

/-! ## Putting runs together -/

theorem endsBlank_append_spaced {blanks : List Char} (hblanks : AllBlank blanks)
    {words : List (List Char)} (hne : blanks ++ spaced words ≠ []) :
    endsBlank (blanks ++ spaced words) = true := by
  rcases List.eq_nil_or_concat words with rfl | ⟨front, last, rfl⟩
  · simp only [spaced_nil, List.append_nil] at hne ⊢
    have hback := hblanks.reverse
    unfold endsBlank
    cases hreverse : blanks.reverse with
    | nil => exact absurd (List.reverse_eq_nil_iff.mp hreverse) hne
    | cons c rest =>
      rw [hreverse] at hback
      exact hback c List.mem_cons_self
  · unfold endsBlank
    simp only [List.concat_eq_append, spaced_append, spaced_singleton, List.reverse_append,
      List.reverse_cons, List.reverse_nil, List.nil_append, List.cons_append, startsBlank]
    decide

/-- Behind words with a space after each, a run is added without its leading blanks. -/
theorem joinPiece_spaced {blanks : List Char} (hblanks : AllBlank blanks)
    (words : List (List Char)) (piece : List Char) :
    ∃ blanks', AllBlank blanks'
      ∧ joinPiece (blanks ++ spaced words) piece = blanks' ++ (spaced words ++ trimLeft piece) := by
  by_cases hne : blanks ++ spaced words = []
  · -- nothing has been kept: the run stays as it is
    obtain ⟨rfl, hwords⟩ := List.append_eq_nil_iff.mp hne
    refine ⟨leadingBlanks piece, allBlank_leadingBlanks piece, ?_⟩
    rw [hwords]
    simpa [joinPiece, endsBlank, startsBlank] using (leadingBlanks_append_trimLeft piece).symm
  · refine ⟨blanks, hblanks, ?_⟩
    unfold joinPiece
    rw [if_pos (endsBlank_append_spaced hblanks hne), List.append_assoc]

/-! ## Rows of chunks -/

/-- Chunks behind a space, where there are any. -/
def behindSpace : List Chunk → List Chunk
  | [] => []
  | c :: rest => ⟨false, [' ']⟩ :: c :: rest

/-- What may stand at the end of a row: a mark that is cut out, and a text that stays. -/
def endChunks : Option (List Char × List Char) → List Chunk
  | none => []
  | some (mark, tail) => [⟨true, mark⟩, ⟨false, tail⟩]

/-- Chunks with a space between any two, and an end. -/
def row (ending : Option (List Char × List Char)) : List Chunk → List Chunk
  | [] => endChunks ending
  | c :: rest => c :: behindSpace (row ending rest)

/-- The words that stay: the texts that are not cut out, and the trimmed text at the end. -/
def keptWords (ending : Option (List Char × List Char)) (chunks : List Chunk) : List (List Char) :=
  let tail := trim ((ending.map Prod.snd).getD [])
  (chunks.filter fun c => !c.isCut).map Chunk.text ++ if tail.isEmpty then [] else [tail]

theorem row_eq_nil_iff {ending : Option (List Char × List Char)} {chunks : List Chunk} :
    row ending chunks = [] ↔ ending = none ∧ chunks = [] := by
  cases chunks with
  | nil => cases ending <;> simp [row, endChunks]
  | cons c rest => simp [row]

/-- The space in front of chunks is a gap like any other. -/
theorem exists_gap_behindSpace (chunks : List Chunk) :
    ∃ gap, AllBlank gap ∧ wholeText (behindSpace chunks) = gap ++ wholeText chunks
      ∧ Separated (wholeText (behindSpace chunks))
      ∧ ∀ place, cutRanges place (behindSpace chunks)
          = cutRanges (place + byteLength gap) chunks := by
  cases chunks with
  | nil => exact ⟨[], allBlank_nil, rfl, separated_nil, fun _ => rfl⟩
  | cons c rest =>
    have hspace : AllBlank [' '] := by decide
    refine ⟨[' '], hspace, by simp [behindSpace], ?_, fun _ => rfl⟩
    simpa [behindSpace] using hspace.separated_append (by simp) (wholeText (c :: rest))

theorem keptRuns_behindSpace {chunks : List Chunk} (hne : chunks ≠ []) (pending : List Char) :
    keptRuns pending (behindSpace chunks) = keptRuns (pending ++ [' ']) chunks := by
  cases chunks with
  | nil => exact absurd rfl hne
  | cons c rest => rfl

section Rows

variable {ending : Option (List Char × List Char)} {blanks space : List Char}
  {words pending : List (List Char)}

theorem trimLeft_spaced_append (hpending : ∀ word ∈ pending, Inked word) {last : List Char}
    (hlast : trimLeft last = last) :
    trimLeft (spaced pending ++ last) = spaced pending ++ last := by
  cases pending with
  | nil => exact hlast
  | cons word rest =>
    have hword := (hpending word List.mem_cons_self).front
    refine trimLeft_of_startsInk ?_
    simpa [spaced] using hword.append (' ' :: (spaced rest ++ last))

/-- At a cut, the pending run joins what has been kept. -/
theorem foldl_joinPiece_flush (words : List (List Char)) (hblanks : AllBlank blanks)
    (hspace : AllBlank space) (hpending : ∀ word ∈ pending, Inked word) (later : List (List Char)) :
    ∃ blanks', AllBlank blanks'
      ∧ (if (space ++ spaced pending).isEmpty then later
          else (space ++ spaced pending) :: later).foldl joinPiece (blanks ++ spaced words)
        = later.foldl joinPiece (blanks' ++ spaced (words ++ pending)) := by
  by_cases hempty : (space ++ spaced pending).isEmpty = true
  · obtain ⟨_, hnil⟩ := List.append_eq_nil_iff.mp (List.isEmpty_iff.mp hempty)
    refine ⟨blanks, hblanks, ?_⟩
    rw [if_pos hempty, spaced_append, hnil, List.append_nil]
  · obtain ⟨blanks', hblanks', hjoin⟩ :=
      joinPiece_spaced hblanks words (space ++ spaced pending)
    have htrim := trimLeft_spaced_append hpending (rfl : trimLeft [] = [])
    rw [List.append_nil] at htrim
    refine ⟨blanks', hblanks', ?_⟩
    rw [if_neg hempty, List.foldl_cons, hjoin, trimLeft_append_of_blank hspace, htrim,
      spaced_append]

/-- Joining what is left at the end of a row, up to blanks at the ends. -/
theorem trim_foldl_endChunks (ending : Option (List Char × List Char))
    (words : List (List Char)) (hblanks : AllBlank blanks) (hspace : AllBlank space)
    (hpending : ∀ word ∈ pending, Inked word) :
    trim ((keptRuns (space ++ spaced pending) (endChunks ending)).foldl joinPiece
        (blanks ++ spaced words))
      = trim (spaced (words ++ pending) ++ trimLeft ((ending.map Prod.snd).getD [])) := by
  cases ending with
  | none =>
    obtain ⟨blanks', hblanks', hflush⟩ := foldl_joinPiece_flush words hblanks hspace hpending []
    simp only [endChunks, keptRuns, hflush, List.foldl_nil, trim_blank_append hblanks']
    simp [trimLeft]
  | some last =>
    obtain ⟨mark, tail⟩ := last
    obtain ⟨blanks', hblanks', hflush⟩ := foldl_joinPiece_flush words hblanks hspace hpending
      (if tail.isEmpty then [] else [tail])
    simp only [endChunks, keptRuns, if_true, Bool.false_eq_true, if_false, List.nil_append, hflush,
      Option.map_some, Option.getD_some]
    by_cases htail : tail.isEmpty = true
    · rw [if_pos htail, List.isEmpty_iff.mp htail, List.foldl_nil, trim_blank_append hblanks']
      simp [trimLeft]
    · obtain ⟨blanks'', hblanks'', hjoin⟩ := joinPiece_spaced hblanks' (words ++ pending) tail
      rw [if_neg htail, List.foldl_cons, List.foldl_nil, hjoin, trim_blank_append hblanks'']

/-- The last word of a row has no space behind it, which trimming does not see. -/
theorem trim_foldl_last (words : List (List Char)) (hblanks : AllBlank blanks)
    (hspace : AllBlank space) (hpending : ∀ word ∈ pending, Inked word) {word : List Char}
    (hword : Inked word) :
    trim ((keptRuns (space ++ spaced pending ++ word) []).foldl joinPiece (blanks ++ spaced words))
      = trim (spaced (words ++ pending ++ [word])) := by
  obtain ⟨blanks', hblanks', hjoin⟩ :=
    joinPiece_spaced hblanks words (space ++ spaced pending ++ word)
  have hlast := trimLeft_spaced_append hpending (trimLeft_of_startsInk hword.front)
  have hne : (space ++ spaced pending ++ word).isEmpty = false := by
    simp [hword.front.ne_nil]
  have hspaces : AllBlank [' '] := by decide
  simp only [keptRuns, hne, Bool.false_eq_true, if_false, List.foldl_cons, List.foldl_nil, hjoin,
    trim_blank_append hblanks']
  rw [List.append_assoc space, trimLeft_append_of_blank hspace, hlast]
  have hend := trim_append_blank (spaced words ++ (spaced pending ++ word)) hspaces
  simpa using hend.symm

/-- Joining the runs of a row gives its words, up to blanks at the ends.  `words` have been joined,
and `pending` are the words of the run at hand. -/
theorem trim_foldl_keptRuns {chunks : List Chunk} (hblanks : AllBlank blanks)
    (hspace : AllBlank space) (hpending : ∀ word ∈ pending, Inked word)
    (hchunks : ∀ c ∈ chunks, c.isCut = false → Inked c.text) :
    trim ((keptRuns (space ++ spaced pending) (row ending chunks)).foldl joinPiece
        (blanks ++ spaced words))
      = trim (spaced (words ++ pending ++ (chunks.filter fun c => !c.isCut).map Chunk.text)
          ++ trimLeft ((ending.map Prod.snd).getD [])) := by
  induction chunks generalizing blanks words space pending with
  | nil =>
    simpa [row] using trim_foldl_endChunks ending words hblanks hspace hpending
  | cons c rest ih =>
    have hrest := fun d hd => hchunks d (List.mem_cons_of_mem c hd)
    cases hcut : c.isCut with
    | true =>
      obtain ⟨blanks', hblanks', hflush⟩ := foldl_joinPiece_flush words hblanks hspace hpending
        (keptRuns [] (behindSpace (row ending rest)))
      simp only [row, keptRuns, hcut, if_true, hflush, Bool.not_true, Bool.false_eq_true,
        not_false_eq_true, List.filter_cons_of_neg]
      by_cases hrow : row ending rest = []
      · obtain ⟨rfl, rfl⟩ := row_eq_nil_iff.mp hrow
        rw [hrow]
        simp [behindSpace, keptRuns, trim_blank_append hblanks', trimLeft]
      · have hlater := @ih blanks' [' '] (words ++ pending) [] hblanks' (by decide) (by simp) hrest
        rw [keptRuns_behindSpace hrow]
        simpa using hlater
    | false =>
      have hink := hchunks c List.mem_cons_self hcut
      simp only [row, keptRuns, hcut, Bool.false_eq_true, if_false, Bool.not_false,
        List.filter_cons_of_pos, List.map_cons]
      by_cases hrow : row ending rest = []
      · obtain ⟨rfl, rfl⟩ := row_eq_nil_iff.mp hrow
        rw [hrow, behindSpace]
        simpa [trimLeft] using trim_foldl_last words hblanks hspace hpending hink
      · have hlater := @ih blanks space words (pending ++ [c.text]) hblanks hspace
          (List.forall_mem_append.mpr ⟨hpending, by simpa using hink⟩) hrest
        rw [keptRuns_behindSpace hrow]
        simpa using hlater

theorem ne_nil_of_mem_row {chunks : List Chunk} {c : Chunk}
    (hchunks : ∀ d ∈ chunks, d.isCut = true → d.text ≠ [])
    (hmark : ∀ mark tail, ending = some (mark, tail) → mark ≠ []) (hc : c ∈ row ending chunks)
    (hcut : c.isCut = true) : c.text ≠ [] := by
  induction chunks with
  | nil =>
    cases ending with
    | none => cases hc
    | some last =>
      simp only [row, endChunks, List.mem_cons, List.not_mem_nil, or_false] at hc
      rcases hc with rfl | rfl
      · exact hmark _ _ rfl
      · cases hcut
  | cons d rest ih =>
    rw [row] at hc
    rcases List.mem_cons.mp hc with rfl | hc
    · exact hchunks c List.mem_cons_self hcut
    · refine ih (fun e he => hchunks e (List.mem_cons_of_mem d he)) ?_
      cases hrow : row ending rest with
      | nil => simp [hrow, behindSpace] at hc
      | cons e others =>
        rw [hrow, behindSpace] at hc
        rcases List.mem_cons.mp hc with rfl | hc
        · cases hcut
        · exact hc

/-- Cutting chunks out of a row leaves the words that stay, with one space between any two. -/
theorem withoutRanges_row {chunks : List Chunk}
    (hkept : ∀ c ∈ chunks, c.isCut = false → Inked c.text)
    (hcut : ∀ c ∈ chunks, c.isCut = true → c.text ≠ [])
    (hmark : ∀ mark tail, ending = some (mark, tail) → mark ≠ []) :
    withoutRanges (wholeText (row ending chunks)) (cutRanges 0 (row ending chunks))
      = joinWith [' '] (keptWords ending chunks) := by
  rw [withoutRanges_cutRanges fun c hc => ne_nil_of_mem_row hcut hmark hc]
  have hjoined := @trim_foldl_keptRuns ending [] [] [] [] chunks allBlank_nil allBlank_nil (by simp)
    hkept
  simp only [spaced_nil, List.append_nil, List.nil_append] at hjoined
  rw [hjoined]
  refine trim_spaced_append ?_ _
  intro word hword
  obtain ⟨c, hc, rfl⟩ := List.mem_map.mp hword
  obtain ⟨hmem, hkeep⟩ := List.mem_filter.mp hc
  exact hkept c hmem (by simpa using hkeep)

end Rows

end Text

end CommandGrammar
