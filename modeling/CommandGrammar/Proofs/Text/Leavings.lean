import CommandGrammar.Proofs.Text.Coverage

/-!
# What cutting leaves

Cutting ranges out of a text loses no character of a word that they do not cover, adds none and
keeps their order.  `Excised` says what is left: the uncovered segments, up to blanks at their ends,
with a blank between two words where a cut has been made, and no blank at either end.

All of it is read off the pass over the characters: of each step (`Assembly.ink_step`) and from
there of the pass, by induction over the text.  `seamBlanks` is what is left between two words with
a cut between them: the first run of blanks there as it is, and a space where there is none.
-/

set_option autoImplicit false

namespace CommandGrammar.Text

/-! ## Characters of words -/

/-- The characters of a text that are not blank, in order. -/
def inkOf (text : List Char) : List Char := text.filter isInk

@[simp] theorem inkOf_append (front back : List Char) :
    inkOf (front ++ back) = inkOf front ++ inkOf back := List.filter_append front back

theorem inkOf_cons_of_ink {c : Char} (h : isInk c = true) (text : List Char) :
    inkOf (c :: text) = c :: inkOf text := List.filter_cons_of_pos h

theorem inkOf_eq_nil_iff {text : List Char} : inkOf text = [] ↔ AllBlank text := by
  simp [inkOf, AllBlank, isInk]

theorem inkOf_trimLeft (text : List Char) : inkOf (trimLeft text) = inkOf text := by
  have hblank := inkOf_eq_nil_iff.mpr (allBlank_leadingBlanks text)
  have hsplit := congrArg inkOf (leadingBlanks_append_trimLeft text)
  rwa [inkOf_append, hblank, List.nil_append] at hsplit

theorem inkOf_trim (text : List Char) : inkOf (trim text) = inkOf text := by
  obtain ⟨after, htrim, hafter⟩ := exists_trimLeft_eq text
  have hleft := inkOf_trimLeft text
  rwa [htrim, inkOf_append, inkOf_eq_nil_iff.mpr hafter, List.append_nil] at hleft

/-- Trimming takes blanks off at the two ends. -/
theorem exists_trim_append (text : List Char) :
    ∃ lead trail, text = lead ++ (trim text ++ trail) ∧ AllBlank lead ∧ AllBlank trail := by
  obtain ⟨trail, htrim, htrail⟩ := exists_trimLeft_eq text
  refine ⟨leadingBlanks text, trail, ?_, allBlank_leadingBlanks text, htrail⟩
  rw [← htrim, leadingBlanks_append_trimLeft]

theorem trimLeft_append_of_startsInk (front : List Char) {back : List Char} (h : StartsInk back) :
    trimLeft (front ++ back) = trimLeft front ++ back := by
  by_cases hblank : AllBlank front
  · rw [trimLeft_append_of_blank hblank, trimLeft_of_startsInk h, trimLeft_eq_nil_iff.mpr hblank,
      List.nil_append]
  · exact trimLeft_append_of_not_blank hblank back

/-- Trimming stops at a part that begins and ends in ink. -/
theorem trim_around {middle : List Char} (h : Inked middle) (front back : List Char) :
    trim (front ++ (middle ++ back)) = trimLeft front ++ (middle ++ trimRight back) := by
  unfold trim
  rw [trimLeft_append_of_startsInk front (h.front.append back)]
  unfold trimRight
  have hstarts := h.back.append (trimLeft front).reverse
  rw [List.reverse_append, List.reverse_append, List.append_assoc,
    trimLeft_append_of_startsInk back.reverse hstarts]
  simp

theorem trim_no_blanks (text : List Char) :
    startsBlank (trim text) = false ∧ endsBlank (trim text) = false := by
  have hink {text : List Char} (h : StartsInk text) : startsBlank text = false := by
    obtain ⟨c, rest, rfl, hc⟩ := h
    exact isInk_iff.mp hc
  by_cases hempty : trim text = []
  · rw [hempty]
    exact ⟨rfl, rfl⟩
  · exact ⟨hink (inked_trim hempty).front, hink (inked_trim hempty).back⟩

/-- What joining puts between two pieces is blank. -/
theorem exists_joinPiece_eq (kept piece : List Char) :
    ∃ gap, AllBlank gap ∧ joinPiece kept piece = kept ++ (gap ++ trimLeft piece) := by
  unfold joinPiece
  split
  · exact ⟨[], allBlank_nil, rfl⟩
  · split
    · refine ⟨leadingBlanks piece, allBlank_leadingBlanks piece, ?_⟩
      rw [leadingBlanks_append_trimLeft]
    · next htouch =>
      have hpiece : trimLeft piece = piece := by
        cases piece with
        | nil => rfl
        | cons c rest =>
          exact List.dropWhile_cons_of_neg fun hc => htouch (by simp [startsBlank, hc])
      rw [hpiece]
      exact ⟨[' '], by decide, rfl⟩

/-! ## What a step leaves -/

namespace Assembly

/-- The characters of words so far. -/
def ink (s : Assembly) : List Char := inkOf s.kept ++ inkOf s.pending

/-- Ending a run adds it without its leading blanks, behind blanks. -/
theorem exists_flush_eq (s : Assembly) :
    ∃ gap, AllBlank gap ∧ s.flush = s.kept ++ (gap ++ trimLeft s.pending) := by
  unfold flush
  split
  · next hempty =>
    rw [List.isEmpty_iff.mp hempty]
    exact ⟨[], allBlank_nil, (List.append_nil s.kept).symm⟩
  · exact exists_joinPiece_eq s.kept s.pending

theorem inkOf_flush (s : Assembly) : inkOf s.flush = s.ink := by
  obtain ⟨gap, hgap, hflush⟩ := s.exists_flush_eq
  rw [hflush, inkOf_append, inkOf_append, inkOf_eq_nil_iff.mpr hgap, inkOf_trimLeft,
    List.nil_append, ink]

theorem ink_step (s : Assembly) (isCut : Bool) (c : Char) :
    (s.step isCut c).ink = s.ink ++ inkOf (if isCut then [] else [c]) := by
  cases isCut with
  | true =>
    have hnil : inkOf [] = [] := rfl
    simp only [step, if_true, ink, inkOf_flush, hnil, List.append_nil]
  | false => simp [step, ink]

/-- Where a run holds a word, all of the run from there on stays as it is. -/
theorem exists_flush_of_ink (kept lead : List Char) {core : List Char} (h : StartsInk core) :
    ∃ before, flush ⟨kept, lead ++ core⟩ = before ++ core
      ∧ inkOf before = inkOf kept ++ inkOf lead := by
  obtain ⟨gap, hgap, hflush⟩ := exists_flush_eq ⟨kept, lead ++ core⟩
  refine ⟨kept ++ (gap ++ trimLeft lead), ?_, ?_⟩
  · rw [hflush, trimLeft_append_of_startsInk lead h]
    simp only [List.append_assoc]
  · rw [inkOf_append, inkOf_append, inkOf_eq_nil_iff.mpr hgap, List.nil_append, inkOf_trimLeft]

end Assembly

section Passes

variable {ranges : List ByteRange} {place : Nat} {text : List Char}

theorem ink_assemble (s : Assembly) :
    (assemble ranges place text s).ink = s.ink ++ inkOf (uncovered ranges place text) := by
  induction text generalizing place s with
  | nil => simp [assemble, uncovered, inkOf]
  | cons c rest ih =>
    rw [assemble, ih, Assembly.ink_step, List.append_assoc, ← inkOf_append]
    cases hcut : covers ranges place <;> simp [uncovered, hcut]

/-- The pass adds to the run at hand, and then behind it. -/
theorem exists_flush_assemble (s : Assembly) :
    ∃ more added, (assemble ranges place text s).flush
      = Assembly.flush ⟨s.kept, s.pending ++ more⟩ ++ added := by
  induction text generalizing place s with
  | nil => exact ⟨[], [], by simp [assemble]⟩
  | cons c rest ih =>
    obtain ⟨more, added, hlater⟩ := @ih (place + c.utf8Size) (s.step (covers ranges place) c)
    rw [assemble, hlater]
    cases covers ranges place with
    | false => exact ⟨c :: more, added, by simp [Assembly.step]⟩
    | true =>
      obtain ⟨gap, -, hflush⟩ := Assembly.exists_flush_eq ⟨s.flush, [] ++ more⟩
      refine ⟨[], gap ++ trimLeft ([] ++ more) ++ added, ?_⟩
      rw [List.append_nil]
      simp only [Assembly.step, if_true, hflush, List.append_assoc]

theorem ink_assemble_start (ranges : List ByteRange) (text : List Char) :
    (assemble ranges 0 text ⟨[], []⟩).ink = inkOf (uncovered ranges 0 text) :=
  ink_assemble ⟨[], []⟩

/-- A word in the run at hand, and what follows it there, stay as they are to the end. -/
theorem exists_flush_assemble_of_ink (s : Assembly) {lead core : List Char} (h : StartsInk core)
    (trail : List Char) :
    ∃ before after,
      (assemble ranges place text ⟨s.kept, s.pending ++ (lead ++ (core ++ trail))⟩).flush
        = before ++ (core ++ after)
      ∧ inkOf before = s.ink ++ inkOf lead := by
  obtain ⟨more, added, hpass⟩ := @exists_flush_assemble ranges place text
    ⟨s.kept, s.pending ++ (lead ++ (core ++ trail))⟩
  obtain ⟨before, hrun, hbefore⟩ := Assembly.exists_flush_of_ink s.kept (s.pending ++ lead)
    (h.append (trail ++ more))
  have hpending : s.pending ++ (lead ++ (core ++ trail)) ++ more
      = s.pending ++ lead ++ (core ++ (trail ++ more)) := by simp only [List.append_assoc]
  refine ⟨before, trail ++ more ++ added, ?_, ?_⟩
  · rw [hpass, hpending, hrun]
    simp only [List.append_assoc]
  · rw [hbefore, inkOf_append, Assembly.ink, List.append_assoc]

end Passes

/-! ## What a seam leaves -/

/-- The runs of uncovered characters, in order, where the text begins at `place`; `pending` is the
run so far. -/
def uncoveredRuns (ranges : List ByteRange) : Nat → List Char → List Char → List (List Char)
  | _, pending, [] => if pending.isEmpty then [] else [pending]
  | place, pending, c :: rest =>
    let next := place + c.utf8Size
    if covers ranges place then
      if pending.isEmpty then uncoveredRuns ranges next [] rest
      else pending :: uncoveredRuns ranges next [] rest
    else uncoveredRuns ranges next (pending ++ [c]) rest

/-- What is left between two words with a cut and blanks between them: the first run of the blanks,
or a space where there is none. -/
def seamBlanks (ranges : List ByteRange) (place : Nat) (pending text : List Char) : List Char :=
  (uncoveredRuns ranges place pending text).headD [' ']

section Runs

variable {ranges : List ByteRange} {place : Nat} {pending text : List Char}

theorem flatten_uncoveredRuns :
    (uncoveredRuns ranges place pending text).flatten = pending ++ uncovered ranges place text := by
  induction text generalizing place pending with
  | nil => cases pending <;> simp [uncoveredRuns, uncovered]
  | cons c rest ih =>
    cases hcut : covers ranges place with
    | true => cases pending <;> simp [uncoveredRuns, uncovered, hcut, ih]
    | false => simp [uncoveredRuns, uncovered, hcut, ih]

theorem ne_nil_of_mem_uncoveredRuns {run : List Char}
    (h : run ∈ uncoveredRuns ranges place pending text) : run ≠ [] := by
  induction text generalizing place pending with
  | nil => cases pending <;> simp_all [uncoveredRuns]
  | cons c rest ih =>
    simp only [uncoveredRuns] at h
    split at h
    · split at h
      · exact ih h
      · next hfilled =>
        rcases List.mem_cons.mp h with rfl | h
        · exact mt List.isEmpty_iff.mpr hfilled
        · exact ih h
    · exact ih h

theorem allBlank_seamBlanks (hpending : AllBlank pending)
    (h : AllBlank (uncovered ranges place text)) :
    AllBlank (seamBlanks ranges place pending text) := by
  have hflat := hpending.append h
  rw [← flatten_uncoveredRuns] at hflat
  unfold seamBlanks
  cases hruns : uncoveredRuns ranges place pending text with
  | nil => decide
  | cons run later => exact fun c hc => hflat c (by simp [hruns, show c ∈ run from hc])

theorem seamBlanks_ne_nil : seamBlanks ranges place pending text ≠ [] := by
  unfold seamBlanks
  cases hruns : uncoveredRuns ranges place pending text with
  | nil => exact List.cons_ne_nil ' ' []
  | cons run later => exact ne_nil_of_mem_uncoveredRuns (hruns ▸ List.mem_cons_self)

end Runs

section Seams

variable {ranges : List ByteRange} {place : Nat} {before gap pending text : List Char} {x y : Char}

theorem endsBlank_of_gap (before : List Char) (x : Char) (hgap : AllBlank gap) (hne : gap ≠ []) :
    endsBlank (before ++ x :: gap) = true := by
  rw [endsBlank, List.reverse_append, List.reverse_cons, List.append_assoc]
  have hback := hgap.reverse
  cases hreverse : gap.reverse with
  | nil => exact absurd (List.reverse_eq_nil_iff.mp hreverse) hne
  | cons c rest =>
    rw [hreverse] at hback
    exact hback c List.mem_cons_self

theorem endsBlank_of_ink (before : List Char) (hx : isInk x = true) :
    endsBlank (before ++ [x]) = false := by
  simpa [endsBlank, startsBlank] using isInk_iff.mp hx

theorem allBlank_uncovered_cons {c : Char} {rest : List Char}
    (h : AllBlank (uncovered ranges place (c :: rest))) :
    (covers ranges place = false → isBlank c = true)
      ∧ AllBlank (uncovered ranges (place + c.utf8Size) rest) := by
  rw [uncovered] at h
  cases hcut : covers ranges place with
  | true =>
    rw [hcut, if_pos rfl] at h
    exact ⟨fun hkept => absurd hkept Bool.false_ne_true.symm, h⟩
  | false =>
    rw [hcut, if_neg Bool.false_ne_true] at h
    exact ⟨fun _ => h c List.mem_cons_self, fun d hd => h d (List.mem_cons_of_mem c hd)⟩

/-- Behind blanks, cuts and more blanks add nothing in front of the next word. -/
theorem exists_flush_of_gap (before : List Char) (x : Char) (hgap : AllBlank gap) (hne : gap ≠ [])
    (hpending : AllBlank pending) (hblank : AllBlank (uncovered ranges place text))
    (hy : isInk y = true) (hkeepy : covers ranges (place + byteLength text) = false)
    (back : List Char) :
    ∃ after, (assemble ranges place (text ++ y :: back) ⟨before ++ x :: gap, pending⟩).flush
      = before ++ x :: (gap ++ y :: after) := by
  induction text generalizing place pending with
  | nil =>
    rw [byteLength_nil, Nat.add_zero] at hkeepy
    obtain ⟨more, added, hpass⟩ := @exists_flush_assemble ranges (place + y.utf8Size) back
      ⟨before ++ x :: gap, pending ++ [y]⟩
    have hword : trimLeft (pending ++ [y] ++ more) = y :: more := by
      rw [List.append_assoc, trimLeft_append_of_blank hpending]
      exact trimLeft_of_startsInk (startsInk_cons_iff.mpr hy)
    refine ⟨more ++ added, ?_⟩
    rw [List.nil_append, assemble_cons_of_uncovered hkeepy, hpass,
      Assembly.flush_of_ne_nil _ (by simp), joinPiece, if_pos (endsBlank_of_gap before x hgap hne),
      hword]
    simp
  | cons c rest ih =>
    obtain ⟨hc, hrest⟩ := allBlank_uncovered_cons hblank
    rw [byteLength_cons, ← Nat.add_assoc] at hkeepy
    rw [List.cons_append, assemble]
    cases hcut : covers ranges place with
    | true =>
      have hflush : Assembly.flush ⟨before ++ x :: gap, pending⟩ = before ++ x :: gap := by
        unfold Assembly.flush joinPiece
        rw [if_pos (endsBlank_of_gap before x hgap hne), trimLeft_eq_nil_iff.mpr hpending,
          List.append_nil, ite_self]
      rw [Assembly.step, if_pos rfl, hflush]
      exact ih allBlank_nil hrest hkeepy
    | false =>
      have halone : AllBlank [c] := by simpa [AllBlank] using hc hcut
      exact ih (hpending.append halone) hrest hkeepy

/-- Behind a word and a cut, the first run of blanks is kept as it is, or else a space is put in. -/
theorem exists_flush_of_cut (before : List Char) (hx : isInk x = true) (hpending : AllBlank pending)
    (hblank : AllBlank (uncovered ranges place text)) (hy : isInk y = true)
    (hkeepy : covers ranges (place + byteLength text) = false) (back : List Char) :
    ∃ after, (assemble ranges place (text ++ y :: back) ⟨before ++ [x], pending⟩).flush
      = before ++ x :: (seamBlanks ranges place pending text ++ y :: after) := by
  have hinked := endsBlank_of_ink before hx
  induction text generalizing place pending with
  | nil =>
    rw [byteLength_nil, Nat.add_zero] at hkeepy
    obtain ⟨more, added, hpass⟩ := @exists_flush_assemble ranges (place + y.utf8Size) back
      ⟨before ++ [x], pending ++ [y]⟩
    refine ⟨more ++ added, ?_⟩
    rw [List.nil_append, assemble_cons_of_uncovered hkeepy, hpass,
      Assembly.flush_of_ne_nil _ (by simp), joinPiece, if_neg (Bool.eq_false_iff.mp hinked)]
    cases pending with
    | nil => simp [startsBlank, isInk_iff.mp hy, seamBlanks, uncoveredRuns]
    | cons b rest =>
      simp [startsBlank, hpending b List.mem_cons_self, seamBlanks, uncoveredRuns]
  | cons c rest ih =>
    obtain ⟨hc, hrest⟩ := allBlank_uncovered_cons hblank
    rw [byteLength_cons, ← Nat.add_assoc] at hkeepy
    rw [List.cons_append, assemble]
    cases hcut : covers ranges place with
    | true =>
      cases pending with
      | nil =>
        have hlater := ih allBlank_nil hrest hkeepy
        simpa [Assembly.step, seamBlanks, uncoveredRuns, hcut] using hlater
      | cons b pending =>
        have hflush : Assembly.flush ⟨before ++ [x], b :: pending⟩
            = before ++ x :: (b :: pending) := by
          rw [Assembly.flush_of_ne_nil _ (List.cons_ne_nil b pending), joinPiece,
            if_neg (Bool.eq_false_iff.mp hinked)]
          simp [startsBlank, hpending b List.mem_cons_self]
        have hlater := exists_flush_of_gap before x hpending (List.cons_ne_nil b pending)
          allBlank_nil hrest hy hkeepy back
        simpa [Assembly.step, seamBlanks, uncoveredRuns, hcut, hflush] using hlater
    | false =>
      have halone : AllBlank [c] := by simpa [AllBlank] using hc hcut
      have hlater := ih (hpending.append halone) hrest hkeepy
      simpa [Assembly.step, seamBlanks, uncoveredRuns, hcut] using hlater

/-- Where the cut begins, a word in the run at hand is kept, with the blanks behind it. -/
theorem exists_flush_cut_here (hx : isInk x = true) (kept lead : List Char) {blanks : List Char}
    (hblanks : AllBlank blanks) {c : Char} (hcut : covers ranges place = true)
    (hblank : AllBlank (uncovered ranges (place + c.utf8Size) text)) (hy : isInk y = true)
    (hkeepy : covers ranges (place + c.utf8Size + byteLength text) = false) (back : List Char) :
    ∃ before after,
      (assemble ranges place (c :: (text ++ y :: back)) ⟨kept, lead ++ x :: blanks⟩).flush
        = before ++ x :: (seamBlanks ranges place blanks (c :: text) ++ y :: after)
      ∧ inkOf before = inkOf kept ++ inkOf lead := by
  obtain ⟨before, hflush, hbefore⟩ := Assembly.exists_flush_of_ink kept lead
    (startsInk_cons_iff.mpr hx : StartsInk (x :: blanks))
  rw [assemble, hcut, Assembly.step, if_pos rfl, hflush]
  cases blanks with
  | nil =>
    obtain ⟨after, hpass⟩ := exists_flush_of_cut before hx allBlank_nil hblank hy hkeepy back
    refine ⟨before, after, ?_, hbefore⟩
    simpa [seamBlanks, uncoveredRuns, hcut] using hpass
  | cons b blanks =>
    obtain ⟨after, hpass⟩ := exists_flush_of_gap before x hblanks (List.cons_ne_nil b blanks)
      allBlank_nil hblank hy hkeepy back
    refine ⟨before, after, ?_, hbefore⟩
    simpa [seamBlanks, uncoveredRuns, hcut] using hpass

/-- From a word in the run at hand over a cut to the next word. -/
theorem exists_flush_seam (hx : isInk x = true) (kept lead : List Char) {blanks : List Char}
    (hblanks : AllBlank blanks) {front later : List Char} {c : Char}
    (hblank : AllBlank (uncovered ranges place (front ++ c :: later)))
    (hcut : covers ranges (place + byteLength front) = true) (hy : isInk y = true)
    (hkeepy : covers ranges (place + byteLength (front ++ c :: later)) = false)
    (back : List Char) :
    ∃ before after,
      (assemble ranges place (front ++ c :: later ++ y :: back) ⟨kept, lead ++ x :: blanks⟩).flush
        = before ++ x :: (seamBlanks ranges place blanks (front ++ c :: later) ++ y :: after)
      ∧ inkOf before = inkOf kept ++ inkOf lead := by
  induction front generalizing place blanks with
  | nil =>
    obtain ⟨-, hrest⟩ := allBlank_uncovered_cons hblank
    rw [List.nil_append, byteLength_cons, ← Nat.add_assoc] at hkeepy
    exact exists_flush_cut_here hx kept lead hblanks hcut hrest hy hkeepy back
  | cons d front ih =>
    obtain ⟨hd, hrest⟩ := allBlank_uncovered_cons hblank
    rw [byteLength_cons, ← Nat.add_assoc] at hcut
    rw [List.cons_append, byteLength_cons, ← Nat.add_assoc] at hkeepy
    cases hfirst : covers ranges place with
    | true => exact exists_flush_cut_here hx kept lead hblanks hfirst hrest hy hkeepy back
    | false =>
      have halone : AllBlank [d] := by simpa [AllBlank] using hd hfirst
      have hlater := ih (hblanks.append halone) hrest hcut hkeepy
      simpa [assemble, Assembly.step, seamBlanks, uncoveredRuns, hfirst] using hlater

end Seams

/-- A part of what is left stands between what is left of a front and of a back. -/
def StandsBetween (left part front back : List Char) : Prop :=
  ∃ before after, left = before ++ (part ++ after) ∧ inkOf before = inkOf front
    ∧ inkOf after = inkOf back

/-- What is left of a text when ranges have been cut out of it. -/
structure Excised (text : List Char) (ranges : List ByteRange) (left : List Char) : Prop where
  /-- Of the characters of words, those at uncovered positions are left, in their order. -/
  ink : inkOf left = inkOf (uncovered ranges 0 text)
  /-- An uncovered segment is left as it is but for blanks at its ends, in its place. -/
  segment : ∀ front segment back, text = front ++ (segment ++ back) →
    (∀ n, byteLength front ≤ n → n < byteLength front + byteLength segment →
      covers ranges n = false) →
    StandsBetween left (trim segment) (uncovered ranges 0 front)
      (uncovered ranges (byteLength front + byteLength segment) back)
  /-- Two characters of words with a cut and no others left between them have blanks between
  them. -/
  seam : ∀ front x middle y back, text = front ++ x :: (middle ++ y :: back) →
    isInk x = true → isInk y = true →
    covers ranges (byteLength front) = false →
    covers ranges (byteLength (front ++ x :: middle)) = false →
    AllBlank (uncovered ranges (byteLength (front ++ [x])) middle) →
    (∃ n, byteLength (front ++ [x]) ≤ n ∧ n < byteLength (front ++ x :: middle)
      ∧ covers ranges n = true) →
    ∃ gap, AllBlank gap ∧ gap ≠ []
      ∧ StandsBetween left (x :: (gap ++ [y])) (uncovered ranges 0 front)
          (uncovered ranges (byteLength (front ++ x :: (middle ++ [y]))) back)
  /-- No blank is left at either end. -/
  trimmed : startsBlank left = false ∧ endsBlank left = false

/-- A part that begins and ends in ink keeps its place when the whole is trimmed. -/
theorem standsBetween_trim {left before part after front back : List Char} (hpart : Inked part)
    (hleft : left = trim (before ++ (part ++ after))) (hbefore : inkOf before = inkOf front)
    (htotal : inkOf left = inkOf front ++ (inkOf part ++ inkOf back)) :
    StandsBetween left part front back := by
  rw [trim_around hpart] at hleft
  have hfront : inkOf (trimLeft before) = inkOf front := (inkOf_trimLeft before).trans hbefore
  refine ⟨trimLeft before, trimRight after, hleft, hfront, ?_⟩
  rw [hleft, inkOf_append, inkOf_append, hfront] at htotal
  exact List.append_cancel_left (List.append_cancel_left htotal)

section Leavings

variable {text : List Char} {ranges : List ByteRange}

theorem inkOf_withoutRanges (h : OnCharacters text ranges) :
    inkOf (withoutRanges text ranges) = inkOf (uncovered ranges 0 text) := by
  rw [withoutRanges_eq_assemble h, inkOf_trim, Assembly.inkOf_flush, ink_assemble_start]

theorem withoutRanges_segment (h : OnCharacters text ranges) {front segment back : List Char}
    (htext : text = front ++ (segment ++ back))
    (hsegment : ∀ n, byteLength front ≤ n → n < byteLength front + byteLength segment →
      covers ranges n = false) :
    StandsBetween (withoutRanges text ranges) (trim segment) (uncovered ranges 0 front)
      (uncovered ranges (byteLength front + byteLength segment) back) := by
  have htotal := inkOf_withoutRanges h
  rw [htext, uncovered_append, uncovered_append, Nat.zero_add, uncovered_of_uncovered hsegment,
    inkOf_append, inkOf_append, ← inkOf_trim segment, ← htext] at htotal
  by_cases hempty : trim segment = []
  · -- of a blank segment nothing need be left: any place between the two parts will do
    rw [hempty] at htotal ⊢
    exact List.filter_eq_append_iff.mp htotal
  · have hink := inked_trim hempty
    obtain ⟨lead, trail, hparts, hlead, -⟩ := exists_trim_append segment
    have hpass := @exists_flush_assemble_of_ink ranges (byteLength front + byteLength segment) back
      (assemble ranges 0 front ⟨[], []⟩) lead (trim segment) hink.front trail
    rw [← hparts] at hpass
    obtain ⟨before, after, hflush, hbefore⟩ := hpass
    rw [inkOf_eq_nil_iff.mpr hlead, List.append_nil, ink_assemble_start] at hbefore
    have hleft : withoutRanges text ranges = trim (before ++ (trim segment ++ after)) := by
      rw [withoutRanges_eq_assemble h, htext, assemble_append, assemble_append, Nat.zero_add,
        assemble_of_uncovered hsegment, hflush]
    exact standsBetween_trim hink hleft hbefore htotal

/-- What is left between two words that have a cut between them. -/
theorem withoutRanges_seamBlanks (h : OnCharacters text ranges) {front middle back : List Char}
    {x y : Char} (htext : text = front ++ x :: (middle ++ y :: back))
    (hx : isInk x = true) (hy : isInk y = true)
    (hkeepx : covers ranges (byteLength front) = false)
    (hkeepy : covers ranges (byteLength (front ++ x :: middle)) = false)
    (hblank : AllBlank (uncovered ranges (byteLength (front ++ [x])) middle))
    (hcut : ∃ n, byteLength (front ++ [x]) ≤ n ∧ n < byteLength (front ++ x :: middle)
      ∧ covers ranges n = true) :
    StandsBetween (withoutRanges text ranges)
      (x :: (seamBlanks ranges (byteLength (front ++ [x])) [] middle ++ [y]))
      (uncovered ranges 0 front)
      (uncovered ranges (byteLength (front ++ x :: (middle ++ [y]))) back) := by
  have hplacex : byteLength (front ++ [x]) = byteLength front + x.utf8Size := by simp
  have hplacey : byteLength (front ++ x :: middle)
      = byteLength front + x.utf8Size + byteLength middle := by simp [Nat.add_assoc]
  have hplaceback : byteLength (front ++ x :: (middle ++ [y]))
      = byteLength front + x.utf8Size + byteLength middle + y.utf8Size := by simp [Nat.add_assoc]
  rw [hplacex] at hblank hcut ⊢
  rw [hplacey] at hkeepy hcut
  rw [hplaceback]
  -- the cut begins in front of a character
  obtain ⟨n, hfrom, hto, hn⟩ := hcut
  obtain ⟨start, c, later, hmiddle, hlow, hhigh⟩ :=
    exists_character (show n - (byteLength front + x.utf8Size) < byteLength middle by omega)
  have hsplit : text = front ++ x :: start ++ c :: (later ++ y :: back) := by simp [htext, hmiddle]
  have hplace : byteLength (front ++ x :: start)
      = byteLength front + x.utf8Size + byteLength start := by simp [Nat.add_assoc]
  have hwhole := (hsplit ▸ h).covers_character (show _ ≤ n by omega) (by omega)
  rw [hn, hplace] at hwhole
  obtain ⟨before, after, hpass, hbefore⟩ :=
    exists_flush_seam hx (assemble ranges 0 front ⟨[], []⟩).kept
      (assemble ranges 0 front ⟨[], []⟩).pending allBlank_nil (hmiddle ▸ hblank) hwhole.symm hy
      (hmiddle ▸ hkeepy) back
  rw [← hmiddle] at hpass
  have hgap := allBlank_seamBlanks allBlank_nil hblank
  generalize seamBlanks ranges (byteLength front + x.utf8Size) [] middle = gap at hpass hgap ⊢
  have hink : Inked (x :: (gap ++ [y])) :=
    ⟨startsInk_cons_iff.mpr hx, by simpa using startsInk_cons_iff.mpr hy⟩
  have hbetween : inkOf (x :: (gap ++ [y])) = [x, y] := by
    rw [inkOf_cons_of_ink hx, inkOf_append, inkOf_eq_nil_iff.mpr hgap, inkOf_cons_of_ink hy]
    rfl
  have htotal := inkOf_withoutRanges h
  rw [htext, uncovered_append, Nat.zero_add, uncovered_cons_of_uncovered hkeepx, uncovered_append,
    uncovered_cons_of_uncovered hkeepy, inkOf_append, inkOf_cons_of_ink hx, inkOf_append,
    inkOf_eq_nil_iff.mpr hblank, inkOf_cons_of_ink hy, ← htext] at htotal
  have hleft : withoutRanges text ranges = trim (before ++ (x :: (gap ++ [y]) ++ after)) := by
    rw [withoutRanges_eq_assemble h, htext, assemble_append, Nat.zero_add,
      assemble_cons_of_uncovered hkeepx, hpass]
    simp
  refine standsBetween_trim hink hleft (hbefore.trans (ink_assemble_start ranges front)) ?_
  rw [htotal, hbetween]
  rfl

theorem withoutRanges_seam (h : OnCharacters text ranges) {front middle back : List Char}
    {x y : Char} (htext : text = front ++ x :: (middle ++ y :: back))
    (hx : isInk x = true) (hy : isInk y = true)
    (hkeepx : covers ranges (byteLength front) = false)
    (hkeepy : covers ranges (byteLength (front ++ x :: middle)) = false)
    (hblank : AllBlank (uncovered ranges (byteLength (front ++ [x])) middle))
    (hcut : ∃ n, byteLength (front ++ [x]) ≤ n ∧ n < byteLength (front ++ x :: middle)
      ∧ covers ranges n = true) :
    ∃ gap, AllBlank gap ∧ gap ≠ []
      ∧ StandsBetween (withoutRanges text ranges) (x :: (gap ++ [y])) (uncovered ranges 0 front)
          (uncovered ranges (byteLength (front ++ x :: (middle ++ [y]))) back) :=
  ⟨_, allBlank_seamBlanks allBlank_nil hblank, seamBlanks_ne_nil,
    withoutRanges_seamBlanks h htext hx hy hkeepx hkeepy hblank hcut⟩

/-- Cutting loses, doubles and reorders nothing that is not covered, keeps the uncovered segments
and the words on the two sides of a cut apart, and sees of the ranges only what they cover. -/
theorem withoutRanges_excised (h : OnCharacters text ranges) :
    Excised text ranges (withoutRanges text ranges)
      ∧ ∀ others, OnCharacters text others →
          (∀ n < byteLength text, covers others n = covers ranges n) →
          withoutRanges text others = withoutRanges text ranges := by
  refine ⟨⟨inkOf_withoutRanges h, fun front segment back => withoutRanges_segment h, ?_,
    trim_no_blanks _⟩, fun others hothers => withoutRanges_congr h hothers⟩
  intro front x middle y back htext hx hy
  exact withoutRanges_seam h htext hx hy

end Leavings

/-- Two ranges that overlap, one within them, an empty one, one the wrong way round and one past the
end, in no order, cut the same as the two stretches they cover. -/
theorem excised_overlapping :
    OnCharacters "add ñu 日本 now".toList
        [⟨8, 14⟩, ⟨17, 40⟩, ⟨6, 7⟩, ⟨4, 11⟩, ⟨11, 11⟩, ⟨14, 8⟩]
      ∧ withoutRanges "add ñu 日本 now".toList [⟨4, 14⟩, ⟨17, 18⟩]
        = withoutRanges "add ñu 日本 now".toList
          [⟨8, 14⟩, ⟨17, 40⟩, ⟨6, 7⟩, ⟨4, 11⟩, ⟨11, 11⟩, ⟨14, 8⟩]
      ∧ inkOf (withoutRanges "add ñu 日本 now".toList [⟨4, 14⟩, ⟨17, 18⟩]) = "addno".toList
      ∧ StandsBetween (withoutRanges "add ñu 日本 now".toList [⟨4, 14⟩, ⟨17, 18⟩]) "no".toList
          "add".toList []
      ∧ ∃ gap, AllBlank gap ∧ gap ≠ []
        ∧ StandsBetween (withoutRanges "add ñu 日本 now".toList [⟨4, 14⟩, ⟨17, 18⟩])
            ('d' :: (gap ++ ['n'])) "ad".toList "o".toList := by
  have hranges : OnCharacters "add ñu 日本 now".toList
      [⟨8, 14⟩, ⟨17, 40⟩, ⟨6, 7⟩, ⟨4, 11⟩, ⟨11, 11⟩, ⟨14, 8⟩] := by decide
  have hothers : OnCharacters "add ñu 日本 now".toList [⟨4, 14⟩, ⟨17, 18⟩] := by decide
  obtain ⟨-, hsame⟩ := withoutRanges_excised hranges
  obtain ⟨hexcised, -⟩ := withoutRanges_excised hothers
  refine ⟨hranges, hsame _ hothers (by decide), ?_, ?_, ?_⟩
  · rw [hexcised.ink]
    decide
  · exact hexcised.segment "add ñu 日本".toList " no".toList "w".toList rfl (by decide)
  · exact hexcised.seam "ad".toList 'd' " ñu 日本 ".toList 'n' "ow".toList rfl (by decide) (by decide)
      (by decide) (by decide) (by decide) ⟨5, by decide, by decide, by decide⟩

end CommandGrammar.Text
