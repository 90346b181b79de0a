import CommandGrammar.Proofs.Text.Boundaries

/-!
# What ranges cover

Ranges to be cut out of a text may come in any order, overlap, lie in one another, be empty or reach
past the end.  All that matters is which byte positions they cover: cutting is one pass over the
characters (`withoutRanges_eq_assemble`), which asks of each only whether its position is covered.
-/

set_option autoImplicit false

namespace CommandGrammar.Text

/-! ## Positions -/

/-- Whether a byte position lies in one of the ranges. -/
def covers (ranges : List ByteRange) (n : Nat) : Bool :=
  ranges.any fun r => decide (r.start ≤ n) && decide (n < r.stop)

theorem covers_eq_true_iff {ranges : List ByteRange} {n : Nat} :
    covers ranges n = true ↔ ∃ r ∈ ranges, r.start ≤ n ∧ n < r.stop := by
  simp [covers]

/-- Nothing in front of where the ranges start is covered. -/
theorem covers_eq_false {ranges : List ByteRange} {n : Nat} (h : ∀ r ∈ ranges, n < r.start) :
    covers ranges n = false := by
  refine Bool.eq_false_iff.mpr fun hcovers => ?_
  obtain ⟨r, hr, hstart, -⟩ := covers_eq_true_iff.mp hcovers
  exact Nat.not_le_of_lt (h r hr) hstart

theorem covers_cons (r : ByteRange) (ranges : List ByteRange) (n : Nat) :
    covers (r :: ranges) n = (decide (r.start ≤ n) && decide (n < r.stop) || covers ranges n) := rfl

/-- A byte position in front of a character, or at the end of the text. -/
def AtCharacter (text : List Char) (n : Nat) : Prop :=
  ∃ front back, text = front ++ back ∧ byteLength front = n

theorem atCharacter_iff {text : List Char} {n : Nat} :
    AtCharacter text n ↔ byteLength (takeBytes n text) = n := by
  constructor
  · rintro ⟨front, back, rfl, rfl⟩
    rw [takeBytes_append]
  · intro h
    exact ⟨takeBytes n text, dropBytes n text, (takeBytes_append_dropBytes n text).symm, h⟩

instance (text : List Char) (n : Nat) : Decidable (AtCharacter text n) :=
  decidable_of_iff _ atCharacter_iff.symm

/-- Ranges whose ends, once they are moved into the text, lie between characters. -/
def OnCharacters (text : List Char) (ranges : List ByteRange) : Prop :=
  ∀ r ∈ ranges, AtCharacter text (r.clamp (byteLength text)).start
    ∧ AtCharacter text (r.clamp (byteLength text)).stop

instance (text : List Char) (ranges : List ByteRange) : Decidable (OnCharacters text ranges) :=
  inferInstanceAs (Decidable (∀ r ∈ ranges, _ ∧ _))

theorem AtCharacter.max {text : List Char} {m n : Nat} (hm : AtCharacter text m)
    (hn : AtCharacter text n) : AtCharacter text (max m n) := by
  rcases Nat.le_total m n with hle | hle
  · rwa [Nat.max_eq_right hle]
  · rwa [Nat.max_eq_left hle]

/-- A place between characters, at or behind the end of a front, splits what follows. -/
theorem AtCharacter.split {front rest : List Char} {n : Nat} (h : AtCharacter (front ++ rest) n)
    (hle : byteLength front ≤ n) :
    ∃ middle back, rest = middle ++ back ∧ byteLength front + byteLength middle = n := by
  obtain ⟨start, back, hsplit, rfl⟩ := h
  rcases List.append_eq_append_iff.mp hsplit with ⟨middle, rfl, hrest⟩ | ⟨excess, rfl, hback⟩
  · exact ⟨middle, back, hrest, (byteLength_append front middle).symm⟩
  · rw [byteLength_append] at hle
    refine ⟨[], rest, rfl, ?_⟩
    rw [byteLength_append, byteLength_nil]
    omega

/-- No place between characters lies within one. -/
theorem AtCharacter.outside {front back : List Char} {c : Char} {n : Nat}
    (h : AtCharacter (front ++ c :: back) n) :
    n ≤ byteLength front ∨ byteLength front + c.utf8Size ≤ n := by
  by_cases hle : n ≤ byteLength front
  · exact .inl hle
  · obtain ⟨middle, later, hsplit, hn⟩ := h.split (Nat.le_of_not_le hle)
    cases middle with
    | nil =>
      rw [byteLength_nil] at hn
      omega
    | cons d middle =>
      obtain ⟨rfl, -⟩ := List.cons.inj hsplit
      rw [byteLength_cons] at hn
      omega

/-- A character is covered as a whole or not at all. -/
theorem OnCharacters.covers_character {front back : List Char} {c : Char}
    {ranges : List ByteRange} (h : OnCharacters (front ++ c :: back) ranges) {n : Nat}
    (hfrom : byteLength front ≤ n) (hto : n < byteLength front + c.utf8Size) :
    covers ranges n = covers ranges (byteLength front) := by
  rw [Bool.eq_iff_iff, covers_eq_true_iff, covers_eq_true_iff]
  refine exists_congr fun r => and_congr_right fun hr => ?_
  obtain ⟨hstart, hstop⟩ := h r hr
  have hlow := hstart.outside
  have hhigh := hstop.outside
  simp only [ByteRange.clamp, byteLength_append, byteLength_cons] at hlow hhigh
  omega

/-- Each byte of a text belongs to a character. -/
theorem exists_character {text : List Char} {n : Nat} (h : n < byteLength text) :
    ∃ front c back, text = front ++ c :: back ∧ byteLength front ≤ n
      ∧ n < byteLength front + c.utf8Size := by
  induction text generalizing n with
  | nil => exact absurd h (Nat.not_lt_zero n)
  | cons c rest ih =>
    by_cases hn : n < c.utf8Size
    · exact ⟨[], c, rest, rfl, Nat.zero_le n, by simpa using hn⟩
    · rw [byteLength_cons] at h
      obtain ⟨front, d, back, rfl, hfrom, hto⟩ := @ih (n - c.utf8Size) (by omega)
      refine ⟨c :: front, d, back, rfl, ?_, ?_⟩ <;> rw [byteLength_cons] <;> omega

/-- The characters at uncovered positions, where the text begins at `place`. -/
def uncovered (ranges : List ByteRange) : Nat → List Char → List Char
  | _, [] => []
  | place, c :: rest =>
    let later := uncovered ranges (place + c.utf8Size) rest
    if covers ranges place then later else c :: later

theorem uncovered_append (ranges : List ByteRange) (place : Nat) (front back : List Char) :
    uncovered ranges place (front ++ back)
      = uncovered ranges place front ++ uncovered ranges (place + byteLength front) back := by
  induction front generalizing place with
  | nil => rfl
  | cons c rest ih =>
    simp only [List.cons_append, uncovered, ih, byteLength_cons, Nat.add_assoc]
    split <;> rfl

theorem uncovered_cons_of_uncovered {ranges : List ByteRange} {place : Nat} {c : Char}
    (h : covers ranges place = false) (rest : List Char) :
    uncovered ranges place (c :: rest) = c :: uncovered ranges (place + c.utf8Size) rest := by
  rw [uncovered, h]
  rfl

theorem uncovered_of_uncovered {ranges : List ByteRange} {place : Nat} {text : List Char}
    (h : ∀ n, place ≤ n → n < place + byteLength text → covers ranges n = false) :
    uncovered ranges place text = text := by
  induction text generalizing place with
  | nil => rfl
  | cons c rest ih =>
    have hsize := Char.utf8Size_pos c
    rw [byteLength_cons] at h
    rw [uncovered, h place (Nat.le_refl place) (by omega),
      ih fun n hfrom hto => h n (by omega) (by omega)]
    rfl

/-! ## One pass over the characters -/

/-- A text being put together: what has been joined, and the run at hand. -/
structure Assembly where
  kept : List Char
  pending : List Char

namespace Assembly

/-- What has been joined once the run at hand is, too. -/
def flush (s : Assembly) : List Char :=
  if s.pending.isEmpty then s.kept else joinPiece s.kept s.pending

/-- A character that is cut out ends the run at hand, any other goes on with it. -/
def step (s : Assembly) (isCut : Bool) (c : Char) : Assembly :=
  if isCut then ⟨s.flush, []⟩ else ⟨s.kept, s.pending ++ [c]⟩

@[simp] theorem flush_nil (kept : List Char) : flush ⟨kept, []⟩ = kept := rfl

theorem flush_of_ne_nil (kept : List Char) {pending : List Char} (h : pending ≠ []) :
    flush ⟨kept, pending⟩ = joinPiece kept pending := by
  unfold flush
  rw [if_neg (mt List.isEmpty_iff.mp h)]

end Assembly

/-- Goes over the characters from `place` on, cutting out those at covered positions. -/
def assemble (ranges : List ByteRange) : Nat → List Char → Assembly → Assembly
  | _, [], s => s
  | place, c :: rest, s =>
    assemble ranges (place + c.utf8Size) rest (s.step (covers ranges place) c)

section Passes

variable {ranges : List ByteRange} {place : Nat} {text : List Char}

theorem assemble_append (ranges : List ByteRange) (place : Nat) (front back : List Char)
    (s : Assembly) :
    assemble ranges place (front ++ back) s
      = assemble ranges (place + byteLength front) back (assemble ranges place front s) := by
  induction front generalizing place s with
  | nil => rfl
  | cons c rest ih => simp only [List.cons_append, assemble, ih, byteLength_cons, Nat.add_assoc]

/-- The pass sees of the ranges only what they cover. -/
theorem assemble_congr {others : List ByteRange}
    (h : ∀ n, place ≤ n → n < place + byteLength text → covers others n = covers ranges n)
    (s : Assembly) : assemble others place text s = assemble ranges place text s := by
  induction text generalizing place s with
  | nil => rfl
  | cons c rest ih =>
    have hsize := Char.utf8Size_pos c
    rw [byteLength_cons] at h
    rw [assemble, assemble, h place (Nat.le_refl place) (by omega)]
    exact ih (fun n hfrom hto => h n (by omega) (by omega)) _

theorem assemble_of_uncovered
    (h : ∀ n, place ≤ n → n < place + byteLength text → covers ranges n = false) (s : Assembly) :
    assemble ranges place text s = ⟨s.kept, s.pending ++ text⟩ := by
  induction text generalizing place s with
  | nil => simp [assemble]
  | cons c rest ih =>
    have hsize := Char.utf8Size_pos c
    rw [byteLength_cons] at h
    rw [assemble, h place (Nat.le_refl place) (by omega),
      ih fun n hfrom hto => h n (by omega) (by omega)]
    simp [Assembly.step]

theorem assemble_of_covered
    (h : ∀ n, place ≤ n → n < place + byteLength text → covers ranges n = true)
    (kept : List Char) : assemble ranges place text ⟨kept, []⟩ = ⟨kept, []⟩ := by
  induction text generalizing place with
  | nil => rfl
  | cons c rest ih =>
    have hsize := Char.utf8Size_pos c
    rw [byteLength_cons] at h
    rw [assemble, h place (Nat.le_refl place) (by omega)]
    exact ih fun n hfrom hto => h n (by omega) (by omega)

/-- A covered part ends the run at hand. -/
theorem assemble_of_covered_of_ne_nil
    (h : ∀ n, place ≤ n → n < place + byteLength text → covers ranges n = true) (hne : text ≠ [])
    (s : Assembly) : assemble ranges place text s = ⟨s.flush, []⟩ := by
  cases text with
  | nil => exact absurd rfl hne
  | cons c rest =>
    have hsize := Char.utf8Size_pos c
    rw [byteLength_cons] at h
    rw [assemble, h place (Nat.le_refl place) (by omega)]
    exact assemble_of_covered (fun n hfrom hto => h n (by omega) (by omega)) _

theorem assemble_cons_of_uncovered {c : Char} (h : covers ranges place = false) (rest : List Char)
    (s : Assembly) :
    assemble ranges place (c :: rest) s
      = assemble ranges (place + c.utf8Size) rest ⟨s.kept, s.pending ++ [c]⟩ := by
  rw [assemble, h]
  rfl

/-- Over an uncovered run and a cut behind it, the run is joined. -/
theorem assemble_run_cut {run cut : List Char}
    (hrun : ∀ n, place ≤ n → n < place + byteLength run → covers ranges n = false)
    (hcut : ∀ n, place + byteLength run ≤ n → n < place + byteLength run + byteLength cut →
      covers ranges n = true)
    (hends : cut = [] → run = []) (behind kept : List Char) :
    assemble ranges place (run ++ (cut ++ behind)) ⟨kept, []⟩
      = assemble ranges (place + byteLength run + byteLength cut) behind
          ⟨Assembly.flush ⟨kept, run⟩, []⟩ := by
  rw [assemble_append, assemble_append, assemble_of_uncovered hrun, List.nil_append]
  by_cases hempty : cut = []
  · rw [hempty, hends hempty]
    rfl
  · rw [assemble_of_covered_of_ne_nil hcut hempty]

end Passes

/-! ## Cutting as a pass -/

/-- A range splits what is ahead: the run up to it, as much of it as lies ahead, and what is behind
it. -/
theorem exists_run_cut {front rest : List Char} {r : ByteRange}
    (hstart : AtCharacter (front ++ rest) r.start) (hstop : AtCharacter (front ++ rest) r.stop)
    (hbytes : r.start < r.stop) :
    ∃ run cut behind, rest = run ++ (cut ++ behind)
      ∧ byteLength front + byteLength run = max (byteLength front) r.start
      ∧ byteLength front + byteLength run + byteLength cut = max (byteLength front) r.stop
      ∧ (cut = [] → run = []) := by
  have hhere : AtCharacter (front ++ rest) (byteLength front) := ⟨front, rest, rfl, rfl⟩
  obtain ⟨run, ahead, rfl, hrun⟩ := (hhere.max hstart).split (Nat.le_max_left _ _)
  have hend := hhere.max hstop
  rw [← List.append_assoc] at hend
  obtain ⟨cut, behind, rfl, hcut⟩ := hend.split (by rw [byteLength_append]; omega)
  rw [byteLength_append] at hcut
  refine ⟨run, cut, behind, rfl, hrun, hcut, ?_⟩
  rintro rfl
  rw [byteLength_nil] at hcut
  have hzero : ¬ 0 < byteLength run := by omega
  simpa using mt byteLength_pos_iff.mpr hzero

/-- The pieces in front of a range and behind it are joined one after the other. -/
theorem foldl_keptPieces_cons {front run ahead : List Char} {r : ByteRange}
    (hrun : byteLength front + byteLength run = max (byteLength front) r.start)
    (later : List ByteRange) (kept : List Char) :
    (keptPieces (front ++ (run ++ ahead)) (byteLength front) (r :: later)).foldl joinPiece kept
      = (keptPieces (front ++ (run ++ ahead)) (max (byteLength front) r.stop) later).foldl joinPiece
          (Assembly.flush ⟨kept, run⟩) := by
  rw [keptPieces]
  by_cases hahead : byteLength front < r.start
  · have hfilled : run ≠ [] := by
      rintro rfl
      rw [byteLength_nil] at hrun
      omega
    rw [if_pos hahead, List.foldl_cons, Assembly.flush_of_ne_nil kept hfilled,
      ← Nat.max_eq_right hahead.le, ← hrun, slice_append]
  · have hempty : run = [] := by
      have hzero : ¬ 0 < byteLength run := by omega
      simpa using mt byteLength_pos_iff.mpr hzero
    rw [if_neg hahead, hempty, Assembly.flush_nil]

/-- Behind the last range all that is left is joined. -/
theorem foldl_keptPieces_nil (front rest kept : List Char) :
    (keptPieces (front ++ rest) (byteLength front) []).foldl joinPiece kept
      = Assembly.flush ⟨kept, rest⟩ := by
  rw [keptPieces, dropBytes_append, byteLength_append]
  cases rest with
  | nil => simp
  | cons c rest =>
    have hsize := Char.utf8Size_pos c
    rw [if_pos (by rw [byteLength_cons]; omega),
      Assembly.flush_of_ne_nil kept (List.cons_ne_nil c rest)]
    rfl

/-- Cutting out ranges that are sorted by their starts is a pass from where the last cut ended. -/
theorem foldl_keptPieces {ranges : List ByteRange} {front rest : List Char}
    (hsorted : ranges.Pairwise fun a b => a.start ≤ b.start)
    (hfilled : ∀ r ∈ ranges, r.start < r.stop)
    (hplaces : ∀ r ∈ ranges, AtCharacter (front ++ rest) r.start
      ∧ AtCharacter (front ++ rest) r.stop) (kept : List Char) :
    (keptPieces (front ++ rest) (byteLength front) ranges).foldl joinPiece kept
      = (assemble ranges (byteLength front) rest ⟨kept, []⟩).flush := by
  induction ranges generalizing front rest kept with
  | nil => rw [assemble_of_uncovered (fun _ _ _ => rfl), foldl_keptPieces_nil, List.nil_append]
  | cons r later ih =>
    obtain ⟨hfirst, hsorted⟩ := List.pairwise_cons.mp hsorted
    obtain ⟨hstart, hstop⟩ := hplaces r List.mem_cons_self
    obtain ⟨run, cut, behind, rfl, hrun, hcut, hends⟩ :=
      exists_run_cut hstart hstop (hfilled r List.mem_cons_self)
    have htext : front ++ (run ++ (cut ++ behind)) = front ++ (run ++ cut) ++ behind := by simp
    have hplace : byteLength (front ++ (run ++ cut)) = max (byteLength front) r.stop := by
      rw [byteLength_append, byteLength_append, ← hcut, Nat.add_assoc]
    -- the ranges start at the first one's start or later, so that none covers the run
    have huncovered : ∀ n, byteLength front ≤ n → n < byteLength front + byteLength run →
        covers (r :: later) n = false := by
      intro n hfrom hto
      have hbefore : n < r.start := by omega
      refine covers_eq_false fun r' hr' => ?_
      rcases List.mem_cons.mp hr' with rfl | hr'
      · exact hbefore
      · exact Nat.lt_of_lt_of_le hbefore (hfirst r' hr')
    have hcovered : ∀ n, byteLength front + byteLength run ≤ n →
        n < byteLength front + byteLength run + byteLength cut →
        covers (r :: later) n = true :=
      fun n hfrom hto => covers_eq_true_iff.mpr ⟨r, List.mem_cons_self, by omega, by omega⟩
    have hbehind : ∀ n, byteLength (front ++ (run ++ cut)) ≤ n →
        n < byteLength (front ++ (run ++ cut)) + byteLength behind →
        covers (r :: later) n = covers later n := by
      intro n hfrom _
      rw [covers_cons, decide_eq_false (show ¬ n < r.stop by omega), Bool.and_false, Bool.false_or]
    rw [foldl_keptPieces_cons hrun, assemble_run_cut huncovered hcovered hends, hcut, ← hplace,
      assemble_congr hbehind, htext]
    rw [htext] at hplaces
    exact ih hsorted (fun x hx => hfilled x (List.mem_cons_of_mem r hx))
      (fun x hx => hplaces x (List.mem_cons_of_mem r hx)) _

/-- The ranges that are cut out in the end: those with bytes, within the text, by their starts. -/
def cutsIn (text : List Char) (ranges : List ByteRange) : List ByteRange :=
  ((ranges.map (ByteRange.clamp (byteLength text))).filter fun r => !r.isEmpty).mergeSort
    fun a b => decide (a.start ≤ b.start)

theorem mem_cutsIn {text : List Char} {ranges : List ByteRange} {r : ByteRange} :
    r ∈ cutsIn text ranges
      ↔ (∃ r' ∈ ranges, r'.clamp (byteLength text) = r) ∧ r.start < r.stop := by
  simp [cutsIn, ByteRange.isEmpty]

/-- Moving ranges into the text, dropping empty ones and sorting leave what is covered as it is. -/
theorem covers_cutsIn {text : List Char} (ranges : List ByteRange) {n : Nat}
    (hn : n < byteLength text) : covers (cutsIn text ranges) n = covers ranges n := by
  rw [Bool.eq_iff_iff, covers_eq_true_iff, covers_eq_true_iff]
  constructor
  · rintro ⟨r, hr, hstart, hstop⟩
    obtain ⟨⟨r', hr', rfl⟩, -⟩ := mem_cutsIn.mp hr
    simp only [ByteRange.clamp] at hstart hstop
    exact ⟨r', hr', by omega, by omega⟩
  · rintro ⟨r, hr, hstart, hstop⟩
    have hlow : min r.start (byteLength text) ≤ n := by omega
    have hhigh : n < min r.stop (byteLength text) := by omega
    exact ⟨_, mem_cutsIn.mpr ⟨⟨r, hr, rfl⟩, Nat.lt_of_le_of_lt hlow hhigh⟩, hlow, hhigh⟩

theorem pairwise_cutsIn (text : List Char) (ranges : List ByteRange) :
    (cutsIn text ranges).Pairwise fun a b => a.start ≤ b.start := by
  have htrans (a b c : ByteRange) (hab : decide (a.start ≤ b.start) = true)
      (hbc : decide (b.start ≤ c.start) = true) : decide (a.start ≤ c.start) = true :=
    decide_eq_true (Nat.le_trans (of_decide_eq_true hab) (of_decide_eq_true hbc))
  have htotal (a b : ByteRange) :
      (decide (a.start ≤ b.start) || decide (b.start ≤ a.start)) = true := by
    simpa using Nat.le_total a.start b.start
  exact (List.pairwise_mergeSort htrans htotal _).imp of_decide_eq_true

/-- Cutting is one pass over the characters of the text. -/
theorem withoutRanges_eq_assemble {text : List Char} {ranges : List ByteRange}
    (h : OnCharacters text ranges) :
    withoutRanges text ranges = trim (assemble ranges 0 text ⟨[], []⟩).flush := by
  have hplaces : ∀ r ∈ cutsIn text ranges, AtCharacter ([] ++ text) r.start
      ∧ AtCharacter ([] ++ text) r.stop := by
    intro r hr
    obtain ⟨⟨r', hr', rfl⟩, -⟩ := mem_cutsIn.mp hr
    exact h r' hr'
  have hpass := foldl_keptPieces (pairwise_cutsIn text ranges) (fun r hr => (mem_cutsIn.mp hr).2)
    hplaces []
  have hsame : ∀ n, 0 ≤ n → n < 0 + byteLength text →
      covers (cutsIn text ranges) n = covers ranges n :=
    fun n _ hn => covers_cutsIn ranges (by omega)
  rw [List.nil_append, byteLength_nil, assemble_congr hsame] at hpass
  exact congrArg trim hpass

/-- What is left depends only on the positions that the ranges cover. -/
theorem withoutRanges_congr {text : List Char} {ranges others : List ByteRange}
    (hranges : OnCharacters text ranges) (hothers : OnCharacters text others)
    (hsame : ∀ n < byteLength text, covers others n = covers ranges n) :
    withoutRanges text others = withoutRanges text ranges := by
  rw [withoutRanges_eq_assemble hranges, withoutRanges_eq_assemble hothers,
    assemble_congr fun n _ hn => hsame n (by omega)]

end CommandGrammar.Text
