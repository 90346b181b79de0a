import CommandGrammar.Proofs.Text.Words
import CommandGrammar.Text.AsciiCase
import CommandGrammar.Text.LowerCase

/-!
# Small letters and the ASCII fold

The library writes texts in small letters by the mapping of Unicode and compares them by a fold that
only knows A to Z.  `foldCase_lowerCase_iff` says for which texts the two go together: for those
without a capital beyond ASCII.  Writing a text in small letters puts no blank into it.
-/

set_option autoImplicit false
set_option maxRecDepth 4000

namespace CommandGrammar.Text

/-- A character that is no capital beyond ASCII. -/
def IsPlain (c : Char) : Prop := c.toNat < 128 ∨ lowerChar c = [c]

/-- No character is a capital beyond ASCII. -/
def PlainCase (text : List Char) : Prop := ∀ c ∈ text, IsPlain c

instance (c : Char) : Decidable (IsPlain c) :=
  inferInstanceAs (Decidable (c.toNat < 128 ∨ lowerChar c = [c]))

instance (text : List Char) : Decidable (PlainCase text) :=
  List.decidableBAll IsPlain text

/-- The small form of a character between two texts; the one before is held reversed. -/
def smallForm (before : List Char) (c : Char) (rest : List Char) : List Char :=
  if c = 'Σ' then (if meetsCased before && !meetsCased rest then ['ς'] else ['σ'])
  else lowerChar c

theorem lowerFrom_cons (before : List Char) (c : Char) (rest : List Char) :
    lowerFrom before (c :: rest) = smallForm before c rest ++ lowerFrom (c :: before) rest := rfl

/-! ## The fold of one character -/

/-- A property of all ASCII characters may be checked at their code points. -/
theorem of_ascii {P : Char → Prop} (h : ∀ n < 128, P (Char.ofNat n)) {c : Char}
    (hc : c.toNat < 128) : P c :=
  Char.ofNat_toNat c ▸ h c.toNat hc

theorem toLower_of_beyond {c : Char} (h : 128 ≤ c.toNat) : c.toLower = c := by
  unfold Char.toLower
  split
  · next hupper =>
    have hhigh : c.toNat ≤ 90 := hupper.2
    omega
  · rfl

/-- Beyond ASCII, only a character itself is folded to it. -/
theorem eq_of_toLower {x c : Char} (hc : 128 ≤ c.toNat) (h : x.toLower = c) : x = c := by
  by_cases hx : x.toNat < 128
  · have hlower : x.toLower.toNat < 128 :=
      of_ascii (P := fun x => x.toLower.toNat < 128) (by decide +kernel) hx
    rw [h] at hlower
    omega
  · rwa [toLower_of_beyond (Nat.le_of_not_lt hx)] at h

/-- The small form of a character that is no capital beyond ASCII is folded as the character is. -/
theorem foldCase_lowerChar {c : Char} (h : IsPlain c) : foldCase (lowerChar c) = [c.toLower] := by
  rcases h with hascii | hself
  · exact of_ascii (P := fun c => foldCase (lowerChar c) = [c.toLower]) (by decide +kernel) hascii
  · rw [hself]
    rfl

theorem lowerChar_ne_nil (c : Char) : lowerChar c ≠ [] := by
  unfold lowerChar
  split
  · exact List.cons_ne_nil _ _
  · split <;> exact List.cons_ne_nil _ _

/-- A character whose small form begins with itself has no other small form. -/
theorem lowerChar_of_head {c y : Char} {more : List Char} (hsmall : lowerChar c = y :: more)
    (hy : y = c) : lowerChar c = [c] := by
  subst hy
  unfold lowerChar at hsmall ⊢
  split at hsmall
  · next hdotted =>
    subst hdotted
    exact absurd (List.cons_eq_cons.mp hsmall).1 (by decide)
  · split at hsmall <;> simp_all

/-- The small form of a capital beyond ASCII begins with a character that is folded otherwise. -/
theorem smallForm_of_not_plain {c : Char} (h : ¬ IsPlain c) (before rest : List Char) :
    ∃ y more, smallForm before c rest = y :: more ∧ y.toLower ≠ c.toLower := by
  have hbeyond : 128 ≤ c.toNat := Nat.le_of_not_lt fun hascii => h (.inl hascii)
  unfold smallForm
  split
  · next hsigma =>
    subst hsigma
    split
    · exact ⟨_, _, rfl, by decide⟩
    · exact ⟨_, _, rfl, by decide⟩
  · cases hsmall : lowerChar c with
    | nil => exact absurd hsmall (lowerChar_ne_nil c)
    | cons y more =>
      refine ⟨y, more, rfl, fun hfold => h (.inr (lowerChar_of_head hsmall ?_))⟩
      exact eq_of_toLower hbeyond (hfold.trans (toLower_of_beyond hbeyond))

theorem smallForm_of_plain {c : Char} (h : IsPlain c) (before rest : List Char) :
    smallForm before c rest = lowerChar c :=
  if_neg fun hsigma => absurd (hsigma ▸ h) (by decide +kernel)

/-! ## The fold of a text -/

/-- Writing a text in small letters keeps what it is up to ASCII case exactly if it has no capital
beyond ASCII. -/
theorem foldCase_lowerFrom_iff (before text : List Char) :
    foldCase (lowerFrom before text) = foldCase text ↔ PlainCase text := by
  induction text generalizing before with
  | nil => simp [lowerFrom, PlainCase]
  | cons c rest ih =>
    have hcons : PlainCase (c :: rest) ↔ IsPlain c ∧ PlainCase rest := List.forall_mem_cons
    have hfold : foldCase (lowerFrom before (c :: rest))
        = foldCase (smallForm before c rest) ++ foldCase (lowerFrom (c :: before) rest) := by
      rw [lowerFrom_cons]
      exact List.map_append
    have hrest : foldCase (c :: rest) = c.toLower :: foldCase rest := rfl
    rw [hcons, hfold, hrest]
    by_cases hplain : IsPlain c
    · rw [smallForm_of_plain hplain, foldCase_lowerChar hplain, List.singleton_append,
        List.cons_inj_right, ih (c :: before), and_iff_right hplain]
    · obtain ⟨y, more, hsmall, hdiffer⟩ := smallForm_of_not_plain hplain before rest
      rw [hsmall]
      exact ⟨fun h => absurd (List.cons_eq_cons.mp h).1 hdiffer, fun h => absurd h.1 hplain⟩

theorem foldCase_lowerCase_iff (text : List Char) :
    foldCase (lowerCase text) = foldCase text ↔ PlainCase text :=
  foldCase_lowerFrom_iff [] text

/-! ## Blanks -/

/-- A number that is no code point stands for the character of code zero. -/
theorem toNat_ofNat_eq_or (n : Nat) : (Char.ofNat n).toNat = n ∨ (Char.ofNat n).toNat = 0 := by
  by_cases h : n.isValidChar
  · exact .inl (congrArg Char.toNat (dif_pos h))
  · exact .inr (congrArg Char.toNat (dif_neg h))

/-- No capital has a blank as its small form. -/
theorem isInk_of_shift {s : CaseShift} (hs : s ∈ caseShifts) {n : Nat} (h : s.covers n = true) :
    isInk (Char.ofNat (s.apply n)) = true := by
  have htable : ∀ s ∈ caseShifts, ∀ r ∈ blankRanges,
      (s.last : Int) + s.distance < r.1 ∨ (r.2 : Int) < s.first + s.distance := by decide +kernel
  have hzero : ∀ r ∈ blankRanges, 0 < r.1 := by decide
  rw [isInk_iff, ← Bool.not_eq_true]
  intro hblank
  obtain ⟨r, hr, hlow, hhigh⟩ := inRanges_iff.mp hblank
  have hcovers : s.first ≤ n ∧ n ≤ s.last := by
    simp only [CaseShift.covers, Bool.and_eq_true, decide_eq_true_eq] at h
    exact h.1
  have happly : s.apply n = ((n : Int) + s.distance).toNat := rfl
  have hpositive := hzero r hr
  rcases toNat_ofNat_eq_or (s.apply n) with hvalue | hvalue
  · rw [hvalue, happly] at hlow hhigh
    rcases htable s hs r hr with hbelow | habove <;> omega
  · omega

theorem allInk_lowerChar {c : Char} (h : isInk c = true) : AllInk (lowerChar c) := by
  unfold lowerChar
  split
  · exact List.forall_mem_cons.mpr ⟨by decide, List.forall_mem_singleton.mpr (by decide)⟩
  · split
    · next s hfind =>
      have hcovers := List.find?_some hfind
      exact List.forall_mem_singleton.mpr
        (isInk_of_shift (List.mem_of_find?_eq_some hfind) hcovers)
    · exact List.forall_mem_singleton.mpr h

theorem allInk_smallForm {c : Char} (h : isInk c = true) (before rest : List Char) :
    AllInk (smallForm before c rest) := by
  unfold smallForm
  split
  · split
    · exact List.forall_mem_singleton.mpr (by decide)
    · exact List.forall_mem_singleton.mpr (by decide)
  · exact allInk_lowerChar h

/-- A word stays a word in small letters. -/
theorem allInk_lowerFrom {text : List Char} (h : AllInk text) (before : List Char) :
    AllInk (lowerFrom before text) := by
  induction text generalizing before with
  | nil => exact fun c hc => absurd hc List.not_mem_nil
  | cons c rest ih =>
    obtain ⟨hc, hrest⟩ := List.forall_mem_cons.mp h
    rw [lowerFrom_cons]
    exact List.forall_mem_append.mpr ⟨allInk_smallForm hc before rest, ih hrest _⟩

theorem allInk_lowerCase {text : List Char} (h : AllInk text) : AllInk (lowerCase text) :=
  allInk_lowerFrom h []

end CommandGrammar.Text
