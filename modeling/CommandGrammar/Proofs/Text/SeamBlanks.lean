import CommandGrammar.Proofs.Text.Leavings

/-!
# What is left at a seam

A seam is where cutting brings two words together: there is a cut between them, and no word is left
between them.  What is left there is the first run of blanks that no range covers, as it stands in
the text, whatever its length and its blanks; later runs are dropped, and a space is put in only
where there is no run at all.
-/

set_option autoImplicit false

namespace CommandGrammar.Text

/-- Two characters of words that stay, with a cut and nothing but blanks left between them. -/
structure Seam (text : List Char) (ranges : List ByteRange) (front : List Char) (x : Char)
    (middle : List Char) (y : Char) (back : List Char) : Prop where
  split : text = front ++ x :: (middle ++ y :: back)
  inkLeft : isInk x = true
  inkRight : isInk y = true
  keepsLeft : covers ranges (byteLength front) = false
  keepsRight : covers ranges (byteLength (front ++ x :: middle)) = false
  blank : AllBlank (uncovered ranges (byteLength (front ++ [x])) middle)
  cut : ∃ n, byteLength (front ++ [x]) ≤ n ∧ n < byteLength (front ++ x :: middle)
    ∧ covers ranges n = true

/-! ## The place of a character of a word -/

/-- Only one place in a text has a character of a word behind given ones. -/
theorem before_unique {x : Char} (hx : isInk x = true) {before before' rest rest' : List Char}
    (hsame : before ++ x :: rest = before' ++ x :: rest') (hink : inkOf before = inkOf before') :
    before = before' := by
  -- the longer one would have `x` itself among its characters of words
  have hshorter {short more : List Char} (hnext : ∃ others, x :: others = more)
      (hsum : inkOf short = inkOf (short ++ more)) : False := by
    obtain ⟨others, rfl⟩ := hnext
    have hlength := congrArg List.length hsum
    rw [inkOf_append, inkOf_cons_of_ink hx, List.length_append, List.length_cons] at hlength
    omega
  rcases List.append_eq_append_iff.mp hsame with ⟨more, rfl, hrest⟩ | ⟨more, rfl, hrest⟩
  · cases more with
    | nil => exact (List.append_nil before).symm
    | cons c more =>
      obtain ⟨rfl, -⟩ := List.cons.inj hrest
      exact (hshorter ⟨more, rfl⟩ hink).elim
  · cases more with
    | nil => exact List.append_nil before'
    | cons c more =>
      obtain ⟨rfl, -⟩ := List.cons.inj hrest
      exact (hshorter ⟨more, rfl⟩ hink.symm).elim

/-- Only one place in a text has a character of a word in front of given ones. -/
theorem after_unique {y : Char} (hy : isInk y = true) {front front' after after' : List Char}
    (hsame : front ++ y :: after = front' ++ y :: after') (hink : inkOf after = inkOf after') :
    front = front' := by
  have hreverse := congrArg List.reverse hsame
  simp only [List.reverse_append, List.reverse_cons, List.append_assoc, List.singleton_append]
    at hreverse
  have hbehind : inkOf after.reverse = inkOf after'.reverse := by
    simpa [inkOf, List.filter_reverse] using hink
  have hafter := before_unique hy hreverse hbehind
  rw [hafter] at hreverse
  simpa using List.append_cancel_left hreverse

/-- What stands between two characters of words is determined by what stands around them. -/
theorem StandsBetween.gap_unique {left gap gap' front back : List Char} {x y : Char}
    (hx : isInk x = true) (hy : isInk y = true)
    (h : StandsBetween left (x :: (gap ++ [y])) front back)
    (h' : StandsBetween left (x :: (gap' ++ [y])) front back) : gap = gap' := by
  obtain ⟨before, after, hleft, hbefore, hafter⟩ := h
  obtain ⟨before', after', hleft', hbefore', hafter'⟩ := h'
  have hsame : before ++ x :: (gap ++ y :: after) = before' ++ x :: (gap' ++ y :: after') := by
    simpa using hleft.symm.trans hleft'
  have hfront := before_unique hx hsame (hbefore.trans hbefore'.symm)
  rw [hfront] at hsame
  exact after_unique hy (List.cons.inj (List.append_cancel_left hsame)).2
    (hafter.trans hafter'.symm)

theorem seamBlanks_eq_space_iff {ranges : List ByteRange} {place : Nat} {middle : List Char} :
    seamBlanks ranges place [] middle = [' ']
      ↔ ∀ run ∈ (uncoveredRuns ranges place [] middle).head?, run = [' '] := by
  unfold seamBlanks
  cases uncoveredRuns ranges place [] middle <;> simp

/-- At a seam the first run of blanks is left as it stands in the text, and a space where there is
none.  One space is left exactly if the first run, if there is one, is one space. -/
theorem withoutRanges_atSeam {text : List Char} {ranges : List ByteRange} {front : List Char}
    {x : Char} {middle : List Char} {y : Char} {back : List Char} (h : OnCharacters text ranges)
    (hseam : Seam text ranges front x middle y back) :
    (∀ gap, StandsBetween (withoutRanges text ranges) (x :: (gap ++ [y])) (uncovered ranges 0 front)
          (uncovered ranges (byteLength (front ++ x :: (middle ++ [y]))) back)
        ↔ gap = seamBlanks ranges (byteLength (front ++ [x])) [] middle)
      ∧ (StandsBetween (withoutRanges text ranges) [x, ' ', y] (uncovered ranges 0 front)
          (uncovered ranges (byteLength (front ++ x :: (middle ++ [y]))) back)
        ↔ ∀ run ∈ (uncoveredRuns ranges (byteLength (front ++ [x])) [] middle).head?,
            run = [' ']) := by
  obtain ⟨hsplit, hx, hy, hkeepx, hkeepy, hblank, hcut⟩ := hseam
  have hstands := withoutRanges_seamBlanks h hsplit hx hy hkeepx hkeepy hblank hcut
  have hexact (gap : List Char) :
      StandsBetween (withoutRanges text ranges) (x :: (gap ++ [y])) (uncovered ranges 0 front)
          (uncovered ranges (byteLength (front ++ x :: (middle ++ [y]))) back)
        ↔ gap = seamBlanks ranges (byteLength (front ++ [x])) [] middle :=
    ⟨fun hgap => hgap.gap_unique hx hy hstands, fun hgap => hgap ▸ hstands⟩
  refine ⟨hexact, ?_⟩
  rw [← seamBlanks_eq_space_iff, eq_comm]
  exact hexact [' ']

/-- Three ranges meet in one seam, with a tab, three spaces and a line's end between and behind
them: the tab is left. -/
theorem atSeam_tab :
    OnCharacters "say-a\t-b   -c\nhi".toList [⟨11, 13⟩, ⟨3, 5⟩, ⟨6, 8⟩]
      ∧ Seam "say-a\t-b   -c\nhi".toList [⟨11, 13⟩, ⟨3, 5⟩, ⟨6, 8⟩] "sa".toList 'y'
          "-a\t-b   -c\n".toList 'h' "i".toList
      ∧ StandsBetween
          (withoutRanges "say-a\t-b   -c\nhi".toList [⟨11, 13⟩, ⟨3, 5⟩, ⟨6, 8⟩])
          "y\th".toList "sa".toList "i".toList := by
  have hranges : OnCharacters "say-a\t-b   -c\nhi".toList [⟨11, 13⟩, ⟨3, 5⟩, ⟨6, 8⟩] := by decide
  have hseam : Seam "say-a\t-b   -c\nhi".toList [⟨11, 13⟩, ⟨3, 5⟩, ⟨6, 8⟩] "sa".toList 'y'
      "-a\t-b   -c\n".toList 'h' "i".toList :=
    ⟨rfl, by decide, by decide, by decide, by decide, by decide, 3, by decide, by decide, by decide⟩
  obtain ⟨hexact, -⟩ := withoutRanges_atSeam hranges hseam
  exact ⟨hranges, hseam, (hexact ['\t']).mpr (by decide)⟩

/-- Two spaces in front of a flag that is cut out, and two behind it: the two in front are left. -/
theorem seam_keeps_blanks :
    OnCharacters "a  -x  b".toList [⟨3, 5⟩]
      ∧ Seam "a  -x  b".toList [⟨3, 5⟩] [] 'a' "  -x  ".toList 'b' []
      ∧ withoutRanges "a  -x  b".toList [⟨3, 5⟩] = "a  b".toList
      ∧ ¬ StandsBetween (withoutRanges "a  -x  b".toList [⟨3, 5⟩]) "a b".toList [] [] := by
  have hranges : OnCharacters "a  -x  b".toList [⟨3, 5⟩] := by decide
  have hleft : withoutRanges "a  -x  b".toList [⟨3, 5⟩] = "a  b".toList := by
    rw [withoutRanges_eq_assemble hranges]
    decide
  refine ⟨hranges, ⟨rfl, by decide, by decide, by decide, by decide, by decide, 3, by decide,
    by decide, by decide⟩, hleft, ?_⟩
  intro hspace
  have htwo : StandsBetween (withoutRanges "a  -x  b".toList [⟨3, 5⟩])
      ('a' :: ([' ', ' '] ++ ['b'])) [] [] := ⟨[], [], hleft, rfl, rfl⟩
  have hsame := htwo.gap_unique (by decide) (by decide)
    (show StandsBetween _ ('a' :: ([' '] ++ ['b'])) [] [] from hspace)
  exact absurd hsame (by decide)

end CommandGrammar.Text
