import CommandGrammar.Path.Token
import CommandGrammar.Proofs.Reading.Local
import CommandGrammar.Proofs.Text.Boundaries

/-!
# How a path may be laid out

A path spells tokens if each of them stands in it as it is written, behind any blanks, and a blank
or the end of the path follows each word.  Nothing has to follow a placeholder, which ends at its
own bracket.  `Spells` says this without reading anything.

`readToken_eq_ok_iff` says where reading one token stops, and `tokenize_eq_ok_iff` that a path is
cut into the tokens that it spells.  So writing tokens and cutting the path again gives them back
for every choice of the blanks between them, and only well-formed tokens are ever read.
-/

set_option autoImplicit false

namespace CommandGrammar

open Text (AllBlank AllInk Separated StartsInk)

/-! ## Well-formed tokens -/

namespace Token

/-- The bracket that opens a placeholder. -/
def opening (optional : Bool) : Char := if optional then '[' else '<'

/-- The bracket that closes a placeholder. -/
def closing (optional : Bool) : Char := if optional then ']' else '>'

/-- Whether a token has a written form: a word is not empty, has no blank in it and does not begin
like a placeholder, and a parameter's name is not empty and has neither a blank nor its own closing
bracket in it. -/
def WellFormed : Token → Prop
  | .word text =>
    text.toList ≠ [] ∧ AllInk text.toList
      ∧ text.toList.head? ≠ some '<' ∧ text.toList.head? ≠ some '['
  | .placeholder name optional =>
    name.toList ≠ [] ∧ AllInk name.toList ∧ closing optional ∉ name.toList

instance : DecidablePred WellFormed := fun token =>
  match token with
  | .word text =>
    inferInstanceAs (Decidable (text.toList ≠ [] ∧ AllInk text.toList
      ∧ text.toList.head? ≠ some '<' ∧ text.toList.head? ≠ some '['))
  | .placeholder name optional =>
    inferInstanceAs (Decidable (name.toList ≠ [] ∧ AllInk name.toList
      ∧ closing optional ∉ name.toList))

theorem render_placeholder (name : String) (optional : Bool) :
    (placeholder name optional).render
      = opening optional :: (name.toList ++ [closing optional]) := by
  cases optional <;> rfl

theorem WellFormed.startsInk_render {token : Token} (h : token.WellFormed) :
    StartsInk token.render := by
  cases token with
  | word text => exact h.2.1.startsInk h.1
  | placeholder name optional =>
    rw [render_placeholder]
    refine ⟨_, _, rfl, ?_⟩
    cases optional <;> decide

end Token

namespace Path

/-! ## Reading one token -/

section Placeholders

variable {close x : Char} {optional : Bool} {consumed text : List Char} {token : Option Token}
  {c after : Cursor}

theorem next_eq_some_iff :
    c.next = (some x, after) ↔ ∃ left, c.rest = x :: left ∧ after = ⟨c.consumed ++ [x], left⟩ := by
  obtain ⟨consumed, rest⟩ := c
  cases rest with
  | nil => simp [Cursor.next]
  | cons y rest =>
    simp only [Cursor.next, Prod.mk.injEq, Option.some.injEq, List.cons.injEq]
    constructor
    · rintro ⟨rfl, rfl⟩
      exact ⟨rest, ⟨rfl, rfl⟩, rfl⟩
    · rintro ⟨left, ⟨rfl, rfl⟩, rfl⟩
      exact ⟨rfl, rfl⟩

/-- The name in front of a closing bracket is the longest start of the text without it and without
a blank. -/
theorem takeWhile_name_iff {name left : List Char} :
    text.takeWhile (fun y => decide (y ≠ close) && Text.isInk y) = name
        ∧ text.dropWhile (fun y => decide (y ≠ close) && Text.isInk y) = close :: left
      ↔ AllInk name ∧ close ∉ name ∧ text = name ++ close :: left := by
  constructor
  · rintro ⟨rfl, hdrop⟩
    have hname : ∀ y ∈ text.takeWhile (fun y => decide (y ≠ close) && Text.isInk y),
        y ≠ close ∧ Text.isInk y = true := by
      intro y hy
      simpa using List.mem_takeWhile_imp hy
    refine ⟨fun y hy => (hname y hy).2, fun hmem => (hname close hmem).1 rfl, ?_⟩
    rw [← hdrop, List.takeWhile_append_dropWhile]
  · rintro ⟨hink, hclose, rfl⟩
    have hall : ∀ y ∈ name, (decide (y ≠ close) && Text.isInk y) = true := by
      intro y hy
      rw [hink y hy, Bool.and_true, decide_eq_true_eq]
      rintro rfl
      exact hclose hy
    rw [List.takeWhile_append_of_pos hall, List.dropWhile_append_of_pos hall]
    simp

/-- A placeholder is read exactly if a name and then the closing bracket can be read behind the
opening one. -/
theorem readPlaceholder_steps :
    readPlaceholder close optional c = (.ok token, after)
      ↔ ∃ name atClose,
          c.skipOne.readWhile (fun y => decide (y ≠ close) && Text.isInk y) = (name, atClose)
        ∧ atClose.next = (some close, after) ∧ name ≠ []
        ∧ token = some (.placeholder (String.ofList name) optional) := by
  unfold readPlaceholder
  rcases c.skipOne.readWhile (fun y => decide (y ≠ close) && Text.isInk y) with ⟨name, atClose⟩
  rcases hnext : atClose.next with ⟨bracket, behind⟩
  dsimp only
  rw [hnext]
  dsimp only
  by_cases hbracket : bracket = some close
  · by_cases hname : name = []
    · simp [hbracket, hname]
    · simp only [hbracket, ne_eq, not_true_eq_false, if_false, List.isEmpty_iff, hname,
        Prod.mk.injEq, Except.ok.injEq]
      constructor
      · rintro ⟨rfl, rfl⟩
        exact ⟨name, atClose, ⟨rfl, rfl⟩, hbracket ▸ hnext, hname, rfl⟩
      · rintro ⟨_, _, ⟨rfl, rfl⟩, hbehind, _, rfl⟩
        rw [hnext] at hbehind
        exact ⟨rfl, (Prod.mk.inj hbehind).2⟩
  · simp only [ne_eq, hbracket, not_false_eq_true, if_true, Prod.mk.injEq, reduceCtorEq, false_and,
      false_iff]
    rintro ⟨_, _, ⟨rfl, rfl⟩, hbehind, _⟩
    rw [hnext] at hbehind
    exact hbracket (Prod.mk.inj hbehind).1

/-- Behind its opening bracket, a placeholder is read exactly if a name without blanks stands there
with its closing bracket behind it, and reading stops behind that bracket. -/
theorem readPlaceholder_eq_ok_iff :
    readPlaceholder close optional ⟨consumed, x :: text⟩ = (.ok token, after)
      ↔ ∃ name left, name ≠ [] ∧ AllInk name ∧ close ∉ name ∧ text = name ++ close :: left
        ∧ token = some (.placeholder (String.ofList name) optional)
        ∧ after = ⟨consumed ++ x :: (name ++ [close]), left⟩ := by
  have hopened : (Cursor.mk consumed (x :: text)).skipOne = ⟨consumed ++ [x], text⟩ := rfl
  rw [readPlaceholder_steps, hopened]
  unfold Cursor.readWhile
  constructor
  · rintro ⟨name, atClose, hread, hnext, hne, rfl⟩
    obtain ⟨hname, rfl⟩ := Prod.mk.inj hread
    obtain ⟨left, hrest, rfl⟩ := next_eq_some_iff.mp hnext
    obtain ⟨hink, hclose, htext⟩ := takeWhile_name_iff.mp ⟨hname, hrest⟩
    refine ⟨name, left, hne, hink, hclose, htext, rfl, ?_⟩
    rw [hname, List.append_assoc, List.append_assoc]
    rfl
  · rintro ⟨name, left, hne, hink, hclose, htext, rfl, rfl⟩
    obtain ⟨htake, hdrop⟩ := takeWhile_name_iff.mpr ⟨hink, hclose, htext⟩
    rw [htake, hdrop]
    exact ⟨name, _, rfl, by simp [Cursor.next], hne, rfl⟩

end Placeholders

section Tokens

variable {c after : Cursor} {token : Token} {gap text left : List Char}

/-- What stands behind the blanks of a text: nothing, the opening bracket of a placeholder, or the
first character of a word. -/
theorem start_cases (text : List Char) :
    AllBlank text
      ∨ (∃ gap optional later, AllBlank gap ∧ text = gap ++ Token.opening optional :: later)
      ∨ ∃ gap x later, AllBlank gap ∧ Text.isInk x = true ∧ x ≠ '<' ∧ x ≠ '['
        ∧ text = gap ++ x :: later := by
  have hgap := Text.allBlank_leadingBlanks text
  have hsplit := (Text.leadingBlanks_append_trimLeft text).symm
  cases hlater : Text.trimLeft text with
  | nil => exact .inl (Text.trimLeft_eq_nil_iff.mp hlater)
  | cons x later =>
    have hink : StartsInk (x :: later) := hlater ▸ Text.startsInk_trimLeft (by simp [hlater])
    rw [hlater] at hsplit
    by_cases hopening : ∃ optional, x = Token.opening optional
    · obtain ⟨optional, rfl⟩ := hopening
      exact .inr (.inl ⟨_, optional, later, hgap, hsplit⟩)
    · refine .inr (.inr ⟨_, x, later, hgap, Text.startsInk_cons_iff.mp hink, ?_, ?_, hsplit⟩)
      · exact fun hx => hopening ⟨false, hx⟩
      · exact fun hx => hopening ⟨true, hx⟩

theorem readToken_of_allBlank (h : AllBlank c.rest) :
    readToken c = (.ok none, ⟨c.consumed ++ c.rest, []⟩) := by
  obtain ⟨consumed, rest⟩ := c
  have hstart := @Cursor.skipBlanks_append consumed rest [] h rfl
  rw [List.append_nil] at hstart
  unfold readToken
  rw [hstart]
  rfl

theorem readToken_of_opening {optional : Bool} (hgap : AllBlank gap)
    (hrest : c.rest = gap ++ Token.opening optional :: text) :
    readToken c = readPlaceholder (Token.closing optional) optional
      ⟨c.consumed ++ gap, Token.opening optional :: text⟩ := by
  obtain ⟨consumed, rest⟩ := c
  obtain rfl : rest = gap ++ Token.opening optional :: text := hrest
  have hink : StartsInk (Token.opening optional :: text) := by
    cases optional <;> exact Text.startsInk_cons_iff.mpr (by decide)
  unfold readToken
  rw [Cursor.skipBlanks_append hgap (Text.trimLeft_of_startsInk hink)]
  cases optional <;> rfl

theorem readToken_of_word {x : Char} (hgap : AllBlank gap) (hink : Text.isInk x = true)
    (hangle : x ≠ '<') (hsquare : x ≠ '[') (hrest : c.rest = gap ++ x :: text) :
    readToken c = (.ok (some (.word (String.ofList (Text.firstWord (x :: text))))),
      ⟨c.consumed ++ (gap ++ Text.firstWord (x :: text)), Text.afterWord (x :: text)⟩) := by
  obtain ⟨consumed, rest⟩ := c
  obtain rfl : rest = gap ++ x :: text := hrest
  have hstarts : StartsInk (x :: text) := Text.startsInk_cons_iff.mpr hink
  unfold readToken
  rw [Cursor.skipBlanks_append hgap (Text.trimLeft_of_startsInk hstarts), ← List.append_assoc]
  dsimp only [Cursor.peek?, List.head?_cons]
  split
  · next hnone => cases hnone
  · next hhead => exact absurd (Option.some.inj hhead) hangle
  · next hhead => exact absurd (Option.some.inj hhead) hsquare
  · rfl

/-- A well-formed token is read behind any blanks, and reading stops right behind it. -/
theorem readToken_of_wellFormed (hgap : AllBlank gap) (htoken : token.WellFormed)
    (hleft : token.isWord = true → Separated left)
    (hrest : c.rest = gap ++ (token.render ++ left)) :
    readToken c = (.ok (some token), ⟨c.consumed ++ (gap ++ token.render), left⟩) := by
  cases token with
  | word word =>
    obtain ⟨hne, hink, hangle, hsquare⟩ := htoken
    have hsep : Separated left := hleft rfl
    cases hword : word.toList with
    | nil => exact absurd hword hne
    | cons x others =>
      rw [hword] at hink hangle hsquare
      have hsplit : c.rest = gap ++ x :: (others ++ left) := by
        rw [hrest, Token.render, hword, List.cons_append]
      have hread := readToken_of_word hgap (hink x List.mem_cons_self)
        (fun h => hangle (congrArg some h)) (fun h => hsquare (congrArg some h)) hsplit
      rw [← List.cons_append, Text.firstWord_append hink hsep, Text.afterWord_append hink hsep,
        ← hword, String.ofList_toList] at hread
      exact hread
  | placeholder name optional =>
    obtain ⟨hne, hink, hclose⟩ := htoken
    rw [Token.render_placeholder, List.cons_append, List.append_assoc] at hrest
    rw [readToken_of_opening hgap hrest, readPlaceholder_eq_ok_iff]
    refine ⟨name.toList, left, hne, hink, hclose, rfl, by rw [String.ofList_toList], ?_⟩
    rw [Token.render_placeholder, List.append_assoc]

/-- A token is read exactly if it stands behind the blanks at the cursor, with a blank or the end
behind a word, and reading stops right behind it. -/
theorem readToken_eq_ok_iff :
    readToken c = (.ok (some token), after)
      ↔ ∃ gap left, AllBlank gap ∧ token.WellFormed ∧ (token.isWord = true → Separated left)
        ∧ c.rest = gap ++ (token.render ++ left)
        ∧ after = ⟨c.consumed ++ (gap ++ token.render), left⟩ := by
  constructor
  · intro h
    obtain hblank | ⟨gap, optional, text, hgap, hrest⟩
        | ⟨gap, x, text, hgap, hink, hangle, hsquare, hrest⟩ := start_cases c.rest
    · rw [readToken_of_allBlank hblank] at h
      cases h
    · rw [readToken_of_opening hgap hrest, readPlaceholder_eq_ok_iff] at h
      obtain ⟨name, left, hne, hname, hclose, rfl, htoken, rfl⟩ := h
      obtain rfl := Option.some.inj htoken
      refine ⟨gap, left, hgap, ?_, ?_, ?_, ?_⟩
      · simpa [Token.WellFormed] using ⟨hne, hname, hclose⟩
      · intro hword
        cases hword
      · simp [hrest, Token.render_placeholder]
      · simp [Token.render_placeholder]
    · rw [readToken_of_word hgap hink hangle hsquare hrest] at h
      cases h
      have hfirst : Text.firstWord (x :: text) = x :: Text.firstWord text := by
        simp [Text.firstWord, hink]
      refine ⟨gap, Text.afterWord (x :: text), hgap, ?_, ?_, ?_, ?_⟩
      · refine ⟨?_, ?_, ?_, ?_⟩ <;> rw [String.toList_ofList]
        · exact Text.firstWord_ne_nil (Text.startsInk_cons_iff.mpr hink)
        · exact Text.allInk_firstWord _
        · simpa [hfirst] using hangle
        · simpa [hfirst] using hsquare
      · exact fun _ => Text.separated_afterWord _
      · rw [hrest, Token.render, String.toList_ofList, Text.firstWord_append_afterWord]
      · rw [Token.render, String.toList_ofList]
  · rintro ⟨gap, left, hgap, htoken, hleft, hrest, rfl⟩
    exact readToken_of_wellFormed hgap htoken hleft hrest

/-- The path ends exactly if nothing but blanks is left of it. -/
theorem readToken_eq_end_iff :
    readToken c = (.ok none, after) ↔ AllBlank c.rest ∧ after = ⟨c.consumed ++ c.rest, []⟩ := by
  constructor
  · intro h
    obtain hblank | ⟨gap, optional, text, hgap, hrest⟩
        | ⟨gap, x, text, hgap, hink, hangle, hsquare, hrest⟩ := start_cases c.rest
    · rw [readToken_of_allBlank hblank] at h
      cases h
      exact ⟨hblank, rfl⟩
    · rw [readToken_of_opening hgap hrest, readPlaceholder_eq_ok_iff] at h
      obtain ⟨_, _, _, _, _, _, hnone, _⟩ := h
      cases hnone
    · rw [readToken_of_word hgap hink hangle hsquare hrest] at h
      cases h
  · rintro ⟨hblank, rfl⟩
    exact readToken_of_allBlank hblank

end Tokens

/-! ## Laying tokens out -/

/-- A text spells tokens: each of them stands in it as it is written, behind blanks or none, and a
blank or the end follows each word. -/
inductive Spells : List Token → List Char → Prop where
  | nil {gap : List Char} : AllBlank gap → Spells [] gap
  | cons {gap text : List Char} {token : Token} {tokens : List Token} :
    AllBlank gap → token.WellFormed → (token.isWord = true → Separated text) →
    Spells tokens text → Spells (token :: tokens) (gap ++ (token.render ++ text))

variable {tokens : List Token} {text : List Char}

theorem Spells.wellFormed (h : Spells tokens text) : ∀ token ∈ tokens, token.WellFormed := by
  induction h with
  | nil => exact List.forall_mem_nil _
  | cons _ htoken _ _ ih => exact List.forall_mem_cons.mpr ⟨htoken, ih⟩

theorem spells_nil_iff {c : Cursor} :
    Spells [] c.rest ↔ ∃ after, readToken c = (.ok none, after) := by
  constructor
  · intro h
    cases h with
    | nil hblank => exact ⟨_, readToken_of_allBlank hblank⟩
  · rintro ⟨after, hread⟩
    exact .nil (readToken_eq_end_iff.mp hread).1

/-- The first token that a text spells is the one that is read, and what reading leaves spells the
others. -/
theorem spells_cons_iff {c : Cursor} {token : Token} :
    Spells (token :: tokens) c.rest
      ↔ ∃ after, readToken c = (.ok (some token), after) ∧ Spells tokens after.rest := by
  constructor
  · intro h
    generalize hrest : c.rest = rest at h
    cases h with
    | cons hgap htoken hleft hlater =>
      exact ⟨_, readToken_of_wellFormed hgap htoken hleft hrest, hlater⟩
  · rintro ⟨after, hread, hlater⟩
    obtain ⟨gap, left, hgap, htoken, hleft, hrest, rfl⟩ := readToken_eq_ok_iff.mp hread
    rw [hrest]
    exact .cons hgap htoken hleft hlater

/-- Reading a token takes at least one character. -/
theorem length_rest_lt_of_readToken {c after : Cursor} {token : Token}
    (h : readToken c = (.ok (some token), after)) : after.rest.length < c.rest.length := by
  obtain ⟨gap, left, _, htoken, _, hrest, rfl⟩ := readToken_eq_ok_iff.mp h
  have hrender := List.length_pos_iff.mpr htoken.startsInk_render.ne_nil
  rw [hrest, List.length_append, List.length_append]
  dsimp only
  omega

theorem readTokens_succ_nil_iff {fuel : Nat} {c : Cursor} :
    readTokens (fuel + 1) c = .ok [] ↔ ∃ after, readToken c = (.ok none, after) := by
  rw [readTokens]
  obtain ⟨fault | _ | token, after⟩ := readToken c
  · simp
  · simp
  · dsimp only
    cases readTokens fuel after <;> simp

theorem readTokens_succ_cons_iff {fuel : Nat} {c : Cursor} {token : Token} :
    readTokens (fuel + 1) c = .ok (token :: tokens)
      ↔ ∃ after, readToken c = (.ok (some token), after) ∧ readTokens fuel after = .ok tokens := by
  rw [readTokens]
  obtain ⟨fault | _ | other, behind⟩ := readToken c
  · simp
  · simp
  · dsimp only
    constructor
    · intro h
      cases hlater : readTokens fuel behind with
      | error fault =>
        rw [hlater] at h
        cases h
      | ok later =>
        rw [hlater] at h
        cases h
        exact ⟨behind, rfl, hlater⟩
    · rintro ⟨after, hread, hlater⟩
      cases hread
      rw [hlater]

/-- Within the bound on their number, the tokens that are read are those that the text spells. -/
theorem readTokens_eq_ok_iff {fuel : Nat} {c : Cursor} (hfuel : c.rest.length ≤ fuel) :
    readTokens fuel c = .ok tokens ↔ Spells tokens c.rest := by
  induction fuel generalizing c tokens with
  | zero =>
    have hnil : c.rest = [] := List.eq_nil_of_length_eq_zero (Nat.le_zero.mp hfuel)
    cases tokens with
    | nil =>
      rw [hnil]
      exact iff_of_true rfl (.nil Text.allBlank_nil)
    | cons token tokens =>
      refine iff_of_false (by simp [readTokens]) fun h => ?_
      obtain ⟨after, hread, _⟩ := spells_cons_iff.mp h
      have hlt := length_rest_lt_of_readToken hread
      omega
  | succ fuel ih =>
    cases tokens with
    | nil => rw [readTokens_succ_nil_iff, spells_nil_iff]
    | cons token tokens =>
      rw [readTokens_succ_cons_iff, spells_cons_iff]
      refine exists_congr fun after => and_congr_right fun hread => ih ?_
      have hlt := length_rest_lt_of_readToken hread
      omega

/-- A path is cut into tokens exactly if there are some and the path spells them. -/
theorem tokenize_eq_ok_iff {path : String} :
    tokenize path = .ok tokens ↔ tokens ≠ [] ∧ Spells tokens path.toList := by
  have hread {tokens : List Token} :
      readTokens path.toList.length (.ofText path.toList) = .ok tokens
        ↔ Spells tokens path.toList := readTokens_eq_ok_iff (Nat.le_refl _)
  rw [← hread]
  unfold tokenize
  cases readTokens path.toList.length (.ofText path.toList) with
  | error fault => simp
  | ok read =>
    cases read with
    | nil => cases tokens <;> simp
    | cons first others => cases tokens <;> simp

/-! ## Writing tokens -/

/-- Tokens as they are written in a path, with a space between any two. -/
def render (tokens : List Token) : List Char := Text.joinWith [' '] (tokens.map Token.render)

/-- Well-formed tokens may be written with any blanks around them, where some stand between any
two. -/
theorem spells_laid {lead : List Char} {laid : List (Token × List Char)} (hlead : AllBlank lead)
    (hwell : ∀ p ∈ laid, p.1.WellFormed) (hgaps : ∀ p ∈ laid, AllBlank p.2)
    (hbetween : ∀ p ∈ laid.dropLast, p.2 ≠ []) :
    Spells (laid.map Prod.fst) (lead ++ laid.flatMap fun p => p.1.render ++ p.2) := by
  induction laid generalizing lead with
  | nil => exact .nil (by simpa using hlead)
  | cons p rest ih =>
    obtain ⟨htoken, hothers⟩ := List.forall_mem_cons.mp hwell
    obtain ⟨hgap, hlater⟩ := List.forall_mem_cons.mp hgaps
    rw [List.flatMap_cons, List.append_assoc]
    cases rest with
    | nil =>
      have hend : Spells [] (p.2 ++ []) := .nil (by simpa using hgap)
      exact .cons hlead htoken (fun _ => by simpa using hgap.separated) hend
    | cons q rest =>
      obtain ⟨hbehind, hinner⟩ := List.forall_mem_cons.mp hbetween
      exact .cons hlead htoken (fun _ => hgap.separated_append hbehind _)
        (ih hgap hothers hlater hinner)

theorem spells_render (hwell : ∀ token ∈ tokens, token.WellFormed) :
    Spells tokens (render tokens) := by
  have hspaced : ∀ gap, AllBlank gap → Spells tokens (gap ++ render tokens) := by
    induction tokens with
    | nil => exact fun gap hgap => .nil (by simpa [render] using hgap)
    | cons token rest ih =>
      intro gap hgap
      obtain ⟨htoken, hothers⟩ := List.forall_mem_cons.mp hwell
      cases rest with
      | nil =>
        have hlast := Spells.cons hgap htoken (fun _ => Text.separated_nil) (.nil Text.allBlank_nil)
        simpa [render] using hlast
      | cons next rest =>
        have hspace : AllBlank [' '] := by decide
        have hsep : Separated ([' '] ++ render (next :: rest)) :=
          hspace.separated_append (by simp) _
        have hall := Spells.cons hgap htoken (fun _ => hsep) (ih hothers _ hspace)
        simpa [render, Text.joinWith_cons_cons] using hall
  exact hspaced [] Text.allBlank_nil

/-- Only well-formed tokens are read from a path, and writing them and cutting the result gives them
back.  Well-formed tokens are read back from any path in which they stand as they are written, with
any blanks before, after and between them, where some stand between any two. -/
theorem tokenize_roundTrip :
    (∀ (path : String) (tokens : List Token), tokenize path = .ok tokens →
        (∀ token ∈ tokens, token.WellFormed)
          ∧ tokenize (String.ofList (render tokens)) = .ok tokens)
      ∧ ∀ (lead : List Char) (laid : List (Token × List Char)), laid ≠ [] → AllBlank lead →
        (∀ p ∈ laid, p.1.WellFormed) → (∀ p ∈ laid, AllBlank p.2) →
        (∀ p ∈ laid.dropLast, p.2 ≠ []) →
        tokenize (String.ofList (lead ++ laid.flatMap fun p => p.1.render ++ p.2))
          = .ok (laid.map Prod.fst) := by
  constructor
  · intro path tokens h
    obtain ⟨hne, hspells⟩ := tokenize_eq_ok_iff.mp h
    refine ⟨hspells.wellFormed, tokenize_eq_ok_iff.mpr ⟨hne, ?_⟩⟩
    rw [String.toList_ofList]
    exact spells_render hspells.wellFormed
  · intro lead laid hne hlead hwell hgaps hbetween
    refine tokenize_eq_ok_iff.mpr ⟨by simpa using hne, ?_⟩
    rw [String.toList_ofList]
    exact spells_laid hlead hwell hgaps hbetween

/-- Tokens with brackets in a word and in names. -/
def kick : List Token :=
  [.word "kick[!]", .placeholder "who]" false, .placeholder "reason<" true, .word "now"]

/-- These tokens with a tab and a space behind each. -/
def kickLaid : List (Token × List Char) := kick.map fun token => (token, ['\t', ' '])

/-- A path whose placeholders touch is cut into these tokens, and so are two others. -/
theorem roundTrip_kick :
    (tokenize " kick[!] <who]>[reason<]\tnow" = .ok kick
        ∧ (∀ token ∈ kick, token.WellFormed) ∧ tokenize (String.ofList (render kick)) = .ok kick)
      ∧ AllBlank [' '] ∧ (∀ p ∈ kickLaid, p.1.WellFormed) ∧ (∀ p ∈ kickLaid, AllBlank p.2)
      ∧ (∀ p ∈ kickLaid.dropLast, p.2 ≠ [])
      ∧ tokenize (String.ofList ([' '] ++ kickLaid.flatMap fun p => p.1.render ++ p.2))
          = .ok kick := by
  have hread : tokenize " kick[!] <who]>[reason<]\tnow" = .ok kick := rfl
  have hwell : ∀ p ∈ kickLaid, p.1.WellFormed := by decide
  have hgaps : ∀ p ∈ kickLaid, AllBlank p.2 := by decide
  have hbetween : ∀ p ∈ kickLaid.dropLast, p.2 ≠ [] := by decide
  have hspace : AllBlank [' '] := by decide
  obtain ⟨hwritten, hlaid⟩ := tokenize_roundTrip
  exact ⟨⟨hread, hwritten _ _ hread⟩, hspace, hwell, hgaps, hbetween,
    hlaid [' '] kickLaid (List.cons_ne_nil _ _) hspace hwell hgaps hbetween⟩

end Path

end CommandGrammar
