import CommandGrammar.Proofs.Reading.Heads

/-!
# Blanks at the end

Blanks at the end of an input belong to no word.  A standard type reads the same with them and
without them, unless it takes the rest of the input as it stands: then they are part of the value.
`keepsBlanks` tells the types of which that may be so.
-/

set_option autoImplicit false

namespace CommandGrammar

variable {loose : Prop}

/-! ## Texts -/

namespace Text

/-- The first text is the second one and perhaps, if `loose`, blanks behind it. -/
def Trails (loose : Prop) (text other : List Char) : Prop :=
  ∃ blanks, AllBlank blanks ∧ (blanks ≠ [] → loose) ∧ text = other ++ blanks

theorem Trails.refl (text : List Char) : Trails loose text text :=
  ⟨[], allBlank_nil, fun h => absurd rfl h, (List.append_nil text).symm⟩

theorem Separated.append_blank {text blanks : List Char} (h : Separated text)
    (hblanks : AllBlank blanks) : Separated (text ++ blanks) := by
  cases text with
  | nil => exact hblanks.separated
  | cons c rest => exact separated_cons_iff.mpr (separated_cons_iff.mp h)

namespace Trails

variable {text other : List Char}

theorem separated_iff (h : Trails loose text other) : Separated text ↔ Separated other := by
  obtain ⟨blanks, hblanks, _, rfl⟩ := h
  constructor
  · intro hsep
    cases other with
    | nil => exact separated_nil
    | cons c rest => exact separated_cons_iff.mpr (separated_cons_iff.mp hsep)
  · exact fun hsep => hsep.append_blank hblanks

theorem allBlank_iff (h : Trails loose text other) : AllBlank text ↔ AllBlank other := by
  obtain ⟨blanks, hblanks, _, rfl⟩ := h
  constructor
  · exact fun hall x hx => hall x (List.mem_append_left _ hx)
  · exact fun hother => hother.append hblanks

theorem trimLeft (h : Trails loose text other) :
    Trails loose (Text.trimLeft text) (Text.trimLeft other) := by
  by_cases hblank : AllBlank other
  · rw [trimLeft_eq_nil_iff.mpr (h.allBlank_iff.mpr hblank), trimLeft_eq_nil_iff.mpr hblank]
    exact .refl []
  · obtain ⟨blanks, hblanks, hloose, rfl⟩ := h
    exact ⟨blanks, hblanks, hloose, trimLeft_append_of_not_blank hblank blanks⟩

/-- The word at the front is the same, and what follows it still trails. -/
theorem readWord {c c' : Cursor} (h : Trails loose c.rest c'.rest) :
    c.readWord.1 = c'.readWord.1 ∧ Trails loose c.readWord.2.rest c'.readWord.2.rest := by
  obtain ⟨blanks, hblanks, hloose, hrest⟩ := h
  have hsplit : c = ⟨c.consumed, firstWord c'.rest ++ (afterWord c'.rest ++ blanks)⟩ := by
    rw [← List.append_assoc, firstWord_append_afterWord, ← hrest]
  have hsep := (separated_afterWord c'.rest).append_blank hblanks
  rw [hsplit, Cursor.readWord_append (allInk_firstWord _) hsep]
  exact ⟨rfl, blanks, hblanks, hloose, rfl⟩

theorem startsInk (h : Trails loose text other) (hink : StartsInk other) : StartsInk text := by
  obtain ⟨blanks, _, _, rfl⟩ := h
  exact hink.append blanks

end Trails

end Text

open Text

/-- Behind the blanks, both texts have come to their ends or neither has. -/
theorem Cursor.atEnd_eq_of_trails {c c' : Cursor}
    (h : Trails loose c.skipBlanks.rest c'.skipBlanks.rest) :
    c.skipBlanks.atEnd = c'.skipBlanks.atEnd := by
  have hnil (text : List Char) : AllBlank (trimLeft text) ↔ trimLeft text = [] := by
    constructor
    · intro hblank
      by_contra hne
      exact (startsInk_trimLeft hne).not_separated hblank.separated
    · intro hnil
      rw [hnil]
      exact allBlank_nil
  have hsame : trimLeft c.rest = [] ↔ trimLeft c'.rest = [] := by
    rw [← hnil, ← hnil]
    exact h.allBlank_iff
  rw [Bool.eq_iff_iff]
  exact List.isEmpty_iff.trans (hsame.trans List.isEmpty_iff.symm)

/-! ## Words and quoted texts -/

/-- A text between quotes is closed without the blanks behind it. -/
theorem Quoted.scan_trails {text other : List Char} (h : Trails loose text other) (w : List Char) :
    ((scan '"' text).result = .ok w ↔ (scan '"' other).result = .ok w)
      ∧ ((scan '"' other).result = .ok w →
        Trails loose (scan '"' text).left (scan '"' other).left) := by
  obtain ⟨blanks, hblanks, hloose, rfl⟩ := h
  have hafter : '"' ∉ blanks := fun hmem => absurd (hblanks '"' hmem) (by decide)
  have hlonger (hok : (scan '"' other).result = .ok w) :
      scan '"' (other ++ blanks)
        = ⟨.ok w, (scan '"' other).passed, (scan '"' other).left ++ blanks⟩ := by
    apply scan_append_of_ok (by decide)
    rw [← hok]
  refine ⟨⟨ok_of_scan_append (by decide) hafter, fun hok => ?_⟩, fun hok => ?_⟩
  · rw [hlonger hok]
  · rw [hlonger hok]
    exact ⟨blanks, hblanks, hloose, rfl⟩

theorem Cursor.readText_trails {c c' : Cursor} (h : Trails loose c.rest c'.rest)
    (hink : StartsInk c'.rest) (w : List Char) :
    (c.readText.1 = .ok w ↔ c'.readText.1 = .ok w)
      ∧ (c'.readText.1 = .ok w → Trails loose c.readText.2.rest c'.readText.2.rest) := by
  obtain ⟨consumed, rest⟩ := c
  obtain ⟨consumed', rest'⟩ := c'
  have hpeek : (Cursor.mk consumed rest).peek? = (Cursor.mk consumed' rest').peek? := by
    obtain ⟨x, more, rfl, _⟩ := hink
    obtain ⟨blanks, _, _, rfl⟩ := h
    rfl
  by_cases hquote : (Cursor.mk consumed' rest').peek? = some '"'
  · obtain ⟨x, more, rfl, _⟩ := hink
    cases hquote
    obtain ⟨blanks, hblanks, hloose, rfl⟩ := h
    have hmore : Trails loose (more ++ blanks) more := ⟨blanks, hblanks, hloose, rfl⟩
    have hscan := Quoted.scan_trails hmore w
    simpa [readText, peek?, skipOne, next, readUntil] using hscan
  · obtain ⟨hword, hafter⟩ := h.readWord
    unfold readText
    rw [hpeek, if_neg hquote, if_neg hquote]
    dsimp only
    rw [hword]
    exact ⟨Iff.rfl, fun _ => hafter⟩

/-! ## Reads -/

/-- Two reads give the same value, where one of them gives any, and then what the first one leaves
trails what the second one does. -/
structure Parsed.Alike (loose : Prop) (p q : Parsed) : Prop where
  result : ∀ v, p.result = .ok v ↔ q.result = .ok v
  rest : ∀ v, q.result = .ok v → Trails loose p.cursor.rest q.cursor.rest

/-- What is made of the values alone comes out alike. -/
theorem Parsed.Alike.bind {p q p' q' : Parsed} (h : p.Alike loose q)
    {f : Value → Except CommandError Value} (hp : p'.result = p.result.bind f)
    (hq : q'.result = q.result.bind f) (hcursor : p'.cursor = p.cursor)
    (hcursor' : q'.cursor = q.cursor) : p'.Alike loose q' := by
  have hbind (r : Except CommandError Value) (v : Value) :
      r.bind f = .ok v ↔ ∃ u, r = .ok u ∧ f u = .ok v := by
    cases r <;> simp [Except.bind]
  constructor
  · intro v
    simp only [hp, hq, hbind, h.result]
  · intro v hv
    rw [hq, hbind] at hv
    obtain ⟨u, hu, _⟩ := hv
    rw [hcursor, hcursor']
    exact h.rest u hu

namespace ValueType

/-- Whether a type may take blanks at the end of an input into its value. -/
def keepsBlanks : ValueType → Bool
  | .text => true
  | .list inner => inner.keepsBlanks
  | .ranged inner _ _ => inner.keepsBlanks
  | .validated inner _ _ => inner.keepsBlanks
  | .host _ => true
  | .promotable _ _ => true
  | _ => false

/-- The type reads a text alike with blanks behind it and without. -/
def ReadsAlike (loose : Prop) (t : ValueType) : Prop :=
  ∀ (c c' : Cursor) (context other : Context), StartsInk c'.rest → Trails loose c.rest c'.rest →
    (t.parse c context).Alike loose (t.parse c' other)

/-! ### Entries of lists -/

/-- What is read up to a boundary from a word on is not empty. -/
theorem length_lt_of_moved {text left : List Char} (h : ∃ taken, text = taken ++ left)
    (hink : StartsInk text) (hsep : Separated left) : left.length < text.length := by
  obtain ⟨taken, rfl⟩ := h
  have hne : taken ≠ [] := by
    rintro rfl
    exact hink.not_separated hsep
  have hpos : 0 < taken.length := List.length_pos_of_ne_nil hne
  rw [List.length_append]
  omega

section Entries

variable {readOne readOther : Cursor → Parsed}

theorem readEntries_succ_eq_ok_iff {fuel : Nat} {c : Cursor} {items : List Value} :
    (readEntries readOne (fuel + 1) c).1 = .ok items
      ↔ (c.skipBlanks.atEnd = true ∧ items = [])
        ∨ (c.skipBlanks.atEnd = false ∧ ∃ value later,
            (readOne c.skipBlanks).result = .ok value
            ∧ Separated (readOne c.skipBlanks).cursor.rest
            ∧ (readEntries readOne fuel (readOne c.skipBlanks).cursor).1 = .ok later
            ∧ items = value :: later) := by
  rw [readEntries]
  dsimp only
  cases hend : c.skipBlanks.atEnd with
  | true => simp [eq_comm]
  | false =>
    cases readOne c.skipBlanks with
    | mk result after notes =>
      cases result with
      | error e => simp
      | ok value =>
        rw [Cursor.separated_rest_iff]
        cases hsep : !after.atEnd && !after.atBlank with
        | true => simp [hsep]
        | false =>
          cases hlater : readEntries readOne fuel after with
          | mk later rest => cases later <;> simp [hsep, hlater, Except.map, eq_comm]

/-- Where one entry is read alike, so are all. -/
theorem readEntries_trails
    (hone : ∀ c c', StartsInk c'.rest → Trails loose c.rest c'.rest →
      (readOne c).Alike loose (readOther c'))
    (hmoved : ∀ c, ∃ taken, c.rest = taken ++ (readOne c).cursor.rest)
    (hmoved' : ∀ c, ∃ taken, c.rest = taken ++ (readOther c).cursor.rest)
    {fuel fuel' : Nat} {c c' : Cursor} (h : Trails loose c.rest c'.rest)
    (hfuel : c.rest.length < fuel) (hfuel' : c'.rest.length < fuel') (items : List Value) :
    (readEntries readOne fuel c).1 = .ok items
      ↔ (readEntries readOther fuel' c').1 = .ok items := by
  induction fuel generalizing fuel' c c' items with
  | zero => omega
  | succ fuel ih =>
    obtain ⟨fuel', rfl⟩ := Nat.exists_eq_succ_of_ne_zero (Nat.ne_zero_of_lt hfuel')
    have hskipped : Trails loose c.skipBlanks.rest c'.skipBlanks.rest := h.trimLeft
    rw [readEntries_succ_eq_ok_iff, readEntries_succ_eq_ok_iff, Cursor.atEnd_eq_of_trails hskipped]
    refine or_congr_right (and_congr_right fun hopen => exists_congr fun value => exists_congr
      fun later => ?_)
    have hink := Cursor.startsInk_skipBlanks hopen
    have halike := hone _ _ hink hskipped
    rw [halike.result]
    refine and_congr_right fun hvalue => ?_
    have hrest := halike.rest value hvalue
    rw [hrest.separated_iff]
    refine and_congr_right fun hsep => and_congr_left fun _ => ih hrest ?_ ?_ later
    · have hless := length_lt_of_moved (hmoved c.skipBlanks) (hskipped.startsInk hink)
        (hrest.separated_iff.mpr hsep)
      have hle := length_trimLeft_le c.rest
      have hskip : c.skipBlanks.rest = trimLeft c.rest := rfl
      rw [hskip] at hless
      omega
    · have hless := length_lt_of_moved (hmoved' c'.skipBlanks) hink hsep
      have hle := length_trimLeft_le c'.rest
      have hskip : c'.skipBlanks.rest = trimLeft c'.rest := rfl
      rw [hskip] at hless
      omega

end Entries

/-! ### Types -/

section

variable {t inner : ValueType}

theorem TakesWord.readsAlike {f : List Char → Except CommandError Value} (h : TakesWord t f) :
    t.ReadsAlike loose := by
  intro c c' context other _ htrails
  obtain ⟨hword, hafter⟩ := htrails.readWord
  rw [h c context, h c' other, hword]
  exact ⟨fun _ => Iff.rfl, fun _ _ => hafter⟩

theorem TakesText.readsAlike {f : Except InputFault (List Char) → Except CommandError Value}
    (h : TakesText t f) (hfault : ∀ fault v, f (.error fault) ≠ .ok v) :
    t.ReadsAlike loose := by
  have hok (read : Except InputFault (List Char)) (v : Value) :
      f read = .ok v ↔ ∃ w, read = .ok w ∧ f (.ok w) = .ok v := by
    cases read with
    | error fault => simp [hfault]
    | ok w => simp
  intro c c' context other hink htrails
  have htext := Cursor.readText_trails htrails hink
  rw [h c context, h c' other]
  constructor
  · intro v
    simp only [hok c.readText.1, hok c'.readText.1, htext]
  · intro v hv
    obtain ⟨w, hw, _⟩ := (hok _ v).mp hv
    exact (htext w).2 hw

/-- What is left of a list is nothing. -/
theorem readsAlike_list (h : inner.ReadsAlike loose)
    (hmoved : ∀ c context, ∃ taken, c.rest = taken ++ (inner.parse c context).cursor.rest) :
    (list inner).ReadsAlike loose := by
  intro c c' context other _ htrails
  have hitems : ∀ items, (readEntries (inner.parse · context) (c.rest.length + 1) c).1 = .ok items
      ↔ (readEntries (inner.parse · other) (c'.rest.length + 1) c').1 = .ok items :=
    readEntries_trails (fun c c' => h c c' context other) (hmoved · context) (hmoved · other)
      htrails (Nat.lt_succ_self _) (Nat.lt_succ_self _)
  have hmap (read : Except CommandError (List Value)) (v : Value) :
      read.map Value.list = .ok v ↔ ∃ items, read = .ok items ∧ .list items = v := by
    cases read <;> simp [Except.map]
  have hresult : ∀ v, ((list inner).parse c context).result = .ok v
      ↔ ((list inner).parse c' other).result = .ok v := by
    intro v
    simp only [parse, hmap, hitems]
  refine ⟨hresult, fun v hv => ?_⟩
  have hend := atEnd_of_list hv
  have hend' := atEnd_of_list ((hresult v).mpr hv)
  rw [List.isEmpty_iff.mp hend, List.isEmpty_iff.mp hend']
  exact .refl []

theorem result_ranged (inner : ValueType) (min max : Option Numeric.Binary64) (c : Cursor)
    (context : Context) :
    ((ranged inner min max).parse c context).result
        = (inner.parse c context).result.bind (boundValue min max)
      ∧ ((ranged inner min max).parse c context).cursor = (inner.parse c context).cursor := by
  simp only [parse]
  cases inner.parse c context with
  | mk result after notes => cases result <;> exact ⟨rfl, rfl⟩

theorem readsAlike_ranged (h : inner.ReadsAlike loose) (min max : Option Numeric.Binary64) :
    (ranged inner min max).ReadsAlike loose := by
  intro c c' context other hink htrails
  obtain ⟨hresult, hcursor⟩ := result_ranged inner min max c context
  obtain ⟨hresult', hcursor'⟩ := result_ranged inner min max c' other
  exact (h c c' context other hink htrails).bind hresult hresult' hcursor hcursor'

theorem result_validated (inner : ValueType) (p : Parameter) {validators : List Validator}
    (hvalidators : ∀ v ∈ validators, v.IsBuiltIn) (c : Cursor) (context other : Context) :
    ((validated inner p validators).parse c context).result
        = (inner.parse c context).result.bind (fun value =>
          (Validator.checkAll value p other validators).verdict.map fun _ => value)
      ∧ ((validated inner p validators).parse c context).cursor
        = (inner.parse c context).cursor := by
  simp only [parse]
  cases inner.parse c context with
  | mk result after notes =>
    cases result with
    | error e => exact ⟨rfl, rfl⟩
    | ok value =>
      dsimp only
      rw [Validator.checkAll_eq hvalidators value p context other]
      exact ⟨rfl, rfl⟩

theorem readsAlike_validated (h : inner.ReadsAlike loose) (p : Parameter)
    {validators : List Validator} (hvalidators : ∀ v ∈ validators, v.IsBuiltIn) :
    (validated inner p validators).ReadsAlike loose := by
  intro c c' context other hink htrails
  obtain ⟨hresult, hcursor⟩ := result_validated inner p hvalidators c context other
  obtain ⟨hresult', hcursor'⟩ := result_validated inner p hvalidators c' other other
  exact (h c c' context other hink htrails).bind hresult hresult' hcursor hcursor'

/-- The rest of an input is read alike if no blanks follow. -/
theorem readsAlike_text (htight : ¬ loose) : ReadsAlike loose .text := by
  rintro c c' context other _ ⟨blanks, _, hloose, hrest⟩
  have hnone : blanks = [] := by
    by_contra hne
    exact htight (hloose hne)
  rw [hnone, List.append_nil] at hrest
  simp only [parse_text, Cursor.readRest, hrest]
  exact ⟨fun _ => Iff.rfl, fun _ _ => .refl []⟩

theorem Standard.exists_taken (h : t.Standard) (c : Cursor) (context : Context) :
    ∃ taken, c.rest = taken ++ (t.parse c context).cursor.rest := by
  obtain ⟨taken, left, hrest, hcursor⟩ := h.exists_moved c context
  exact ⟨taken, by rw [hcursor, hrest]⟩

theorem BuiltIn.readsAlike (h : t.BuiltIn) (hkeeps : loose → t.keepsBlanks = false) :
    t.ReadsAlike loose := by
  induction h with
  | int => exact takesWord_int.readsAlike
  | float => exact takesWord_float.readsAlike
  | bool => exact takesText_bool.readsAlike fun _ _ h => nomatch h
  | char => exact takesWord_char.readsAlike
  | string => exact takesText_string.readsAlike fun _ _ h => nomatch h
  | text => exact readsAlike_text fun hloose => Bool.noConfusion (hkeeps hloose)
  | enumeration spec caseSensitive => exact (takesWord_enumeration spec caseSensitive).readsAlike
  | list h ih => exact readsAlike_list (ih hkeeps) (Standard.builtIn h).exists_taken
  | ranged _ min max ih => exact readsAlike_ranged (ih hkeeps) min max

/-- A standard type reads a text alike with blanks behind it and without, if it does not keep
them. -/
theorem Standard.readsAlike (h : t.Standard) (hkeeps : loose → t.keepsBlanks = false) :
    t.ReadsAlike loose := by
  induction h with
  | builtIn h => exact h.readsAlike hkeeps
  | list h ih => exact readsAlike_list (ih hkeeps) h.exists_taken
  | ranged _ min max ih => exact readsAlike_ranged (ih hkeeps) min max
  | validated _ p hvalidators ih => exact readsAlike_validated (ih hkeeps) p hvalidators

/-- The same text is read alike, whatever came before it. -/
theorem Standard.alike_of_rest_eq (h : t.Standard) {c c' : Cursor} (hrest : c.rest = c'.rest)
    (context other : Context) : (t.parse c context).Alike loose (t.parse c' other) := by
  rw [h.parse_eq_behind c context other, h.parse_eq_behind c' other other, hrest]
  exact ⟨fun _ => Iff.rfl, fun _ _ => .refl _⟩

end

end ValueType

/-! ## Slots -/

/-- So does a slot, and where nothing but blanks is left, it reads its default text. -/
theorem Slot.parse_alike {s : Slot} (htype : s.type.Standard)
    (hkeeps : loose → s.type.keepsBlanks = false) {c c' : Cursor} {context other : Context}
    (hactor : context.actor = other.actor)
    (h : Trails loose c.skipBlanks.rest c'.skipBlanks.rest) :
    (s.parse c.skipBlanks context).Alike loose (s.parse c'.skipBlanks other) := by
  have hend := Cursor.atEnd_eq_of_trails h
  unfold Slot.parse
  rw [hactor, hend]
  split
  · exact ⟨fun _ => Iff.rfl, fun _ hv => nomatch hv⟩
  · split
    · next hatEnd =>
      have hnil : c.skipBlanks.rest = [] := List.isEmpty_iff.mp (hend.trans hatEnd)
      have hnil' : c'.skipBlanks.rest = [] := List.isEmpty_iff.mp hatEnd
      split
      · exact ⟨fun _ => Iff.rfl, fun _ hv => nomatch hv⟩
      · split
        · refine htype.alike_of_rest_eq ?_ context other
          rw [Cursor.extend_rest, Cursor.extend_rest, hnil, hnil']
        · exact ⟨fun _ => Iff.rfl, fun _ _ => h⟩
    · next hopen =>
      have hink := Cursor.startsInk_skipBlanks (Bool.not_eq_true _ ▸ hopen)
      exact htype.readsAlike hkeeps _ _ context other hink h

end CommandGrammar
