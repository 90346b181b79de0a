import CommandGrammar.Proofs.Reading.Local
import CommandGrammar.Proofs.Text.SmallLetters

/-!
# Suggested names of variants

A type of enumerated names suggests the names themselves, or all of them in small letters where the
case does not matter.  A suggestion is one word, so typing it takes the whole of it.

The small letters are those of Unicode, while names are compared up to ASCII case.  A suggested name
is therefore read as the name that it comes from only if that has no capital beyond ASCII, and
otherwise only if another name happens to fit: `suggestions_readBack`.
-/

set_option autoImplicit false

namespace CommandGrammar.ValueType

variable {spec : Enumeration} {caseSensitive : Bool} {context : Context}

/-- Typing `text`, and nothing else, gives the variant `v`. -/
def ReadsAs (spec : Enumeration) (caseSensitive : Bool) (context : Context) (text v : String) :
    Prop :=
  (enumeration spec caseSensitive).parse (.ofText text.toList) context
    = ⟨.ok (.variant v), ⟨text.toList, []⟩, []⟩

/-- A name in small letters. -/
def smallName (v : String) : String := String.ofList (Text.lowerCase v.toList)

@[simp] theorem toList_smallName (v : String) :
    (smallName v).toList = Text.lowerCase v.toList := String.toList_ofList

/-! ## One word -/

/-- A word that is all of the input is taken whole, and names what is found by it. -/
theorem parse_word {text : String} (htext : Text.AllInk text.toList) :
    (enumeration spec caseSensitive).parse (.ofText text.toList) context
      = ⟨(variantOf? spec caseSensitive text.toList).elim
          (.error (.rejected text.toList
            ("expected one of: " ++ Text.enumerate spec.variants)))
          fun v => .ok (.variant v), ⟨text.toList, []⟩, []⟩ := by
  have hword : (Cursor.ofText text.toList).readWord = (text.toList, ⟨text.toList, []⟩) := by
    simpa using (Cursor.readWord_ofText_append Text.separated_nil).mpr ⟨rfl, htext⟩
  rw [parse, readVariant, hword]
  dsimp only
  cases variantOf? spec caseSensitive text.toList <;> rfl

theorem readsAs_iff {text v : String} (htext : Text.AllInk text.toList) :
    ReadsAs spec caseSensitive context text v
      ↔ variantOf? spec caseSensitive text.toList = some v := by
  rw [ReadsAs, parse_word htext]
  cases variantOf? spec caseSensitive text.toList <;> simp

/-- Where a word is accepted, it is read as a variant. -/
theorem exists_readsAs {text : String} (htext : Text.AllInk text.toList) {value : Value}
    (hread : ((enumeration spec caseSensitive).parse (.ofText text.toList) context).result
      = .ok value) :
    ∃ v, value = .variant v ∧ ReadsAs spec caseSensitive context text v := by
  rw [parse_word htext] at hread
  cases hfound : variantOf? spec caseSensitive text.toList with
  | none =>
    rw [hfound] at hread
    cases hread
  | some v =>
    rw [hfound] at hread
    exact ⟨v, (Except.ok.inj hread).symm, (readsAs_iff htext).mpr hfound⟩

/-! ## The variant of a word -/

/-- A variant is found by its own name. -/
theorem variantOf?_self {v : String} (hv : v ∈ spec.variants) :
    variantOf? spec true v.toList = some v := by
  have hsome : (variantOf? spec true v.toList).isSome = true :=
    List.find?_isSome.mpr ⟨v, hv, by simp⟩
  obtain ⟨w, hw⟩ := Option.isSome_iff_exists.mp hsome
  have hsame : w.toList = v.toList := by simpa using List.find?_some hw
  rw [hw, String.toList_inj.mp hsame]

/-- A word that finds a variant equals its name up to ASCII case. -/
theorem sameFolded_of_variantOf? {word : List Char} {w : String}
    (h : variantOf? spec false word = some w) :
    w ∈ spec.variants ∧ Text.sameFolded w.toList word = true :=
  ⟨List.mem_of_find?_eq_some h, by simpa using List.find?_some h⟩

/-- Up to ASCII case, a word finds a variant if it equals the name of one. -/
theorem exists_variantOf? {word : List Char} {w : String} (hw : w ∈ spec.variants)
    (hsame : Text.sameFolded w.toList word = true) : ∃ v, variantOf? spec false word = some v :=
  Option.isSome_iff_exists.mp (List.find?_isSome.mpr ⟨w, hw, by simpa using hsame⟩)

/-! ## Suggestions -/

/-- Where the case matters, each suggestion is read as itself.  Where it does not, the suggestions
are the names in small letters.  Such a suggestion is accepted exactly if it equals the name of some
variant up to ASCII case; it is then read as a variant that it equals up to ASCII case, and taken
whole.  It equals the name that it comes from exactly if that has no capital beyond ASCII. -/
theorem suggestions_readBack (spec : Enumeration) (context : Context)
    (hwords : ∀ v ∈ spec.variants, Text.AllInk v.toList) :
    (∀ text ∈ (enumeration spec true).suggestions, ReadsAs spec true context text text)
      ∧ (enumeration spec false).suggestions = spec.variants.map smallName
      ∧ ∀ v ∈ spec.variants,
        (∀ value, ((enumeration spec false).parse (.ofText (smallName v).toList) context).result
            = .ok value →
          ∃ w ∈ spec.variants, value = .variant w
            ∧ Text.sameFolded w.toList (smallName v).toList = true
            ∧ ReadsAs spec false context (smallName v) w)
        ∧ ((∃ w, ReadsAs spec false context (smallName v) w)
          ↔ ∃ w ∈ spec.variants, Text.sameFolded w.toList (smallName v).toList = true)
        ∧ (Text.sameFolded v.toList (smallName v).toList = true ↔ Text.PlainCase v.toList) := by
  refine ⟨fun v hv => (readsAs_iff (hwords v hv)).mpr (variantOf?_self hv), rfl, fun v hv => ?_⟩
  have hink : Text.AllInk (smallName v).toList := by
    rw [toList_smallName]
    exact Text.allInk_lowerCase (hwords v hv)
  refine ⟨fun value hread => ?_, ⟨?_, ?_⟩, ?_⟩
  · obtain ⟨w, hvalue, hreads⟩ := exists_readsAs hink hread
    obtain ⟨hw, hsame⟩ := sameFolded_of_variantOf? ((readsAs_iff hink).mp hreads)
    exact ⟨w, hw, hvalue, hsame, hreads⟩
  · rintro ⟨w, hreads⟩
    exact ⟨w, sameFolded_of_variantOf? ((readsAs_iff hink).mp hreads)⟩
  · rintro ⟨w, hw, hsame⟩
    obtain ⟨found, hfound⟩ := exists_variantOf? hw hsame
    exact ⟨found, (readsAs_iff hink).mpr hfound⟩
  · rw [Text.sameFolded_iff, toList_smallName, eq_comm]
    exact Text.foldCase_lowerCase_iff v.toList

/-- A context of trials of `paint <color>`. -/
def paintContext : Context :=
  .start ⟨⟨1⟩, "player"⟩ ⟨⟨0⟩, "paint <color>", .none⟩ "paint "

/-- A name with capitals of ASCII is suggested in small letters, and read from them. -/
theorem readsBack_capitals :
    (∀ v ∈ ["RED", "Green"], Text.AllInk v.toList)
      ∧ ∃ w, ReadsAs ⟨"Color", ["RED", "Green"]⟩ false paintContext (smallName "RED") w := by
  have hwords : ∀ v ∈ ["RED", "Green"], Text.AllInk v.toList := by decide
  obtain ⟨_, haccepted, hself⟩ := (suggestions_readBack ⟨"Color", ["RED", "Green"]⟩ paintContext
    hwords).2.2 "RED" List.mem_cons_self
  exact ⟨hwords, haccepted.mpr ⟨"RED", List.mem_cons_self, hself.mpr (by decide +kernel)⟩⟩

/-- The only suggestion for this type is refused by it. -/
theorem suggestion_refused :
    (enumeration ⟨"Color", ["Émeraude"]⟩ false).suggestions = ["émeraude"]
      ∧ ((enumeration ⟨"Color", ["Émeraude"]⟩ false).parse (.ofText "émeraude".toList)
          paintContext).result
        = .error (.rejected "émeraude".toList "expected one of: Émeraude") := by
  refine ⟨by decide +kernel, ?_⟩
  rw [parse_word (by decide)]
  rfl

end CommandGrammar.ValueType
