import CommandGrammar.Proofs.Command.Wrappers
import CommandGrammar.Proofs.Reading.Trailing

/-!
# What is let through

A type in wrappers reads what the bare type reads and lets through what its validators accept.  The
entries of a list are read by a type in wrappers of its own, which bound the characters of their
texts as the parameter of the list does.

So a value that the built-in rules let through for a parameter is of the declared type and within
the bounds that are declared, and every validator has accepted it: `fits_of_parse`.
-/

set_option autoImplicit false

namespace CommandGrammar

variable {α : Type}

/-! ## Validators that accept -/

namespace Validator

variable {v : Validator} {validators : List Validator} {value : Value} {p : Parameter}
  {context : Context}

/-- A validator lets a value pass. -/
def Accepts (v : Validator) (value : Value) (p : Parameter) (context : Context) : Prop :=
  (v.check value p context).verdict = .ok ()

theorem checkAll_eq_ok_iff :
    (checkAll value p context validators).verdict = .ok ()
      ↔ ∀ v ∈ validators, v.Accepts value p context := by
  induction validators with
  | nil => simp [checkAll, Checked.pass]
  | cons v rest ih =>
    rw [List.forall_mem_cons, ← ih, checkAll, Accepts]
    cases v.check value p context with
    | mk verdict notes => cases verdict <;> simp

theorem le_of_accepts_length {bounds : Nat × Nat} {text : String}
    (h : length.Accepts value p context) (hbounds : p.length = some bounds)
    (htext : value.text? = some text) :
    bounds.1 ≤ text.toList.length ∧ text.toList.length ≤ bounds.2 := by
  simp only [Accepts, check, hbounds, htext, checkLength] at h
  split at h
  · next hwithin => exact within_iff.mp hwithin
  · cases h

theorem le_of_accepts_size {bounds : Nat × Nat} {items : List Value}
    (h : size.Accepts value p context) (hbounds : p.size = some bounds)
    (hitems : value.list? = some items) :
    bounds.1 ≤ items.length ∧ items.length ≤ bounds.2 := by
  simp only [Accepts, check, hbounds, hitems, checkSize] at h
  split at h
  · next hwithin => exact within_iff.mp hwithin
  · cases h

end Validator

/-! ## Values that fit -/

namespace Value

mutual

/-- The strings and the enumerated names in a value. -/
def texts : Value → List String
  | .string text => [text]
  | .variant name => [name]
  | .list items => textsOfAll items
  | _ => []

/-- The strings and the enumerated names in the entries of a list. -/
def textsOfAll : List Value → List String
  | [] => []
  | item :: rest => texts item ++ textsOfAll rest

end

theorem mem_textsOfAll_iff {text : String} {items : List Value} :
    text ∈ textsOfAll items ↔ ∃ item ∈ items, text ∈ item.texts := by
  induction items with
  | nil => simp [textsOfAll]
  | cons item rest ih => simp [textsOfAll, ih]

end Value

namespace DeclaredType

/-- Whether a type is that of strings, of enumerated names, or of lists of such a type. -/
def isTextual : DeclaredType → Bool
  | .string => true
  | .enumeration _ => true
  | .list inner => inner.isTextual
  | _ => false

/-- A value is one of a declared type. -/
inductive Describes : DeclaredType → Value → Prop where
  | int (n : Int64) : Describes .int (.int n)
  | float (x : Numeric.Binary64) : Describes .float (.float x)
  | bool (b : Bool) : Describes .bool (.bool b)
  | char (x : Char) : Describes .char (.char x)
  | string (text : String) : Describes .string (.string text)
  | enumeration {spec : Enumeration} {name : String} (h : name ∈ spec.variants) :
      Describes (.enumeration spec) (.variant name)
  | list {inner : DeclaredType} {items : List Value} (h : ∀ item ∈ items, Describes inner item) :
      Describes (.list inner) (.list items)

end DeclaredType

/-- A value is what a parameter declares: it is of the declared type, each of its texts has as many
characters as the parameter allows, and it has as many entries. -/
structure Parameter.Fits (p : Parameter) (value : Value) : Prop where
  described : p.declared.Describes value
  length : ∀ bounds ∈ p.length, p.declared.isTextual = true →
    ∀ text ∈ value.texts, bounds.1 ≤ text.toList.length ∧ text.toList.length ≤ bounds.2
  size : ∀ bounds ∈ p.size, ∀ inner, p.declared = .list inner →
    ∃ items, value = .list items ∧ bounds.1 ≤ items.length ∧ items.length ≤ bounds.2

namespace Parameter

variable {p : Parameter} {value : Value} {validators : List Validator} {context : Context}

theorem length_mem_activeValidators {bounds : Nat × Nat} (h : p.length = some bounds) :
    .length ∈ Rule.activeValidators p validators := by
  simp [Rule.activeValidators, h]

theorem size_mem_activeValidators {bounds : Nat × Nat} (h : p.size = some bounds) :
    .size ∈ Rule.activeValidators p validators := by
  simp [Rule.activeValidators, h]

/-- A value of the declared type that the active validators accept is what the parameter declares,
if its entries are what the parameter declares for entries. -/
theorem fits_of_accepts (hdescribed : p.declared.Describes value)
    (hentries : ∀ inner items, p.declared = .list inner → value = .list items →
      ∀ item ∈ items, (p.withType inner).Fits item)
    (haccepts : ∀ v ∈ Rule.activeValidators p validators, v.Accepts value p context) :
    p.Fits value where
  described := hdescribed
  length := by
    intro bounds hbounds htextual text htext
    have hlength := haccepts .length (length_mem_activeValidators hbounds)
    generalize hdeclared : p.declared = declared at hdescribed htextual hentries
    cases hdescribed with
    | string own =>
      rw [List.mem_singleton.mp htext]
      exact Validator.le_of_accepts_length hlength hbounds rfl
    | @enumeration spec name _ =>
      rw [List.mem_singleton.mp htext]
      exact Validator.le_of_accepts_length hlength hbounds rfl
    | @list inner items _ =>
      -- the texts of a list are those of its entries
      obtain ⟨item, hitem, hmem⟩ := Value.mem_textsOfAll_iff.mp htext
      exact (hentries inner items rfl rfl item hitem).length bounds hbounds htextual text hmem
    | _ => cases htextual
  size := by
    intro bounds hbounds inner hlist
    have hsize := haccepts .size (size_mem_activeValidators hbounds)
    rw [hlist] at hdescribed
    cases hdescribed with
    | @list _ items _ => exact ⟨items, rfl, Validator.le_of_accepts_size hsize hbounds rfl⟩

end Parameter

/-! ## Reading in wrappers -/

namespace ValueType

variable {t : ValueType} {c : Cursor} {context : Context} {value : Value} {p : Parameter}
  {validators : List Validator}

theorem eq_of_boundValue {min max : Option Numeric.Binary64} {u : Value}
    (h : boundValue min max u = .ok value) : u = value := by
  unfold boundValue at h
  split at h
  · exact Except.ok.inj h
  · split at h
    · cases h
    · exact Except.ok.inj h

/-- A range reads what the inner type reads. -/
theorem result_of_ranged {min max : Option Numeric.Binary64}
    (h : ((ranged t min max).parse c context).result = .ok value) :
    (t.parse c context).result = .ok value := by
  rw [(result_ranged t min max c context).1] at h
  cases hread : (t.parse c context).result with
  | error e =>
    rw [hread] at h
    cases h
  | ok u =>
    rw [hread] at h
    rw [eq_of_boundValue h]

/-- Validators let through what the inner type reads, if all of them accept it. -/
theorem result_of_validated (h : ((validated t p validators).parse c context).result = .ok value) :
    (t.parse c context).result = .ok value ∧ ∀ v ∈ validators, v.Accepts value p context := by
  simp only [parse] at h
  cases hread : t.parse c context with
  | mk result after notes =>
    rw [hread] at h
    cases result with
    | error e => cases h
    | ok u =>
      dsimp only at h
      cases hverdict : (Validator.checkAll u p context validators).verdict with
      | error e =>
        rw [hverdict] at h
        cases h
      | ok _ =>
        rw [hverdict] at h
        cases h
        exact ⟨rfl, Validator.checkAll_eq_ok_iff.mp hverdict⟩

theorem result_of_inRange (h : ((t.inRange p).parse c context).result = .ok value) :
    (t.parse c context).result = .ok value := by
  unfold inRange at h
  split at h
  · exact h
  · exact result_of_ranged h

/-- All wrappers of a parameter together. -/
theorem result_of_wrapped (h : ((t.wrapped validators p).parse c context).result = .ok value) :
    (t.parse c context).result = .ok value
      ∧ ∀ v ∈ Rule.activeValidators p validators, v.Accepts value p context := by
  unfold wrapped checked at h
  split at h
  · next hnone =>
    rw [hnone]
    exact ⟨result_of_inRange h, List.forall_mem_nil _⟩
  · obtain ⟨hinner, haccepts⟩ := result_of_validated h
    exact ⟨result_of_inRange hinner, haccepts⟩

/-! ## Bare types -/

theorem result_of_map {β : Type} {read : Except CommandError β} {wrap : β → Value}
    (h : read.map wrap = .ok value) : ∃ b, wrap b = value := by
  cases read with
  | error e => cases h
  | ok b => exact ⟨b, Except.ok.inj h⟩

/-- A scalar is of its own type. -/
theorem describes_of_scalar {declared : DeclaredType}
    (ht : Rule.scalarType? declared = some t) (h : (t.parse c context).result = .ok value) :
    declared.Describes value := by
  cases declared with
  | int =>
    cases ht
    obtain ⟨n, rfl⟩ := result_of_map h
    exact .int n
  | float =>
    cases ht
    obtain ⟨x, rfl⟩ := result_of_map h
    exact .float x
  | bool =>
    cases ht
    obtain ⟨b, rfl⟩ := result_of_map h
    exact .bool b
  | char =>
    cases ht
    simp only [parse, readChar] at h
    split at h
    · cases h
      exact .char _
    · cases h
  | string =>
    cases ht
    simp only [parse, readString] at h
    split at h
    · cases h
      exact .string _
    · cases h
  | _ => cases ht

theorem describes_of_enumeration {spec : Enumeration} {caseSensitive : Bool}
    (h : ((enumeration spec caseSensitive).parse c context).result = .ok value) :
    (DeclaredType.enumeration spec).Describes value := by
  simp only [parse, readVariant] at h
  split at h
  · next hfound =>
    cases h
    exact .enumeration (List.mem_of_find?_eq_some hfound)
  · cases h

/-- Each entry has been read where it stands. -/
theorem exists_read_of_mem {readOne : Cursor → Parsed} {fuel : Nat} {items : List Value}
    (h : (readEntries readOne fuel c).1 = .ok items) {item : Value} (hitem : item ∈ items) :
    ∃ start, (readOne start).result = .ok item := by
  induction fuel generalizing c items with
  | zero =>
    rw [readEntries_zero] at h
    cases h
  | succ fuel ih =>
    rcases readEntries_succ_eq_ok_iff.mp h with ⟨_, rfl⟩ | ⟨_, first, later, hfirst, _, hlater, rfl⟩
    · cases hitem
    · rcases List.mem_cons.mp hitem with rfl | hitem
      · exact ⟨_, hfirst⟩
      · exact ih hlater hitem

theorem exists_items_of_list (h : ((list t).parse c context).result = .ok value) :
    ∃ items, value = .list items
      ∧ ∀ item ∈ items, ∃ start, (t.parse start context).result = .ok item := by
  simp only [parse] at h
  cases hread : readEntries (fun c => t.parse c context) (c.rest.length + 1) c with
  | mk result rest =>
    rw [hread] at h
    cases result with
    | error e => cases h
    | ok items =>
      cases h
      have hitems : (readEntries (fun c => t.parse c context) (c.rest.length + 1) c).1
          = .ok items := by rw [hread]
      exact ⟨items, rfl, fun item hitem => exists_read_of_mem hitems hitem⟩

/-! ## What the built-in rules let through -/

/-- A scalar in wrappers reads what its parameter declares. -/
theorem fits_of_scalar (ht : Rule.scalarType? p.declared = some t)
    (h : ((t.wrapped validators p).parse c context).result = .ok value) :
    p.Fits value ∧ ∀ v ∈ Rule.activeValidators p validators, v.Accepts value p context := by
  obtain ⟨hread, haccepts⟩ := result_of_wrapped h
  refine ⟨Parameter.fits_of_accepts (describes_of_scalar ht hread) ?_ haccepts, haccepts⟩
  intro inner _ hlist
  rw [hlist] at ht
  cases ht

/-- What the type of a parameter reads is what the parameter declares, and all its validators have
accepted it.  By recursion on the declared type, since the entries of a list have a type in wrappers
of their own. -/
theorem fits_of_parse {o : PipelineOptions α} {declared : DeclaredType}
    (hp : p.declared = declared) (ht : o.typeOf? declared p = some t)
    (h : (t.parse c context).result = .ok value) :
    p.Fits value ∧ ∀ v ∈ Rule.activeValidators p o.validators, v.Accepts value p context := by
  induction declared generalizing p t c value with
  | list inner ih =>
    obtain ⟨entry, hentry, rfl⟩ := Option.map_eq_some_iff.mp ht
    obtain ⟨hread, haccepts⟩ := result_of_wrapped h
    obtain ⟨items, rfl, hitems⟩ := exists_items_of_list hread
    have hfits : ∀ item ∈ items, (p.withType inner).Fits item := by
      intro item hitem
      obtain ⟨start, hstart⟩ := hitems item hitem
      exact (ih rfl hentry hstart).1
    refine ⟨Parameter.fits_of_accepts ?_ ?_ haccepts, haccepts⟩
    · rw [hp]
      exact .list fun item hitem => (hfits item hitem).described
    · intro other others hlist hvalue
      cases hp.symm.trans hlist
      cases hvalue
      exact hfits
  | enumeration spec =>
    cases ht
    obtain ⟨hread, haccepts⟩ := result_of_wrapped h
    refine ⟨Parameter.fits_of_accepts ?_ ?_ haccepts, haccepts⟩
    · rw [hp]
      exact describes_of_enumeration hread
    · intro inner _ hlist
      cases hp.symm.trans hlist
  | named name => cases ht
  | _ =>
    obtain ⟨bare, hbare, rfl⟩ := Option.map_eq_some_iff.mp ht
    exact fits_of_scalar (hp ▸ hbare) h

/-- Only a string without a range shows a greedy variant, which is text in the same wrappers. -/
theorem greedyVariant?_of_typeOf? {o : PipelineOptions α} {declared : DeclaredType}
    (ht : o.typeOf? declared p = some t) {variant : ValueType}
    (hvariant : t.greedyVariant? = some variant) :
    declared = .string ∧ variant = text.wrapped o.validators p := by
  have hwrapped {bare : ValueType} (hbare : (bare.wrapped o.validators p).greedyVariant?
      = some variant) : ∃ other, bare.greedyVariant? = some other
        ∧ variant = other.wrapped o.validators p := by
    rw [greedyVariant?_wrapped] at hbare
    split at hbare
    · cases hbare
    · obtain ⟨other, hother, rfl⟩ := Option.map_eq_some_iff.mp hbare
      exact ⟨other, hother, rfl⟩
  cases declared with
  | list inner =>
    obtain ⟨entry, _, rfl⟩ := Option.map_eq_some_iff.mp ht
    obtain ⟨other, hother, _⟩ := hwrapped hvariant
    cases hother
  | named name => cases ht
  | string =>
    cases ht
    obtain ⟨other, hother, hsame⟩ := hwrapped hvariant
    cases hother
    exact ⟨rfl, hsame⟩
  | _ =>
    cases ht
    obtain ⟨other, hother, _⟩ := hwrapped hvariant
    cases hother

/-- So does the variant that takes the place of the type at the end of a command. -/
theorem fits_of_variant {o : PipelineOptions α} (ht : o.typeOf? p.declared p = some t)
    {variant : ValueType} (hvariant : t.greedyVariant? = some variant)
    (h : (variant.parse c context).result = .ok value) :
    p.Fits value ∧ ∀ v ∈ Rule.activeValidators p o.validators, v.Accepts value p context := by
  obtain ⟨hstring, rfl⟩ := greedyVariant?_of_typeOf? ht hvariant
  obtain ⟨hread, haccepts⟩ := result_of_wrapped h
  refine ⟨Parameter.fits_of_accepts ?_ ?_ haccepts, haccepts⟩
  · rw [parse_text] at hread
    cases hread
    rw [hstring]
    exact .string _
  · intro inner _ hlist
    cases hstring.symm.trans hlist

end ValueType

end CommandGrammar
