import CommandGrammar.Node
import CommandGrammar.Proofs.Reading.Local

/-!
# Standard types

A standard type is put together from the types and validators that the library brings along.  It
looks at nothing but the unread text and moves over a start of it, so it reads a default text behind
the end of an input exactly as it reads that text on its own.

What a type leaves of a default text stands behind the end of the input and is read by whatever
comes next.  `Slot.DefaultWhole` says that only blanks are left.
-/

set_option autoImplicit false

namespace CommandGrammar

/-! ## Validators -/

namespace Validator

/-- Whether the validator is one that the library brings along. -/
def IsBuiltIn : Validator → Prop
  | .host _ => False
  | _ => True

/-- A built-in validator does not look at the context. -/
theorem IsBuiltIn.check_eq {v : Validator} (h : v.IsBuiltIn) (value : Value) (p : Parameter)
    (context other : Context) : v.check value p context = v.check value p other := by
  cases v with
  | length => rfl
  | size => rfl
  | host check => exact h.elim

theorem checkAll_eq {validators : List Validator} (h : ∀ v ∈ validators, v.IsBuiltIn)
    (value : Value) (p : Parameter) (context other : Context) :
    checkAll value p context validators = checkAll value p other validators := by
  induction validators with
  | nil => rfl
  | cons v rest ih =>
    obtain ⟨hfirst, hrest⟩ := List.forall_mem_cons.mp h
    rw [checkAll, checkAll, hfirst.check_eq value p context other, ih hrest]

end Validator

/-! ## Standard types -/

namespace ValueType

/-- The types that are built in, in lists, in bounds and under built-in validators. -/
inductive Standard : ValueType → Prop where
  | builtIn {t : ValueType} (h : BuiltIn t) : Standard t
  | list {inner : ValueType} (h : Standard inner) : Standard (.list inner)
  | ranged {inner : ValueType} (h : Standard inner) (min max : Option Numeric.Binary64) :
      Standard (.ranged inner min max)
  | validated {inner : ValueType} (h : Standard inner) (p : Parameter)
      {validators : List Validator} (hvalidators : ∀ v ∈ validators, v.IsBuiltIn) :
      Standard (.validated inner p validators)

namespace Standard

variable {t : ValueType}

/-- Neither what has been read nor the context plays a part. -/
theorem parse_behind (h : t.Standard) (front : List Char) (c : Cursor) (context other : Context) :
    t.parse (c.behind front) context = (t.parse c other).behind front := by
  induction h generalizing c with
  | builtIn h => exact h.localForm.parse_behind front c context other
  | @list inner _ ih =>
    have hentries := @readEntries_behind (inner.parse · context) (inner.parse · other) front ih
      (c.rest.length + 1) c
    simp [parse, hentries, Parsed.behind]
  | @ranged inner _ min max ih =>
    simp only [parse, ih]
    cases inner.parse c other with
    | mk result after notes => cases result <;> rfl
  | @validated inner _ p validators hvalidators ih =>
    simp only [parse, ih]
    cases inner.parse c other with
    | mk result after notes =>
      cases result with
      | error e => rfl
      | ok value => simp [Parsed.behind, Validator.checkAll_eq hvalidators value p context other]

theorem source_parse (h : t.Standard) (c : Cursor) (context : Context) :
    (t.parse c context).cursor.source = c.source := by
  induction h generalizing c with
  | builtIn h => exact h.localForm.source_parse c context
  | list _ ih => simpa [parse] using source_readEntries ih _ c
  | @ranged inner _ min max ih =>
    have hsource := ih c
    simp only [parse]
    cases hread : inner.parse c context with
    | mk result after notes =>
      rw [hread] at hsource
      cases result <;> exact hsource
  | @validated inner _ p validators _ ih =>
    have hsource := ih c
    simp only [parse]
    cases hread : inner.parse c context with
    | mk result after notes =>
      rw [hread] at hsource
      cases result <;> exact hsource

/-- A text is read in its place as it is read on its own. -/
theorem parse_eq_behind (h : t.Standard) (c : Cursor) (context other : Context) :
    t.parse c context = (t.parse (.ofText c.rest) other).behind c.consumed := by
  have hbehind := h.parse_behind c.consumed (.ofText c.rest) context other
  rwa [Cursor.behind_ofText] at hbehind

/-- Reading moves over a start of the unread text. -/
theorem exists_moved (h : t.Standard) (c : Cursor) (context : Context) :
    ∃ taken left, c.rest = taken ++ left
      ∧ (t.parse c context).cursor = ⟨c.consumed ++ taken, left⟩ := by
  have hsource := h.source_parse (.ofText c.rest) context
  rw [h.parse_eq_behind c context context]
  exact ⟨_, _, hsource.symm, rfl⟩

end Standard

end ValueType

/-! ## Default texts -/

namespace Slot

variable {s : Slot}

/-- Where the type reads the default text, it leaves nothing of it but blanks. -/
def DefaultWhole (s : Slot) : Prop :=
  ∀ text ∈ s.parameter.defaultText, ∀ (context : Context) (value : Value),
    (s.type.parse (.ofText text.toList) context).result = .ok value →
    Text.AllBlank (s.type.parse (.ofText text.toList) context).cursor.rest

/-- In front of unread text, a slot is read as its type reads. -/
theorem parse_eq_of_not_atEnd {c : Cursor} (hc : c.atEnd = false) {context : Context}
    {value : Value} (hparse : (s.parse c context).result = .ok value) :
    s.parse c context = s.type.parse c context := by
  unfold parse at hparse ⊢
  split at hparse
  · cases hparse
  · next hadmits => rw [if_neg hadmits, if_neg (by simp [hc])]

/-- Behind the end of an input only an optional slot is read: as its default text, or as nil. -/
theorem parse_eq_of_atEnd {c : Cursor} (hc : c.atEnd = true) {context : Context} {value : Value}
    (hparse : (s.parse c context).result = .ok value) :
    s.isOptional = true
      ∧ s.parse c context = match s.parameter.defaultText with
        | some text => s.type.parse (c.extend text.toList) context
        | none => ⟨.ok .nil, c, []⟩ := by
  unfold parse at hparse ⊢
  split at hparse
  · cases hparse
  · next hadmits =>
    split at hparse
    · cases hparse
    · next hoptional =>
      refine ⟨by simpa using hoptional, ?_⟩
      cases s.parameter.defaultText <;>
        exact (if_neg hadmits).trans ((if_pos hc).trans (if_neg hoptional))

/-- Behind the end of an input, a slot that is no switch has the value of its absence.  If its type
uses up the default text, only blanks are left. -/
theorem parse_of_atEnd (htype : s.type.Standard) (hswitch : s.isSwitch = false) {c : Cursor}
    (hc : c.atEnd = true) {context : Context} {value : Value}
    (hparse : (s.parse c context).result = .ok value) :
    (∀ other, (s.absentValue other).1 = .ok value)
      ∧ (s.DefaultWhole → Text.AllBlank (s.parse c context).cursor.rest) := by
  have hrest : c.rest = [] := List.isEmpty_iff.mp hc
  obtain ⟨hoptional, hread⟩ := parse_eq_of_atEnd hc hparse
  rw [hread] at hparse ⊢
  cases hdefault : s.parameter.defaultText with
  | none =>
    rw [hdefault] at hparse
    cases hparse
    refine ⟨fun _ => by simp [absentValue, hswitch, hdefault, hoptional], fun _ => ?_⟩
    rw [hrest]
    exact Text.allBlank_nil
  | some text =>
    rw [hdefault] at hparse
    have hextend : (c.extend text.toList).rest = text.toList := by simp [Cursor.extend, hrest]
    have halone (other : Context) : s.type.parse (c.extend text.toList) context
        = (s.type.parse (.ofText text.toList) other).behind c.consumed := by
      rw [htype.parse_eq_behind _ context other, hextend]
      rfl
    constructor
    · intro other
      dsimp only at hparse
      rw [halone other] at hparse
      simpa [absentValue, hswitch, hdefault, Parsed.behind] using hparse
    · intro hwhole
      dsimp only at hparse ⊢
      rw [halone context] at hparse ⊢
      exact hwhole text hdefault context value hparse

end Slot

end CommandGrammar
