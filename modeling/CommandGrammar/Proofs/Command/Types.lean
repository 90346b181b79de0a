import CommandGrammar.Proofs.Command.Structure
import CommandGrammar.Proofs.Reading.Standard

/-!
# The types of a compiled command

A slot of a command has the type that its parameter resolves to, or the greedy variant of that type
where it has been promoted.

A pipeline whose rules bring in no type and no validator of a host answers with standard types only,
however its rules ask each other.  So all slots of a command that such a pipeline compiles have
standard types, the promoted one at the end as well.
-/

set_option autoImplicit false

namespace CommandGrammar

variable {α : Type}

/-! ## Resolution -/

/-- Whether input that is read is read by a standard type. -/
def Resolver.IsStandard : Resolver α → Prop
  | .value type => type.Standard
  | .ambient _ => True

/-- Whether everything that a lookup answers is standard. -/
def Lookup.IsStandard (lookup : Lookup α) : Prop :=
  ∀ p resolver, lookup p = some resolver → resolver.IsStandard

namespace Rule

/-- Whether a rule brings in no type and no validator of a host. -/
def IsBuiltIn : Rule α → Prop
  | .validation validators => ∀ v ∈ validators, v.IsBuiltIn
  | .named _ resolver => resolver.IsStandard
  | .host _ _ => False
  | _ => True

theorem isBuiltIn_of_mem_activeValidators {p : Parameter} {validators : List Validator}
    (h : ∀ v ∈ validators, v.IsBuiltIn) {v : Validator}
    (hv : v ∈ activeValidators p validators) : v.IsBuiltIn := by
  unfold activeValidators at hv
  rcases List.mem_append.mp hv with hown | hgiven
  · rcases List.mem_append.mp hown with hlength | hsize
    · split at hlength
      · rw [List.mem_singleton.mp hlength]
        trivial
      · cases hlength
    · split at hsize
      · rw [List.mem_singleton.mp hsize]
        trivial
      · cases hsize
  · exact h v hgiven

theorem standard_of_scalarType? {declared : DeclaredType} {type : ValueType}
    (h : scalarType? declared = some type) : type.Standard := by
  unfold scalarType? at h
  split at h <;> cases h
  · exact .builtIn .int
  · exact .builtIn .float
  · exact .builtIn .bool
  · exact .builtIn .char
  · exact .builtIn .string

/-- A built-in rule wraps, lists or makes standard types. -/
theorem answer_isStandard {rule : Rule α} (hrule : rule.IsBuiltIn) {next all : Lookup α}
    (hnext : next.IsStandard) (hall : all.IsStandard) {p : Parameter} {resolver : Resolver α}
    (h : rule.answer p next all = some resolver) : resolver.IsStandard := by
  cases rule with
  | validation validators =>
    simp only [answer] at h
    split at h
    · cases h
    · next active hactive =>
      obtain ⟨below, hbelow, rfl⟩ := Option.map_eq_some_iff.mp h
      have hstandard := hnext p below hbelow
      cases below with
      | ambient source => trivial
      | value type =>
        refine .validated hstandard p fun v hv => ?_
        exact isBuiltIn_of_mem_activeValidators hrule hv
  | range =>
    simp only [answer] at h
    split at h
    · cases h
    · obtain ⟨below, hbelow, rfl⟩ := Option.map_eq_some_iff.mp h
      have hstandard := hnext p below hbelow
      cases below with
      | ambient source => trivial
      | value type => exact .ranged hstandard _ _
  | scalar =>
    obtain ⟨type, htype, rfl⟩ := Option.map_eq_some_iff.mp h
    exact standard_of_scalarType? htype
  | list =>
    simp only [answer] at h
    split at h
    · obtain ⟨inner, hinner, hlist⟩ := Option.bind_eq_some_iff.mp h
      have hstandard := hall _ inner hinner
      cases inner with
      | ambient source => cases hlist
      | value type =>
        cases hlist
        exact .list hstandard
    · cases h
  | surroundings =>
    simp only [answer] at h
    split at h
    · obtain ⟨source, _, rfl⟩ := Option.map_eq_some_iff.mp h
      trivial
    · cases h
  | named name given =>
    simp only [answer] at h
    split at h
    · cases h
      exact hrule
    · cases h
  | enumeration caseSensitive =>
    simp only [answer] at h
    split at h
    · cases h
      exact .builtIn (.enumeration _ caseSensitive)
    · cases h
  | host reach ask => exact hrule.elim

end Rule

namespace Pipeline

/-- Whether no rule brings in a type or a validator of a host. -/
def IsBuiltIn (pipeline : Pipeline α) : Prop := ∀ rule ∈ pipeline.rules, rule.IsBuiltIn

theorem isBuiltIn_standard : (Pipeline.standard α).IsBuiltIn := by
  intro rule hrule
  have hrules : (Pipeline.standard α).rules = [.validation [], .range, .scalar, .list,
    .surroundings, .enumeration false] := rfl
  rw [hrules] at hrule
  simp only [List.mem_cons, List.not_mem_nil, or_false] at hrule
  rcases hrule with rfl | rfl | rfl | rfl | rfl | rfl
  · exact List.forall_mem_nil _
  all_goals trivial

theorem ask_isStandard {all : Lookup α} (hall : all.IsStandard) {rules : List (Rule α)}
    (hrules : ∀ rule ∈ rules, rule.IsBuiltIn) : (ask all rules).IsStandard := by
  induction rules with
  | nil =>
    intro p resolver h
    cases h
  | cons rule rest ih =>
    obtain ⟨hfirst, hrest⟩ := List.forall_mem_cons.mp hrules
    intro p resolver h
    rw [ask] at h
    split at h
    · next hanswer =>
      cases h
      exact Rule.answer_isStandard hfirst (ih hrest) hall hanswer
    · exact ih hrest p resolver h

theorem askAll_isStandard {pipeline : Pipeline α} (h : pipeline.IsBuiltIn) (depth : Nat) :
    (pipeline.askAll depth).IsStandard := by
  induction depth with
  | zero =>
    intro p resolver hask
    cases hask
  | succ depth ih =>
    intro p resolver hask
    exact ask_isStandard ih h p resolver hask

/-- A pipeline of built-in rules reads input by standard types only. -/
theorem standard_of_resolve {pipeline : Pipeline α} (h : pipeline.IsBuiltIn) {p : Parameter}
    {type : ValueType} (hresolve : pipeline.resolve p = .ok (.value type)) : type.Standard := by
  unfold resolve at hresolve
  split at hresolve
  · next hfind =>
    cases hresolve
    exact ask_isStandard (askAll_isStandard h _) h p _ hfind
  · cases hresolve

end Pipeline

/-! ## Compilation -/

theorem ValueType.Standard.greedyVariant {t variant : ValueType} (h : t.Standard)
    (hvariant : t.greedyVariant? = some variant) : variant.Standard := by
  induction h generalizing variant with
  | builtIn h =>
    cases h <;> cases hvariant
    exact .builtIn .text
  | list _ _ => cases hvariant
  | ranged _ _ _ _ => cases hvariant
  | @validated inner _ p validators hvalidators ih =>
    simp only [greedyVariant?] at hvariant
    split at hvariant
    · next hinner =>
      cases hvariant
      exact .validated (ih hinner) p hvalidators
    · cases hvariant

namespace Compile

open Segment

variable {pipeline : Pipeline α} {parameters : List Parameter}

theorem resolve_of_slotOf? {bracketed : Bool} {p : Parameter} {s : Slot}
    (h : slotOf? pipeline bracketed p = some s) :
    pipeline.resolve s.parameter = .ok (.value s.type) := by
  unfold slotOf? at h
  split at h
  · next hresolve =>
    cases h
    exact hresolve
  · cases h

/-- A slot of a row has the type that its parameter resolves to. -/
theorem resolve_of_mem_row {tokens : List Token} {s : Slot}
    (hs : .slot s ∈ row pipeline parameters tokens) :
    pipeline.resolve s.parameter = .ok (.value s.type) := by
  rcases List.mem_append.mp hs with hpath | hrest
  · obtain ⟨token, _, hsegment⟩ := List.mem_filterMap.mp hpath
    cases token with
    | word text => cases hsegment
    | placeholder name bracketed =>
      obtain ⟨p, _, hslot⟩ := Option.bind_eq_some_iff.mp hsegment
      obtain ⟨f, hf, heq⟩ := Option.map_eq_some_iff.mp hslot
      cases heq
      exact resolve_of_slotOf? hf
  · obtain ⟨p, _, hslot⟩ := List.mem_filterMap.mp hrest
    obtain ⟨f, hf, heq⟩ := Option.map_eq_some_iff.mp hslot
    cases heq
    exact resolve_of_slotOf? hf

/-- A slot of a closed row stands in the row, or is what its last slot becomes. -/
theorem slot_of_mem_closed {places : List Segment} {s : Slot} (hs : .slot s ∈ closed places) :
    .slot s ∈ places ∨ ∃ f, .slot f ∈ places ∧ .slot s = (Segment.slot f).atEnd := by
  rcases List.eq_nil_or_concat places with rfl | ⟨before, last, rfl⟩
  · cases hs
  · rw [List.concat_eq_append] at hs ⊢
    rw [closed_concat] at hs
    rcases List.mem_append.mp hs with hs | hs
    · exact .inl (List.mem_append_left _ hs)
    · have hlast := List.mem_singleton.mp hs
      cases last with
      | word text => cases hlast
      | slot f => exact .inr ⟨f, List.mem_append_right _ List.mem_cons_self, hlast⟩

/-- A slot has the type that its parameter resolves to, or the greedy variant of that type. -/
theorem type_of_compile {d : Declaration α} {path : String} {id : CommandId} {c : Command α}
    (h : compile pipeline d path id = .ok c) {s : Slot} (hs : s ∈ c.slots) :
    ∃ type, pipeline.resolve s.parameter = .ok (.value type)
      ∧ (s.type = type ∨ type.greedyVariant? = some s.type) := by
  obtain ⟨tokens, _, _, hrow, _⟩ := row_of_compile h
  rw [hrow.slots] at hs
  rcases List.mem_append.mp hs with hs | hs
  · obtain ⟨segment, hmem, hslot⟩ := List.mem_filterMap.mp hs
    cases segment with
    | word text => cases hslot
    | slot f =>
      cases hslot
      rcases slot_of_mem_closed hmem with hplace | ⟨f, hf, hend⟩
      · exact ⟨_, resolve_of_mem_row (List.mem_filter.mp hplace).1, .inl rfl⟩
      · cases hend
        have hresolve : pipeline.resolve f.parameter = .ok (.value f.type) :=
          resolve_of_mem_row (List.mem_filter.mp hf).1
        refine ⟨f.type, hresolve, ?_⟩
        dsimp only
        cases f.parameter.single with
        | true => exact .inl rfl
        | false => cases f.type.greedyVariant? <;> simp
  · obtain ⟨segment, hmem, hslot⟩ := List.mem_filterMap.mp (List.mem_filter.mp hs).1
    cases segment with
    | word text => cases hslot
    | slot f =>
      cases hslot
      exact ⟨_, resolve_of_mem_row hmem, .inl rfl⟩

/-- Built-in rules compile commands whose slots have standard types. -/
theorem standard_of_compile (h : pipeline.IsBuiltIn) {d : Declaration α} {path : String}
    {id : CommandId} {c : Command α} (hcompile : compile pipeline d path id = .ok c) {s : Slot}
    (hs : s ∈ c.slots) : s.type.Standard := by
  obtain ⟨type, hresolve, htype⟩ := type_of_compile hcompile hs
  have hstandard := Pipeline.standard_of_resolve h hresolve
  rcases htype with hsame | hvariant
  · rwa [hsame]
  · exact hstandard.greedyVariant hvariant

end Compile

end CommandGrammar
