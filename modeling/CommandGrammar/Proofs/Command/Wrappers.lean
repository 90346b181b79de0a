import CommandGrammar.Resolution

/-!
# Wrappers around types

The built-in rules put the bare type of a parameter into the range that the parameter declares, and
that under the validators that apply to it; the entries of a list are resolved from the start, for
the same parameter with another type.  `PipelineOptions.typeOf?` says so by recursion on the
declared type, and `resolve_eq_value_iff` that the rules of a host that adds none of its own come to
this type.
-/

set_option autoImplicit false

namespace CommandGrammar

variable {α : Type}

/-! ## Wrapped types -/

namespace ValueType

/-- A type in the range of a parameter, if it has one. -/
def inRange (p : Parameter) (t : ValueType) : ValueType :=
  match p.range with
  | none => t
  | some (min, max) => .ranged t min max

/-- A type under the validators that apply to a parameter, if any do. -/
def checked (validators : List Validator) (p : Parameter) (t : ValueType) : ValueType :=
  match Rule.activeValidators p validators with
  | [] => t
  | active => .validated t p active

/-- A type in all wrappers that a parameter asks for. -/
def wrapped (validators : List Validator) (p : Parameter) (t : ValueType) : ValueType :=
  (t.inRange p).checked validators p

/-- A range does not show the greedy variant of what it bounds. -/
theorem greedyVariant?_inRange (p : Parameter) (t : ValueType) :
    (t.inRange p).greedyVariant? = if p.range.isSome then none else t.greedyVariant? := by
  unfold inRange
  cases p.range <;> rfl

/-- The variant of a type under validators is the variant under the same validators. -/
theorem greedyVariant?_validated (t : ValueType) (p : Parameter) (validators : List Validator) :
    (ValueType.validated t p validators).greedyVariant?
      = t.greedyVariant?.map fun variant => .validated variant p validators := by
  rw [greedyVariant?]
  cases t.greedyVariant? <;> rfl

theorem greedyVariant?_checked (validators : List Validator) (p : Parameter) (t : ValueType) :
    (t.checked validators p).greedyVariant?
      = t.greedyVariant?.map fun variant => variant.checked validators p := by
  unfold checked
  split
  · exact Option.map_id'.symm
  · exact greedyVariant?_validated _ _ _

/-- What stands in its wrappers has the variant of what is wrapped, in the same wrappers, unless a
range is among them. -/
theorem greedyVariant?_wrapped (validators : List Validator) (p : Parameter) (t : ValueType) :
    (t.wrapped validators p).greedyVariant?
      = if p.range.isSome then none
        else t.greedyVariant?.map fun variant => variant.wrapped validators p := by
  unfold wrapped
  rw [greedyVariant?_checked, greedyVariant?_inRange]
  split
  · rfl
  · next hrange =>
    have hnone : p.range = none := by simpa using hrange
    simp [inRange, hnone]

theorem isGreedy_checked (validators : List Validator) (p : Parameter) (t : ValueType) :
    (t.checked validators p).isGreedy = t.isGreedy := by
  unfold checked
  split <;> rfl

theorem isGreedy_inRange (p : Parameter) (t : ValueType) : (t.inRange p).isGreedy = t.isGreedy := by
  unfold inRange
  split <;> rfl

end ValueType

/-! ## The type of a parameter -/

/-- The type by which input is read, if it is. -/
def Resolver.type? : Resolver α → Option ValueType
  | .value type => some type
  | .ambient _ => none

theorem Resolver.type?_mapType (f : ValueType → ValueType) (resolver : Resolver α) :
    (resolver.mapType f).type? = resolver.type?.map f := by
  cases resolver <;> rfl

namespace PipelineOptions

/-- The host adds no rules of its own.  It may inject objects and have validators. -/
structure IsPlain (o : PipelineOptions α) : Prop where
  early : o.early = []
  late : o.late = []

/-- What is asked then: the wrappers, the built-in types, the injected objects, the
enumerations. -/
theorem IsPlain.rules_eq {o : PipelineOptions α} (ho : o.IsPlain) :
    o.build.rules = .validation o.validators :: .range :: ([.scalar, .list, .surroundings]
      ++ (o.dependencies.map dependencyRule ++ [.enumeration o.caseSensitiveEnumerations])) := by
  simp [build, ho.early, ho.late]

/-- The type by which the built-in rules read a declared type on behalf of a parameter. -/
def typeOf? (o : PipelineOptions α) : DeclaredType → Parameter → Option ValueType
  | .list inner, p =>
    (o.typeOf? inner (p.withType inner)).map fun entry =>
      (ValueType.list entry).wrapped o.validators p
  | .enumeration spec, p =>
    some ((ValueType.enumeration spec o.caseSensitiveEnumerations).wrapped o.validators p)
  | .named _, _ => none
  | scalar, p => (Rule.scalarType? scalar).map fun type => type.wrapped o.validators p

end PipelineOptions

namespace Pipeline

variable {all : Lookup α} {rest : List (Rule α)}

theorem type?_ask_validation (validators : List Validator) (p : Parameter) :
    (ask all (.validation validators :: rest) p).bind Resolver.type?
      = ((ask all rest p).bind Resolver.type?).map (ValueType.checked validators p) := by
  rw [ask]
  unfold Rule.answer ValueType.checked
  dsimp only
  cases Rule.activeValidators p validators with
  | nil => exact Option.map_id'.symm
  | cons v others =>
    cases ask all rest p with
    | none => rfl
    | some resolver => exact Resolver.type?_mapType _ resolver

theorem type?_ask_range (p : Parameter) :
    (ask all (.range :: rest) p).bind Resolver.type?
      = ((ask all rest p).bind Resolver.type?).map (ValueType.inRange p) := by
  rw [ask]
  unfold Rule.answer ValueType.inRange
  dsimp only
  cases p.range with
  | none => exact Option.map_id'.symm
  | some bounds =>
    cases ask all rest p with
    | none => rfl
    | some resolver => exact Resolver.type?_mapType _ resolver

/-- Injected objects are not read. -/
theorem type?_ask_dependencies (all : Lookup α) (dependencies : List (String × HostObject))
    (caseSensitive : Bool) (p : Parameter) :
    (ask all (dependencies.map PipelineOptions.dependencyRule ++ [.enumeration caseSensitive])
        p).bind Resolver.type?
      = match p.declared with
        | .enumeration spec => some (.enumeration spec caseSensitive)
        | _ => none := by
  induction dependencies with
  | nil => cases hdeclared : p.declared <;> simp [ask, Rule.answer, hdeclared, Resolver.type?]
  | cons d later ih =>
    rw [List.map_cons, List.cons_append, ask]
    unfold PipelineOptions.dependencyRule Rule.answer
    dsimp only
    split
    · next hanswer =>
      split at hanswer
      · next hdeclared =>
        cases hanswer
        rw [hdeclared]
        rfl
      · cases hanswer
    · exact ih

/-- The bare type of a parameter; `all` stands for asking every rule. -/
theorem type?_ask_bare (dependencies : List (String × HostObject)) (caseSensitive : Bool)
    (p : Parameter) :
    (ask all ([.scalar, .list, .surroundings]
        ++ (dependencies.map PipelineOptions.dependencyRule ++ [.enumeration caseSensitive]))
        p).bind Resolver.type?
      = match p.declared with
        | .list inner => ((all (p.withType inner)).bind Resolver.type?).map .list
        | .enumeration spec => some (.enumeration spec caseSensitive)
        | .named _ => none
        | scalar => Rule.scalarType? scalar := by
  have hlater := type?_ask_dependencies all dependencies caseSensitive p
  cases hdeclared : p.declared with
  | list inner =>
    rw [hdeclared] at hlater
    cases hinner : all (p.withType inner) with
    | none => simpa [ask, Rule.answer, hdeclared, hinner, Rule.scalarType?] using hlater
    | some entry =>
      cases entry with
      | value type =>
        simp [ask, Rule.answer, hdeclared, hinner, Rule.scalarType?, Rule.listOver?,
          Resolver.type?]
      | ambient source =>
        simpa [ask, Rule.answer, hdeclared, hinner, Rule.scalarType?, Rule.listOver?,
          Resolver.type?] using hlater
  | named name =>
    rw [hdeclared] at hlater
    cases hsource : Rule.surroundingsSource? (α := α) name with
    | none => simpa [ask, Rule.answer, hdeclared, hsource, Rule.scalarType?] using hlater
    | some source => simp [ask, Rule.answer, hdeclared, hsource, Rule.scalarType?, Resolver.type?]
  | enumeration spec =>
    rw [hdeclared] at hlater
    simpa [ask, Rule.answer, hdeclared, Rule.scalarType?] using hlater
  | _ => simp [ask, Rule.answer, hdeclared, Rule.scalarType?, Resolver.type?]

/-- Where questions that start over may nest as deep as the declared type has layers, asking all
rules comes to the type of the parameter. -/
theorem type?_askAll {o : PipelineOptions α} (ho : o.IsPlain) {declared : DeclaredType}
    {p : Parameter} (hp : p.declared = declared) {depth : Nat} (hdepth : declared.depth ≤ depth) :
    (o.build.askAll (depth + 1) p).bind Resolver.type? = o.typeOf? declared p := by
  induction declared generalizing p depth with
  | list inner ih =>
    rw [DeclaredType.depth] at hdepth
    obtain ⟨below, rfl⟩ := Nat.exists_eq_succ_of_ne_zero (Nat.ne_zero_of_lt hdepth)
    have hinner := ih (Parameter.withType_declared p inner) (Nat.le_of_succ_le_succ hdepth)
    rw [askAll, ho.rules_eq, type?_ask_validation, type?_ask_range, type?_ask_bare, hp]
    dsimp only
    rw [hinner, PipelineOptions.typeOf?, Option.map_map, Option.map_map]
    rfl
  | _ =>
    rw [askAll, ho.rules_eq, type?_ask_validation, type?_ask_range, type?_ask_bare, hp]
    rfl

/-- A host that adds no rules of its own reads each parameter by the type that the built-in rules
give it, and no other parameter. -/
theorem resolve_eq_value_iff {o : PipelineOptions α} (ho : o.IsPlain) {p : Parameter}
    {type : ValueType} :
    o.build.resolve p = .ok (.value type) ↔ o.typeOf? p.declared p = some type := by
  have hdepth : p.declared.depth ≤ o.build.depthFor p :=
    Nat.le_trans (Nat.le_add_right _ _) (Nat.le_add_right _ _)
  rw [← type?_askAll ho rfl hdepth]
  have hfind : o.build.findFrom 0 p = o.build.askAll (o.build.depthFor p + 1) p := rfl
  unfold resolve
  rw [hfind]
  cases o.build.askAll (o.build.depthFor p + 1) p with
  | none => simp
  | some resolver => cases resolver <;> simp [Resolver.type?]

end Pipeline

end CommandGrammar
