import CommandGrammar.Proofs.Command.Wrappers

/-!
# What the built-in rules resolve

A host that adds no rules of its own leaves the declared type to the built-in ones.  They read the
scalars, the enumerations, and lists of these to any depth; they take the surroundings and the
injected objects by name; and they know nothing else, in particular no list of a named type.

Resolving a list asks all rules again about its entries.  No built-in rule starts over with anything
else, so such questions nest no deeper than the declared type has layers, and what would be answered
beyond that depth plays no part.

`resolve_builtIn` puts the two together.
-/

set_option autoImplicit false

namespace CommandGrammar

variable {α : Type}

/-! ## Names of types -/

namespace DeclaredType

/-- The type inside all list layers. -/
def innermost : DeclaredType → DeclaredType
  | .list inner => inner.innermost
  | element => element

/-- Whether a type is a scalar or an enumeration. -/
def IsElement : DeclaredType → Prop
  | .list _ => False
  | .named _ => False
  | _ => True

/-- The short name of the type that reads a scalar or an enumeration. -/
def elementName : DeclaredType → String
  | .int => "int"
  | .float => "float"
  | .bool => "bool"
  | .char => "char"
  | .string => "string"
  | .enumeration spec => spec.name
  | .list _ => ""
  | .named name => name

end DeclaredType

/-- A name in a number of list layers. -/
def listName : Nat → String → String
  | 0, name => name
  | layers + 1, name => "list<" ++ listName layers name ++ ">"

/-- Wrappers keep the name of what they wrap. -/
theorem ValueType.name_wrapped (validators : List Validator) (p : Parameter) (t : ValueType) :
    (t.wrapped validators p).name = t.name := by
  have hrange : (t.inRange p).name = t.name := by
    unfold inRange
    split <;> rfl
  rw [← hrange, wrapped, checked]
  split <;> rfl

namespace PipelineOptions

variable {o : PipelineOptions α} {declared : DeclaredType} {p : Parameter} {type : ValueType}

/-- The types that are read are those whose innermost type is a scalar or an enumeration. -/
theorem isSome_typeOf?_iff :
    (o.typeOf? declared p).isSome = true ↔ declared.innermost.IsElement := by
  induction declared generalizing p with
  | list inner ih =>
    rw [DeclaredType.innermost, typeOf?, Option.isSome_map]
    exact ih
  | _ => simp [typeOf?, DeclaredType.innermost, DeclaredType.IsElement, Rule.scalarType?]

/-- A type is named after its innermost type, with a layer for each list around it. -/
theorem name_of_typeOf? (h : o.typeOf? declared p = some type) :
    type.name = listName declared.depth declared.innermost.elementName := by
  induction declared generalizing p type with
  | list inner ih =>
    obtain ⟨entry, hentry, rfl⟩ := Option.map_eq_some_iff.mp h
    rw [ValueType.name_wrapped, ValueType.name, ih hentry]
    rfl
  | named name => cases h
  | _ =>
    cases h
    exact ValueType.name_wrapped _ _ _

end PipelineOptions

/-! ## Ambient sources -/

/-- The source of a value that is not read, if it is not. -/
def Resolver.source? : Resolver α → Option (Ambient α)
  | .value _ => none
  | .ambient source => some source

theorem Resolver.source?_mapType (f : ValueType → ValueType) (resolver : Resolver α) :
    (resolver.mapType f).source? = resolver.source? := by
  cases resolver <;> rfl

/-- A rule that answers, if it does, with what the rules after it find, in a wrapper. -/
def Rule.Wraps (rule : Rule α) : Prop :=
  ∀ p next all, rule.answer p next all = none
    ∨ ∃ f, rule.answer p next all = (next p).map (Resolver.mapType f)

theorem Rule.wraps_validation (validators : List Validator) :
    (Rule.validation validators : Rule α).Wraps := by
  intro p next all
  unfold answer
  dsimp only
  split
  · exact .inl rfl
  · exact .inr ⟨_, rfl⟩

theorem Rule.wraps_range : (Rule.range : Rule α).Wraps := by
  intro p next all
  unfold answer
  dsimp only
  split
  · exact .inl rfl
  · exact .inr ⟨_, rfl⟩

namespace PipelineOptions

/-- Where a named type gets its value from: the surroundings before the injected objects, and of
several objects under one name the first. -/
def sourceOf? (o : PipelineOptions α) (name : String) : Option (Ambient α) :=
  (Rule.surroundingsSource? name).or
    ((o.dependencies.find? fun d => decide (d.1 = name)).map fun d => .object d.2)

/-- Whether a name is one of the surroundings or that of an injected object. -/
def Supplies (o : PipelineOptions α) (name : String) : Prop :=
  name ∈ ["actor", "input", "command"] ∨ name ∈ o.dependencies.map Prod.fst

theorem isSome_surroundingsSource?_iff {name : String} :
    (Rule.surroundingsSource? (α := α) name).isSome = true
      ↔ name ∈ ["actor", "input", "command"] := by
  unfold Rule.surroundingsSource?
  simp only [List.mem_cons, List.not_mem_nil, or_false]
  split
  next h => simp [h]
  next hactor =>
    split
    next h => simp [h]
    next hinput =>
      split
      next h => simp [h]
      next hcommand => simp [hactor, hinput, hcommand]

theorem isSome_sourceOf?_iff {o : PipelineOptions α} {name : String} :
    (o.sourceOf? name).isSome = true ↔ o.Supplies name := by
  rw [Supplies, ← isSome_surroundingsSource?_iff (α := α), sourceOf?, Option.isSome_or,
    Option.isSome_map, Bool.or_eq_true]
  simp

end PipelineOptions

namespace Pipeline

variable {all : Lookup α} {rest : List (Rule α)} {p : Parameter}

/-- A wrapper leaves alone what is not read. -/
theorem source?_ask_of_wraps {rule : Rule α} (h : rule.Wraps) (p : Parameter) :
    (ask all (rule :: rest) p).bind Resolver.source?
      = (ask all rest p).bind Resolver.source? := by
  rw [ask]
  rcases h p (ask all rest) all with hnone | ⟨f, hwrapped⟩
  · rw [hnone]
  · rw [hwrapped]
    cases ask all rest p with
    | none => rfl
    | some resolver => exact Resolver.source?_mapType f resolver

/-- The first object under the name of a type. -/
theorem source?_ask_dependencies (all : Lookup α) (dependencies : List (String × HostObject))
    (caseSensitive : Bool) (p : Parameter) :
    (ask all (dependencies.map PipelineOptions.dependencyRule ++ [.enumeration caseSensitive])
        p).bind Resolver.source?
      = match p.declared with
        | .named name =>
          (dependencies.find? fun d => decide (d.1 = name)).map fun d => .object d.2
        | _ => none := by
  induction dependencies with
  | nil => cases hdeclared : p.declared <;> simp [ask, Rule.answer, hdeclared, Resolver.source?]
  | cons d later ih =>
    rw [List.map_cons, List.cons_append, ask]
    unfold PipelineOptions.dependencyRule Rule.answer
    dsimp only
    by_cases hdeclared : p.declared = .named d.1
    · rw [if_pos hdeclared, hdeclared]
      simp [Resolver.source?]
    · rw [if_neg hdeclared]
      refine ih.trans ?_
      cases hp : p.declared with
      | named name =>
        have hname : ¬ d.1 = name := by
          rintro rfl
          exact hdeclared hp
        simp [hname]
      | _ => rfl

theorem source?_ask_bare (o : PipelineOptions α) (p : Parameter) :
    (ask all ([.scalar, .list, .surroundings]
        ++ (o.dependencies.map PipelineOptions.dependencyRule
          ++ [.enumeration o.caseSensitiveEnumerations])) p).bind Resolver.source?
      = match p.declared with
        | .named name => o.sourceOf? name
        | _ => none := by
  have hlater := source?_ask_dependencies all o.dependencies o.caseSensitiveEnumerations p
  cases hdeclared : p.declared with
  | list inner =>
    rw [hdeclared] at hlater
    cases hentry : (all (p.withType inner)).bind Rule.listOver? with
    | none => simpa [ask, Rule.answer, hdeclared, hentry, Rule.scalarType?] using hlater
    | some listed =>
      -- what is listed is read, so it is no source
      obtain ⟨entry, _, hlisted⟩ := Option.bind_eq_some_iff.mp hentry
      cases entry with
      | ambient source => cases hlisted
      | value type =>
        cases hlisted
        simp [ask, Rule.answer, hdeclared, hentry, Rule.scalarType?, Resolver.source?]
  | named name =>
    rw [hdeclared] at hlater
    unfold PipelineOptions.sourceOf?
    cases hsource : Rule.surroundingsSource? (α := α) name with
    | none => simpa [ask, Rule.answer, hdeclared, hsource, Rule.scalarType?] using hlater
    | some source => simp [ask, Rule.answer, hdeclared, hsource, Rule.scalarType?, Resolver.source?]
  | enumeration spec =>
    rw [hdeclared] at hlater
    simpa [ask, Rule.answer, hdeclared, Rule.scalarType?] using hlater
  | _ => simp [ask, Rule.answer, hdeclared, Rule.scalarType?, Resolver.source?]

end Pipeline

/-! ## Questions that start over -/

/-- A rule that asks the rules after it about the parameter itself, and all rules about nothing but
the entries of a list. -/
def Rule.Descends (rule : Rule α) : Prop :=
  ∀ p next next' all all', next p = next' p →
    (∀ inner, p.declared = .list inner → all (p.withType inner) = all' (p.withType inner)) →
    rule.answer p next all = rule.answer p next' all'

/-- Every rule but one of a host descends. -/
theorem Rule.descends_of_builtIn {rule : Rule α} (h : ∀ reach answer, rule ≠ .host reach answer) :
    rule.Descends := by
  intro p next next' all all' hnext hentries
  cases rule with
  | validation validators =>
    unfold answer
    rw [hnext]
  | range =>
    unfold answer
    rw [hnext]
  | list =>
    unfold answer
    dsimp only
    split
    next inner hdeclared => rw [hentries inner hdeclared]
    next => rfl
  | host reach ask => exact absurd rfl (h reach ask)
  | _ => rfl

theorem PipelineOptions.IsPlain.descends {o : PipelineOptions α} (ho : o.IsPlain) :
    ∀ rule ∈ o.build.rules, rule.Descends := by
  intro rule hrule
  apply Rule.descends_of_builtIn
  rintro reach answer rfl
  rw [ho.rules_eq] at hrule
  simp [dependencyRule] at hrule

namespace Pipeline

/-- Asks every rule, where questions that start over nest at most `depth` deep; those that would
nest deeper are answered by `below`. -/
def askOver (pipeline : Pipeline α) (below : Lookup α) : Nat → Lookup α
  | 0 => below
  | depth + 1 => ask (askOver pipeline below depth) pipeline.rules

theorem askAll_eq_askOver (pipeline : Pipeline α) (depth : Nat) :
    pipeline.askAll depth = pipeline.askOver (fun _ => none) depth := by
  induction depth with
  | zero => rfl
  | succ depth ih =>
    funext p
    rw [askAll, askOver, ih]

/-- Rules that descend depend on what all rules say about the entries of a list, and on nothing
else that all rules say. -/
theorem ask_congr {all all' : Lookup α} {rules : List (Rule α)}
    (hrules : ∀ rule ∈ rules, rule.Descends) {p : Parameter}
    (hentries : ∀ inner, p.declared = .list inner →
      all (p.withType inner) = all' (p.withType inner)) :
    ask all rules p = ask all' rules p := by
  induction rules with
  | nil => rfl
  | cons rule rest ih =>
    obtain ⟨hfirst, hrest⟩ := List.forall_mem_cons.mp hrules
    have hlater := ih hrest
    rw [ask, ask, hfirst p (ask all rest) (ask all' rest) all all' hlater hentries, hlater]

/-- Where all rules descend, questions that start over nest no deeper than the declared type has
layers. -/
theorem askOver_eq {pipeline : Pipeline α} (hrules : ∀ rule ∈ pipeline.rules, rule.Descends)
    {declared : DeclaredType} {p : Parameter} (hp : p.declared = declared)
    (below below' : Lookup α) {depth depth' : Nat} (hdepth : declared.depth ≤ depth)
    (hdepth' : declared.depth ≤ depth') :
    pipeline.askOver below (depth + 1) p = pipeline.askOver below' (depth' + 1) p := by
  induction declared generalizing p depth depth' with
  | list inner ih =>
    rw [DeclaredType.depth] at hdepth hdepth'
    obtain ⟨under, rfl⟩ := Nat.exists_eq_succ_of_ne_zero (Nat.ne_zero_of_lt hdepth)
    obtain ⟨under', rfl⟩ := Nat.exists_eq_succ_of_ne_zero (Nat.ne_zero_of_lt hdepth')
    refine ask_congr hrules fun entries hentries => ?_
    rw [hp] at hentries
    cases hentries
    exact ih rfl (Nat.le_of_succ_le_succ hdepth) (Nat.le_of_succ_le_succ hdepth')
  | _ =>
    refine ask_congr hrules fun entries hentries => ?_
    rw [hp] at hentries
    cases hentries

/-- The depth that a pipeline allows is more than its questions need. -/
theorem findFrom_zero_eq {pipeline : Pipeline α}
    (hrules : ∀ rule ∈ pipeline.rules, rule.Descends) {p : Parameter} (below : Lookup α)
    {depth : Nat} (hdepth : p.declared.depth < depth) :
    pipeline.askOver below depth p = pipeline.findFrom 0 p := by
  obtain ⟨under, rfl⟩ := Nat.exists_eq_succ_of_ne_zero (Nat.ne_zero_of_lt hdepth)
  have hallowed : p.declared.depth ≤ pipeline.depthFor p :=
    Nat.le_trans (Nat.le_add_right _ _) (Nat.le_add_right _ _)
  have hfind : pipeline.findFrom 0 p = pipeline.askAll (pipeline.depthFor p + 1) p := rfl
  rw [hfind, askAll_eq_askOver]
  exact askOver_eq hrules rfl _ _ (Nat.le_of_lt_succ hdepth) hallowed

/-- The depth is no part of what is computed: asking all rules is asking them in order, where
starting over is asking all rules. -/
theorem findFrom_zero_eq_ask {pipeline : Pipeline α}
    (hrules : ∀ rule ∈ pipeline.rules, rule.Descends) (p : Parameter) :
    pipeline.findFrom 0 p = ask (pipeline.findFrom 0) pipeline.rules p := by
  rw [← findFrom_zero_eq hrules (fun _ => none) (Nat.lt_succ_self _)]
  refine ask_congr hrules fun inner hinner => findFrom_zero_eq hrules _ ?_
  rw [hinner]
  exact Nat.lt_succ_self _

/-! ## Resolution -/

/-- A host that adds no rules of its own takes a named type from its source, and nothing else. -/
theorem resolve_eq_ambient_iff {o : PipelineOptions α} (ho : o.IsPlain) {p : Parameter}
    {source : Ambient α} :
    o.build.resolve p = .ok (.ambient source)
      ↔ ∃ name, p.declared = .named name ∧ o.sourceOf? name = some source := by
  have hfind : (o.build.findFrom 0 p).bind Resolver.source?
      = match p.declared with
        | .named name => o.sourceOf? name
        | _ => none := by
    rw [findFrom, List.drop_zero, ho.rules_eq, source?_ask_of_wraps (Rule.wraps_validation _),
      source?_ask_of_wraps Rule.wraps_range, source?_ask_bare]
  have hresolve : o.build.resolve p = .ok (.ambient source)
      ↔ (o.build.findFrom 0 p).bind Resolver.source? = some source := by
    unfold resolve
    cases o.build.findFrom 0 p with
    | none => simp
    | some resolver => cases resolver <;> simp [Resolver.source?]
  rw [hresolve, hfind]
  cases p.declared <;> simp

/-- What is neither read nor taken from a source does not resolve. -/
theorem resolve_eq_error {pipeline : Pipeline α} {p : Parameter}
    (hvalue : ∀ type, pipeline.resolve p ≠ .ok (.value type))
    (hambient : ∀ source, pipeline.resolve p ≠ .ok (.ambient source)) :
    pipeline.resolve p = .error (.unresolvable p.name (String.ofList p.declared.display)) := by
  unfold resolve at hvalue hambient ⊢
  cases hfind : pipeline.findFrom 0 p with
  | none => rfl
  | some resolver =>
    rw [hfind] at hvalue hambient
    cases resolver with
    | value type => exact absurd rfl (hvalue type)
    | ambient source => exact absurd rfl (hambient source)

/-- A host that adds no rules of its own resolves a parameter

* to a type that reads it, exactly if the innermost type is a scalar or an enumeration, and that
  type is named after it with a layer for each list around it;
* to an ambient source, exactly if the declared type is the name of one;
* and else to an error, which names the parameter and its declared type.

It comes to this by asking the rules in order, where a list starts over with its entries, and
whatever would be answered to questions that nest deeper than the declared type has layers, for
there are none. -/
theorem resolve_builtIn {o : PipelineOptions α} (ho : o.IsPlain) (p : Parameter) :
    ((∃ type, o.build.resolve p = .ok (.value type)) ↔ p.declared.innermost.IsElement)
      ∧ (∀ type, o.build.resolve p = .ok (.value type) →
          type.name = listName p.declared.depth p.declared.innermost.elementName)
      ∧ ((∃ source, o.build.resolve p = .ok (.ambient source))
          ↔ ∃ name, p.declared = .named name ∧ o.Supplies name)
      ∧ (¬ p.declared.innermost.IsElement →
          (¬ ∃ name, p.declared = .named name ∧ o.Supplies name) →
          o.build.resolve p
            = .error (.unresolvable p.name (String.ofList p.declared.display)))
      ∧ o.build.findFrom 0 p = ask (o.build.findFrom 0) o.build.rules p
      ∧ ∀ below depth, p.declared.depth < depth →
          o.build.askOver below depth p = o.build.findFrom 0 p := by
  have hvalue : (∃ type, o.build.resolve p = .ok (.value type))
      ↔ p.declared.innermost.IsElement := by
    simp only [resolve_eq_value_iff ho, ← Option.isSome_iff_exists]
    exact PipelineOptions.isSome_typeOf?_iff
  have hambient : (∃ source, o.build.resolve p = .ok (.ambient source))
      ↔ ∃ name, p.declared = .named name ∧ o.Supplies name := by
    simp only [resolve_eq_ambient_iff ho, ← PipelineOptions.isSome_sourceOf?_iff,
      Option.isSome_iff_exists]
    exact ⟨fun ⟨source, name, hname, hsource⟩ => ⟨name, hname, source, hsource⟩,
      fun ⟨name, hname, source, hsource⟩ => ⟨source, name, hname, hsource⟩⟩
  refine ⟨hvalue, ?_, hambient, ?_, findFrom_zero_eq_ask ho.descends p, ?_⟩
  · intro type htype
    exact PipelineOptions.name_of_typeOf? ((resolve_eq_value_iff ho).mp htype)
  · intro hread hsupplied
    exact resolve_eq_error (fun type h => hread (hvalue.mp ⟨type, h⟩))
      (fun source h => hsupplied (hambient.mp ⟨source, h⟩))
  · exact fun below depth hdepth => findFrom_zero_eq ho.descends below hdepth

/-- A host that injects a world, has a validator and tells capitals apart. -/
def worldly : PipelineOptions Unit where
  early := []
  late := []
  dependencies := [("world", ⟨0, "world", none⟩)]
  validators := [.length]
  caseSensitiveEnumerations := true

/-- Rows of modes are read, the world is injected, and there is no way to a list of worlds. -/
theorem builtIn_worldly :
    worldly.IsPlain
      ∧ (∃ type, worldly.build.resolve
            (.required "rows" (.list (.list (.enumeration ⟨"Mode", ["day", "night"]⟩))))
          = .ok (.value type) ∧ type.name = "list<list<Mode>>")
      ∧ (∃ source, worldly.build.resolve (.required "where" (.named "world"))
          = .ok (.ambient source))
      ∧ worldly.build.resolve (.required "where" (.list (.named "world")))
          = .error (.unresolvable "where" "list<world>") := by
  have hplain : worldly.IsPlain := ⟨rfl, rfl⟩
  obtain ⟨hread, hname, _⟩ := resolve_builtIn hplain
    (.required "rows" (.list (.list (.enumeration ⟨"Mode", ["day", "night"]⟩))))
  obtain ⟨type, htype⟩ := hread.mpr trivial
  obtain ⟨_, _, hworld, _⟩ := resolve_builtIn hplain (.required "where" (.named "world"))
  obtain ⟨_, _, _, hworlds, _⟩ := resolve_builtIn hplain
    (.required "where" (.list (.named "world")))
  refine ⟨hplain, ⟨type, htype, hname type htype⟩,
    hworld.mpr ⟨"world", rfl, .inr List.mem_cons_self⟩,
    hworlds id ?_⟩
  rintro ⟨name, hnamed, _⟩
  cases hnamed

end Pipeline

end CommandGrammar
