import CommandGrammar.Proofs.Command.Row

/-!
# What placing makes of a path

The tokens of a path and then the parameters that it does not mention are placed one after
another.  `row` is everything that they place, in order, said of the whole path and not step by
step.

`placeAll_eq_ok_iff` says when placing a declaration succeeds and what it then gives.  It follows
the recursion over the tokens and the one over the other parameters, and both of them keep the
chain that of an orderly row.
-/

set_option autoImplicit false

namespace CommandGrammar

/-! ## Tokens and parameters -/

namespace Token

/-- The word of a token that is no placeholder. -/
def word? : Token → Option String
  | .word text => some text
  | .placeholder _ _ => none

/-- The name in a placeholder. -/
def mention? : Token → Option String
  | .word _ => none
  | .placeholder name _ => some name

end Token

namespace Compile

variable {α : Type}

/-- Whether a parameter has a name. -/
def named (name : String) (p : Parameter) : Bool := decide (p.name = name)

/-- The names that the placeholders of a path mention. -/
def mentions (tokens : List Token) : List String := tokens.filterMap Token.mention?

/-- The parameters that are left when each placeholder has taken the first one with its name. -/
def unmentioned (tokens : List Token) (parameters : List Parameter) : List Parameter :=
  (mentions tokens).foldl (fun left name => left.eraseP (named name)) parameters

/-- The slot of a parameter that reads input, in brackets or not. -/
def slotOf? (pipeline : Pipeline α) (bracketed : Bool) (p : Parameter) : Option Slot :=
  match pipeline.resolve p with
  | .ok (.value type) => some ⟨p, type, p.isOptional || bracketed⟩
  | _ => none

/-- A parameter that reads no input, with its source. -/
def ambientOf? (pipeline : Pipeline α) (p : Parameter) : Option (Parameter × Ambient α) :=
  match pipeline.resolve p with
  | .ok (.ambient source) => some (p, source)
  | _ => none

/-- What a token of a path places. -/
def segmentOf? (pipeline : Pipeline α) (parameters : List Parameter) : Token → Option Segment
  | .word text => some (.word text)
  | .placeholder name bracketed =>
    (parameters.find? (named name)).bind fun p => (slotOf? pipeline bracketed p).map .slot

/-- What the tokens of a path place, in their order. -/
def pathRow (pipeline : Pipeline α) (parameters : List Parameter) (tokens : List Token) :
    List Segment :=
  tokens.filterMap (segmentOf? pipeline parameters)

/-- What parameters place that no placeholder mentions. -/
def restRow (pipeline : Pipeline α) (parameters : List Parameter) : List Segment :=
  parameters.filterMap fun p => (slotOf? pipeline false p).map .slot

/-- Everything that a path and its parameters place, in order. -/
def row (pipeline : Pipeline α) (parameters : List Parameter) (tokens : List Token) :
    List Segment :=
  pathRow pipeline parameters tokens ++ restRow pipeline (unmentioned tokens parameters)

/-- A name is that of a parameter that reads input. -/
def Reads (pipeline : Pipeline α) (parameters : List Parameter) (name : String) : Prop :=
  ∃ p type, parameters.find? (named name) = some p ∧ pipeline.resolve p = .ok (.value type)

/-! ### Taking parameters -/

section Taking

variable {name other : String} {parameters : List Parameter}

theorem takeParameter?_eq (name : String) (parameters : List Parameter) :
    takeParameter? name parameters
      = (parameters.find? (named name)).map fun p => (p, parameters.eraseP (named name)) := by
  induction parameters with
  | nil => rfl
  | cons p rest ih =>
    unfold takeParameter?
    by_cases hp : p.name = name
    · simp [hp, named]
    · simp [hp, named, ih, Option.map_map, Function.comp_def]

/-- Taking a parameter leaves the first one of each other name. -/
theorem find?_eraseP_named (hne : other ≠ name) :
    (parameters.eraseP (named name)).find? (named other) = parameters.find? (named other) := by
  induction parameters with
  | nil => rfl
  | cons p rest ih =>
    by_cases hp : p.name = name
    · simp [named, hp, hne.symm]
    · simp only [named, List.eraseP_cons, hp, decide_false, cond_false, List.find?_cons]
      split
      · rfl
      · exact ih

end Taking

variable {pipeline : Pipeline α}

/-- Where a name is not mentioned, it does not matter whether its parameter has been taken. -/
theorem pathRow_eraseP {name : String} {parameters : List Parameter} {tokens : List Token}
    (hname : name ∉ mentions tokens) :
    pathRow pipeline (parameters.eraseP (named name)) tokens
      = pathRow pipeline parameters tokens := by
  apply List.filterMap_congr
  intro token htoken
  cases token with
  | word text => rfl
  | placeholder other bracketed =>
    have hother : other ≠ name := by
      rintro rfl
      exact hname (List.mem_filterMap.mpr ⟨_, htoken, rfl⟩)
    simp only [segmentOf?, find?_eraseP_named hother]

theorem reads_eraseP_iff {name other : String} {parameters : List Parameter}
    (hne : other ≠ name) :
    Reads pipeline (parameters.eraseP (named name)) other ↔ Reads pipeline parameters other := by
  unfold Reads
  rw [find?_eraseP_named hne]

theorem forall_reads_eraseP_iff {name : String} {names : List String}
    {parameters : List Parameter} (hname : name ∉ names) :
    (∀ other ∈ names, Reads pipeline (parameters.eraseP (named name)) other)
      ↔ ∀ other ∈ names, Reads pipeline parameters other := by
  refine forall₂_congr fun other hother => reads_eraseP_iff ?_
  intro heq
  exact hname (heq ▸ hother)

/-- Names are distinct and new if the first one is new and the others are so with it. -/
theorem nodup_cons_new_iff {name : String} {names seen : List String} :
    (name :: names).Nodup ∧ (∀ other ∈ name :: names, other ∉ seen)
      ↔ name ∉ seen ∧ names.Nodup ∧ ∀ other ∈ names, other ∉ name :: seen := by
  have hapart : (∀ other ∈ names, other ∉ name :: seen)
      ↔ name ∉ names ∧ ∀ other ∈ names, other ∉ seen := by
    simp only [List.mem_cons, not_or, forall_and]
    exact and_congr_left' ⟨fun h hname => h name hname rfl, fun h _ hother heq => h (heq ▸ hother)⟩
  rw [List.nodup_cons, List.forall_mem_cons, hapart]
  tauto

/-! ### Single steps -/

section Steps

variable {seen : List String} {rest : List Token} {state after : Placed}

theorem placeTokens_word_eq_ok_iff {text : String} :
    placeTokens pipeline seen (.word text :: rest) state = .ok after
      ↔ ∃ chain, state.chain.addWord text = .ok chain
        ∧ placeTokens pipeline seen rest ⟨chain, state.available⟩ = .ok after := by
  rw [placeTokens]
  cases state.chain.addWord text with
  | error e => simp
  | ok chain => simp

/-- A placeholder takes the first parameter with its name. -/
theorem placeTokens_placeholder_eq_ok_iff {name : String} {bracketed : Bool} :
    placeTokens pipeline seen (.placeholder name bracketed :: rest) state = .ok after
      ↔ name ∉ seen ∧ ∃ p type chain, state.available.find? (named name) = some p
        ∧ pipeline.resolve p = .ok (.value type)
        ∧ state.chain.addSlot ⟨p, type, p.isOptional || bracketed⟩ = .ok chain
        ∧ placeTokens pipeline (name :: seen) rest ⟨chain, state.available.eraseP (named name)⟩
          = .ok after := by
  rw [placeTokens]
  by_cases hseen : name ∈ seen
  · simp [hseen]
  · unfold placePlaceholder
    rw [if_neg hseen, takeParameter?_eq]
    cases hfind : state.available.find? (named name) with
    | none => simp [hseen]
    | some p =>
      cases hresolve : pipeline.resolve p with
      | error e => simp [hseen, hresolve]
      | ok resolver =>
        cases resolver with
        | ambient source => simp [hseen, hresolve]
        | value type =>
          cases hadd : state.chain.addSlot ⟨p, type, p.isOptional || bracketed⟩ with
          | error e => simp [hseen, hresolve, hadd, Slot.ofParameter]
          | ok chain => simp [hseen, hresolve, hadd, Slot.ofParameter]

variable {p : Parameter} {parameters : List Parameter} {chain last : Chain}
  {ambients : List (Parameter × Ambient α)}

theorem placeRest_value_eq_ok_iff {type : ValueType}
    (hresolve : pipeline.resolve p = .ok (.value type)) :
    placeRest pipeline (p :: parameters) chain = .ok (last, ambients)
      ↔ ∃ next, chain.addSlot (.ofParameter p type) = .ok next
        ∧ placeRest pipeline parameters next = .ok (last, ambients) := by
  rw [placeRest, hresolve]
  dsimp only
  cases chain.addSlot (.ofParameter p type) with
  | error e => simp
  | ok next => simp

theorem placeRest_ambient_eq_ok_iff {source : Ambient α}
    (hresolve : pipeline.resolve p = .ok (.ambient source)) :
    placeRest pipeline (p :: parameters) chain = .ok (last, ambients)
      ↔ ∃ others, placeRest pipeline parameters chain = .ok (last, others)
        ∧ ambients = (p, source) :: others := by
  rw [placeRest, hresolve]
  dsimp only
  cases placeRest pipeline parameters chain with
  | error e => simp
  | ok result =>
    obtain ⟨next, others⟩ := result
    simp only [Except.ok.injEq, Prod.mk.injEq]
    constructor
    · rintro ⟨rfl, rfl⟩
      exact ⟨others, ⟨rfl, rfl⟩, rfl⟩
    · rintro ⟨_, ⟨rfl, rfl⟩, rfl⟩
      exact ⟨rfl, rfl⟩

end Steps

/-! ### Whole paths -/

open Segment

/-- Behind a first place, tokens can be placed exactly if their names are new and those of
parameters that read input, and the row stays orderly. -/
theorem placeTokens_eq_ok_iff {path : String} {seen : List String} {tokens : List Token}
    {placed : List Segment} {available : List Parameter} {after : Placed}
    (hne : placesOf placed ≠ []) (h : Orderly placed) :
    placeTokens pipeline seen tokens ⟨.ofRow path placed, available⟩ = .ok after
      ↔ (mentions tokens).Nodup ∧ (∀ name ∈ mentions tokens, name ∉ seen)
        ∧ (∀ name ∈ mentions tokens, Reads pipeline available name)
        ∧ Orderly (placed ++ pathRow pipeline available tokens)
        ∧ after = ⟨.ofRow path (placed ++ pathRow pipeline available tokens),
            unmentioned tokens available⟩ := by
  induction tokens generalizing seen placed available with
  | nil =>
    have hrow : placed ++ pathRow pipeline available [] = placed := List.append_nil placed
    rw [hrow]
    simp [placeTokens, mentions, unmentioned, h, eq_comm]
  | cons token rest ih =>
    cases token with
    | word text =>
      have hmentions : mentions (.word text :: rest) = mentions rest := rfl
      have hleft : unmentioned (.word text :: rest) available = unmentioned rest available := rfl
      have hrow : placed ++ pathRow pipeline available (.word text :: rest)
          = (placed ++ [.word text]) ++ pathRow pipeline available rest := by
        rw [List.append_assoc]
        rfl
      have hnext : placesOf (placed ++ [.word text]) ≠ [] := by simp
      rw [placeTokens_word_eq_ok_iff, hmentions, hleft, hrow]
      constructor
      · rintro ⟨chain, hadd, hplace⟩
        obtain ⟨horderly, rfl⟩ := (Chain.addWord_ofRow_iff h).mp hadd
        exact (ih hnext horderly).mp hplace
      · intro hall
        have horderly := hall.2.2.2.1.of_append
        exact ⟨_, (Chain.addWord_ofRow_iff h).mpr ⟨horderly, rfl⟩, (ih hnext horderly).mpr hall⟩
    | placeholder name bracketed =>
      have hmentions : mentions (.placeholder name bracketed :: rest) = name :: mentions rest := rfl
      have hleft : unmentioned (.placeholder name bracketed :: rest) available
          = unmentioned rest (available.eraseP (named name)) := rfl
      -- the slot that the placeholder places, once its parameter is known
      have hrow : ∀ {p : Parameter} {type : ValueType},
          available.find? (named name) = some p → pipeline.resolve p = .ok (.value type) →
          placed ++ pathRow pipeline available (.placeholder name bracketed :: rest)
            = (placed ++ [.slot ⟨p, type, p.isOptional || bracketed⟩])
              ++ pathRow pipeline available rest := by
        intro p type hfind hresolve
        rw [List.append_assoc]
        simp [pathRow, segmentOf?, hfind, slotOf?, hresolve]
      have hnext : ∀ s : Segment, placesOf (placed ++ [s]) ≠ [] := by
        intro s
        rw [placesOf_append]
        simp [hne]
      rw [placeTokens_placeholder_eq_ok_iff, hmentions, hleft]
      constructor
      · rintro ⟨hseen, p, type, chain, hfind, hresolve, hadd, hplace⟩
        obtain ⟨horderly, rfl⟩ := (Chain.addSlot_ofRow_iff h hne).mp hadd
        obtain ⟨hnodup, hnew, hreads, hlater, hafter⟩ := (ih (hnext _) horderly).mp hplace
        have hnames := nodup_cons_new_iff.mpr ⟨hseen, hnodup, hnew⟩
        have hname : name ∉ mentions rest := (List.nodup_cons.mp hnames.1).1
        rw [pathRow_eraseP hname] at hlater hafter
        rw [forall_reads_eraseP_iff hname] at hreads
        rw [hrow hfind hresolve]
        exact ⟨hnames.1, hnames.2,
          List.forall_mem_cons.mpr ⟨⟨p, type, hfind, hresolve⟩, hreads⟩, hlater, hafter⟩
      · rintro ⟨hnodup, hnew, hreads, hlater, hafter⟩
        have hname : name ∉ mentions rest := (List.nodup_cons.mp hnodup).1
        obtain ⟨hseen, hothers⟩ := nodup_cons_new_iff.mp ⟨hnodup, hnew⟩
        obtain ⟨⟨p, type, hfind, hresolve⟩, hreads⟩ := List.forall_mem_cons.mp hreads
        rw [hrow hfind hresolve] at hlater hafter
        have horderly := hlater.of_append
        refine ⟨hseen, p, type, _, hfind, hresolve,
          (Chain.addSlot_ofRow_iff h hne).mpr ⟨horderly, rfl⟩, (ih (hnext _) horderly).mpr ?_⟩
        rw [pathRow_eraseP hname, forall_reads_eraseP_iff hname]
        exact ⟨hothers.1, hothers.2, hreads, hlater, hafter⟩

/-- Behind a first place, parameters can be placed exactly if each resolves and the row stays
orderly; those that read no input are put aside. -/
theorem placeRest_eq_ok_iff {path : String} {parameters : List Parameter} {placed : List Segment}
    {last : Chain} {ambients : List (Parameter × Ambient α)} (hne : placesOf placed ≠ [])
    (h : Orderly placed) :
    placeRest pipeline parameters (.ofRow path placed) = .ok (last, ambients)
      ↔ (∀ p ∈ parameters, ∃ resolver, pipeline.resolve p = .ok resolver)
        ∧ Orderly (placed ++ restRow pipeline parameters)
        ∧ last = .ofRow path (placed ++ restRow pipeline parameters)
        ∧ ambients = parameters.filterMap (ambientOf? pipeline) := by
  induction parameters generalizing placed ambients with
  | nil =>
    have hrow : placed ++ restRow pipeline [] = placed := List.append_nil placed
    rw [hrow]
    simp [placeRest, h, eq_comm]
  | cons p rest ih =>
    cases hresolve : pipeline.resolve p with
    | error e => simp [placeRest, hresolve]
    | ok resolver =>
      cases resolver with
      | value type =>
        have hrow : placed ++ restRow pipeline (p :: rest)
            = (placed ++ [.slot (.ofParameter p type)]) ++ restRow pipeline rest := by
          rw [List.append_assoc]
          simp [restRow, slotOf?, hresolve, Slot.ofParameter]
        have hput : (p :: rest).filterMap (ambientOf? pipeline)
            = rest.filterMap (ambientOf? pipeline) := by simp [ambientOf?, hresolve]
        have hnext : placesOf (placed ++ [.slot (.ofParameter p type)]) ≠ [] := by
          rw [placesOf_append]
          simp [hne]
        have hfirst : ∃ resolver, pipeline.resolve p = .ok resolver := ⟨_, hresolve⟩
        rw [placeRest_value_eq_ok_iff hresolve, List.forall_mem_cons, and_iff_right hfirst, hput,
          hrow]
        constructor
        · rintro ⟨next, hadd, hplace⟩
          obtain ⟨horderly, rfl⟩ := (Chain.addSlot_ofRow_iff h hne).mp hadd
          exact (ih hnext horderly).mp hplace
        · intro hall
          have horderly := hall.2.1.of_append
          exact ⟨_, (Chain.addSlot_ofRow_iff h hne).mpr ⟨horderly, rfl⟩,
            (ih hnext horderly).mpr hall⟩
      | ambient source =>
        have hrow : restRow pipeline (p :: rest) = restRow pipeline rest := by
          simp [restRow, slotOf?, hresolve]
        have hput : (p :: rest).filterMap (ambientOf? pipeline)
            = (p, source) :: rest.filterMap (ambientOf? pipeline) := by simp [ambientOf?, hresolve]
        have hfirst : ∃ resolver, pipeline.resolve p = .ok resolver := ⟨_, hresolve⟩
        rw [placeRest_ambient_eq_ok_iff hresolve, List.forall_mem_cons, and_iff_right hfirst, hput,
          hrow]
        constructor
        · rintro ⟨others, hplace, rfl⟩
          obtain ⟨hall, horderly, hlast, rfl⟩ := (ih hne h).mp hplace
          exact ⟨hall, horderly, hlast, rfl⟩
        · rintro ⟨hall, horderly, hlast, rfl⟩
          exact ⟨_, (ih hne h).mpr ⟨hall, horderly, hlast, rfl⟩, rfl⟩

/-- What placing requires of a path and its parameters. -/
structure Placeable (pipeline : Pipeline α) (parameters : List Parameter) (tokens : List Token) :
    Prop where
  wordFirst : ∃ text rest, tokens = .word text :: rest
  mentionsDistinct : (mentions tokens).Nodup
  /-- each placeholder names a parameter that reads input -/
  mentionsRead : ∀ name ∈ mentions tokens, Reads pipeline parameters name
  othersResolve : ∀ p ∈ unmentioned tokens parameters, ∃ resolver, pipeline.resolve p = .ok resolver
  orderly : Orderly (row pipeline parameters tokens)

/-- A path that begins with a placeholder is refused. -/
theorem placeTokens_placeholder_ne_ok {path name : String} {bracketed : Bool} {rest : List Token}
    {parameters : List Parameter} {after : Placed} :
    placeTokens pipeline [] (.placeholder name bracketed :: rest) ⟨.empty path, parameters⟩
      ≠ .ok after := by
  rw [ne_eq, placeTokens_placeholder_eq_ok_iff]
  rintro ⟨_, p, type, chain, _, _, hadd, _⟩
  exact (Chain.addSlot_eq_ok hadd).1 rfl

/-- A path that begins with a word is placed from the empty chain on as behind that word. -/
theorem placeTokens_empty_eq_ok_iff {path text : String} {rest : List Token}
    {parameters : List Parameter} {after : Placed} :
    placeTokens pipeline [] (.word text :: rest) ⟨.empty path, parameters⟩ = .ok after
      ↔ (mentions (.word text :: rest)).Nodup
        ∧ (∀ name ∈ mentions (.word text :: rest), Reads pipeline parameters name)
        ∧ Orderly (pathRow pipeline parameters (.word text :: rest))
        ∧ after = ⟨.ofRow path (pathRow pipeline parameters (.word text :: rest)),
            unmentioned (.word text :: rest) parameters⟩ := by
  have hempty : Chain.empty path = .ofRow path [] := rfl
  have hfirst : Orderly ([] ++ [.word text]) :=
    (orderly_concat_word_iff orderly_nil text).mpr (by simp [placesOf])
  have hplaces : placesOf ([] ++ [.word text]) ≠ [] := by simp
  have hrow : ([] ++ [.word text]) ++ pathRow pipeline parameters rest
      = pathRow pipeline parameters (.word text :: rest) := rfl
  rw [placeTokens_word_eq_ok_iff, hempty]
  constructor
  · rintro ⟨next, hadd, hplace⟩
    obtain ⟨_, rfl⟩ := (Chain.addWord_ofRow_iff orderly_nil).mp hadd
    rw [placeTokens_eq_ok_iff hplaces hfirst, hrow] at hplace
    obtain ⟨hnodup, _, hreads, horderly, hafter⟩ := hplace
    exact ⟨hnodup, hreads, horderly, hafter⟩
  · rintro ⟨hnodup, hreads, horderly, hafter⟩
    refine ⟨_, (Chain.addWord_ofRow_iff orderly_nil).mpr ⟨hfirst, rfl⟩, ?_⟩
    rw [placeTokens_eq_ok_iff hplaces hfirst, hrow]
    exact ⟨hnodup, fun _ _ => List.not_mem_nil, hreads, horderly, hafter⟩

/-- Placing a declaration at a path succeeds exactly if the path and the parameters are as
`Placeable` says, and gives the chain of their row. -/
theorem placeAll_eq_ok_iff {d : Declaration α} {path : String} {tokens : List Token}
    {chain : Chain} {ambients : List (Parameter × Ambient α)} (hne : tokens ≠ []) :
    placeAll pipeline d path tokens = .ok (chain, ambients)
      ↔ Placeable pipeline d.parameters tokens
        ∧ chain = .ofRow path (row pipeline d.parameters tokens)
        ∧ ambients = (unmentioned tokens d.parameters).filterMap (ambientOf? pipeline) := by
  have hsteps : placeAll pipeline d path tokens = .ok (chain, ambients)
      ↔ ∃ placed, placeTokens pipeline [] tokens ⟨.empty path, d.parameters⟩ = .ok placed
        ∧ placeRest pipeline placed.available placed.chain = .ok (chain, ambients) := by
    unfold placeAll
    cases placeTokens pipeline [] tokens ⟨.empty path, d.parameters⟩ <;> simp
  rw [hsteps]
  cases tokens with
  | nil => exact absurd rfl hne
  | cons token rest =>
    cases token with
    | placeholder name bracketed =>
      constructor
      · rintro ⟨placed, hplace, _⟩
        exact absurd hplace placeTokens_placeholder_ne_ok
      · rintro ⟨⟨⟨text, others, hword⟩, _⟩, _⟩
        cases hword
    | word text =>
      have hpath : placesOf (pathRow pipeline d.parameters (.word text :: rest)) ≠ [] := by
        simp [pathRow, segmentOf?, placesOf, isPositional]
      constructor
      · rintro ⟨placed, hplace, hrest⟩
        obtain ⟨hnodup, hreads, horderly, rfl⟩ := placeTokens_empty_eq_ok_iff.mp hplace
        obtain ⟨hresolve, hall, hchain, hambients⟩ := (placeRest_eq_ok_iff hpath horderly).mp hrest
        exact ⟨⟨⟨text, rest, rfl⟩, hnodup, hreads, hresolve, hall⟩, hchain, hambients⟩
      · rintro ⟨⟨_, hnodup, hreads, hresolve, hall⟩, hchain, hambients⟩
        have horderly : Orderly (pathRow pipeline d.parameters (.word text :: rest)) :=
          hall.of_append
        have htokens :
            placeTokens pipeline [] (.word text :: rest) ⟨.empty path, d.parameters⟩ = .ok _ :=
          placeTokens_empty_eq_ok_iff.mpr ⟨hnodup, hreads, horderly, rfl⟩
        exact ⟨_, htokens,
          (placeRest_eq_ok_iff hpath horderly).mpr ⟨hresolve, hall, hchain, hambients⟩⟩

end Compile

end CommandGrammar
