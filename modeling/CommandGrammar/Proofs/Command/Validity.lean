import CommandGrammar.Proofs.Command.Placement

/-!
# Which declarations compile

`ValidAt` lists what a declaration has to satisfy at a path: what is declared of the command and of
its parameters, what the tokens of the path mention, the order of the places, the names of the
flags, and that nothing but the last place takes the rest of the input.  It is said of the whole row
of segments; compiling checks it piece by piece, in one pass and in the order of its steps.

`compile_succeeds_iff_validAt` says that compiling accepts exactly the valid declarations.
-/

set_option autoImplicit false

namespace CommandGrammar

/-! ## The end of a chain -/

namespace Segment

/-- Whether the segment takes the rest of the input. -/
def isGreedy : Segment → Bool
  | .word _ => false
  | .slot s => s.isGreedy

/-- A segment as it stands at the end of a chain.  Unless its parameter asks for a single word, a
slot there has the greedy variant of its type, if there is one. -/
def atEnd : Segment → Segment
  | .word text => .word text
  | .slot s =>
    .slot { s with
      type := if s.parameter.single then s.type else s.type.greedyVariant?.getD s.type }

/-- Places, with the last one as it stands at the end of a chain. -/
def closed (places : List Segment) : List Segment :=
  places.dropLast ++ (places.getLast?.map atEnd).toList

theorem greedyName?_eq_none_iff {s : Segment} : s.greedyName? = none ↔ s.isGreedy = false := by
  cases s with
  | word text => simp [greedyName?, isGreedy]
  | slot s => simp [greedyName?, isGreedy]

/-- Closing changes the last place alone. -/
theorem closed_concat (places : List Segment) (s : Segment) :
    closed (places ++ [s]) = places ++ [s.atEnd] := by
  simp [closed]

end Segment

namespace Compile

open Segment

variable {α : Type} {pipeline : Pipeline α}

theorem slot_promote (s : Slot) : Segment.slot (promote s) = (Segment.slot s).atEnd := by
  unfold promote atEnd
  cases hsingle : s.parameter.single with
  | true => simp [hsingle]
  | false =>
    cases hvariant : s.type.greedyVariant? with
    | none => simp [hsingle, hvariant]
    | some variant => simp [hsingle, hvariant]

theorem promoteLast_eq_closed (places : List Segment) : promoteLast places = closed places := by
  fun_induction promoteLast places with
  | case1 => rfl
  | case2 s => simp [closed, slot_promote]
  | case3 text => rfl
  | case4 s t rest ih =>
    rw [ih]
    simp [closed, List.getLast?_cons_cons]

/-- The greedy check lets a chain through if nothing but its end is greedy, and only then. -/
theorem checkGreedy_eq_ok_iff {places : List Segment} :
    checkGreedy places = .ok () ↔ ∀ s ∈ places.dropLast, s.isGreedy = false := by
  constructor
  · intro hcheck s hs
    exact greedyName?_eq_none_iff.mp (greedyName?_of_checkGreedy hcheck hs)
  · intro hnone
    have hbefore : places.dropLast.filterMap greedyName? = [] :=
      List.filterMap_eq_nil_iff.mpr fun s hs => greedyName?_eq_none_iff.mpr (hnone s hs)
    unfold checkGreedy
    rw [filterMap_greedyName?_eq, hbefore, List.nil_append]
    cases hlast : places.getLast?.bind greedyName? <;> simp

theorem finish_eq_ok_iff {chain : Chain} {nodes : List Node} :
    finish chain = .ok nodes
      ↔ (∀ s ∈ (closed chain.positional).dropLast, s.isGreedy = false)
        ∧ nodes = markNodes (closed chain.positional ++ chain.flags.map .slot) := by
  rw [← checkGreedy_eq_ok_iff, ← promoteLast_eq_closed]
  constructor
  · exact finish_eq_ok
  · rintro ⟨hcheck, rfl⟩
    unfold finish
    dsimp only
    rw [hcheck]

/-! ## Whole declarations -/

theorem checkDeclaration_eq_ok_iff {d : Declaration α} {path : String} :
    checkDeclaration d path = .ok ()
      ↔ ¬ (d.metadata.priority.isSome = true ∧ d.metadata.lowPriority = true)
        ∧ ∀ p ∈ d.parameters, p.flagAndSwitch = false := by
  unfold checkDeclaration
  by_cases hpriority : d.metadata.priority.isSome = true ∧ d.metadata.lowPriority = true
  · simp [hpriority]
  · have hnone : (∀ p ∈ d.parameters, p.flagAndSwitch = false)
        ↔ d.parameters.find? Parameter.flagAndSwitch = none := by
      simp [List.find?_eq_none]
    rw [if_neg (by simpa using hpriority), and_iff_right hpriority, hnone]
    cases d.parameters.find? Parameter.flagAndSwitch <;> simp

/-- Compiling succeeds exactly if the declaration can be placed and closed, and gives the marked row
of what was placed. -/
theorem compile_eq_ok_iff {d : Declaration α} {path : String} {id : CommandId} {c : Command α} :
    compile pipeline d path id = .ok c
      ↔ checkDeclaration d path = .ok ()
        ∧ ∃ tokens, Path.tokenize path = .ok tokens ∧ Placeable pipeline d.parameters tokens
          ∧ (∀ s ∈ (closed (placesOf (row pipeline d.parameters tokens))).dropLast,
              s.isGreedy = false)
          ∧ c = ⟨id, markNodes (closed (placesOf (row pipeline d.parameters tokens))
              ++ (flagsOf (row pipeline d.parameters tokens)).map .slot), d.metadata,
              ⟨d.action, (unmentioned tokens d.parameters).filterMap (ambientOf? pipeline)⟩⟩ := by
  constructor
  · intro hcompile
    obtain ⟨tokens, chain, ambients, hcheck, htokens, hplaced, hfinish, hid, hmetadata, hbody⟩ :=
      compile_eq_ok hcompile
    obtain ⟨hplaceable, rfl, rfl⟩ :=
      (placeAll_eq_ok_iff (Path.tokenize_ne_nil htokens)).mp hplaced
    obtain ⟨hgreedy, hnodes⟩ := finish_eq_ok_iff.mp hfinish
    refine ⟨hcheck, tokens, htokens, hplaceable, hgreedy, ?_⟩
    obtain ⟨_, nodes, metadata, body⟩ := c
    cases hid
    cases hnodes
    cases hmetadata
    cases hbody
    rfl
  · rintro ⟨hcheck, tokens, htokens, hplaceable, hgreedy, rfl⟩
    have hplaced : placeAll pipeline d path tokens = .ok (_, _) :=
      (placeAll_eq_ok_iff (Path.tokenize_ne_nil htokens)).mpr ⟨hplaceable, rfl, rfl⟩
    have hfinish : finish (.ofRow path (row pipeline d.parameters tokens)) = .ok _ :=
      finish_eq_ok_iff.mpr ⟨hgreedy, rfl⟩
    unfold compile
    rw [hcheck, htokens]
    dsimp only
    rw [hplaced]
    dsimp only
    rw [hfinish]
    rfl

/-- What a declaration has to satisfy at a path.  The row is that of the words and placeholders of
the path, in order, and of the other parameters that read input, as they were declared. -/
structure ValidAt (pipeline : Pipeline α) (d : Declaration α) (path : String) : Prop where
  /-- a command with a priority has no low-priority mark -/
  onePrecedence : ¬ (d.metadata.priority.isSome = true ∧ d.metadata.lowPriority = true)
  /-- no parameter was declared a flag and a switch -/
  oneMatching : ∀ p ∈ d.parameters, p.flagAndSwitch = false
  /-- the path can be read, its tokens can be placed, and only the last place is greedy -/
  placed : ∃ tokens, Path.tokenize path = .ok tokens ∧ Placeable pipeline d.parameters tokens
    ∧ ∀ s ∈ (closed (placesOf (row pipeline d.parameters tokens))).dropLast, s.isGreedy = false

/-- Compiling accepts exactly the valid declarations. -/
theorem compile_succeeds_iff_validAt (pipeline : Pipeline α) (d : Declaration α) (path : String)
    (id : CommandId) :
    (∃ c, compile pipeline d path id = .ok c) ↔ ValidAt pipeline d path := by
  constructor
  · rintro ⟨c, hcompile⟩
    obtain ⟨hcheck, tokens, htokens, hplaceable, hgreedy, _⟩ := compile_eq_ok_iff.mp hcompile
    obtain ⟨hprecedence, hmatching⟩ := checkDeclaration_eq_ok_iff.mp hcheck
    exact ⟨hprecedence, hmatching, tokens, htokens, hplaceable, hgreedy⟩
  · rintro ⟨hprecedence, hmatching, tokens, htokens, hplaceable, hgreedy⟩
    have hcheck : checkDeclaration d path = .ok () :=
      checkDeclaration_eq_ok_iff.mpr ⟨hprecedence, hmatching⟩
    exact ⟨_, compile_eq_ok_iff.mpr ⟨hcheck, tokens, htokens, hplaceable, hgreedy, rfl⟩⟩

end Compile

end CommandGrammar
