import CommandGrammar.Command.Compile
import CommandGrammar.Proofs.Text.Words

/-!
# The shape of a compiled command

What can be relied on in every chain that compiling has let through: it starts with a word, its
words are not empty, what is matched by place stands before the flags, and of what is matched by
place only the last node may be greedy.

A chain under construction grows by words and slots only, so a property of chains holds of every
finished one as soon as it survives these two steps; `Chain.Shaped` is the property used here.
-/

set_option autoImplicit false

namespace CommandGrammar

/-! ## Words of a path -/

namespace Path

theorem readToken_word_ne_nil {c after : Cursor} {text : String}
    (h : readToken c = (.ok (some (.word text)), after)) : text.toList ≠ [] := by
  have hstart : c.skipBlanks.rest = Text.trimLeft c.rest := rfl
  unfold readToken at h
  dsimp only at h
  split at h
  · simp at h
  · unfold readPlaceholder at h
    grind
  · unfold readPlaceholder at h
    grind
  · next x _ _ hpeek =>
    simp only [Prod.mk.injEq, Except.ok.injEq, Option.some.injEq, Token.word.injEq] at h
    rw [← h.1, String.toList_ofList]
    have hink : Text.StartsInk c.skipBlanks.rest := by
      rw [hstart]
      apply Text.startsInk_trimLeft
      intro hnil
      rw [Cursor.peek?, hstart, hnil] at hpeek
      cases hpeek
    exact Text.firstWord_ne_nil hink

theorem readTokens_word_ne_nil {fuel : Nat} {c : Cursor} {tokens : List Token}
    (h : readTokens fuel c = .ok tokens) {text : String} (hmem : Token.word text ∈ tokens) :
    text.toList ≠ [] := by
  induction fuel generalizing c tokens with
  | zero =>
    cases h
    cases hmem
  | succ fuel ih =>
    rw [readTokens] at h
    split at h
    · cases h
    · cases h
      cases hmem
    · next token after hread =>
      split at h
      · cases h
      · next later hlater =>
        cases h
        cases hmem with
        | head => exact readToken_word_ne_nil hread
        | tail _ hrest => exact ih hlater hrest

/-- The words of a path are not empty. -/
theorem tokenize_word_ne_nil {path : String} {tokens : List Token}
    (h : tokenize path = .ok tokens) {text : String} (hmem : Token.word text ∈ tokens) :
    text.toList ≠ [] := by
  unfold tokenize at h
  split at h
  · cases h
  · cases h
  · next read _ hread =>
    cases h
    exact readTokens_word_ne_nil hread hmem

/-- A path that has been cut into tokens has some. -/
theorem tokenize_ne_nil {path : String} {tokens : List Token} (h : tokenize path = .ok tokens) :
    tokens ≠ [] := by
  unfold tokenize at h
  split at h
  · cases h
  · cases h
  · next hne _ =>
    cases h
    rintro rfl
    exact hne rfl

end Path

/-! ## Chains under construction -/

namespace Chain

/-! ### What a step can do -/

/-- A word is put behind the other segments, none of which is optional. -/
theorem addWord_eq_ok {c c' : Chain} {word : String} (h : c.addWord word = .ok c') :
    c.sawOptional = false ∧ c' = { c with positional := c.positional ++ [.word word] } := by
  unfold addWord at h
  split at h
  · cases h
  · next hsaw =>
    cases h
    exact ⟨by simpa using hsaw, rfl⟩

/-- A flag goes behind the other flags, and its names are new. -/
theorem addFlag_eq_ok {c c' : Chain} {s : Slot} (h : c.addFlag s = .ok c') :
    (∀ long, s.longName? = some long → ∀ f ∈ c.flags, f.longName? ≠ some long)
      ∧ (∀ short, s.shorthand? = some short → ∀ f ∈ c.flags, f.shorthand? ≠ some short)
      ∧ c' = { c with flags := c.flags ++ [s] } := by
  unfold addFlag at h
  dsimp only at h
  split at h
  · cases h
  · cases h
  · next hlong hshort =>
    cases h
    refine ⟨?_, ?_, rfl⟩
    · intro long hs f hf heq
      have hnone := Option.filter_eq_none_iff.mp hlong long hs
      exact hnone (List.any_eq_true.mpr ⟨f, hf, by simpa using heq⟩)
    · intro short hs f hf heq
      have hnone := Option.filter_eq_none_iff.mp hshort short hs
      exact hnone (List.any_eq_true.mpr ⟨f, hf, by simpa using heq⟩)

/-- A slot needs a segment before it.  One that is matched by place goes behind the segments, and
must be optional if one of them is; the others are flags. -/
theorem addSlot_eq_ok {c c' : Chain} {s : Slot} (h : c.addSlot s = .ok c') :
    c.positional ≠ []
      ∧ ((s.isPositional = true ∧ (s.isOptional = true ∨ c.sawOptional = false)
          ∧ c' = { c with positional := c.positional ++ [.slot s] })
        ∨ (s.isPositional = false ∧ c.addFlag s = .ok c')) := by
  unfold addSlot at h
  split at h
  · cases h
  · next hne =>
    refine ⟨by simpa using hne, ?_⟩
    split at h
    · next hs =>
      unfold addPositional at h
      split at h
      · cases h
      · next hoptional =>
        cases h
        exact Or.inl ⟨hs, by grind, rfl⟩
    · next hs => exact Or.inr ⟨by simpa using hs, h⟩

/-! ### The shape of a chain -/

/-- What every chain under construction satisfies. -/
structure Shaped (c : Chain) : Prop where
  /-- no word is empty -/
  wordsFilled : ∀ text, Segment.word text ∈ c.positional → text.toList ≠ []
  /-- slots among the words are matched by place -/
  slotsPlaced : ∀ s, Segment.slot s ∈ c.positional → s.isPositional = true
  /-- the flags are not -/
  flagsNamed : ∀ s ∈ c.flags, s.isPositional = false
  /-- it starts with a word, if with anything -/
  wordFirst : ∀ s rest, c.positional ≠ Segment.slot s :: rest

theorem shaped_empty (path : String) : (empty path).Shaped where
  wordsFilled := by simp [empty]
  slotsPlaced := by simp [empty]
  flagsNamed := by simp [empty]
  wordFirst := by simp [empty]

/-- A chain keeps its shape when a segment is put behind what is matched by place. -/
theorem Shaped.append {c : Chain} (h : c.Shaped) {segment : Segment}
    (hword : ∀ text, segment = .word text → text.toList ≠ [])
    (hslot : ∀ s, segment = .slot s → s.isPositional = true ∧ c.positional ≠ []) :
    Shaped { c with positional := c.positional ++ [segment] } := by
  constructor
  · intro text hmem
    rcases List.mem_append.mp hmem with hmem | hmem
    · exact h.wordsFilled text hmem
    · exact hword text (List.mem_singleton.mp hmem).symm
  · intro s hmem
    rcases List.mem_append.mp hmem with hmem | hmem
    · exact h.slotsPlaced s hmem
    · exact (hslot s (List.mem_singleton.mp hmem).symm).1
  · exact h.flagsNamed
  · intro s rest heq
    cases hpos : c.positional with
    | nil =>
      simp only [hpos, List.nil_append, List.cons.injEq] at heq
      exact (hslot s heq.1).2 hpos
    | cons first others =>
      simp only [hpos, List.cons_append, List.cons.injEq] at heq
      rw [heq.1] at hpos
      exact h.wordFirst s others hpos

theorem Shaped.addWord {c c' : Chain} {word : String} (h : c.Shaped) (hw : word.toList ≠ [])
    (hadd : c.addWord word = .ok c') : c'.Shaped := by
  obtain ⟨_, rfl⟩ := addWord_eq_ok hadd
  refine h.append ?_ (by rintro s ⟨⟩)
  rintro text ⟨⟩
  exact hw

theorem Shaped.addSlot {c c' : Chain} {s : Slot} (h : c.Shaped) (hadd : c.addSlot s = .ok c') :
    c'.Shaped := by
  obtain ⟨hne, ⟨hs, _, rfl⟩ | ⟨hs, hflag⟩⟩ := addSlot_eq_ok hadd
  · refine h.append (by rintro text ⟨⟩) ?_
    rintro f ⟨⟩
    exact ⟨hs, hne⟩
  · obtain ⟨_, _, rfl⟩ := addFlag_eq_ok hflag
    refine ⟨h.wordsFilled, h.slotsPlaced, ?_, h.wordFirst⟩
    intro f hmem
    rcases List.mem_append.mp hmem with hmem | hmem
    · exact h.flagsNamed f hmem
    · cases List.mem_singleton.mp hmem
      exact hs

/-- A step leaves a chain with a segment that is matched by place. -/
theorem positional_ne_nil_of_addWord {c c' : Chain} {word : String}
    (h : c.addWord word = .ok c') : c'.positional ≠ [] := by
  obtain ⟨_, rfl⟩ := addWord_eq_ok h
  simp

theorem positional_ne_nil_of_addSlot {c c' : Chain} {s : Slot} (h : c.addSlot s = .ok c') :
    c'.positional ≠ [] := by
  obtain ⟨hne, ⟨_, _, rfl⟩ | ⟨_, hflag⟩⟩ := addSlot_eq_ok h
  · simp
  · obtain ⟨_, _, rfl⟩ := addFlag_eq_ok hflag
    exact hne

end Chain

namespace Compile

variable {α : Type} {pipeline : Pipeline α}

/-! ### What placing can do -/

/-- A placeholder takes the first parameter with its name and makes it a slot, which its brackets
may make optional. -/
theorem placePlaceholder_eq_ok {name : String} {optional : Bool} {state after : Placed}
    (h : placePlaceholder pipeline name optional state = .ok after) :
    ∃ p type, takeParameter? name state.available = some (p, after.available)
      ∧ pipeline.resolve p = .ok (.value type)
      ∧ state.chain.addSlot ⟨p, type, p.isOptional || optional⟩ = .ok after.chain := by
  unfold placePlaceholder at h
  split at h
  · cases h
  · next p available htake =>
    split at h
    · cases h
    · cases h
    · next type hresolve =>
      dsimp only at h
      split at h
      · cases h
      · next hadd =>
        cases h
        exact ⟨p, type, htake, hresolve, hadd⟩

section Induction

variable {P : Chain → Prop}
  (hword : ∀ (c c' : Chain) (word : String),
    P c → word.toList ≠ [] → c.addWord word = .ok c' → P c')
  (hslot : ∀ (c c' : Chain) (s : Slot), P c → c.addSlot s = .ok c' → P c')

include hslot

theorem placeRest_induction {parameters : List Parameter} {chain last : Chain}
    {ambients : List (Parameter × Ambient α)}
    (h : placeRest pipeline parameters chain = .ok (last, ambients)) (hP : P chain) : P last := by
  induction parameters generalizing chain last ambients with
  | nil =>
    cases h
    exact hP
  | cons p rest ih =>
    rw [placeRest] at h
    split at h
    · cases h
    · split at h
      · cases h
      · next hadd => exact ih h (hslot _ _ _ hP hadd)
    · split at h
      · cases h
      · next hrest =>
        cases h
        exact ih hrest hP

include hword

theorem placeTokens_induction {seen : List String} {tokens : List Token} {state after : Placed}
    (hfilled : ∀ text, Token.word text ∈ tokens → text.toList ≠ [])
    (h : placeTokens pipeline seen tokens state = .ok after) (hP : P state.chain) :
    P after.chain := by
  induction tokens generalizing seen state with
  | nil =>
    cases h
    exact hP
  | cons token rest ih =>
    have hrest : ∀ text, Token.word text ∈ rest → text.toList ≠ [] :=
      fun text hmem => hfilled text (List.mem_cons_of_mem _ hmem)
    cases token with
    | word text =>
      rw [placeTokens] at h
      split at h
      · cases h
      · next hadd =>
        exact ih hrest h (hword _ _ _ hP (hfilled text List.mem_cons_self) hadd)
    | placeholder name optional =>
      rw [placeTokens] at h
      split at h
      · cases h
      · split at h
        · cases h
        · next hplace =>
          obtain ⟨_, _, _, _, hadd⟩ := placePlaceholder_eq_ok hplace
          exact ih hrest h (hslot _ _ _ hP hadd)

/-- What holds of the empty chain and survives each word and each slot holds of every chain that
is put together from a path. -/
theorem placeAll_induction {d : Declaration α} {path : String} {tokens : List Token}
    {chain : Chain} {ambients : List (Parameter × Ambient α)}
    (hfilled : ∀ text, Token.word text ∈ tokens → text.toList ≠ [])
    (h : placeAll pipeline d path tokens = .ok (chain, ambients)) (hP : P (.empty path)) :
    P chain := by
  unfold placeAll at h
  split at h
  · cases h
  · next hplaced =>
    exact placeRest_induction hslot h (placeTokens_induction hword hslot hfilled hplaced hP)

end Induction

/-- A chain that is put together from a path has a segment that is matched by place. -/
theorem positional_ne_nil_of_placeAll {d : Declaration α} {path : String} {tokens : List Token}
    {chain : Chain} {ambients : List (Parameter × Ambient α)} (hne : tokens ≠ [])
    (hfilled : ∀ text, Token.word text ∈ tokens → text.toList ≠ [])
    (h : placeAll pipeline d path tokens = .ok (chain, ambients)) : chain.positional ≠ [] := by
  have hword : ∀ (c c' : Chain) (word : String), c.positional ≠ [] → word.toList ≠ [] →
      c.addWord word = .ok c' → c'.positional ≠ [] :=
    fun _ _ _ _ _ hadd => Chain.positional_ne_nil_of_addWord hadd
  have hslot : ∀ (c c' : Chain) (s : Slot), c.positional ≠ [] → c.addSlot s = .ok c' →
      c'.positional ≠ [] :=
    fun _ _ _ _ hadd => Chain.positional_ne_nil_of_addSlot hadd
  unfold placeAll at h
  split at h
  · cases h
  · next placed hplaced =>
    refine placeRest_induction hslot h ?_
    -- the first token places a segment, and none is taken away again
    cases tokens with
    | nil => exact absurd rfl hne
    | cons token rest =>
      have hrest : ∀ text, Token.word text ∈ rest → text.toList ≠ [] :=
        fun text hmem => hfilled text (List.mem_cons_of_mem _ hmem)
      cases token with
      | word text =>
        rw [placeTokens] at hplaced
        split at hplaced
        · cases hplaced
        · next hadd =>
          exact placeTokens_induction hword hslot hrest hplaced
            (Chain.positional_ne_nil_of_addWord hadd)
      | placeholder name optional =>
        rw [placeTokens] at hplaced
        split at hplaced
        · cases hplaced
        · split at hplaced
          · cases hplaced
          · next hplace =>
            obtain ⟨_, _, _, _, hadd⟩ := placePlaceholder_eq_ok hplace
            exact placeTokens_induction hword hslot hrest hplaced
              (Chain.positional_ne_nil_of_addSlot hadd)

/-- Every chain that is put together from a path has the shape. -/
theorem shaped_of_placeAll {d : Declaration α} {path : String} {tokens : List Token}
    {chain : Chain} {ambients : List (Parameter × Ambient α)}
    (hfilled : ∀ text, Token.word text ∈ tokens → text.toList ≠ [])
    (h : placeAll pipeline d path tokens = .ok (chain, ambients)) : chain.Shaped :=
  placeAll_induction (P := Chain.Shaped) (fun _ _ _ hc hw hadd => hc.addWord hw hadd)
    (fun _ _ _ hc hadd => hc.addSlot hadd) hfilled h (Chain.shaped_empty path)

/-! ### Finishing -/

/-- The segments of a marked chain are those that were marked. -/
theorem map_segment_markNodes (segments : List Segment) :
    (markNodes segments).map Node.segment = segments := by
  fun_induction markNodes segments with
  | case1 => rfl
  | case2 => rfl
  | case3 s t rest ih => simp [ih]

/-- Promoting changes the type of a slot and nothing else. -/
theorem parameter_promote (s : Slot) : (promote s).parameter = s.parameter := by
  unfold promote
  split
  · rfl
  · split <;> rfl

/-- Promoting the last segment leaves words as they are, and slots as slots of the same
parameters. -/
theorem promoteLast_eq (segments : List Segment) :
    promoteLast segments = segments
      ∨ ∃ before s, segments = before ++ [.slot s]
        ∧ promoteLast segments = before ++ [.slot (promote s)] := by
  fun_induction promoteLast segments with
  | case1 => exact Or.inl rfl
  | case2 s => exact Or.inr ⟨[], s, rfl, rfl⟩
  | case3 => exact Or.inl rfl
  | case4 s t rest ih =>
    rcases ih with ih | ⟨before, f, heq, hpromoted⟩
    · exact Or.inl (by rw [ih])
    · exact Or.inr ⟨s :: before, f, by rw [heq]; rfl, by rw [hpromoted]; rfl⟩

/-- Every word of a promoted chain was there before. -/
theorem mem_promoteLast_word {segments : List Segment} {text : String}
    (h : Segment.word text ∈ promoteLast segments) : Segment.word text ∈ segments := by
  rcases promoteLast_eq segments with heq | ⟨before, s, heq, hpromoted⟩
  · rwa [heq] at h
  · rw [hpromoted] at h
    rw [heq]
    rcases List.mem_append.mp h with h | h
    · exact List.mem_append_left _ h
    · cases List.mem_singleton.mp h

/-- Every slot of a promoted chain is one that was there before, up to its type. -/
theorem mem_promoteLast_slot {segments : List Segment} {s : Slot}
    (h : Segment.slot s ∈ promoteLast segments) :
    ∃ f, Segment.slot f ∈ segments ∧ f.parameter = s.parameter := by
  rcases promoteLast_eq segments with heq | ⟨before, f, heq, hpromoted⟩
  · rw [heq] at h
    exact ⟨s, h, rfl⟩
  · rw [hpromoted] at h
    rw [heq]
    rcases List.mem_append.mp h with h | h
    · exact ⟨s, List.mem_append_left _ h, rfl⟩
    · cases List.mem_singleton.mp h
      exact ⟨f, List.mem_append_right _ (List.mem_singleton.mpr rfl), (parameter_promote f).symm⟩

/-- A promoted chain starts with a word if the chain does. -/
theorem promoteLast_cons_word (text : String) (rest : List Segment) :
    ∃ others, promoteLast (.word text :: rest) = .word text :: others := by
  cases rest with
  | nil => exact ⟨[], rfl⟩
  | cons s rest => exact ⟨promoteLast (s :: rest), rfl⟩

/-- The greedy slots of a chain are those before its end and perhaps its end. -/
theorem filterMap_greedyName?_eq (segments : List Segment) :
    segments.filterMap Segment.greedyName?
      = segments.dropLast.filterMap Segment.greedyName?
        ++ (segments.getLast?.bind Segment.greedyName?).toList := by
  cases hlast : segments.getLast? with
  | none =>
    rw [List.getLast?_eq_none_iff] at hlast
    subst hlast
    rfl
  | some last =>
    obtain ⟨before, rfl⟩ := List.getLast?_eq_some_iff.mp hlast
    cases hname : last.greedyName? <;> simp [hname]

/-- The greedy check lets no greedy slot through but at the end. -/
theorem greedyName?_of_checkGreedy {segments : List Segment} (h : checkGreedy segments = .ok ())
    {s : Segment} (hmem : s ∈ segments.dropLast) : s.greedyName? = none := by
  have hnone : segments.dropLast.filterMap Segment.greedyName? = [] := by
    unfold checkGreedy at h
    rw [filterMap_greedyName?_eq] at h
    cases hlast : segments.getLast?.bind Segment.greedyName? with
    | none =>
      simp only [hlast, Option.toList_none, List.append_nil] at h
      split at h
      · assumption
      · cases h
      · cases h
    | some name =>
      simp only [hlast, Option.toList_some] at h
      cases hbefore : segments.dropLast.filterMap Segment.greedyName? with
      | nil => rfl
      | cons first others =>
        rw [hbefore] at h
        cases others <;> cases h
  exact List.filterMap_eq_nil_iff.mp hnone s hmem

theorem finish_eq_ok {chain : Chain} {nodes : List Node} (h : finish chain = .ok nodes) :
    checkGreedy (promoteLast chain.positional) = .ok ()
      ∧ nodes = markNodes (promoteLast chain.positional ++ chain.flags.map .slot) := by
  unfold finish at h
  dsimp only at h
  split at h
  · cases h
  · next hgreedy =>
    cases h
    exact ⟨hgreedy, rfl⟩

/-- What compiling a declaration comes from, step by step. -/
theorem compile_eq_ok {d : Declaration α} {path : String} {id : CommandId} {c : Command α}
    (h : compile pipeline d path id = .ok c) :
    ∃ tokens chain ambients, checkDeclaration d path = .ok () ∧ Path.tokenize path = .ok tokens
      ∧ placeAll pipeline d path tokens = .ok (chain, ambients) ∧ finish chain = .ok c.nodes
      ∧ c.id = id ∧ c.metadata = d.metadata ∧ c.body = ⟨d.action, ambients⟩ := by
  unfold compile at h
  split at h
  · cases h
  · next hcheck =>
    split at h
    · cases h
    · next tokens htokens =>
      split at h
      · cases h
      · next chain ambients hplaced =>
        split at h
        · cases h
        · next nodes hnodes =>
          cases h
          exact ⟨tokens, chain, ambients, hcheck, htokens, hplaced, hnodes, rfl, rfl, rfl⟩

end Compile

/-! ## Compiled commands -/

/-- Whether a node takes the rest of the input. -/
def Node.isGreedy (n : Node) : Bool :=
  match n.segment with
  | .word _ => false
  | .slot s => s.isGreedy

theorem Node.isGreedy_of_greedyName? {n : Node} (h : n.segment.greedyName? = none) :
    n.isGreedy = false := by
  unfold isGreedy
  unfold Segment.greedyName? at h
  split
  · rfl
  · next s hs =>
    rw [hs] at h
    by_contra hgreedy
    simp [hgreedy] at h

namespace Command

variable {α : Type}

/-- A command that has been compiled from some declaration. -/
def Compiled (c : Command α) : Prop :=
  ∃ (pipeline : Pipeline α) (d : Declaration α) (path : String) (id : CommandId),
    Compile.compile pipeline d path id = .ok c

/-- What can be relied on in the chain of a compiled command. -/
structure WellShaped (c : Command α) : Prop where
  startsWithWord : ∃ n rest, c.nodes = n :: rest ∧ n.isWord = true
  wordsFilled : ∀ n ∈ c.nodes, ∀ text, n.segment = .word text → text.toList ≠ []
  flagsLast : c.nodes = c.positional ++ c.nodes.filter fun n => !n.isPositional
  greedyLast : ∀ n ∈ c.positional.dropLast, n.isGreedy = false

/-- What becomes of the segments of a chain is matched by place. -/
theorem isPositional_of_promoteLast {chain : Chain} (h : chain.Shaped) {n : Node}
    (hn : n.segment ∈ Compile.promoteLast chain.positional) : n.isPositional = true := by
  unfold Node.isPositional
  split
  · rfl
  · next s hs =>
    rw [hs] at hn
    obtain ⟨f, hf, hparameter⟩ := Compile.mem_promoteLast_slot hn
    have hplace := h.slotsPlaced f hf
    rwa [Slot.isPositional, hparameter] at hplace

/-- What becomes of the flags of a chain is not. -/
theorem isPositional_of_flags {chain : Chain} (h : chain.Shaped) {n : Node}
    (hn : n.segment ∈ chain.flags.map Segment.slot) : n.isPositional = false := by
  obtain ⟨f, hf, hs⟩ := List.mem_map.mp hn
  rw [Node.isPositional, ← hs]
  exact h.flagsNamed f hf

theorem Compiled.wellShaped {c : Command α} (h : c.Compiled) : c.WellShaped := by
  obtain ⟨pipeline, d, path, id, hcompile⟩ := h
  obtain ⟨tokens, chain, ambients, _, htokens, hplaced, hfinish, _⟩ :=
    Compile.compile_eq_ok hcompile
  obtain ⟨hgreedy, hnodes⟩ := Compile.finish_eq_ok hfinish
  have hfilled : ∀ text, Token.word text ∈ tokens → text.toList ≠ [] :=
    fun _ hmem => Path.tokenize_word_ne_nil htokens hmem
  have hshape := Compile.shaped_of_placeAll hfilled hplaced
  have hne := Compile.positional_ne_nil_of_placeAll (Path.tokenize_ne_nil htokens) hfilled hplaced
  have hsegments := Compile.map_segment_markNodes
    (Compile.promoteLast chain.positional ++ chain.flags.map .slot)
  rw [← hnodes] at hsegments
  obtain ⟨placed, named, hsplit, hplacedSegments, hnamedSegments⟩ :=
    List.map_eq_append_iff.mp hsegments
  have hplacedMem : ∀ n ∈ placed, n.segment ∈ Compile.promoteLast chain.positional :=
    fun n hn => hplacedSegments ▸ List.mem_map_of_mem hn
  have hnamedMem : ∀ n ∈ named, n.segment ∈ chain.flags.map Segment.slot :=
    fun n hn => hnamedSegments ▸ List.mem_map_of_mem hn
  have hpositional : ∀ n ∈ placed, n.isPositional = true := by
    intro n hn
    exact isPositional_of_promoteLast hshape (hplacedMem n hn)
  have hnamed : ∀ n ∈ named, n.isPositional = false := by
    intro n hn
    exact isPositional_of_flags hshape (hnamedMem n hn)
  have hplaces : c.positional = placed := by
    unfold positional
    rw [hsplit, List.filter_append, List.filter_eq_self.mpr hpositional,
      List.filter_eq_nil_iff.mpr (by simpa using hnamed), List.append_nil]
  constructor
  · -- the first segment is a word before promoting, and so it is afterwards
    cases hpos : chain.positional with
    | nil => exact absurd hpos hne
    | cons segment others =>
      cases segment with
      | slot s => exact absurd hpos (hshape.wordFirst s others)
      | word text =>
        obtain ⟨later, hlater⟩ := Compile.promoteLast_cons_word text others
        rw [hpos, hlater] at hplacedSegments
        obtain ⟨n, rest, hcons, hn, _⟩ := List.map_eq_cons_iff.mp hplacedSegments
        exact ⟨n, rest ++ named, by rw [hsplit, hcons]; rfl, by rw [Node.isWord, hn]⟩
  · intro n hn text hs
    rw [hsplit] at hn
    rcases List.mem_append.mp hn with hn | hn
    · exact hshape.wordsFilled text (Compile.mem_promoteLast_word (hs ▸ hplacedMem n hn))
    · obtain ⟨f, _, hf⟩ := List.mem_map.mp (hnamedMem n hn)
      rw [hs] at hf
      cases hf
  · rw [hplaces]
    have hothers : (c.nodes.filter fun n => !n.isPositional) = named := by
      rw [hsplit, List.filter_append, List.filter_eq_nil_iff.mpr (by simpa using hpositional),
        List.filter_eq_self.mpr (by simpa using hnamed), List.nil_append]
    rw [hothers]
    exact hsplit
  · intro n hn
    rw [hplaces] at hn
    have hmem : n.segment ∈ (Compile.promoteLast chain.positional).dropLast := by
      rw [← hplacedSegments, ← List.map_dropLast]
      exact List.mem_map_of_mem hn
    exact Node.isGreedy_of_greedyName? (Compile.greedyName?_of_checkGreedy hgreedy hmem)

end Command

end CommandGrammar
