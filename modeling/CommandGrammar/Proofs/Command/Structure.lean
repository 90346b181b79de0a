import CommandGrammar.Proofs.Command.Validity
import CommandGrammar.Proofs.Trial.Permission
import Mathlib.Data.List.Perm.Basic

/-!
# The structure of a compiled command

`WellBuilt` collects what ranking, the flag pass, the walk and the action rely on: how the nodes are
ordered, which of them are marked, and where each word of the path and each parameter of the
declaration has gone.  Nothing of it depends on how compiling goes about it.

The nodes are the marked segments of a row whose last place has been closed.  So what holds of the
row and does not look at the type of a slot holds of the nodes, and the marks have a closed form.

`compile_wellBuilt` says that every command that compiles is built like this.
-/

set_option autoImplicit false

namespace CommandGrammar

/-! ## Nodes and their segments -/

namespace Node

/-- The word, unless the node is a slot. -/
def word? (n : Node) : Option String := n.segment.word?

theorem isOptional_eq (n : Node) : n.isOptional = n.segment.isOptional := rfl

end Node

namespace Segment

/-! ### Closing a row -/

/-- What a property of segments says of a row does not change when the row is closed, if the
property does not change at its end. -/
theorem map_closed {β : Type} {f : Segment → β} (hf : ∀ s, f s.atEnd = f s)
    (places : List Segment) : (closed places).map f = places.map f := by
  rcases List.eq_nil_or_concat places with rfl | ⟨before, last, rfl⟩
  · rfl
  · rw [List.concat_eq_append, closed_concat, List.map_append, List.map_append, List.map_singleton,
      List.map_singleton, hf]

theorem filterMap_closed {β : Type} {f : Segment → Option β} (hf : ∀ s, f s.atEnd = f s)
    (places : List Segment) : (closed places).filterMap f = places.filterMap f := by
  have hmap : ∀ l : List Segment, l.filterMap f = (l.map f).filterMap id := by
    intro l
    rw [List.filterMap_map]
    rfl
  rw [hmap, hmap, map_closed hf]

@[simp] theorem isOptional_atEnd (s : Segment) : s.atEnd.isOptional = s.isOptional := by
  cases s <;> rfl

@[simp] theorem isPositional_atEnd (s : Segment) : s.atEnd.isPositional = s.isPositional := by
  cases s <;> rfl

@[simp] theorem word?_atEnd (s : Segment) : s.atEnd.word? = s.word? := by
  cases s <;> rfl

@[simp] theorem parameter_atEnd (s : Segment) :
    s.atEnd.slot?.map Slot.parameter = s.slot?.map Slot.parameter := by
  cases s <;> rfl

/-! ### Words and slots of a row -/

theorem isPositional_of_mem_closed {row : List Segment} {s : Segment}
    (hs : s ∈ closed (placesOf row)) : s.isPositional = true := by
  have hmem : s.isPositional ∈ (closed (placesOf row)).map isPositional := List.mem_map_of_mem hs
  rw [map_closed isPositional_atEnd] at hmem
  obtain ⟨t, ht, heq⟩ := List.mem_map.mp hmem
  rw [← heq]
  exact (List.mem_filter.mp ht).2

theorem isPositional_of_mem_flagsOf {row : List Segment} {s : Slot} (hs : s ∈ flagsOf row) :
    s.isPositional = false := by
  simpa using (List.mem_filter.mp hs).2

/-- All words of a row are matched by place. -/
theorem filterMap_word?_placesOf (row : List Segment) :
    (placesOf row).filterMap word? = row.filterMap word? := by
  unfold placesOf
  rw [List.filterMap_filter]
  apply List.filterMap_congr
  intro s _
  cases s with
  | word text => rfl
  | slot f => cases h : f.isPositional <;> simp [isPositional, word?, h]

/-- The slots among the places of a row are the places among its slots. -/
theorem filterMap_slot?_placesOf (row : List Segment) :
    (placesOf row).filterMap slot? = (row.filterMap slot?).filter Slot.isPositional := by
  unfold placesOf
  rw [List.filterMap_filter, List.filter_filterMap]
  apply List.filterMap_congr
  intro s _
  cases s with
  | word text => rfl
  | slot f => cases h : f.isPositional <;> simp [isPositional, slot?, Option.filter, h]

end Segment

/-! ## Marks -/

namespace Compile

open Segment

variable {α : Type} {pipeline : Pipeline α}

/-- Only the last segment is marked as the last, and the command may end there and at every
optional segment. -/
theorem markNodes_concat (segments : List Segment) (last : Segment) :
    markNodes (segments ++ [last])
      = segments.map (fun s => ⟨s, false, s.isOptional⟩) ++ [⟨last, true, true⟩] := by
  induction segments with
  | nil => rfl
  | cons s rest ih =>
    have hcons : markNodes (s :: (rest ++ [last]))
        = ⟨s, false, s.isOptional⟩ :: markNodes (rest ++ [last]) := by
      cases rest <;> rfl
    rw [List.cons_append, hcons, ih]
    rfl

theorem mayEnd_of_mem_markNodes {segments : List Segment} {n : Node}
    (hn : n ∈ markNodes segments) : n.mayEnd = true ↔ n.isOptional = true ∨ n.isLast = true := by
  rcases List.eq_nil_or_concat segments with rfl | ⟨before, last, rfl⟩
  · cases hn
  · rw [List.concat_eq_append, markNodes_concat] at hn
    rcases List.mem_append.mp hn with hn | hn
    · obtain ⟨s, _, rfl⟩ := List.mem_map.mp hn
      simp [Node.isOptional_eq]
    · rw [List.mem_singleton.mp hn]
      simp

/-- A node is marked as the last where nothing follows it. -/
theorem isLast_of_markNodes_eq {segments : List Segment} {before after : List Node} {n : Node}
    (h : markNodes segments = before ++ n :: after) : n.isLast = true ↔ after = [] := by
  rcases List.eq_nil_or_concat segments with rfl | ⟨others, last, rfl⟩
  · simp [markNodes] at h
  · rw [List.concat_eq_append, markNodes_concat] at h
    rcases List.eq_nil_or_concat after with rfl | ⟨later, final, rfl⟩
    · obtain ⟨_, hlast⟩ := List.append_inj' h rfl
      rw [List.cons.injEq] at hlast
      simp [← hlast.1]
    · rw [List.concat_eq_append, ← List.cons_append, ← List.append_assoc] at h
      obtain ⟨hothers, _⟩ := List.append_inj' h rfl
      have hn : n ∈ others.map fun s => (⟨s, false, s.isOptional⟩ : Node) := by
        rw [hothers]
        exact List.mem_append_right _ List.mem_cons_self
      obtain ⟨s, _, rfl⟩ := List.mem_map.mp hn
      simp

/-! ## Where the parameters go -/

/-- Whether a parameter reads input. -/
def readsInput (pipeline : Pipeline α) (p : Parameter) : Bool := (slotOf? pipeline false p).isSome

/-- The parameters that placeholders mention, in the order of the path. -/
def mentioned (tokens : List Token) (parameters : List Parameter) : List Parameter :=
  (mentions tokens).filterMap fun name => parameters.find? (named name)

/-- What a parameter places is a slot of its own, if it reads input. -/
theorem parameter_slotOf? (bracketed : Bool) (p : Parameter) :
    (slotOf? pipeline bracketed p).map Slot.parameter
      = if readsInput pipeline p then some p else none := by
  unfold readsInput slotOf?
  split <;> simp_all

theorem filterMap_word?_pathRow (parameters : List Parameter) (tokens : List Token) :
    (pathRow pipeline parameters tokens).filterMap Segment.word?
      = tokens.filterMap Token.word? := by
  unfold pathRow
  rw [List.filterMap_filterMap]
  apply List.filterMap_congr
  intro token _
  cases token with
  | word text => rfl
  | placeholder name bracketed =>
    simp [segmentOf?, Token.word?, Segment.word?, Option.bind_assoc]

theorem filterMap_word?_restRow (parameters : List Parameter) :
    (restRow pipeline parameters).filterMap Segment.word? = [] := by
  simp [restRow, Segment.word?, List.filterMap_filterMap]

theorem parameters_restRow (parameters : List Parameter) :
    ((restRow pipeline parameters).filterMap slot?).map Slot.parameter
      = parameters.filter (readsInput pipeline) := by
  unfold restRow
  rw [List.filterMap_filterMap, List.map_filterMap, ← List.filterMap_eq_filter]
  apply List.filterMap_congr
  intro p _
  have hslot : ((slotOf? pipeline false p).map Segment.slot).bind slot?
      = slotOf? pipeline false p := by
    cases slotOf? pipeline false p <;> rfl
  rw [hslot, parameter_slotOf?]
  rfl

theorem parameters_pathRow {parameters : List Parameter} {tokens : List Token}
    (hreads : ∀ name ∈ mentions tokens, Reads pipeline parameters name) :
    ((pathRow pipeline parameters tokens).filterMap slot?).map Slot.parameter
      = mentioned tokens parameters := by
  unfold pathRow mentioned mentions
  rw [List.filterMap_filterMap, List.map_filterMap, List.filterMap_filterMap]
  apply List.filterMap_congr
  intro token htoken
  cases token with
  | word text => rfl
  | placeholder name bracketed =>
    have hname : name ∈ mentions tokens := List.mem_filterMap.mpr ⟨_, htoken, rfl⟩
    obtain ⟨p, type, hfind, hresolve⟩ := hreads name hname
    simp [segmentOf?, Token.mention?, hfind, slotOf?, hresolve, slot?]

/-- Where each parameter resolves, those that are put aside are those that read no input. -/
theorem parameters_ambients {parameters : List Parameter}
    (hresolve : ∀ p ∈ parameters, ∃ resolver, pipeline.resolve p = .ok resolver) :
    (parameters.filterMap (ambientOf? pipeline)).map Prod.fst
      = parameters.filter fun p => !readsInput pipeline p := by
  rw [List.map_filterMap, ← List.filterMap_eq_filter]
  apply List.filterMap_congr
  intro p hp
  obtain ⟨resolver, hresolver⟩ := hresolve p hp
  cases resolver <;> simp [ambientOf?, readsInput, slotOf?, hresolver, Option.guard]

theorem cons_eraseP_perm {name : String} {parameters : List Parameter} {p : Parameter}
    (h : parameters.find? (named name) = some p) :
    (p :: parameters.eraseP (named name)).Perm parameters := by
  obtain ⟨hp, before, after, rfl, hbefore⟩ := List.find?_eq_some_iff_append.mp h
  have hnone : ∀ q ∈ before, ¬ named name q = true := fun q hq => by simpa using hbefore q hq
  rw [List.eraseP_append_right _ hnone, List.eraseP_cons_of_pos hp]
  exact List.perm_middle.symm

/-- Taking parameters by name takes each of them once. -/
theorem taken_perm {names : List String} {parameters : List Parameter} (hnames : names.Nodup)
    (hfound : ∀ name ∈ names, ∃ p, parameters.find? (named name) = some p) :
    ((names.filterMap fun name => parameters.find? (named name))
      ++ names.foldl (fun left name => left.eraseP (named name)) parameters).Perm parameters := by
  induction names generalizing parameters with
  | nil => exact List.Perm.refl _
  | cons name rest ih =>
    obtain ⟨hname, hrest⟩ := List.nodup_cons.mp hnames
    obtain ⟨p, hp⟩ := hfound name List.mem_cons_self
    have hlater : ∀ other ∈ rest, (parameters.eraseP (named name)).find? (named other)
        = parameters.find? (named other) := by
      intro other hother
      exact find?_eraseP_named fun heq => hname (heq ▸ hother)
    have hstill : ∀ other ∈ rest, ∃ q, (parameters.eraseP (named name)).find? (named other)
        = some q := by
      intro other hother
      rw [hlater other hother]
      exact hfound other (List.mem_cons_of_mem _ hother)
    have hothers := ih hrest hstill
    rw [List.filterMap_congr hlater] at hothers
    have hfirst : ((name :: rest).filterMap fun name => parameters.find? (named name))
        = p :: rest.filterMap fun name => parameters.find? (named name) :=
      List.filterMap_cons_some hp
    rw [hfirst, List.foldl_cons]
    exact (hothers.cons p).trans (cons_eraseP_perm hp)

theorem mentioned_append_unmentioned_perm {tokens : List Token} {parameters : List Parameter}
    (hnames : (mentions tokens).Nodup)
    (hreads : ∀ name ∈ mentions tokens, Reads pipeline parameters name) :
    (mentioned tokens parameters ++ unmentioned tokens parameters).Perm parameters := by
  apply taken_perm hnames
  intro name hname
  obtain ⟨p, _, hfind, _⟩ := hreads name hname
  exact ⟨p, hfind⟩

theorem unmentioned_sublist (tokens : List Token) (parameters : List Parameter) :
    (unmentioned tokens parameters).Sublist parameters := by
  unfold unmentioned
  induction mentions tokens generalizing parameters with
  | nil => exact List.Sublist.refl _
  | cons name rest ih => exact (ih _).trans List.eraseP_sublist

theorem names_mentioned {tokens : List Token} {parameters : List Parameter}
    (hreads : ∀ name ∈ mentions tokens, Reads pipeline parameters name) :
    (mentioned tokens parameters).map Parameter.name = mentions tokens := by
  unfold mentioned
  rw [List.map_filterMap]
  refine (List.filterMap_congr ?_).trans (List.filterMap_some)
  intro name hname
  obtain ⟨p, _, hfind, _⟩ := hreads name hname
  have hp : p.name = name := by simpa [named] using List.find?_some hfind
  simp [hfind, hp]

end Compile

/-! ## Commands of a row -/

namespace Command

open Compile Segment

variable {α : Type} {pipeline : Pipeline α} {c : Command α} {row : List Segment}

/-- The nodes of a command are the marked segments of a row: its places, the last one closed, and
then its flags. -/
def OfRow (c : Command α) (row : List Segment) : Prop :=
  c.nodes = markNodes (closed (placesOf row) ++ (flagsOf row).map .slot)

namespace OfRow

theorem segments (h : c.OfRow row) :
    c.nodes.map Node.segment = closed (placesOf row) ++ (flagsOf row).map .slot := by
  rw [OfRow.eq_def] at h
  rw [h, map_segment_markNodes]

theorem positional (h : c.OfRow row) :
    c.positional.map Node.segment = closed (placesOf row) := by
  have hplaces : ∀ s ∈ closed (placesOf row), s.isPositional = true :=
    fun _ hs => isPositional_of_mem_closed hs
  have hflags : ∀ s ∈ (flagsOf row).map Segment.slot, ¬ s.isPositional = true := by
    intro s hs
    obtain ⟨f, hf, rfl⟩ := List.mem_map.mp hs
    simp [Segment.isPositional, isPositional_of_mem_flagsOf hf]
  have hfilter : c.positional.map Node.segment
      = (c.nodes.map Node.segment).filter Segment.isPositional := by
    rw [List.filter_map, Command.positional]
    rfl
  rw [hfilter, h.segments, List.filter_append, List.filter_eq_self.mpr hplaces,
    List.filter_eq_nil_iff.mpr hflags, List.append_nil]

theorem slots (h : c.OfRow row) :
    c.slots = (closed (placesOf row)).filterMap Segment.slot? ++ flagsOf row := by
  have hsegments : c.slots = (c.nodes.map Node.segment).filterMap Segment.slot? := by
    rw [List.filterMap_map, Command.slots]
    rfl
  have hflags : ((flagsOf row).map Segment.slot).filterMap Segment.slot? = flagsOf row := by
    rw [List.filterMap_map]
    exact List.filterMap_some
  rw [hsegments, h.segments, List.filterMap_append, hflags]

theorem places (h : c.OfRow row) : c.places = (closed (placesOf row)).filterMap Segment.slot? := by
  rw [← h.positional, List.filterMap_map, Command.places]
  rfl

theorem flags (h : c.OfRow row) : c.flags = flagsOf row := by
  have hplaces : ∀ s ∈ (closed (placesOf row)).filterMap Segment.slot?,
      ¬ (!s.isPositional) = true := by
    intro s hs
    obtain ⟨segment, hmem, hslot⟩ := List.mem_filterMap.mp hs
    have hpositional := isPositional_of_mem_closed hmem
    cases segment with
    | word text => cases hslot
    | slot t =>
      cases hslot
      simpa [Segment.isPositional] using hpositional
  have hflags : ∀ s ∈ flagsOf row, (!s.isPositional) = true :=
    fun s hs => by simp [isPositional_of_mem_flagsOf hs]
  have hfilter : c.flags = c.slots.filter fun s => !s.isPositional := rfl
  rw [hfilter, h.slots, List.filter_append, List.filter_eq_nil_iff.mpr hplaces,
    List.filter_eq_self.mpr hflags, List.nil_append]

theorem words (h : c.OfRow row) : c.nodes.filterMap Node.word? = row.filterMap Segment.word? := by
  have hflags : ((flagsOf row).map Segment.slot).filterMap Segment.word? = [] := by
    simp [Segment.word?]
  have hsegments : c.nodes.filterMap Node.word?
      = (c.nodes.map Node.segment).filterMap Segment.word? := by
    rw [List.filterMap_map]
    rfl
  rw [hsegments, h.segments, List.filterMap_append, hflags, List.append_nil,
    filterMap_closed word?_atEnd, filterMap_word?_placesOf]

/-- Closing a row changes a type and no parameter. -/
theorem parameters_places (h : c.OfRow row) :
    c.places.map Slot.parameter
      = ((row.filterMap Segment.slot?).map Slot.parameter).filter Parameter.isPositional := by
  rw [h.places, List.map_filterMap, filterMap_closed parameter_atEnd, ← List.map_filterMap,
    Segment.filterMap_slot?_placesOf, List.filter_map]
  rfl

theorem parameters_flags (h : c.OfRow row) :
    c.flags.map Slot.parameter
      = ((row.filterMap Segment.slot?).map Slot.parameter).filter fun p => !p.isPositional := by
  rw [h.flags, flagsOf, List.filter_map]
  rfl

theorem parameters_perm (h : c.OfRow row) :
    (c.slots.map Slot.parameter).Perm ((row.filterMap Segment.slot?).map Slot.parameter) := by
  have hsplit : c.slots.map Slot.parameter
      = c.places.map Slot.parameter ++ c.flags.map Slot.parameter := by
    rw [h.slots, h.places, h.flags, List.map_append]
  rw [hsplit, h.parameters_places, h.parameters_flags]
  exact List.filter_append_perm _ _

/-- The optional places of an orderly row are the last ones. -/
theorem optionalBehind (h : c.OfRow row) (horderly : Orderly row) :
    c.positional.Pairwise fun m n => m.isOptional = true → n.isOptional = true := by
  have hmarks : c.positional.map Node.isOptional = (placesOf row).map Segment.isOptional := by
    rw [← map_closed isOptional_atEnd, ← h.positional, List.map_map]
    rfl
  have hpairs := horderly.optionalLast
  rw [← List.pairwise_map (f := Segment.isOptional) (R := fun a b => a = true → b = true)] at hpairs
  rw [← List.pairwise_map (f := Node.isOptional) (R := fun a b => a = true → b = true), hmarks]
  exact hpairs

end OfRow

/-! ## Structure -/

/-- How a command that was compiled from a declaration and the tokens of a path is built. -/
structure WellBuilt (pipeline : Pipeline α) (d : Declaration α) (tokens : List Token)
    (c : Command α) : Prop where
  wordFirst : ∃ n rest, c.nodes = n :: rest ∧ n.isWord = true
  /-- flags and switches stand behind everything that is matched by place -/
  flagsBehind : c.nodes.Pairwise fun m n => n.isPositional = true → m.isPositional = true
  /-- behind an optional place all places are optional -/
  optionalBehind : c.positional.Pairwise fun m n => m.isOptional = true → n.isOptional = true
  greedyLast : ∀ n ∈ c.positional.dropLast, n.isGreedy = false
  lastMarked : ∀ before n after, c.nodes = before ++ n :: after → (n.isLast = true ↔ after = [])
  endsMarked : ∀ n ∈ c.nodes, n.mayEnd = true ↔ n.isOptional = true ∨ n.isLast = true
  bodyPresent : c.body? = some c.body
  action : c.body.action = d.action
  longNamesDistinct : (c.flags.filterMap Slot.longName?).Nodup
  shorthandsDistinct : (c.flags.filterMap Slot.shorthand?).Nodup
  hasFlags_iff : c.hasFlags = true ↔ ∃ s ∈ c.slots, s.isFlag = true ∨ s.isSwitch = true
  optionalCounted : c.optionalCount = (c.nodes.filter Node.isOptional).length
  allCounted : c.optionalCount + c.requiredCount = c.size
  /-- the words are those of the path -/
  words : c.nodes.filterMap Node.word? = tokens.filterMap Token.word?
  /-- of the parameters that read input, those that the path mentions stand in its order, and the
  others behind them in the order of their declaration -/
  inOrder : ∃ inPath others : List Parameter, inPath.map Parameter.name = mentions tokens
    ∧ others.Sublist d.parameters
    ∧ c.places.map Slot.parameter = (inPath ++ others).filter Parameter.isPositional
    ∧ c.flags.map Slot.parameter = (inPath ++ others).filter fun p => !p.isPositional
  /-- the parameters that read no input stand in the order of their declaration -/
  ambientsInOrder : (c.body.ambients.map Prod.fst).Sublist d.parameters
  ambientsResolved : ∀ b ∈ c.body.ambients, pipeline.resolve b.1 = .ok (.ambient b.2)
  /-- no parameter is lost, and none occurs twice -/
  complete : (c.slots.map Slot.parameter ++ c.body.ambients.map Prod.fst).Perm d.parameters

theorem pairwise_of_flagsLast
    (h : c.nodes = c.positional ++ c.nodes.filter fun n => !n.isPositional) :
    c.nodes.Pairwise fun m n => n.isPositional = true → m.isPositional = true := by
  have hplaced : ∀ n ∈ c.positional, n.isPositional = true := fun _ hn => (List.mem_filter.mp hn).2
  rw [h, List.pairwise_append]
  refine ⟨?_, ?_, ?_⟩
  · exact List.pairwise_of_forall_mem_list fun m hm _ _ _ => hplaced m hm
  · apply List.pairwise_of_forall_mem_list
    intro m _ n hn hpositional
    have hflag := (List.mem_filter.mp hn).2
    rw [hpositional] at hflag
    cases hflag
  · exact fun m hm _ _ _ => hplaced m hm

theorem isFlag_or_isSwitch_iff {s : Slot} :
    s.isFlag = true ∨ s.isSwitch = true ↔ s.isPositional = false := by
  unfold Slot.isFlag Slot.isSwitch Slot.isPositional Parameter.isPositional
  cases s.parameter.matching <;>
    simp [Matching.isFlag, Matching.isSwitch, Matching.isPositional, Matching.names?]

theorem hasFlags_iff_exists :
    c.hasFlags = true ↔ ∃ s ∈ c.slots, s.isFlag = true ∨ s.isSwitch = true := by
  constructor
  · intro hflags
    obtain ⟨⟨segment, last, ends⟩, hn, hplace⟩ := List.any_eq_true.mp hflags
    cases segment with
    | word text => cases hplace
    | slot s =>
      refine ⟨s, List.mem_filterMap.mpr ⟨_, hn, rfl⟩, isFlag_or_isSwitch_iff.mpr ?_⟩
      simpa [Node.isPositional] using hplace
  · intro hslot
    obtain ⟨s, hs, hflag⟩ := hslot
    exact hasFlags_of_mem_flags (mem_flags_iff.mpr ⟨hs, isFlag_or_isSwitch_iff.mp hflag⟩)

theorem optionalCount_add_requiredCount (c : Command α) :
    c.optionalCount + c.requiredCount = c.size := by
  have hle : c.optionalCount ≤ c.size := List.countP_le_length
  unfold requiredCount
  omega

/-- The action is at hand wherever the last node is one at which the command may end. -/
theorem body?_eq_some (hne : c.nodes ≠ [])
    (hlast : ∀ before n after, c.nodes = before ++ n :: after → (n.isLast = true ↔ after = []))
    (hends : ∀ n ∈ c.nodes, n.mayEnd = true ↔ n.isOptional = true ∨ n.isLast = true) :
    c.body? = some c.body := by
  rcases List.eq_nil_or_concat c.nodes with hnil | ⟨before, last, hsplit⟩
  · exact absurd hnil hne
  · rw [List.concat_eq_append] at hsplit
    have hmem : last ∈ c.nodes := by simp [hsplit]
    have hmayEnd : last.mayEnd = true := (hends last hmem).mpr (.inr ((hlast _ _ _ hsplit).mpr rfl))
    simp [body?, hsplit, hmayEnd]

end Command

namespace Compile

open Segment Command

variable {α : Type} {pipeline : Pipeline α} {d : Declaration α} {tokens : List Token}

/-- The parameters in a row are those that the path mentions and then the others that read
input. -/
theorem parameters_row (h : Placeable pipeline d.parameters tokens) :
    ((row pipeline d.parameters tokens).filterMap Segment.slot?).map Slot.parameter
      = mentioned tokens d.parameters
        ++ (unmentioned tokens d.parameters).filter (readsInput pipeline) := by
  unfold row
  rw [List.filterMap_append, List.map_append, parameters_pathRow h.mentionsRead,
    parameters_restRow]

theorem words_row : (row pipeline d.parameters tokens).filterMap Segment.word?
    = tokens.filterMap Token.word? := by
  unfold row
  rw [List.filterMap_append, filterMap_word?_pathRow, filterMap_word?_restRow, List.append_nil]

/-- Each parameter is placed or put aside, once. -/
theorem parameters_complete (h : Placeable pipeline d.parameters tokens) :
    (((row pipeline d.parameters tokens).filterMap Segment.slot?).map Slot.parameter
      ++ ((unmentioned tokens d.parameters).filterMap (ambientOf? pipeline)).map Prod.fst).Perm
        d.parameters := by
  rw [parameters_row h, parameters_ambients h.othersResolve, List.append_assoc]
  exact (List.Perm.append_left _ (List.filter_append_perm _ _)).trans
    (mentioned_append_unmentioned_perm h.mentionsDistinct h.mentionsRead)

theorem resolve_of_mem_ambients {parameters : List Parameter} {b : Parameter × Ambient α}
    (hb : b ∈ parameters.filterMap (ambientOf? pipeline)) :
    pipeline.resolve b.1 = .ok (.ambient b.2) := by
  obtain ⟨p, _, hp⟩ := List.mem_filterMap.mp hb
  unfold ambientOf? at hp
  split at hp
  · next hresolve =>
    cases hp
    exact hresolve
  · cases hp

section

variable {path : String} {id : CommandId} {c : Command α}

/-- A command that compiles has the row of its path and parameters, and the action of its
declaration. -/
theorem row_of_compile (h : compile pipeline d path id = .ok c) :
    ∃ tokens, Path.tokenize path = .ok tokens ∧ Placeable pipeline d.parameters tokens
      ∧ c.OfRow (row pipeline d.parameters tokens)
      ∧ c.body = ⟨d.action, (unmentioned tokens d.parameters).filterMap (ambientOf? pipeline)⟩ := by
  obtain ⟨_, tokens, htokens, hplaceable, _, rfl⟩ := compile_eq_ok_iff.mp h
  exact ⟨tokens, htokens, hplaceable, rfl, rfl⟩

/-- No parameter is lost, and none occurs twice. -/
theorem complete_of_compile (h : compile pipeline d path id = .ok c) :
    (c.slots.map Slot.parameter ++ c.body.ambients.map Prod.fst).Perm d.parameters := by
  obtain ⟨tokens, _, hplaceable, hrow, hbody⟩ := row_of_compile h
  rw [hbody]
  exact (hrow.parameters_perm.append_right _).trans (parameters_complete hplaceable)

/-- Each slot belongs to a parameter of the declaration. -/
theorem parameter_mem_of_compile (h : compile pipeline d path id = .ok c) {s : Slot}
    (hs : s ∈ c.slots) : s.parameter ∈ d.parameters :=
  (complete_of_compile h).subset (List.mem_append_left _ (List.mem_map_of_mem hs))

theorem ambientsResolved_of_compile (h : compile pipeline d path id = .ok c) :
    ∀ b ∈ c.body.ambients, pipeline.resolve b.1 = .ok (.ambient b.2) := by
  obtain ⟨tokens, _, _, _, hbody⟩ := row_of_compile h
  rw [hbody]
  exact fun b hb => resolve_of_mem_ambients hb

/-- No two flags have the same long name or the same shorthand. -/
theorem flagNames_nodup_of_compile (h : compile pipeline d path id = .ok c) :
    (c.flags.filterMap Slot.longName?).Nodup ∧ (c.flags.filterMap Slot.shorthand?).Nodup := by
  obtain ⟨tokens, _, hplaceable, hrow, _⟩ := row_of_compile h
  rw [hrow.flags]
  exact ⟨hplaceable.orderly.longNamesDistinct, hplaceable.orderly.shorthandsDistinct⟩

end

/-- A command that compiles is well built. -/
theorem compile_wellBuilt {path : String} {id : CommandId} {c : Command α}
    (h : compile pipeline d path id = .ok c) :
    ∃ tokens, Path.tokenize path = .ok tokens ∧ c.WellBuilt pipeline d tokens := by
  have hshape := Compiled.wellShaped ⟨pipeline, d, path, id, h⟩
  obtain ⟨tokens, htokens, hplaceable, hrow, hbody⟩ := row_of_compile h
  have hne : c.nodes ≠ [] := by
    obtain ⟨n, rest, hnodes, _⟩ := hshape.startsWithWord
    simp [hnodes]
  have hlast : ∀ before n after, c.nodes = before ++ n :: after →
      (n.isLast = true ↔ after = []) := by
    intro before n after hsplit
    rw [hrow] at hsplit
    exact isLast_of_markNodes_eq hsplit
  have hends : ∀ n ∈ c.nodes, n.mayEnd = true ↔ n.isOptional = true ∨ n.isLast = true := by
    intro n hn
    rw [hrow] at hn
    exact mayEnd_of_mem_markNodes hn
  refine ⟨tokens, htokens, ?_⟩
  constructor
  case wordFirst => exact hshape.startsWithWord
  case flagsBehind => exact pairwise_of_flagsLast hshape.flagsLast
  case optionalBehind => exact hrow.optionalBehind hplaceable.orderly
  case greedyLast => exact hshape.greedyLast
  case lastMarked => exact hlast
  case endsMarked => exact hends
  case bodyPresent => exact body?_eq_some hne hlast hends
  case action => rw [hbody]
  case longNamesDistinct => exact (flagNames_nodup_of_compile h).1
  case shorthandsDistinct => exact (flagNames_nodup_of_compile h).2
  case hasFlags_iff => exact hasFlags_iff_exists
  case optionalCounted => exact List.countP_eq_length_filter
  case allCounted => exact c.optionalCount_add_requiredCount
  case words => rw [hrow.words, words_row]
  case inOrder =>
    refine ⟨mentioned tokens d.parameters,
      (unmentioned tokens d.parameters).filter (readsInput pipeline),
      names_mentioned hplaceable.mentionsRead, ?_, ?_, ?_⟩
    · exact List.filter_sublist.trans (unmentioned_sublist tokens d.parameters)
    · rw [hrow.parameters_places, parameters_row hplaceable]
    · rw [hrow.parameters_flags, parameters_row hplaceable]
  case ambientsInOrder =>
    rw [hbody, parameters_ambients hplaceable.othersResolve]
    exact List.filter_sublist.trans (unmentioned_sublist tokens d.parameters)
  case ambientsResolved => exact ambientsResolved_of_compile h
  case complete => exact complete_of_compile h

/-- A letter to somebody, whose text stands behind the recipient and whose sender is the actor. -/
def letter : Declaration Unit where
  paths := ["mail <to>"]
  parameters := [.required "sender" (.named "actor"),
    .asSwitch (.required "urgent" .bool) .byParameter, .required "text" .string,
    .required "to" .string]
  action := ()
  metadata := .none

/-- `mail <to> <text> [--urgent]`, where the text takes the rest of the line. -/
def mail : Command Unit :=
  ⟨⟨0⟩, [⟨.word "mail", false, false⟩,
      ⟨.slot (.ofParameter (.required "to" .string) .string), false, false⟩,
      ⟨.slot (.ofParameter (.required "text" .string) .text), false, false⟩,
      ⟨.slot (.ofParameter (.asSwitch (.required "urgent" .bool) .byParameter) .bool), true, true⟩],
    .none, ⟨(), [(.required "sender" (.named "actor"), .actor)]⟩⟩

theorem wellBuilt_mail :
    compile (.standard Unit) letter "mail <to>" ⟨0⟩ = .ok mail
      ∧ ∃ tokens, Path.tokenize "mail <to>" = .ok tokens
        ∧ mail.WellBuilt (.standard Unit) letter tokens :=
  ⟨rfl, compile_wellBuilt rfl⟩

end Compile

end CommandGrammar
