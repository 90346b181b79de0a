import CommandGrammar.Proofs.Command.Structure
import CommandGrammar.Proofs.Path.Layout

/-!
# Compiling a rendered path

The path of a command spells out its whole chain: the parameters that the declared path left out
stand in it as placeholders, and a bracket says which may be absent.  Where nothing is matched by
name and each name fits into a placeholder, the rendered path is cut into one token for each segment
of the row (`tokenize_render_row`), and these tokens place the same row again (`row_tokensOf`).

So a command is determined by its own path: `compile_path_fixpoint` says that compiling a
declaration at the path of the command that it gave gives that command once more.
-/

set_option autoImplicit false

namespace CommandGrammar

open Text (AllInk)

/-! ## Segments as tokens -/

namespace Segment

/-- How a segment that is matched by place is mentioned in a path. -/
def token : Segment → Token
  | .word text => .word text
  | .slot s => .placeholder s.name s.isOptional

@[simp] theorem token_atEnd (s : Segment) : s.atEnd.token = s.token := by
  cases s <;> rfl

/-- The tokens that spell out a row. -/
def tokensOf (row : List Segment) : List Token := row.map token

theorem mentions_tokensOf (row : List Segment) :
    Compile.mentions (tokensOf row) = (row.filterMap slot?).map Slot.name := by
  unfold Compile.mentions tokensOf
  rw [List.filterMap_map, List.map_filterMap]
  apply List.filterMap_congr
  intro s _
  cases s <;> rfl

end Segment

theorem Slot.longName?_of_isPositional {s : Slot} (h : s.isPositional = true) :
    s.longName? = none := by
  have hnames : s.parameter.matching.names? = none := Option.isNone_iff_eq_none.mp h
  unfold Slot.longName? Parameter.longName?
  rw [hnames]
  rfl

/-- A node that is matched by place is rendered as its token is written. -/
theorem Node.render_eq_token {n : Node} (h : n.segment.isPositional = true) :
    n.render = n.segment.token.render := by
  obtain ⟨segment, _, _⟩ := n
  cases segment with
  | word text => rfl
  | slot s =>
    have hlong := Slot.longName?_of_isPositional h
    cases hoptional : s.isOptional <;>
      simp [Node.render, Slot.render, Segment.token, Token.render, hlong, hoptional]

namespace Compile

open Segment Command

variable {α : Type} {pipeline : Pipeline α} {d : Declaration α} {parameters : List Parameter}
  {tokens : List Token}

/-! ## Parameters that a path can spell out -/

/-- Parameters that are matched by place, under distinct names that fit between either kind of
brackets. -/
structure Writable (parameters : List Parameter) : Prop where
  byPlace : ∀ p ∈ parameters, p.isPositional = true
  namesDistinct : (parameters.map Parameter.name).Nodup
  namesFit : ∀ p ∈ parameters, p.name.toList ≠ [] ∧ AllInk p.name.toList
    ∧ '>' ∉ p.name.toList ∧ ']' ∉ p.name.toList

theorem find?_named_of_mem (hnames : (parameters.map Parameter.name).Nodup) {p : Parameter}
    (hp : p ∈ parameters) : parameters.find? (named p.name) = some p := by
  obtain ⟨before, after, rfl⟩ := List.append_of_mem hp
  rw [List.map_append, List.map_cons] at hnames
  have hbefore : ∀ q ∈ before, ¬ named p.name q = true := by
    intro q hq hnamed
    exact (List.nodup_append.mp hnames).2.2 q.name (List.mem_map_of_mem hq) p.name
      List.mem_cons_self (of_decide_eq_true hnamed)
  rw [List.find?_append, List.find?_eq_none.mpr hbefore, Option.none_or, List.find?_cons_of_pos]
  exact decide_eq_true rfl

/-- Taking a parameter out that reads input changes nothing about those that read none. -/
theorem filterMap_ambientOf?_eraseP {name : String} (h : Reads pipeline parameters name) :
    (parameters.eraseP (named name)).filterMap (ambientOf? pipeline)
      = parameters.filterMap (ambientOf? pipeline) := by
  obtain ⟨p, type, hfind, hresolve⟩ := h
  obtain ⟨hp, before, after, rfl, hbefore⟩ := List.find?_eq_some_iff_append.mp hfind
  have hnone : ∀ q ∈ before, ¬ named name q = true := fun q hq => by simpa using hbefore q hq
  have hreads : ambientOf? pipeline p = none := by simp [ambientOf?, hresolve]
  rw [List.eraseP_append_right _ hnone, List.eraseP_cons_of_pos hp, List.filterMap_append,
    List.filterMap_append, List.filterMap_cons_none hreads]

/-- The parameters that are put aside are the same whatever a path mentions, since what it mentions
reads input. -/
theorem ambients_unmentioned (hmentions : (mentions tokens).Nodup)
    (hreads : ∀ name ∈ mentions tokens, Reads pipeline parameters name) :
    (unmentioned tokens parameters).filterMap (ambientOf? pipeline)
      = parameters.filterMap (ambientOf? pipeline) := by
  unfold unmentioned
  generalize mentions tokens = names at hmentions hreads
  induction names generalizing parameters with
  | nil => rfl
  | cons name rest ih =>
    obtain ⟨hname, hrest⟩ := List.nodup_cons.mp hmentions
    obtain ⟨hfirst, hothers⟩ := List.forall_mem_cons.mp hreads
    rw [List.foldl_cons, ih hrest ((forall_reads_eraseP_iff hname).mpr hothers),
      filterMap_ambientOf?_eraseP hfirst]

/-! ## The row of a rendered path -/

theorem slotOf?_eq_some_iff {bracketed : Bool} {p : Parameter} {s : Slot} :
    slotOf? pipeline bracketed p = some s
      ↔ ∃ type, pipeline.resolve p = .ok (.value type)
        ∧ s = ⟨p, type, p.isOptional || bracketed⟩ := by
  unfold slotOf?
  split
  · next type hresolve => simp [hresolve, eq_comm]
  · next hother =>
    simp only [reduceCtorEq, false_iff, not_exists, not_and]
    exact fun type hresolve => absurd hresolve (hother type)

/-- Each slot of a row is that of a parameter that reads input. -/
theorem exists_slotOf?_of_mem_row {s : Slot}
    (hs : Segment.slot s ∈ row pipeline parameters tokens) :
    s.parameter ∈ parameters ∧ ∃ bracketed, slotOf? pipeline bracketed s.parameter = some s := by
  have hof : ∀ {bracketed : Bool} {p : Parameter}, p ∈ parameters →
      slotOf? pipeline bracketed p = some s →
      s.parameter ∈ parameters ∧ ∃ bracketed, slotOf? pipeline bracketed s.parameter = some s := by
    intro bracketed p hp hslot
    obtain ⟨type, _, hs⟩ := slotOf?_eq_some_iff.mp hslot
    have hparameter : s.parameter = p := congrArg Slot.parameter hs
    exact ⟨hparameter ▸ hp, bracketed, hparameter ▸ hslot⟩
  rcases List.mem_append.mp hs with hs | hs
  · obtain ⟨token, _, htoken⟩ := List.mem_filterMap.mp hs
    cases token with
    | word text => cases htoken
    | placeholder name bracketed =>
      obtain ⟨p, hfind, hplaced⟩ := Option.bind_eq_some_iff.mp htoken
      obtain ⟨t, hslot, ht⟩ := Option.map_eq_some_iff.mp hplaced
      cases ht
      exact hof (List.mem_of_find?_eq_some hfind) hslot
  · obtain ⟨p, hp, hplaced⟩ := List.mem_filterMap.mp hs
    obtain ⟨t, hslot, ht⟩ := Option.map_eq_some_iff.mp hplaced
    cases ht
    exact hof ((unmentioned_sublist tokens parameters).subset hp) hslot

/-- A slot may be put into brackets, or not, as its own optionality says. -/
theorem slotOf?_isOptional {bracketed : Bool} {p : Parameter} {s : Slot}
    (h : slotOf? pipeline bracketed p = some s) : slotOf? pipeline s.isOptional p = some s := by
  obtain ⟨type, hresolve, rfl⟩ := slotOf?_eq_some_iff.mp h
  exact slotOf?_eq_some_iff.mpr ⟨type, hresolve, by simp⟩

/-- Placed again, the tokens of a row give the row. -/
theorem pathRow_tokensOf_row (hnames : (parameters.map Parameter.name).Nodup) :
    pathRow pipeline parameters (tokensOf (row pipeline parameters tokens))
      = row pipeline parameters tokens := by
  unfold pathRow tokensOf
  rw [List.filterMap_map]
  refine (List.filterMap_congr fun s hs => ?_).trans List.filterMap_some
  cases s with
  | word text => rfl
  | slot s =>
    obtain ⟨hmem, bracketed, hslot⟩ := exists_slotOf?_of_mem_row hs
    have hfind : parameters.find? (named s.name) = some s.parameter :=
      find?_named_of_mem hnames hmem
    have hsame := slotOf?_isOptional hslot
    simp [Segment.token, segmentOf?, hfind, hsame]

/-- Each name in the tokens of a row is that of a parameter that reads input. -/
theorem reads_of_mem_tokensOf_row (hnames : (parameters.map Parameter.name).Nodup) :
    ∀ name ∈ mentions (tokensOf (row pipeline parameters tokens)),
      Reads pipeline parameters name := by
  intro name hname
  rw [mentions_tokensOf] at hname
  obtain ⟨s, hs, rfl⟩ := List.mem_map.mp hname
  obtain ⟨segment, hmem, hsegment⟩ := List.mem_filterMap.mp hs
  cases segment with
  | word text => cases hsegment
  | slot t =>
    cases hsegment
    obtain ⟨hp, bracketed, hslot⟩ := exists_slotOf?_of_mem_row hmem
    obtain ⟨type, hresolve, _⟩ := slotOf?_eq_some_iff.mp hslot
    exact ⟨s.parameter, type, find?_named_of_mem hnames hp, hresolve⟩

/-- The parameters of a row have distinct names, since they are among those declared. -/
theorem nodup_mentions_tokensOf_row (h : Placeable pipeline d.parameters tokens)
    (hnames : (d.parameters.map Parameter.name).Nodup) :
    (mentions (tokensOf (row pipeline d.parameters tokens))).Nodup := by
  have hcomplete := ((parameters_complete h).map Parameter.name).nodup_iff.mpr hnames
  rw [List.map_append, List.map_map] at hcomplete
  rw [mentions_tokensOf]
  exact hcomplete.of_append_left

/-- A parameter of the declaration has a slot in the row, or it is resolved from the context. -/
theorem mem_row_or_ambient (h : Placeable pipeline d.parameters tokens) {p : Parameter}
    (hp : p ∈ d.parameters) :
    (∃ s, Segment.slot s ∈ row pipeline d.parameters tokens ∧ s.parameter = p)
      ∨ ∃ source, pipeline.resolve p = .ok (.ambient source) := by
  rcases List.mem_append.mp ((parameters_complete h).mem_iff.mpr hp) with hrow | hambient
  · left
    obtain ⟨s, hs, hparameter⟩ := List.mem_map.mp hrow
    obtain ⟨segment, hmem, hsegment⟩ := List.mem_filterMap.mp hs
    cases segment with
    | word text => cases hsegment
    | slot t =>
      cases hsegment
      exact ⟨s, hmem, hparameter⟩
  · right
    obtain ⟨b, hb, rfl⟩ := List.mem_map.mp hambient
    exact ⟨b.2, resolve_of_mem_ambients hb⟩

/-- Where names are distinct, what a path leaves unmentioned has none of the names in it. -/
theorem name_not_mem_mentions (hnames : (parameters.map Parameter.name).Nodup)
    (hmentions : (mentions tokens).Nodup)
    (hreads : ∀ name ∈ mentions tokens, Reads pipeline parameters name) {p : Parameter}
    (hp : p ∈ unmentioned tokens parameters) : p.name ∉ mentions tokens := by
  have hperm := (mentioned_append_unmentioned_perm hmentions hreads).map Parameter.name
  have hall := hperm.nodup_iff.mpr hnames
  rw [List.map_append, names_mentioned hreads] at hall
  intro hmem
  exact (List.nodup_append.mp hall).2.2 p.name hmem p.name (List.mem_map_of_mem hp) rfl

/-- The tokens of a row leave no parameter unmentioned that reads input. -/
theorem restRow_tokensOf_row (h : Placeable pipeline d.parameters tokens)
    (hnames : (d.parameters.map Parameter.name).Nodup) :
    restRow pipeline
      (unmentioned (tokensOf (row pipeline d.parameters tokens)) d.parameters) = [] := by
  refine List.filterMap_eq_nil_iff.mpr fun p hp => Option.map_eq_none_iff.mpr ?_
  have hfresh := name_not_mem_mentions hnames (nodup_mentions_tokensOf_row h hnames)
    (reads_of_mem_tokensOf_row hnames) hp
  rcases mem_row_or_ambient h ((unmentioned_sublist _ _).subset hp) with
    ⟨s, hs, rfl⟩ | ⟨source, hresolve⟩
  · refine absurd ?_ hfresh
    rw [mentions_tokensOf]
    exact List.mem_map_of_mem (List.mem_filterMap.mpr ⟨_, hs, rfl⟩)
  · simp [slotOf?, hresolve]

/-- The tokens of a row place that row. -/
theorem row_tokensOf_row (h : Placeable pipeline d.parameters tokens)
    (hnames : (d.parameters.map Parameter.name).Nodup) :
    row pipeline d.parameters (tokensOf (row pipeline d.parameters tokens))
      = row pipeline d.parameters tokens := by
  rw [row, restRow_tokensOf_row h hnames, List.append_nil, pathRow_tokensOf_row hnames]

/-- What could be placed can be placed from the tokens of its row. -/
theorem Placeable.tokensOf_row (h : Placeable pipeline d.parameters tokens)
    (hnames : (d.parameters.map Parameter.name).Nodup) :
    Placeable pipeline d.parameters (tokensOf (row pipeline d.parameters tokens)) where
  wordFirst := by
    obtain ⟨text, rest, rfl⟩ := h.wordFirst
    exact ⟨text, _, rfl⟩
  mentionsDistinct := nodup_mentions_tokensOf_row h hnames
  mentionsRead := reads_of_mem_tokensOf_row hnames
  othersResolve := by
    intro p hp
    rcases mem_row_or_ambient h ((unmentioned_sublist _ _).subset hp) with
      ⟨s, hs, rfl⟩ | ⟨source, hresolve⟩
    · obtain ⟨_, bracketed, hslot⟩ := exists_slotOf?_of_mem_row hs
      obtain ⟨type, hresolve, _⟩ := slotOf?_eq_some_iff.mp hslot
      exact ⟨_, hresolve⟩
    · exact ⟨_, hresolve⟩
  orderly := by
    rw [row_tokensOf_row h hnames]
    exact h.orderly

/-! ## The rendered path -/

/-- The segments that a path places can be written: its words have been read, and the names fit. -/
theorem wellFormed_tokensOf_row {path : String} (hwritable : Writable d.parameters)
    (htokens : Path.tokenize path = .ok tokens) :
    ∀ token ∈ tokensOf (row pipeline d.parameters tokens), token.WellFormed := by
  intro token htoken
  obtain ⟨s, hs, rfl⟩ := List.mem_map.mp htoken
  cases s with
  | word text =>
    have hword : text ∈ (row pipeline d.parameters tokens).filterMap Segment.word? :=
      List.mem_filterMap.mpr ⟨_, hs, rfl⟩
    rw [words_row] at hword
    obtain ⟨read, hread, hsame⟩ := List.mem_filterMap.mp hword
    cases read with
    | word other =>
      cases hsame
      exact (Path.tokenize_eq_ok_iff.mp htokens).2.wellFormed _ hread
    | placeholder name optional => cases hsame
  | slot s =>
    obtain ⟨hne, hink, hangle, hsquare⟩ :=
      hwritable.namesFit s.parameter (exists_slotOf?_of_mem_row hs).1
    refine ⟨hne, hink, ?_⟩
    cases s.isOptional with
    | false => exact hangle
    | true => exact hsquare

section Places

variable (hplaces : ∀ p ∈ parameters, p.isPositional = true)

include hplaces

theorem placesOf_row_eq_self :
    placesOf (row pipeline parameters tokens) = row pipeline parameters tokens := by
  refine List.filter_eq_self.mpr fun s hs => ?_
  cases s with
  | word text => rfl
  | slot s => exact hplaces s.parameter (exists_slotOf?_of_mem_row hs).1

theorem flagsOf_row_eq_nil : flagsOf (row pipeline parameters tokens) = [] := by
  refine List.filter_eq_nil_iff.mpr fun s hs => ?_
  obtain ⟨segment, hmem, hsegment⟩ := List.mem_filterMap.mp hs
  cases segment with
  | word text => cases hsegment
  | slot t =>
    cases hsegment
    have hplace : s.isPositional = true := hplaces s.parameter (exists_slotOf?_of_mem_row hmem).1
    simp [hplace]

end Places

variable {path : String} {id : CommandId} {c : Command α}

/-- Where nothing is matched by name, the path of a command is its row, written out. -/
theorem path_eq_render_row (hplaces : ∀ p ∈ d.parameters, p.isPositional = true)
    (hrow : c.OfRow (row pipeline d.parameters tokens)) :
    c.path = String.ofList (Path.render (tokensOf (row pipeline d.parameters tokens))) := by
  have hsegments : c.nodes.map Node.segment = closed (row pipeline d.parameters tokens) := by
    rw [hrow.segments, placesOf_row_eq_self hplaces, flagsOf_row_eq_nil hplaces, List.map_nil,
      List.append_nil]
  have hnodes : ∀ n ∈ c.nodes, n.render = n.segment.token.render := by
    intro n hn
    apply Node.render_eq_token
    have hmem : n.segment ∈ closed (row pipeline d.parameters tokens) :=
      hsegments ▸ List.mem_map_of_mem hn
    rw [← placesOf_row_eq_self hplaces] at hmem
    exact isPositional_of_mem_closed hmem
  have hwritten : c.nodes.map Node.render
      = (tokensOf (row pipeline d.parameters tokens)).map Token.render := by
    calc c.nodes.map Node.render
        = (c.nodes.map Node.segment).map fun s => s.token.render := by
          rw [List.map_map]
          exact List.map_congr_left hnodes
      _ = (row pipeline d.parameters tokens).map fun s => s.token.render := by
          rw [hsegments, map_closed fun s => congrArg Token.render (token_atEnd s)]
      _ = (tokensOf (row pipeline d.parameters tokens)).map Token.render := by
          rw [tokensOf, List.map_map]
          rfl
  unfold Command.path Command.renderNodes Path.render
  rw [hwritten]

/-- The path of a command is cut into the tokens of its row. -/
theorem tokenize_path (hwritable : Writable d.parameters)
    (htokens : Path.tokenize path = .ok tokens)
    (hplaceable : Placeable pipeline d.parameters tokens)
    (hrow : c.OfRow (row pipeline d.parameters tokens)) :
    Path.tokenize c.path = .ok (tokensOf (row pipeline d.parameters tokens)) := by
  obtain ⟨text, rest, hfirst⟩ := (hplaceable.tokensOf_row hwritable.namesDistinct).wordFirst
  rw [path_eq_render_row hwritable.byPlace hrow, Path.tokenize_eq_ok_iff, String.toList_ofList]
  exact ⟨by simp [hfirst], Path.spells_render (wellFormed_tokensOf_row hwritable htokens)⟩

/-- Compiling a declaration at the path of the command that it gave gives that command again, where
no parameter is matched by name and a path can hold all names. -/
theorem compile_path_fixpoint (hwritable : Writable d.parameters)
    (h : compile pipeline d path id = .ok c) (next : CommandId) :
    ∃ again, compile pipeline d c.path next = .ok again
      ∧ again.path = c.path
      ∧ again.nodes = c.nodes
      ∧ again.body.ambients = c.body.ambients
      ∧ again = { c with id := next } := by
  obtain ⟨hcheck, tokens, htokens, hplaceable, hgreedy, rfl⟩ := compile_eq_ok_iff.mp h
  have hnames := hwritable.namesDistinct
  have hsame := row_tokensOf_row hplaceable hnames
  have hambients :
      (unmentioned (tokensOf (row pipeline d.parameters tokens)) d.parameters).filterMap
          (ambientOf? pipeline)
        = (unmentioned tokens d.parameters).filterMap (ambientOf? pipeline) := by
    rw [ambients_unmentioned hplaceable.mentionsDistinct hplaceable.mentionsRead,
      ambients_unmentioned (nodup_mentions_tokensOf_row hplaceable hnames)
        (reads_of_mem_tokensOf_row hnames)]
  refine ⟨_, compile_eq_ok_iff.mpr ⟨?_, _, tokenize_path hwritable htokens hplaceable rfl,
    hplaceable.tokensOf_row hnames, ?_, rfl⟩, ?_⟩
  · exact checkDeclaration_eq_ok_iff.mpr (checkDeclaration_eq_ok_iff.mp hcheck)
  · rw [hsame]
    exact hgreedy
  · rw [hsame, hambients]
    exact ⟨rfl, rfl, rfl, rfl⟩

/-- A present, whose path mentions only the item, with the actor as its sender. -/
def present : Declaration Unit where
  paths := ["give  <item>to"]
  parameters := [.required "sender" (.named "actor"), .required "whom" .string,
    .optional (.required "note" .string), .required "item" .int]
  action := ()
  metadata := .none

/-- `give <item> to <whom> [note]`, where the note takes the rest of the line. -/
def presenting (id : Nat) : Command Unit :=
  ⟨⟨id⟩, [⟨.word "give", false, false⟩,
      ⟨.slot (.ofParameter (.required "item" .int) .int), false, false⟩,
      ⟨.word "to", false, false⟩,
      ⟨.slot (.ofParameter (.required "whom" .string) .string), false, false⟩,
      ⟨.slot (.ofParameter (.optional (.required "note" .string)) .text), true, true⟩],
    .none, ⟨(), [(.required "sender" (.named "actor"), .actor)]⟩⟩

theorem writable_present : Writable present.parameters := ⟨by decide, by decide, by decide⟩

/-- The path of the present spells out what the declared path leaves to it, and compiles to the same
command. -/
theorem fixpoint_present :
    Writable present.parameters
      ∧ compile (.standard Unit) present "give  <item>to" ⟨0⟩ = .ok (presenting 0)
      ∧ (presenting 0).path = "give <item> to <whom> [note]"
      ∧ ∃ again, compile (.standard Unit) present (presenting 0).path ⟨1⟩ = .ok again
        ∧ again.path = (presenting 0).path
        ∧ again.nodes = (presenting 0).nodes
        ∧ again.body.ambients = (presenting 0).body.ambients
        ∧ again = presenting 1 := by
  have hcompile : compile (.standard Unit) present "give  <item>to" ⟨0⟩ = .ok (presenting 0) := rfl
  exact ⟨writable_present, hcompile, rfl, compile_path_fixpoint writable_present hcompile ⟨1⟩⟩

end Compile

end CommandGrammar
