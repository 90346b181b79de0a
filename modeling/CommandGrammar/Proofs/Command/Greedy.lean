import CommandGrammar.Proofs.Command.Types
import CommandGrammar.Proofs.Reading.Extent

/-!
# Where the rest of the input goes

A slot that takes the rest of the input leaves nothing to what stands behind it.  Compiling sees to
it that of what is matched by place only the last node does so.  It does not look at the types of
flags, whose values stand anywhere in the input.

`compile_greedyAtEnd` says that the rest of the input goes to one slot at the end exactly if no
parameter that is matched by name has a greedy type, and how far the value of a flag reaches.
-/

set_option autoImplicit false

namespace CommandGrammar

variable {α : Type}

namespace Command

variable {c : Command α}

/-- At most one slot takes the rest of the input, and it is the last of what is matched by place. -/
structure GreedyAtEnd (c : Command α) : Prop where
  atMostOne : (c.slots.filter Slot.isGreedy).length ≤ 1
  lastPlace : ∀ n ∈ c.nodes, n.isGreedy = true → c.lastPositional? = some n

theorem isGreedy_of_slot? {n : Node} {s : Slot} (h : n.slot? = some s) :
    n.isGreedy = s.isGreedy := by
  obtain ⟨segment, _, _⟩ := n
  cases segment with
  | word text => cases h
  | slot f =>
    cases h
    rfl

/-- Where nothing before the last place is greedy, a greedy place is the last one. -/
theorem lastPositional?_of_isGreedy (hplaces : ∀ n ∈ c.positional.dropLast, n.isGreedy = false)
    {n : Node} (hn : n ∈ c.positional) (hgreedy : n.isGreedy = true) :
    c.lastPositional? = some n := by
  unfold lastPositional?
  rcases List.eq_nil_or_concat c.positional with hnil | ⟨before, last, hsplit⟩
  · rw [hnil] at hn
    cases hn
  · rw [List.concat_eq_append] at hsplit
    rw [hsplit, List.dropLast_concat] at hplaces
    rw [hsplit, List.mem_append] at hn
    rcases hn with hbefore | hlast
    · rw [hplaces n hbefore] at hgreedy
      cases hgreedy
    · rw [hsplit, List.getLast?_concat, List.mem_singleton.mp hlast]

/-- At most one place is greedy where nothing before the last one is. -/
theorem length_greedy_places_le (hplaces : ∀ n ∈ c.positional.dropLast, n.isGreedy = false) :
    (c.places.filter Slot.isGreedy).length ≤ 1 := by
  unfold places
  rcases List.eq_nil_or_concat c.positional with hnil | ⟨before, last, hsplit⟩
  · rw [hnil]
    exact Nat.zero_le 1
  · rw [List.concat_eq_append] at hsplit
    rw [hsplit, List.dropLast_concat] at hplaces
    have hnone : (before.filterMap Node.slot?).filter Slot.isGreedy = [] := by
      apply List.filter_eq_nil_iff.mpr
      intro s hs hgreedy
      obtain ⟨n, hn, hslot⟩ := List.mem_filterMap.mp hs
      have hnot := hplaces n hn
      rw [isGreedy_of_slot? hslot, hgreedy] at hnot
      cases hnot
    rw [hsplit, List.filterMap_append, List.filter_append, hnone, List.nil_append]
    refine Nat.le_trans (List.length_filter_le _ _) ?_
    exact List.length_filterMap_le _ _

/-- Given that of the places only the last is greedy, the rest of the input goes to one slot at the
end exactly if no flag is greedy. -/
theorem greedyAtEnd_iff (hslots : c.slots = c.places ++ c.flags)
    (hplaces : ∀ n ∈ c.positional.dropLast, n.isGreedy = false) :
    c.GreedyAtEnd ↔ ∀ f ∈ c.flags, f.isGreedy = false := by
  constructor
  · intro h f hf
    obtain ⟨hslot, hflag⟩ := mem_flags_iff.mp hf
    obtain ⟨n, hn, hnslot⟩ := List.mem_filterMap.mp hslot
    by_contra hgreedy
    rw [Bool.not_eq_false, ← isGreedy_of_slot? hnslot] at hgreedy
    have hplace : n ∈ c.positional := List.mem_of_getLast? (h.lastPlace n hn hgreedy)
    have hf : f ∈ c.places := List.mem_filterMap.mpr ⟨n, hplace, hnslot⟩
    rw [(mem_places_iff.mp hf).2] at hflag
    cases hflag
  · intro hflags
    constructor
    · have hnone : c.flags.filter Slot.isGreedy = [] := by
        apply List.filter_eq_nil_iff.mpr
        intro f hf hgreedy
        rw [hflags f hf] at hgreedy
        cases hgreedy
      rw [hslots, List.filter_append, hnone, List.append_nil]
      exact length_greedy_places_le hplaces
    · intro n hn hgreedy
      refine lastPositional?_of_isGreedy hplaces (List.mem_filter.mpr ⟨hn, ?_⟩) hgreedy
      obtain ⟨segment, _, _⟩ := n
      cases segment with
      | word text => rfl
      | slot s =>
        have hslot : s ∈ c.slots := List.mem_filterMap.mpr ⟨_, hn, rfl⟩
        rw [hslots, List.mem_append] at hslot
        rcases hslot with hplace | hflag
        · exact (mem_places_iff.mp hplace).2
        · have hnot : s.isGreedy = true := hgreedy
          rw [hflags s hflag] at hnot
          cases hnot

end Command

namespace Compile

variable {pipeline : Pipeline α} {d : Declaration α} {path : String} {id : CommandId}
  {c : Command α}

/-- The flags of a compiled command have the types that their parameters resolve to, and stand
behind all places. -/
theorem flags_of_compile (h : compile pipeline d path id = .ok c) :
    c.slots = c.places ++ c.flags
      ∧ ∀ f ∈ c.flags, pipeline.resolve f.parameter = .ok (.value f.type) := by
  obtain ⟨tokens, _, _, hrow, _⟩ := row_of_compile h
  constructor
  · rw [hrow.slots, hrow.places, hrow.flags]
  · intro f hf
    rw [hrow.flags] at hf
    obtain ⟨segment, hmem, hslot⟩ := List.mem_filterMap.mp (List.mem_filter.mp hf).1
    cases segment with
    | word text => cases hslot
    | slot s =>
      cases hslot
      exact resolve_of_mem_row hmem

/-- A parameter that is matched by name and reads input is one of the flags. -/
theorem exists_flag_of_resolve (h : compile pipeline d path id = .ok c) {p : Parameter}
    (hp : p ∈ d.parameters) (hnamed : p.isPositional = false) {type : ValueType}
    (hresolve : pipeline.resolve p = .ok (.value type)) :
    ∃ f ∈ c.flags, f.parameter = p ∧ f.type = type := by
  have hplaced := (complete_of_compile h).mem_iff.mpr hp
  rcases List.mem_append.mp hplaced with hslot | hambient
  · obtain ⟨f, hf, rfl⟩ := List.mem_map.mp hslot
    have hflag : f ∈ c.flags := Command.mem_flags_iff.mpr ⟨hf, hnamed⟩
    have htype := (flags_of_compile h).2 f hflag
    rw [hresolve] at htype
    cases htype
    exact ⟨f, hflag, rfl, rfl⟩
  · obtain ⟨b, hb, rfl⟩ := List.mem_map.mp hambient
    have hsource := ambientsResolved_of_compile h b hb
    rw [hresolve] at hsource
    cases hsource

/-- Of what is matched by place, only the last node of a compiled command may take the rest of the
input.  Nothing else does exactly if no parameter that is matched by name resolves to a greedy type.
Under built-in rules a flag of such a type leaves nothing, and any other one takes a word or a
quoted text. -/
theorem compile_greedyAtEnd (h : compile pipeline d path id = .ok c) :
    (∀ n ∈ c.positional, n.isGreedy = true → c.lastPositional? = some n)
      ∧ (c.GreedyAtEnd
        ↔ ∀ p ∈ d.parameters, p.isPositional = false → ∀ type,
          pipeline.resolve p = .ok (.value type) → type.isGreedy = false)
      ∧ (pipeline.IsBuiltIn → ∀ f ∈ c.flags, ∀ cursor context value,
        (f.type.parse cursor context).result = .ok value →
          if f.isGreedy then (f.type.parse cursor context).cursor.atEnd = true
          else cursor.TakesOne (f.type.parse cursor context).cursor) := by
  have hgreedyLast := (Command.Compiled.wellShaped ⟨pipeline, d, path, id, h⟩).greedyLast
  obtain ⟨hslots, hflags⟩ := flags_of_compile h
  refine ⟨fun n hn => Command.lastPositional?_of_isGreedy hgreedyLast hn, ?_, ?_⟩
  · rw [Command.greedyAtEnd_iff hslots hgreedyLast]
    constructor
    · intro hnone p hp hnamed type hresolve
      obtain ⟨f, hf, _, rfl⟩ := exists_flag_of_resolve h hp hnamed hresolve
      exact hnone f hf
    · intro hnone f hf
      obtain ⟨hslot, hnamed⟩ := Command.mem_flags_iff.mp hf
      exact hnone f.parameter (parameter_mem_of_compile h hslot) hnamed f.type (hflags f hf)
  · intro hbuiltIn f hf cursor context value hok
    have htype := Pipeline.standard_of_resolve hbuiltIn (hflags f hf)
    cases hgreedy : f.isGreedy with
    | true => exact htype.atEnd_of_isGreedy hgreedy hok
    | false => exact htype.takesOne hgreedy hok

/-- `post <title> --tags <tags>`, with tags of some type. -/
def posting (tags : DeclaredType) : Declaration Unit where
  paths := ["post <title>"]
  parameters := [{ Parameter.required "title" .string with single := true },
    .asFlag (.required "tags" tags) .byParameter]
  action := ()
  metadata := .none

/-- The flag of `posting`, as a type reads it. -/
def tagsFlag (tags : DeclaredType) (type : ValueType) : Slot :=
  .ofParameter (.asFlag (.required "tags" tags) .byParameter) type

/-- The command of `posting`. -/
def post (tags : DeclaredType) (type : ValueType) : Command Unit :=
  ⟨⟨0⟩, [⟨.word "post", false, false⟩,
      ⟨.slot (.ofParameter { Parameter.required "title" .string with single := true } .string),
        false, false⟩,
      ⟨.slot (tagsFlag tags type), true, true⟩],
    .none, ⟨(), []⟩⟩

theorem greedyAtEnd_post :
    compile (.standard Unit) (posting .string) "post <title>" ⟨0⟩ = .ok (post .string .string)
      ∧ (post .string .string).GreedyAtEnd := by
  have hcompile : compile (.standard Unit) (posting .string) "post <title>" ⟨0⟩
      = .ok (post .string .string) := rfl
  refine ⟨hcompile, (compile_greedyAtEnd hcompile).2.1.mpr ?_⟩
  intro p hp hnamed type hresolve
  rcases List.mem_cons.mp hp with rfl | hp
  · cases hnamed
  · cases List.mem_singleton.mp hp
    cases hresolve
    rfl

/-- A flag whose value is a list is accepted.  It is not the last place, and takes the title with
the tags. -/
theorem not_greedyAtEnd_post :
    compile (.standard Unit) (posting (.list .string)) "post <title>" ⟨0⟩
        = .ok (post (.list .string) (.list .string))
      ∧ ¬ (post (.list .string) (.list .string)).GreedyAtEnd
      ∧ ∀ context, ((tagsFlag (.list .string) (.list .string)).type.parse
          (.ofText "a b news".toList) context)
        = ⟨.ok (.list [.string "a", .string "b", .string "news"]), ⟨"a b news".toList, []⟩,
          []⟩ := by
  refine ⟨rfl, fun hend => ?_, fun _ => rfl⟩
  have hflag : (⟨.slot (tagsFlag (.list .string) (.list .string)), true, true⟩ : Node)
      ∈ (post (.list .string) (.list .string)).nodes :=
    List.mem_cons_of_mem _ (List.mem_cons_of_mem _ List.mem_cons_self)
  have hlast := congrArg (Option.map Node.name) (hend.lastPlace _ hflag rfl)
  revert hlast
  decide

end Compile

end CommandGrammar
