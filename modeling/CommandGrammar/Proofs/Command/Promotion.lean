import CommandGrammar.Proofs.Command.Types
import CommandGrammar.Proofs.Command.Wrappers

/-!
# Promotion at the end of a command

The last place of a command takes its greedy variant, if its type shows one.  A type under
validators shows the variant of what it checks, under the same validators.  A type in a range shows
none, so a string that declares a range stays a single word wherever it stands.

`compile_promotes` says which last places take the rest of the input, and by which type they do.
-/

set_option autoImplicit false

namespace CommandGrammar

variable {α : Type}

namespace Compile

open Segment

variable {pipeline : Pipeline α} {d : Declaration α} {path : String} {id : CommandId}
  {c : Command α}

/-- The last place has the greedy variant of the type that its parameter resolves to, if there is
one and the parameter does not ask for a single word. -/
theorem lastType_of_compile (h : compile pipeline d path id = .ok c) {n : Node} {s : Slot}
    (hlast : c.lastPositional? = some n) (hslot : n.slot? = some s) :
    ∃ type, pipeline.resolve s.parameter = .ok (.value type)
      ∧ s.type = if s.parameter.single then type else type.greedyVariant?.getD type := by
  obtain ⟨tokens, _, _, hrow, _⟩ := row_of_compile h
  have hsegment : (closed (placesOf (row pipeline d.parameters tokens))).getLast?
      = some (.slot s) := by
    rw [← hrow.positional, List.getLast?_map, ← Command.lastPositional?, hlast]
    obtain ⟨segment, _, _⟩ := n
    cases segment with
    | word text => cases hslot
    | slot f =>
      cases hslot
      rfl
  rcases List.eq_nil_or_concat (placesOf (row pipeline d.parameters tokens)) with
    hnone | ⟨before, last, hplaces⟩
  · rw [hnone] at hsegment
    cases hsegment
  · rw [List.concat_eq_append] at hplaces
    have hmem : last ∈ row pipeline d.parameters tokens :=
      (List.mem_filter.mp (hplaces ▸ List.mem_append_right _ List.mem_cons_self)).1
    rw [hplaces, closed_concat, List.getLast?_concat] at hsegment
    cases last with
    | word text => cases hsegment
    | slot f =>
      cases hsegment
      exact ⟨f.type, resolve_of_mem_row hmem, rfl⟩

/-- Where a host adds no rules of its own, a string that stands at the end of a command and does not
ask for a single word takes the rest of the input exactly if it declares no range, whatever its
other bounds are and whatever validators there are.  It is then read as text under all its
validators, and else as a string.  For validators keep the greedy variant of what they check, and a
range has none. -/
theorem compile_promotes {o : PipelineOptions α} (ho : o.IsPlain)
    (h : compile o.build d path id = .ok c) {n : Node} {s : Slot}
    (hlast : c.lastPositional? = some n) (hslot : n.slot? = some s)
    (hstring : s.parameter.declared = .string) (hsingle : s.parameter.single = false) :
    (s.isGreedy = true ↔ s.parameter.range = none)
      ∧ s.type = (if s.parameter.range.isSome then ValueType.string else .text).wrapped
          o.validators s.parameter
      ∧ (∀ t p validators, (ValueType.validated t p validators).greedyVariant?
          = t.greedyVariant?.map fun variant => .validated variant p validators)
      ∧ ∀ t min max, (ValueType.ranged t min max).greedyVariant? = none := by
  obtain ⟨type, hresolve, htype⟩ := lastType_of_compile h hlast hslot
  rw [Pipeline.resolve_eq_value_iff ho, hstring] at hresolve
  have hbare : ValueType.string.wrapped o.validators s.parameter = type := Option.some.inj hresolve
  have hwrapped : s.type = (if s.parameter.range.isSome then ValueType.string else .text).wrapped
      o.validators s.parameter := by
    rw [htype, hsingle, if_neg Bool.false_ne_true, ← hbare, ValueType.greedyVariant?_wrapped]
    cases s.parameter.range <;> rfl
  refine ⟨?_, hwrapped, ValueType.greedyVariant?_validated, fun t min max => rfl⟩
  rw [Slot.isGreedy, hwrapped, ValueType.wrapped, ValueType.isGreedy_checked,
    ValueType.isGreedy_inRange]
  cases s.parameter.range <;> simp [ValueType.isGreedy]

/-- `say <text>`, whose text is bounded as a parameter says. -/
def saying (text : Parameter) : Declaration Unit where
  paths := ["say <text>"]
  parameters := [text]
  action := ()
  metadata := .none

/-- The text of `saying`, with bounds on its characters and on a number. -/
def boundedText (length : Option (Nat × Nat))
    (range : Option (Option Numeric.Binary64 × Option Numeric.Binary64)) : Parameter :=
  { Parameter.required "text" .string with length := length, range := range }

/-- The command of `saying`, as a type reads the text. -/
def sayBounded (text : Parameter) (type : ValueType) : Command Unit :=
  ⟨⟨0⟩, [⟨.word "say", false, false⟩, ⟨.slot (.ofParameter text type), true, true⟩], .none,
    ⟨(), []⟩⟩

/-- A text of at most 20 characters takes the rest of the input. -/
theorem promotes_bounded :
    ∃ c s, compile (.standard Unit) (saying (boundedText (some (0, 20)) none)) "say <text>" ⟨0⟩
        = .ok c
      ∧ (c.lastPositional?.bind Node.slot?) = some s
      ∧ s.parameter = boundedText (some (0, 20)) none
      ∧ s.isGreedy = true := by
  have hcompile : compile PipelineOptions.standard.build
      (saying (boundedText (some (0, 20)) none)) "say <text>" ⟨0⟩
      = .ok (sayBounded (boundedText (some (0, 20)) none)
        (.validated .text (boundedText (some (0, 20)) none) [.length])) := rfl
  refine ⟨_, _, hcompile, rfl, rfl, ?_⟩
  exact (compile_promotes ⟨rfl, rfl⟩ hcompile rfl rfl rfl rfl).1.mpr rfl

/-- A text with a range, even one without bounds, stays a single word, though it is a string at the
end of the command that does not ask to be one. -/
theorem not_greedy_of_range :
    ∃ c s, compile (.standard Unit) (saying (boundedText none (some (none, none)))) "say <text>" ⟨0⟩
        = .ok c
      ∧ (c.lastPositional?.bind Node.slot?) = some s
      ∧ s.parameter.declared = .string
      ∧ s.parameter.single = false
      ∧ s.isGreedy = false :=
  ⟨sayBounded (boundedText none (some (none, none))) (.ranged .string none none), _, rfl, rfl, rfl,
    rfl, rfl⟩

end Compile

end CommandGrammar
