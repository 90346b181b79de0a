import CommandGrammar.Proofs.Command.Promotion
import CommandGrammar.Proofs.Reading.Checks
import CommandGrammar.Proofs.Session.Binding
import CommandGrammar.Proofs.Trial.Origins

/-!
# Bounds and validators of arguments

A value reaches the arguments of a trial in one of four ways: from the text in its place, behind a
flag, from a default text, or as the rest of the input where the type has been promoted.  In all of
them it is read by the type of its slot, and that type has the validators of the parameter around
it.  So no argument of a trial that succeeds gets around what its parameter declares or around a
validator of the host: `test_fits`.  Only a switch, and nil for what is absent, is not read.
-/

set_option autoImplicit false

namespace CommandGrammar

variable {α σ : Type}

namespace Compile

variable {o : PipelineOptions α} {declaration : Declaration α} {path : String} {id : CommandId}
  {c : Command α}

/-- What the type of a slot reads, promoted or not, is what the parameter declares, and every
validator of the host has accepted it. -/
theorem fits_of_slot (ho : o.IsPlain) (h : compile o.build declaration path id = .ok c) {s : Slot}
    (hs : s ∈ c.slots) {cursor : Cursor} {context : Context} {value : Value}
    (hread : (s.type.parse cursor context).result = .ok value) :
    s.parameter.Fits value ∧ ∀ v ∈ o.validators, v.Accepts value s.parameter context := by
  obtain ⟨type, hresolve, htype⟩ := type_of_compile h hs
  have hdeclared := (Pipeline.resolve_eq_value_iff ho).mp hresolve
  have hactive : s.parameter.Fits value
      ∧ ∀ v ∈ Rule.activeValidators s.parameter o.validators,
        v.Accepts value s.parameter context := by
    rcases htype with hsame | hvariant
    · rw [hsame] at hread
      exact ValueType.fits_of_parse rfl hdeclared hread
    · exact ValueType.fits_of_variant hdeclared hvariant hread
  exact ⟨hactive.1, fun v hv => hactive.2 v (List.mem_append_right _ hv)⟩

end Compile

namespace Dispatcher

variable {d : Dispatcher α σ} {c : Command α} {actor : Actor} {input : String}
  {before after : Session α σ} {trial : Trial α} {s : Slot}

/-- A trial that succeeds has an argument for every slot. -/
theorem exists_argument (htest : d.test c actor input before = some (trial, after))
    (hsucceeded : trial.succeeded = true) (hs : s ∈ c.slots) :
    ∃ value, trial.context.arguments.get? s.name = some value := by
  obtain ⟨rfl, hnames⟩ := test_allOrNone htest
  obtain ⟨hslots, -⟩ := hnames.all hsucceeded
  exact (Arguments.exists_get?_iff _ _).mpr ((hslots s.name).mpr (List.mem_map_of_mem hs))

/-- A trial that succeeds has bound its arguments along a trail. -/
theorem test_trail (htest : d.test c actor input before = some (trial, after))
    (hsucceeded : trial.succeeded = true) :
    c.Trail (.start actor c.info input) trial.context := by
  obtain ⟨r, rest, _, _, hreading, hresult, _, rfl⟩ := exists_reading_of_test htest hsucceeded
  exact Reading.ofInput_trail hreading hresult

/-- Where a host adds no rules of its own and the names of slots differ, a trial that succeeds has
an argument for every slot, which the slot has been given on the way.  If the slot is no switch, the
argument is nil where an optional parameter without a default text is absent.  Otherwise it is what
the parameter declares, with the bounds on characters and on entries kept, and every validator of
the host has accepted it for the parameter, whether it was typed, given behind a flag or read from a
default text, and whether or not the type was promoted. -/
theorem test_fits {o : PipelineOptions α} (ho : o.IsPlain) {declaration : Declaration α}
    {path : String} {id : CommandId}
    (hcompile : Compile.compile o.build declaration path id = .ok c)
    (hnames : (c.slots.map Slot.name).Nodup)
    (htest : d.test c actor input before = some (trial, after))
    (hsucceeded : trial.succeeded = true) (hs : s ∈ c.slots) (hswitch : s.isSwitch = false) :
    ∃ value given, trial.context.arguments.get? s.name = some value
      ∧ c.Trail (.start actor c.info input) given
      ∧ s.Gives given value
      ∧ c.Trail (given.bind s.name value) trial.context
      ∧ ((value = .nil ∧ s.isOptional = true ∧ s.parameter.defaultText = none)
        ∨ (s.parameter.Fits value ∧ ∀ v ∈ o.validators, v.Accepts value s.parameter given)) := by
  obtain ⟨value, hvalue⟩ := exists_argument htest hsucceeded hs
  obtain ⟨given, hbefore, hgives, hafter⟩ :=
    (test_trail htest hsucceeded).exists_given hnames hs rfl hvalue
  refine ⟨value, given, hvalue, hbefore, hgives, hafter, ?_⟩
  cases hgives with
  | switched h =>
    rw [hswitch] at h
    cases h
  | typed _ hread => exact .inr (Compile.fits_of_slot ho hcompile hs hread)
  | default _ _ hread => exact .inr (Compile.fits_of_slot ho hcompile hs hread)
  | missing hoptional hnone => exact .inl ⟨rfl, hoptional, hnone⟩

/-- A validator that refuses one text. -/
def notRoot : Validator :=
  .host fun value _ _ =>
    if value.text? = some "root" then .reject (.rejected "root".toList "reserved") else .pass

/-- One to three labels of two to four characters. -/
def labels : Parameter :=
  { Parameter.required "labels" (.list .string) with length := some (2, 4), size := some (1, 3) }

/-- `tag <labels>` -/
def tagging : Declaration Unit where
  paths := ["tag <labels>"]
  parameters := [labels]
  action := ()
  metadata := .none

/-- The command of `tagging`, where labels may not be `root`. -/
def tag : Command Unit :=
  ⟨⟨0⟩, [⟨.word "tag", false, false⟩,
      ⟨.slot (.ofParameter labels (((ValueType.string.wrapped [notRoot]
        (labels.withType .string)) |> ValueType.list).wrapped [notRoot] labels)), true, true⟩],
    .none, ⟨(), []⟩⟩

/-- Two labels are within the bounds. -/
theorem fits_labels :
    Compile.compile (PipelineOptions.standard.addValidator notRoot).build tagging "tag <labels>" ⟨0⟩
        = .ok tag
      ∧ ∃ trial after, (bare Unit Unit .standard).test tag default "tag red blue" (.start ⟨0⟩ ())
          = some (trial, after)
        ∧ trial.succeeded = true
        ∧ ∃ value, trial.context.arguments.get? "labels" = some value ∧ labels.Fits value := by
  have hcompile : Compile.compile (PipelineOptions.standard.addValidator notRoot).build tagging
      "tag <labels>" ⟨0⟩ = .ok tag := rfl
  obtain ⟨trial, after, htest, hsucceeded⟩ : ∃ trial after,
      (bare Unit Unit .standard).test tag default "tag red blue" (.start ⟨0⟩ ())
        = some (trial, after) ∧ trial.succeeded = true := ⟨_, _, rfl, rfl⟩
  obtain ⟨value, _, hvalue, _, _, _, hfits⟩ := test_fits ⟨rfl, rfl⟩ hcompile (by decide) htest
    hsucceeded List.mem_cons_self rfl
  refine ⟨hcompile, trial, after, htest, hsucceeded, value, hvalue, ?_⟩
  rcases hfits with ⟨_, hoptional, _⟩ | ⟨hfits, _⟩
  · cases hoptional
  · exact hfits

end Dispatcher

end CommandGrammar
