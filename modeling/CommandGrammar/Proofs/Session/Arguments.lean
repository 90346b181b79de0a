import CommandGrammar.Proofs.Command.Lookup
import CommandGrammar.Proofs.Session.Permission
import CommandGrammar.Proofs.Trial.Assignment

/-!
# Whose value an argument is

A command files nodes and arguments under the names of its parameters, and compiling does not
compare these names.  As long as they differ, a name leads to its own node, and every parameter
keeps what it was given last: in a trial that succeeds, and in a dispatch, where the ambient
parameters come behind the slots.  `compile_namesIdentify` says so, and that the names differ
exactly if the declared ones do.  `compile_sameName` shows two parameters of one name.
-/

set_option autoImplicit false

namespace CommandGrammar

variable {α σ : Type}

/-- Arguments keep what parameters have been given: each of the parameters has been given a value,
and the last value that a parameter has been given is the one under its name. -/
structure Arguments.Keep (arguments : Arguments) (parameters : List Parameter)
    (given : List Assignment) : Prop where
  complete : ∀ p ∈ parameters, p ∈ given.map Assignment.parameter
  kept : ∀ earlier p value later, given = earlier ++ ⟨p, value⟩ :: later →
    p ∉ later.map Assignment.parameter → arguments.get? p.name = some value

/-- Where no two parameters share a name, what has been bound one after another is kept. -/
theorem Arguments.keep_bindAll {start : Context} {parameters : List Parameter}
    {given : List Assignment} (hnames : (parameters.map Parameter.name).Nodup)
    (hcomplete : ∀ p ∈ parameters, p ∈ given.map Assignment.parameter)
    (hgiven : ∀ a ∈ given, a.parameter ∈ parameters) :
    (start.bindAll (given.map Assignment.binding)).arguments.Keep parameters given where
  complete := hcomplete
  kept earlier p value later hsplit hlast := by
    subst hsplit
    have hp : p ∈ parameters := hgiven ⟨p, value⟩ (List.mem_append_right _ List.mem_cons_self)
    have hother : p.name ∉ (later.map Assignment.binding).map Prod.fst := by
      intro hmem
      obtain ⟨b, hb, hname⟩ := List.mem_map.mp hmem
      obtain ⟨a, ha, rfl⟩ := List.mem_map.mp hb
      have hmember := hgiven a (List.mem_append_right _ (List.mem_cons_of_mem _ ha))
      have hsame : a.parameter = p := List.inj_on_of_nodup_map hnames hmember hp hname
      exact hlast (hsame ▸ List.mem_map_of_mem ha)
    rw [List.map_append, List.map_cons]
    exact Context.get?_bindAll_of_last start value hother

namespace Command

variable {c : Command α}

/-- The parameters of the slots, and then the ambient ones. -/
def parameters (c : Command α) : List Parameter :=
  c.slots.map Slot.parameter ++ c.body.ambients.map Prod.fst

theorem map_name_parameters (c : Command α) :
    c.parameters.map Parameter.name = c.parameterNames := by
  unfold parameters parameterNames
  rw [List.map_append, List.map_map, List.map_map]
  rfl

theorem nodup_slots (hnames : c.parameterNames.Nodup) : (c.slots.map Slot.name).Nodup :=
  (List.nodup_append.mp hnames).1

end Command

namespace Dispatcher

variable {d : Dispatcher α σ} {actor : Actor} {input : String}

/-- What ambient parameters are given, in order. -/
def derived (d : Dispatcher α σ) :
    List (Parameter × Ambient α) → Context → Session α σ → List Assignment
  | [], _, _ => []
  | (p, source) :: rest, c, s =>
    match d.ambientValue p source c s with
    | (.error _, _) => []
    | (.ok value, s) => ⟨p, value⟩ :: derived d rest (c.bind p.name value) s

theorem resolveAmbients_derived {ambients : List (Parameter × Ambient α)} {c c' : Context}
    {s s' : Session α σ} (h : d.resolveAmbients ambients c s = (.ok (), c', s')) :
    c' = c.bindAll ((d.derived ambients c s).map Assignment.binding)
      ∧ (d.derived ambients c s).map Assignment.parameter = ambients.map Prod.fst := by
  induction ambients generalizing c s with
  | nil =>
    cases h
    exact ⟨rfl, rfl⟩
  | cons ambient rest ih =>
    rw [resolveAmbients] at h
    rw [derived]
    cases hvalue : d.ambientValue ambient.1 ambient.2 c s with
    | mk result after =>
      rw [hvalue] at h
      cases result with
      | error e => cases h
      | ok value =>
        obtain ⟨hcontext, hparameters⟩ := ih h
        refine ⟨hcontext, ?_⟩
        rw [List.map_cons, List.map_cons, hparameters]

/-- A trial that succeeds binds what its reading gives, which is something to every slot and to
nothing else. -/
theorem test_assigned {c : Command α} {before after : Session α σ} {trial : Trial α}
    (hnames : (c.slots.map Slot.name).Nodup)
    (htest : d.test c actor input before = some (trial, after))
    (hsucceeded : trial.succeeded = true) :
    trial.context = (Context.start actor c.info input).bindAll
        ((Reading.assigned d.settings c actor input).map Assignment.binding)
      ∧ ∀ p, p ∈ (Reading.assigned d.settings c actor input).map Assignment.parameter
        ↔ p ∈ c.slots.map Slot.parameter := by
  obtain ⟨r, rest, _, _, hreading, hresult, _, rfl⟩ := exists_reading_of_test htest hsucceeded
  exact Reading.ofInput_assigned hnames hreading hresult

theorem test_keep {c : Command α} {before after : Session α σ} {trial : Trial α}
    (hnames : (c.slots.map Slot.name).Nodup)
    (htest : d.test c actor input before = some (trial, after))
    (hsucceeded : trial.succeeded = true) :
    trial.context.arguments.Keep (c.slots.map Slot.parameter)
      (Reading.assigned d.settings c actor input) := by
  obtain ⟨hcontext, hmem⟩ := test_assigned hnames htest hsucceeded
  rw [hcontext]
  refine Arguments.keep_bindAll ?_ (fun p hp => (hmem p).mpr hp) fun a ha => ?_
  · rw [List.map_map]
    exact hnames
  · exact (hmem a.parameter).mp (List.mem_map_of_mem ha)

/-- A dispatch that runs its winner keeps what the slots and the ambient parameters have been
given. -/
theorem dispatch_keep {depth : Nat} {before after : Session α σ} {done : Dispatched α}
    (hnames : done.command.parameterNames.Nodup)
    (h : d.dispatch depth actor input before = some (.ok done, after)) :
    ∃ winner tried cleared, d.Chooses actor input before winner tried
      ∧ d.Clears before.nextDispatch winner tried.numbered done.command.body cleared
      ∧ done.arguments.Keep done.command.parameters
        (Reading.assigned d.settings done.command actor input
          ++ d.derived done.command.body.ambients winner.context cleared) := by
  cases depth with
  | zero => cases h
  | succ depth =>
    obtain ⟨_, e, herror⟩ | ⟨winner, tried, o, hchooses, hcourse⟩ := dispatch_cases h
    · cases herror
    · cases hcourse with
      | @well body context response begun ended settled hbegins hrun hsettle =>
        cases hbegins with
        | @intro cleared _ hclears hresolve =>
          cases body_of_body? hclears.body
          refine ⟨winner, tried, cleared, hchooses, hclears, ?_⟩
          obtain ⟨trials, htry, hbest⟩ := hchooses
          obtain ⟨hsucceeded, c, _, _, _, htest⟩ :=
            exists_test_of_mem_successes htry (Trial.mem_of_best? hbest)
          have hcommand := command_test htest
          dsimp only at hnames ⊢
          rw [hcommand] at hnames hresolve ⊢
          obtain ⟨hcontext, hmem⟩ := test_assigned (Command.nodup_slots hnames) htest hsucceeded
          obtain ⟨hambient, hambients⟩ := resolveAmbients_derived hresolve
          have hwhole : context = (Context.start actor c.info input).bindAll
              ((Reading.assigned d.settings c actor input
                ++ d.derived c.body.ambients winner.context cleared).map Assignment.binding) := by
            rw [List.map_append, Context.bindAll_append, ← hcontext]
            exact hambient
          have hgiven : ∀ p, p ∈ (Reading.assigned d.settings c actor input
                ++ d.derived c.body.ambients winner.context cleared).map Assignment.parameter
              ↔ p ∈ c.parameters := by
            intro p
            rw [List.map_append, List.mem_append, hmem, hambients, Command.parameters,
              List.mem_append]
          rw [hwhole]
          refine Arguments.keep_bindAll ?_ (fun p hp => (hgiven p).mpr hp) fun a ha => ?_
          · rw [Command.map_name_parameters]
            exact hnames
          · exact (hgiven a.parameter).mp (List.mem_map_of_mem ha)

end Dispatcher

namespace Compile

open Dispatcher

/-- The names of a compiled command differ exactly if the declared ones do.  Exactly where those of
the slots differ, each of them leads to its own node.  Where all of them differ, every trial that
succeeds and every dispatch that runs the command keeps for each parameter what that parameter has
been given. -/
theorem compile_namesIdentify {pipeline : Pipeline α} {d : Declaration α} {path : String}
    {id : CommandId} {c : Command α} (h : compile pipeline d path id = .ok c) :
    (c.parameterNames.Nodup ↔ (d.parameters.map Parameter.name).Nodup)
      ∧ ((c.slots.map Slot.name).Nodup
        ↔ ∀ i n slot, c.nodes[i]? = some n → n.slot? = some slot →
          c.indexOf? slot.name = some i ∧ c.slot? slot.name = some slot)
      ∧ (c.parameterNames.Nodup →
        ∀ (σ : Type) (dispatcher : Dispatcher α σ) (actor : Actor) (input : String),
          (∀ before trial after, dispatcher.test c actor input before = some (trial, after) →
            trial.succeeded = true →
            trial.context.arguments.Keep (c.slots.map Slot.parameter)
              (Reading.assigned dispatcher.settings c actor input))
          ∧ ∀ depth before done after,
            dispatcher.dispatch depth actor input before = some (.ok done, after) →
            done.command = c →
            ∃ winner tried cleared, dispatcher.Chooses actor input before winner tried
              ∧ dispatcher.Clears before.nextDispatch winner tried.numbered c.body cleared
              ∧ done.arguments.Keep c.parameters
                (Reading.assigned dispatcher.settings c actor input
                  ++ dispatcher.derived c.body.ambients winner.context cleared)) := by
  refine ⟨?_, Command.indicesIdentify_iff, fun hnames σ dispatcher actor input => ⟨?_, ?_⟩⟩
  · have hparameters : c.parameters.Perm d.parameters := complete_of_compile h
    rw [← Command.map_name_parameters]
    exact (hparameters.map Parameter.name).nodup_iff
  · intro before trial after htest hsucceeded
    exact test_keep (Command.nodup_slots hnames) htest hsucceeded
  · rintro depth before done after hdispatch rfl
    exact dispatch_keep hnames hdispatch

/-- `pay <amount>` with a second parameter behind it. -/
def paying (second : String) : Declaration Unit where
  paths := ["pay <amount>"]
  parameters := [.required "amount" .int, .required second .int]
  action := ()
  metadata := .none

/-- `pay <amount> <second>` -/
def pay (second : String) : Command Unit :=
  ⟨⟨0⟩, [⟨.word "pay", false, false⟩,
      ⟨.slot (.ofParameter (.required "amount" .int) .int), false, false⟩,
      ⟨.slot (.ofParameter (.required second .int) .int), true, true⟩],
    .none, ⟨(), []⟩⟩

/-- A session in which `pay` is registered. -/
def payable (second : String) : Session Unit Unit :=
  { (Session.start ⟨0⟩ () : Session Unit Unit) with commands := [pay second] }

theorem namesIdentify_pay :
    compile (.standard Unit) (paying "times") "pay <amount>" ⟨0⟩ = .ok (pay "times")
      ∧ (pay "times").parameterNames.Nodup
      ∧ (pay "times").indexOf? "amount" = some 1
      ∧ ∃ done after, (bare Unit Unit .standard).dispatch 1 default "pay 1 2" (payable "times")
          = some (.ok done, after)
        ∧ done.arguments.get? "amount" = some (.int 1) := by
  have hcompile : compile (.standard Unit) (paying "times") "pay <amount>" ⟨0⟩
      = .ok (pay "times") := rfl
  obtain ⟨hnames, hidentify, hkeep⟩ := compile_namesIdentify hcompile
  have hdistinct : (pay "times").parameterNames.Nodup := hnames.mpr (by decide)
  have hindex := (hidentify.mp (Command.nodup_slots hdistinct) 1 _ _ rfl rfl).1
  obtain ⟨after, hdispatch⟩ : ∃ after,
      (bare Unit Unit .standard).dispatch 1 default "pay 1 2" (payable "times")
        = some (.ok ⟨pay "times", .ofList [("amount", .int 1), ("times", .int 2)], .nil⟩, after) :=
    ⟨_, rfl⟩
  refine ⟨hcompile, hdistinct, hindex, _, _, hdispatch, ?_⟩
  obtain ⟨winner, _, cleared, _, _, hkept⟩ :=
    (hkeep hdistinct Unit (bare Unit Unit .standard) default "pay 1 2").2 1 _ _ _ hdispatch rfl
  have hgiven : Reading.assigned .standard (pay "times") default "pay 1 2"
        ++ (bare Unit Unit .standard).derived (pay "times").body.ambients winner.context cleared
      = [⟨.required "amount" .int, .int 1⟩, ⟨.required "times" .int, .int 2⟩] := rfl
  refine hkept.kept [] _ _ _ hgiven fun hmem => ?_
  have hname := congrArg Parameter.name (List.mem_singleton.mp hmem)
  revert hname
  decide

/-- Two parameters of one name are accepted.  The name leads to the second node, whose value stands
in the place of the first one's. -/
theorem compile_sameName :
    compile (.standard Unit) (paying "amount") "pay <amount>" ⟨0⟩ = .ok (pay "amount")
      ∧ ¬ (pay "amount").parameterNames.Nodup
      ∧ ((pay "amount").nodes[1]?).map Node.parameterName? = some (some "amount")
      ∧ (pay "amount").indexOf? "amount" = some 2
      ∧ Reading.assigned .standard (pay "amount") default "pay 1 2"
        = [⟨.required "amount" .int, .int 1⟩, ⟨.required "amount" .int, .int 2⟩]
      ∧ ∃ trial after, (bare Unit Unit .standard).test (pay "amount") default "pay 1 2"
          (payable "amount") = some (trial, after)
        ∧ trial.succeeded = true
        ∧ trial.context.arguments.names = ["amount"]
        ∧ trial.context.arguments.get? "amount" = some (.int 2) :=
  ⟨rfl, by decide, rfl, rfl, rfl, _, _, rfl, rfl, rfl, rfl⟩

end Compile

end CommandGrammar
