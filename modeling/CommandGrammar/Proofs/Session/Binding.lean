import CommandGrammar.Proofs.Command.Rendering
import CommandGrammar.Proofs.Session.Arguments

/-!
# All parameters or none

Arguments are bound in four places: where a flag occurs, for flags that are absent, in the walk over
the nodes, and, of the winner of a dispatch, for ambient parameters.  Each of the four binds exactly
the names of its own parameters, also where parameters share a name; so a trial that succeeds has
bound the names of all its slots and no others, and a dispatch adds those of the ambient
parameters.  A trial that fails keeps nothing, wherever it fails.
-/

set_option autoImplicit false

namespace CommandGrammar

variable {α σ : Type}

/-- The names of arguments are those that have a value. -/
theorem Arguments.exists_get?_iff (arguments : Arguments) (name : String) :
    (∃ value, arguments.get? name = some value) ↔ name ∈ arguments.names := by
  rw [← Option.isSome_iff_exists, get?, List.lookup_isSome_iff, names, List.mem_map]
  simp only [beq_iff_eq]
  exact exists_congr fun _ => and_congr_right fun _ => eq_comm

/-- Binding adds the names that are bound. -/
theorem Context.mem_names_bindAll {name : String} (context : Context)
    (bindings : List (String × Value)) :
    name ∈ (context.bindAll bindings).arguments.names
      ↔ name ∈ bindings.map Prod.fst ∨ name ∈ context.arguments.names := by
  induction bindings generalizing context with
  | nil => simp
  | cons b rest ih =>
    rw [bindAll_cons, ih, List.map_cons, List.mem_cons, bind, Arguments.mem_names_insert, or_assoc,
      or_left_comm]

/-- The names under which values are filed are those of the parameters. -/
theorem Assignment.map_fst_binding (given : List Assignment) :
    (given.map binding).map Prod.fst = (given.map parameter).map Parameter.name := by
  rw [List.map_map, List.map_map]
  rfl

theorem Slot.map_name_parameter (slots : List Slot) :
    (slots.map Slot.parameter).map Parameter.name = slots.map Slot.name := List.map_map

namespace FlagScan

variable {settings : Settings} {c : Command α}

/-- Taking flags out binds the name of every flag, whether it occurs or not, and no other. -/
theorem mem_names_extract {input rest : Cursor} {start context : Context} {notes : List Note}
    (h : extract settings c input start = some ⟨.ok rest, context, notes⟩) {name : String} :
    name ∈ context.arguments.names
      ↔ name ∈ c.flags.map Slot.name ∨ name ∈ start.arguments.names := by
  obtain ⟨scanned, resolved, hscan, hresolve, rfl, -⟩ := extract_cases h
  obtain ⟨hgiven, hseen, hflags⟩ := scan_takes hscan
  obtain ⟨habsent, hmem⟩ := resolveAbsent_assigned hresolve
  rw [List.nil_append] at hseen
  rw [habsent, Context.mem_names_bindAll, Assignment.map_fst_binding]
  generalize absentAssigned c.flags scanned.seen scanned.context = absent at hmem ⊢
  rw [hgiven, Context.mem_names_bindAll, Assignment.map_fst_binding, ← or_assoc]
  refine or_congr_left ?_
  constructor
  · rintro (habsents | hoccurs)
    · obtain ⟨p, hp, rfl⟩ := List.mem_map.mp habsents
      obtain ⟨f, hf, rfl, -⟩ := (hmem p).mp hp
      exact List.mem_map_of_mem hf
    · obtain ⟨p, hp, rfl⟩ := List.mem_map.mp hoccurs
      obtain ⟨a, ha, rfl⟩ := List.mem_map.mp hp
      rw [← Slot.map_name_parameter]
      exact List.mem_map_of_mem (hflags a ha)
  · intro hname
    obtain ⟨f, hf, rfl⟩ := List.mem_map.mp hname
    -- the name of a flag has occurred, of whatever flag, or this one is resolved as absent
    by_cases hoccurs : f.name ∈ scanned.seen
    · rw [hseen] at hoccurs
      exact .inr (by simpa using hoccurs)
    · exact .inl (List.mem_map_of_mem (f := Parameter.name) ((hmem _).mpr ⟨f, hf, rfl, hoccurs⟩))

end FlagScan

/-- A walk binds the names of the slots that are matched by place, and no other. -/
theorem Walk.mem_names_run {c : Command α} {index : Nat} {nodes : List Node} {s s' : State}
    (h : run c index nodes s = (.ok (), s')) {name : String} :
    name ∈ s'.context.arguments.names
      ↔ name ∈ (placesIn nodes).map Slot.name ∨ name ∈ s.context.arguments.names := by
  obtain ⟨hcontext, hparameters⟩ := run_assigned h
  rw [hcontext, Context.mem_names_bindAll, Assignment.map_fst_binding, hparameters,
    Slot.map_name_parameter]

/-- The names of the slots are those of the flags and those of the places. -/
theorem Command.mem_names_slots {c : Command α} {name : String} :
    name ∈ c.slots.map Slot.name
      ↔ name ∈ (placesIn c.nodes).map Slot.name ∨ name ∈ c.flags.map Slot.name := by
  have hplaces : placesIn c.nodes = c.places := rfl
  simp only [List.mem_map, hplaces, mem_flags_iff, mem_places_iff]
  grind

/-- A reading that succeeds has bound the names of all slots, and no other. -/
theorem Reading.mem_names_ofInput {settings : Settings} {c : Command α} {actor : Actor}
    {input : String} {r : Reading α} {rest : Cursor}
    (h : ofInput settings c actor input = some r) (hok : r.result = .ok rest) {name : String} :
    name ∈ r.context.arguments.names ↔ name ∈ c.slots.map Slot.name := by
  obtain ⟨s, s', hstart, hrun, -, hcontext⟩ := ofInput_eq_ok h hok
  have hnone : (Context.start actor c.info input).arguments.names = [] := rfl
  rw [← hcontext, Walk.mem_names_run hrun, Command.mem_names_slots]
  refine or_congr_right ?_
  unfold walkStart? at hstart
  dsimp only at hstart
  split at hstart
  · split at hstart
    · next hextract =>
      cases hstart
      rw [FlagScan.mem_names_extract hextract, hnone, or_iff_left List.not_mem_nil]
    · cases hstart
  · next hflags =>
    cases hstart
    have hflagless : c.flags = [] :=
      List.eq_nil_iff_forall_not_mem.mpr fun f hf => hflags (Command.hasFlags_of_mem_flags hf)
    rw [hflagless, hnone]
    rfl

/-- A trial has bound all parameters, or none. -/
structure Trial.AllOrNone (t : Trial α) : Prop where
  /-- A success has an argument for every slot, flags and switches included, and for nothing else,
  and has passed all nodes. -/
  all : t.succeeded = true →
    (∀ name, name ∈ t.context.arguments.names ↔ name ∈ t.command.slots.map Slot.name)
      ∧ t.furthest = t.command.size
  /-- A failure has no arguments and has not taken the input. -/
  none : t.succeeded = false → t.context.arguments.names = [] ∧ t.consumedAll = false

namespace Dispatcher

variable {d : Dispatcher α σ} {c : Command α} {actor : Actor} {input : String}

theorem test_allOrNone {before after : Session α σ} {trial : Trial α}
    (h : d.test c actor input before = some (trial, after)) :
    trial.command = c ∧ trial.AllOrNone := by
  have hcommand := command_test h
  refine ⟨hcommand, ?_, ?_⟩
  · intro hsucceeded
    obtain ⟨r, rest, _, _, hreading, hresult, _, rfl⟩ := exists_reading_of_test h hsucceeded
    refine ⟨fun name => ?_, rfl⟩
    rw [hcommand]
    exact Reading.mem_names_ofInput hreading hresult
  · intro hfailed
    unfold test at h
    split at h
    · cases h
    · dsimp only at h
      split at h
      · cases h
        exact ⟨rfl, rfl⟩
      · split at h
        · cases h
          exact ⟨rfl, rfl⟩
        · cases h
          cases hfailed

/-- Ambient parameters are bound besides the arguments of the winner. -/
theorem dispatch_names {depth : Nat} {before after : Session α σ} {done : Dispatched α}
    (h : d.dispatch depth actor input before = some (.ok done, after)) {name : String} :
    name ∈ done.arguments.names ↔ name ∈ done.command.parameterNames := by
  cases depth with
  | zero => cases h
  | succ depth =>
    obtain ⟨_, e, herror⟩ | ⟨winner, tried, o, hchooses, hcourse⟩ := dispatch_cases h
    · cases herror
    · cases hcourse with
      | @well body context response begun ended settled hbegins hrun hsettle =>
        cases hbegins with
        | @intro cleared _ hclears hresolve =>
          cases body_of_body? hclears.body
          obtain ⟨trials, htry, hbest⟩ := hchooses
          obtain ⟨hsucceeded, c, _, _, _, htest⟩ :=
            exists_test_of_mem_successes htry (Trial.mem_of_best? hbest)
          obtain ⟨hslots, -⟩ := (test_allOrNone htest).2.all hsucceeded
          obtain ⟨hambient, hambients⟩ := resolveAmbients_derived hresolve
          dsimp only
          rw [hambient, Context.mem_names_bindAll, Assignment.map_fst_binding, hambients, hslots,
            List.map_map, or_comm, Command.parameterNames, List.mem_append]
          rfl

/-- Whatever the command, the dispatcher, the actor and the input: a trial that succeeds has an
argument for every slot and for nothing else, and has passed all nodes; a trial that fails has none
and has not taken the input; and a dispatch that succeeds has, besides, arguments for the ambient
parameters of the command. -/
theorem allOrNone_dispatch_names (d : Dispatcher α σ) (actor : Actor) (input : String) :
    (∀ (c : Command α) before trial after, d.test c actor input before = some (trial, after) →
        trial.command = c ∧ trial.AllOrNone)
      ∧ ∀ depth before (done : Dispatched α) after,
        d.dispatch depth actor input before = some (.ok done, after) →
        ∀ name, name ∈ done.arguments.names
          ↔ name ∈ done.command.slots.map Slot.name
            ∨ name ∈ done.command.body.ambients.map fun ambient => ambient.1.name := by
  refine ⟨fun c before trial after => test_allOrNone, ?_⟩
  intro depth before done after h name
  rw [dispatch_names h, Command.parameterNames, List.mem_append]

/-- A session in which presents can be given. -/
def generous : Session Unit Unit :=
  { (Session.start ⟨0⟩ () : Session Unit Unit) with commands := [Compile.presenting 0] }

/-- A present without a note has an argument for the note all the same, and one for its sender; one
for nobody has none. -/
theorem allOrNone_presenting :
    (∃ trial after, (bare Unit Unit .standard).test (Compile.presenting 0) default "give 3 to"
          generous = some (trial, after)
        ∧ trial.error.map CommandError.fault = some (.missingArgument "whom")
        ∧ trial.context.arguments.names = [] ∧ trial.consumedAll = false)
      ∧ ∃ done after, (bare Unit Unit .standard).dispatch 1 default "give 3 to Ann" generous
          = some (.ok done, after)
        ∧ ∀ name, name ∈ done.arguments.names
          ↔ name ∈ ["item", "whom", "note"] ∨ name ∈ ["sender"] := by
  obtain ⟨hfirst, -⟩ := allOrNone_dispatch_names (bare Unit Unit .standard) default "give 3 to"
  obtain ⟨-, hsecond⟩ := allOrNone_dispatch_names (bare Unit Unit .standard) default "give 3 to Ann"
  obtain ⟨trial, after, htest, hfault, hfailed⟩ : ∃ trial after,
      (bare Unit Unit .standard).test (Compile.presenting 0) default "give 3 to" generous
          = some (trial, after)
        ∧ trial.error.map CommandError.fault = some (.missingArgument "whom")
        ∧ trial.succeeded = false := ⟨_, _, rfl, rfl, rfl⟩
  obtain ⟨done, after', hdispatch, hcommand⟩ : ∃ done after,
      (bare Unit Unit .standard).dispatch 1 default "give 3 to Ann" generous
          = some (.ok done, after)
        ∧ done.command = Compile.presenting 0 := ⟨_, _, rfl, rfl⟩
  refine ⟨⟨trial, after, htest, hfault, (hfirst _ _ _ _ htest).2.none hfailed⟩,
    done, after', hdispatch, fun name => ?_⟩
  rw [hsecond _ _ _ _ hdispatch, hcommand]
  rfl

end Dispatcher

end CommandGrammar
