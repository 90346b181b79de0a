import CommandGrammar.Proofs.Session.Protocol
import CommandGrammar.Proofs.Session.Winner
import CommandGrammar.Proofs.Trial.Acceptance
import CommandGrammar.Proofs.Trial.Permission

/-!
# No way around a permission

Where the permission of commands is among the conditions, an action runs only for an actor whom the
command and all its slots that are matched by place admit, and a flag that denies the actor has the
value of its absence, however the line spells it.  This goes for every action that a dispatch
invokes, also inside another.
-/

set_option autoImplicit false

namespace CommandGrammar

variable {α σ : Type}

/-- The names of the slots and of the ambient parameters. -/
def Command.parameterNames (c : Command α) : List String :=
  c.slots.map Slot.name ++ c.body.ambients.map fun ambient => ambient.1.name

/-- A command lets an actor run it with the arguments of a context, which a line and the ambient
parameters have given it. -/
structure Command.Permits (c : Command α) (actor : Actor) (input : String) (context : Context) :
    Prop where
  ofActor : context.actor = actor
  ofCommand : context.command = c.info
  permission : admitted c.metadata.permission actor = true
  /-- every slot that is matched by place admits the actor, read or left out -/
  places : ∀ slot ∈ c.places, slot.admits actor = true
  /-- a flag that denies the actor has the value of its absence, as it was when it was bound -/
  denied : ∀ f ∈ c.flags, f.admits actor = false → ∃ earlier later value,
    context = (Context.start actor c.info input).bindAll (earlier ++ (f.name, value) :: later)
      ∧ (f.absentValue ((Context.start actor c.info input).bindAll earlier)).1 = .ok value
      ∧ context.arguments.get? f.name = some value

/-- A binding that no later one replaces is the one that counts. -/
theorem Context.get?_bindAll_of_last (start : Context) {earlier later : List (String × Value)}
    {name : String} (value : Value) (h : name ∉ later.map Prod.fst) :
    (start.bindAll (earlier ++ (name, value) :: later)).arguments.get? name = some value := by
  rw [get?_bindAll, lastValue, List.reverse_append, List.reverse_cons, List.append_assoc,
    List.lookup_append]
  have hlater : later.reverse.lookup name = none := (lastValue_eq_none_iff later name).mpr h
  rw [hlater]
  simp

namespace Trial

/-- The trial to run is one of those among which it was chosen. -/
theorem mem_of_best? {trials : List (Trial α)} {winner : Trial α}
    (h : best? trials = some winner) : winner ∈ trials :=
  (perm_sorted trials).mem_iff.mp (List.mem_of_mem_head? h)

end Trial

namespace Dispatcher

variable {d : Dispatcher α σ} {actor : Actor} {input : String} {s s' : Session α σ}
  {winner : Trial α} {n : Nat}

/-! ## The trial of the winner -/

/-- A success is the trial of one of the commands that were tried. -/
theorem exists_test_of_mem_successes {missing : Nat} {commands : List (Command α)}
    {trials : Trials α} (h : d.tryEach actor input missing commands s = some (trials, s'))
    {t : Trial α} (ht : t ∈ trials.successes) :
    t.succeeded = true ∧ ∃ c ∈ commands, ∃ before after,
      d.test c actor input before = some (t, after) := by
  induction commands generalizing missing trials s with
  | nil =>
    cases missing <;> cases h <;> cases ht
  | cons c rest ih =>
    cases missing with
    | zero =>
      cases h
      cases ht
    | succ missing =>
      rw [tryEach] at h
      split at h
      · cases h
      · next trial after htest =>
        split at h
        · next hsucceeded =>
          split at h
          · cases h
          · next hlater =>
            cases h
            rcases List.mem_cons.mp ht with rfl | ht
            · exact ⟨hsucceeded, c, List.mem_cons_self, s, after, htest⟩
            · obtain ⟨hone, c', hc', hfound⟩ := ih hlater ht
              exact ⟨hone, c', List.mem_cons_of_mem _ hc', hfound⟩
        · split at h
          · cases h
          · next hlater =>
            cases h
            obtain ⟨hone, c', hc', hfound⟩ := ih hlater ht
            exact ⟨hone, c', List.mem_cons_of_mem _ hc', hfound⟩

/-- Where all conditions pass and permission is among them, the command admits the actor. -/
theorem admitted_of_testAll {context : Context} {conditions : List (Condition σ)}
    {before after : Standing σ} (hpermission : .permission ∈ conditions)
    (h : Condition.testAll context conditions before = (.ok (), after)) :
    admitted context.command.metadata.permission context.actor = true := by
  induction conditions generalizing before with
  | nil => cases hpermission
  | cons condition rest ih =>
    rw [Condition.testAll] at h
    split at h
    · cases h
    · next htest =>
      rcases List.mem_cons.mp hpermission with rfl | hrest
      · simp only [Condition.test, Condition.testPermission] at htest
        split at htest
        · next hadmits => exact hadmits
        · cases htest
      · exact ih hrest h

/-! ## What is permitted -/

/-- Resolving ambient parameters binds their names. -/
theorem resolveAmbients_bindAll {ambients : List (Parameter × Ambient α)} {c c' : Context}
    (h : d.resolveAmbients ambients c s = (.ok (), c', s')) :
    ∃ bindings, c' = c.bindAll bindings
      ∧ bindings.map Prod.fst = ambients.map fun ambient => ambient.1.name := by
  induction ambients generalizing c s with
  | nil =>
    cases h
    exact ⟨[], rfl, rfl⟩
  | cons ambient rest ih =>
    rw [resolveAmbients] at h
    split at h
    · cases h
    · next value _ _ =>
      obtain ⟨bindings, hcontext, hnames⟩ := ih h
      refine ⟨(ambient.1.name, value) :: bindings, hcontext, ?_⟩
      rw [List.map_cons, List.map_cons, hnames]

theorem body_of_body? {c : Command α} {body : Body α} (h : c.body? = some body) :
    body = c.body := by
  unfold Command.body? at h
  split at h
  · split at h <;> cases h
    rfl
  · cases h

/-- An action that begins is permitted. -/
theorem Begins.permits (hpermission : .permission ∈ d.conditions) {body : Body α}
    {context : Context} {t begun : Session α σ} (hchooses : d.Chooses actor input s winner t)
    (hbegins : d.Begins n winner s' body context begun)
    (hnames : winner.command.parameterNames.Nodup) :
    winner.command.Permits actor input context := by
  obtain ⟨trials, htry, hbest⟩ := hchooses
  obtain ⟨hsucceeded, c, _, before, after, htest⟩ :=
    exists_test_of_mem_successes htry (Trial.mem_of_best? hbest)
  obtain ⟨reading, rest, _, _, hreading, hresult, htests, haccept⟩ :=
    exists_reading_of_test htest hsucceeded
  have hcontext : winner.context = reading.context := by
    rw [haccept]
    rfl
  have hcommand := command_test htest
  rw [hcommand] at hnames ⊢
  obtain ⟨hslots, _, hapart⟩ := List.nodup_append.mp hnames
  obtain ⟨⟨bindings, hbound, hbindings, hdenied⟩, hplaces⟩ :=
    Reading.ofInput_admits hslots hreading hresult
  have hadmitted := admitted_of_testAll hpermission htests
  rw [hbound, Context.bindAll_command, Context.bindAll_actor] at hadmitted
  cases hbegins with
  | intro hclears hresolve =>
    obtain ⟨ambient, hambient, hambientNames⟩ := resolveAmbients_bindAll hresolve
    rw [body_of_body? hclears.body, hcommand] at hambientNames
    have hwhole : context = (Context.start actor c.info input).bindAll (bindings ++ ambient) := by
      rw [Context.bindAll_append, ← hbound, ← hcontext, ← hambient]
    exact
      { ofActor := by rw [hwhole, Context.bindAll_actor]; rfl
        ofCommand := by rw [hwhole, Context.bindAll_command]; rfl
        permission := hadmitted
        places := hplaces
        denied := by
          intro f hf hdeny
          have hother : f.name ∉ ambient.map Prod.fst := by
            rw [hambientNames]
            intro hmem
            exact hapart f.name (List.mem_map_of_mem (Command.mem_flags_iff.mp hf).1) _ hmem rfl
          obtain ⟨earlier, value, later, hsplit, hlast, hvalue⟩ :=
            (hdenied f hf hdeny).append hother
          rw [hsplit] at hwhole
          refine ⟨earlier, later, value, hwhole, hvalue, ?_⟩
          rw [hwhole]
          exact Context.get?_bindAll_of_last _ value hlast }

/-! ## Every action -/

/-- Within a journal, and under a number, a dispatch of a line chose a command for an actor, and ran
its action with a context. -/
def RanUnder (d : Dispatcher α σ) (journal : List Entry) (n : Nat) (actor : Actor) (input : String)
    (command : Command α) (context : Context) : Prop :=
  ∃ depth s winner tried body begun result ended, s.nextDispatch = n
    ∧ d.Chooses actor input s winner tried ∧ winner.command = command
    ∧ d.Begins n winner tried.numbered body context begun ∧ begun.journal <+: journal
    ∧ d.runScript (d.dispatch depth) (d.perform body.action context) begun = some (result, ended)

/-- What is noted as invoked is an action that ran. -/
theorem Conducted.ran {journal : List Entry} {hs : List Happening} {a : ActorId} {id : CommandId}
    {cooldown : Option Duration} (h : d.Conducted journal n hs)
    (hinvoked : .invoked a id cooldown ∈ hs) :
    ∃ actor input command context, d.RanUnder journal n actor input command context
      ∧ a = context.actor.id ∧ id = context.command.id := by
  obtain ⟨depth, actor, input, s, winner, tried, o, answer, s', hn, _, hwithin, hchooses, hcourse,
    rfl⟩ := h
  obtain ⟨body, c, begun, result, ended, hinvocation, hbegins, hrun, hended⟩ :=
    hcourse.ran (Outline.mem_happenings.mp hinvoked)
  obtain ⟨entries, hgrows⟩ := runScript_grows hrun
  have hbegun : begun.journal <+: ended.journal := hgrows.journal ▸ List.prefix_append _ _
  cases hinvocation
  exact ⟨actor, input, winner.command, c, ⟨depth, s, winner, tried, body, begun, result, ended, hn,
    hchooses, rfl, hbegins, (hbegun.trans hended).trans hwithin, hrun⟩, rfl, rfl⟩

/-- Where permission is among the conditions, an action runs only for an actor whom the command
permits: by its own permission, at every slot that is matched by place, and with absent values for
the flags that deny the actor.  Every action that a dispatch invokes, itself or inside another one,
has run so. -/
theorem ran_permits (hpermission : .permission ∈ d.conditions) :
    (∀ journal n actor input command context,
        d.RanUnder journal n actor input command context → command.parameterNames.Nodup →
        command.Permits actor input context)
      ∧ ∀ depth actor input s answer s', d.dispatch depth actor input s = some (answer, s') →
        ∃ entries, s'.journal = s.journal ++ entries
          ∧ ∀ n a id cooldown, ⟨n, .invoked a id cooldown⟩ ∈ entries →
            ∃ actor input command context, d.RanUnder s'.journal n actor input command context
              ∧ a = context.actor.id ∧ id = context.command.id := by
  constructor
  · rintro _ _ _ _ _ _ ⟨_, _, _, _, _, _, _, _, _, hchooses, rfl, hbegins, _, _⟩ hnames
    exact hbegins.permits hpermission hchooses hnames
  · intro depth actor input s answer s' hdispatch
    obtain ⟨entries, hgrows⟩ := dispatch_grows hdispatch
    refine ⟨entries, hgrows.journal, fun n a id cooldown hmem => ?_⟩
    obtain ⟨hfirst, hlast⟩ := hgrows.numbered _ hmem
    exact (hgrows.conducted n hfirst hlast).ran (mem_happeningsOf.mpr hmem)

/-! An actor who may halt, but not by force. -/

/-- `--force`, a switch that denies everyone. -/
def forceSwitch : Slot :=
  .ofParameter { ((Parameter.required "force" .bool).optional.asSwitch .byParameter) with
    permission := some fun _ => false } .bool

/-- `halt [--force]` -/
def haltForce : Command Unit :=
  ⟨⟨0⟩, [⟨.word "halt", false, true⟩, ⟨.slot forceSwitch, true, true⟩], .none, ⟨(), []⟩⟩

/-- A session in which `halt [--force]` is registered. -/
def forcing : Session Unit Unit :=
  { (Session.start ⟨0⟩ () : Session Unit Unit) with commands := [haltForce] }

/-- The context of `halt` without force. -/
def unforced : Context := (Context.start default haltForce.info "halt").bind "force" (.bool false)

theorem reading_haltForce : Reading.ofInput .standard haltForce default "halt"
    = some ⟨haltForce, .ok ⟨"halt".toList, []⟩, unforced, 0, []⟩ := by
  obtain ⟨turns, hturns⟩ :
      ∃ turns, FlagScan.turnLimit haltForce (.ofText "halt".toList) = turns + 2 := by
    refine ⟨_, (Nat.sub_add_cancel ?_).symm⟩
    exact Nat.le_trans (by decide) (FlagScan.lt_turnLimit haltForce (.ofText "halt".toList))
  have hscan : FlagScan.scan .standard haltForce (turns + 2)
      ⟨.ofText "halt".toList, .start default haltForce.info "halt", [], [], []⟩
        = some (.ok (), ⟨⟨"halt".toList, []⟩, .start default haltForce.info "halt", [], [], []⟩) :=
    rfl
  rw [← hturns] at hscan
  have hresolve : FlagScan.resolveAbsent haltForce haltForce.flags
      ⟨⟨"halt".toList, []⟩, .start default haltForce.info "halt", [], [], []⟩
        = (.ok (), ⟨⟨"halt".toList, []⟩, unforced, [], [], []⟩) := rfl
  have hrest : Text.withoutRanges "halt".toList [] = "halt".toList := by
    simp only [Text.withoutRanges, List.map_nil, List.filter_nil, List.mergeSort_nil]
    rfl
  have hsource : (Cursor.mk "halt".toList []).source = "halt".toList := rfl
  have hflags : haltForce.hasFlags = true := rfl
  unfold Reading.ofInput
  dsimp only
  rw [if_pos hflags, FlagScan.extract_of_scan hscan, hresolve]
  simp only [FlagScan.Outcome.ofStep]
  rw [hsource, hrest]
  rfl

/-- Halting runs without force. -/
theorem ran_haltForce :
    ∃ journal, guarded.RanUnder journal 0 default "halt" haltForce unforced
      ∧ haltForce.Permits default "halt" unforced := by
  have htest : guarded.test haltForce default "halt" forcing
      = some (⟨haltForce, unforced, none, true, 2⟩, forcing) := by
    unfold test
    rw [show guarded.settings = .standard from rfl, reading_haltForce]
    rfl
  have hchooses : guarded.Chooses default "halt" forcing
      ⟨haltForce, unforced, none, true, 2⟩ forcing := by
    refine ⟨⟨[⟨haltForce, unforced, none, true, 2⟩], []⟩, ?_, rfl⟩
    rw [show guarded.settings.cap = 5 from rfl,
      show forcing.candidates "halt" = [haltForce] from rfl, tryEach, htest]
    rfl
  obtain ⟨success, s', hexecute⟩ : ∃ success s', guarded.execute (guarded.dispatch 0) 0
      ⟨haltForce, unforced, none, true, 2⟩ forcing.numbered = some (.ok success, s') :=
    ⟨_, _, rfl⟩
  obtain ⟨o, hcourse⟩ := course_of_execute hexecute
  have hran : ∃ journal, guarded.RanUnder journal 0 default "halt" haltForce unforced := by
    cases hcourse with
    | @well body c _ begun ended _ hbegins hrun _ =>
      have hcontext : c = unforced := by
        cases hbegins with
        | intro hclears hresolve =>
          cases body_of_body? hclears.body
          cases hresolve
          rfl
      cases hcontext
      exact ⟨begun.journal, 0, forcing, _, forcing, body, begun, _, ended, rfl, hchooses, rfl,
        hbegins, List.prefix_rfl, hrun⟩
  obtain ⟨journal, hran⟩ := hran
  have hpermission : .permission ∈ guarded.conditions := List.mem_cons_self
  exact ⟨journal, hran, (ran_permits hpermission).1 _ _ _ _ _ _ hran (by decide)⟩

end Dispatcher

end CommandGrammar
