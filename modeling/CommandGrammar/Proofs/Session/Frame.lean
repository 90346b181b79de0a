import CommandGrammar.Session.Dispatch

/-!
# What is left alone

Trials and ambient parameters change nothing but the state of the host.  Conditions, hooks of an
execution and handlers may change the ledgers and the journal as well.  None of them adds or removes
a command or gives out an identity; only the calls of the registry do, and these in turn leave the
clock, the ledgers and the journal alone.
-/

set_option autoImplicit false

namespace CommandGrammar

variable {α σ : Type}

/-- Two sessions with the same commands that give out the same identity next. -/
structure Session.SameRegistry (s s' : Session α σ) : Prop where
  commands : s'.commands = s.commands
  nextId : s'.nextId = s.nextId

namespace Session.SameRegistry

variable {s s' s'' : Session α σ}

theorem refl (s : Session α σ) : s.SameRegistry s := ⟨rfl, rfl⟩

theorem trans (h : s.SameRegistry s') (h' : s'.SameRegistry s'') : s.SameRegistry s'' :=
  ⟨h'.commands.trans h.commands, h'.nextId.trans h.nextId⟩

theorem note (s : Session α σ) (serial : Nat) (happening : Happening) :
    s.SameRegistry (s.note serial happening) := ⟨rfl, rfl⟩

theorem mapHost (s : Session α σ) (f : σ → σ) : s.SameRegistry (s.mapHost f) := ⟨rfl, rfl⟩

theorem standing (s : Session α σ) (standing : Standing σ) :
    s.SameRegistry { s with standing := standing } := ⟨rfl, rfl⟩

end Session.SameRegistry

/-- Two sessions that agree on what has been recorded of dispatches. -/
structure Session.SameRecord (s s' : Session α σ) : Prop where
  now : s'.standing.now = s.standing.now
  ledgers : s'.standing.ledgers = s.standing.ledgers
  journal : s'.journal = s.journal
  nextDispatch : s'.nextDispatch = s.nextDispatch

namespace Session.SameRecord

variable {s s' s'' : Session α σ}

theorem refl (s : Session α σ) : s.SameRecord s := ⟨rfl, rfl, rfl, rfl⟩

theorem trans (h : s.SameRecord s') (h' : s'.SameRecord s'') : s.SameRecord s'' :=
  ⟨h'.now.trans h.now, h'.ledgers.trans h.ledgers, h'.journal.trans h.journal,
    h'.nextDispatch.trans h.nextDispatch⟩

theorem mapHost (s : Session α σ) (f : σ → σ) : s.SameRecord (s.mapHost f) := ⟨rfl, rfl, rfl, rfl⟩

end Session.SameRecord

/-- Two sessions that differ in the state of the host at most. -/
def Session.HostOnly (s s' : Session α σ) : Prop :=
  ∃ host, s' = { s with standing := { s.standing with host := host } }

namespace Session.HostOnly

variable {s s' s'' : Session α σ}

theorem refl (s : Session α σ) : s.HostOnly s := ⟨s.standing.host, rfl⟩

theorem trans (h : s.HostOnly s') (h' : s'.HostOnly s'') : s.HostOnly s'' := by
  obtain ⟨_, rfl⟩ := h
  obtain ⟨host, rfl⟩ := h'
  exact ⟨host, rfl⟩

theorem sameRegistry (h : s.HostOnly s') : s.SameRegistry s' := by
  obtain ⟨_, rfl⟩ := h
  exact ⟨rfl, rfl⟩

theorem sameRecord (h : s.HostOnly s') : s.SameRecord s' := by
  obtain ⟨_, rfl⟩ := h
  exact ⟨rfl, rfl, rfl, rfl⟩

end Session.HostOnly

namespace Dispatcher

open Session

variable {d : Dispatcher α σ} {s s' : Session α σ} {actor : Actor} {input : String} {serial : Nat}
  {context : Context}

/-! ## Trials -/

/-- Testing a condition changes the state of the host at most. -/
theorem hostOnly_conditionTest (condition : Condition σ) (context : Context)
    (before : Standing σ) :
    ∃ host, (condition.test context before).2 = { before with host := host } := by
  cases condition with
  | permission => exact ⟨before.host, rfl⟩
  | cooldown ledger => exact ⟨before.host, rfl⟩
  | host h => exact ⟨_, rfl⟩

theorem hostOnly_testAll {conditions : List (Condition σ)} {before after : Standing σ}
    {result : Except CommandError Unit}
    (h : Condition.testAll context conditions before = (result, after)) :
    ∃ host, after = { before with host := host } := by
  induction conditions generalizing before with
  | nil =>
    cases h
    exact ⟨after.host, rfl⟩
  | cons condition rest ih =>
    obtain ⟨host, hfirst⟩ := hostOnly_conditionTest condition context before
    rw [Condition.testAll] at h
    split at h
    · next htest =>
      cases h
      rw [htest] at hfirst
      exact ⟨host, hfirst⟩
    · next htest =>
      rw [htest] at hfirst
      dsimp only at hfirst
      obtain ⟨last, hlast⟩ := ih h
      refine ⟨last, ?_⟩
      rw [hlast, hfirst]

theorem hostOnly_test {c : Command α} {trial : Trial α}
    (h : d.test c actor input s = some (trial, s')) : s.HostOnly s' := by
  unfold test at h
  split at h
  · cases h
  · split at h
    · cases h
      exact ⟨_, rfl⟩
    · dsimp only at h
      split at h
      · next htests =>
        cases h
        obtain ⟨host, rfl⟩ := hostOnly_testAll htests
        exact ⟨host, rfl⟩
      · next htests =>
        cases h
        obtain ⟨host, rfl⟩ := hostOnly_testAll htests
        exact ⟨host, rfl⟩

theorem hostOnly_tryEach {missing : Nat} {commands : List (Command α)} {trials : Trials α}
    (h : d.tryEach actor input missing commands s = some (trials, s')) : s.HostOnly s' := by
  induction commands generalizing missing trials s with
  | nil => cases missing <;> cases h <;> exact .refl _
  | cons c rest ih =>
    cases missing with
    | zero => cases h; exact .refl _
    | succ missing =>
      rw [tryEach] at h
      split at h
      · cases h
      · next trial after htest =>
        have hfirst := hostOnly_test htest
        split at h
        · split at h
          · cases h
          · next later last hlater =>
            cases h
            exact hfirst.trans (ih hlater)
        · split at h
          · cases h
          · next later last hlater =>
            cases h
            exact hfirst.trans (ih hlater)

theorem sameRegistry_tryEach {missing : Nat} {commands : List (Command α)} {trials : Trials α}
    (h : d.tryEach actor input missing commands s = some (trials, s')) : s.SameRegistry s' :=
  (hostOnly_tryEach h).sameRegistry

/-! ## The winner -/

theorem sameRegistry_releaseEach (conditions : List (Condition σ × Nat)) (s : Session α σ) :
    s.SameRegistry (releaseEach serial context conditions s) := by
  induction conditions generalizing s with
  | nil => exact .refl _
  | cons placed rest ih => exact ((SameRegistry.standing _ _).trans (.note _ _ _)).trans (ih _)

theorem sameRegistry_confirmEach (conditions : List (Condition σ × Nat)) (s : Session α σ) :
    s.SameRegistry (confirmEach serial context conditions s) := by
  induction conditions generalizing s with
  | nil => exact .refl _
  | cons placed rest ih => exact ((SameRegistry.standing _ _).trans (.note _ _ _)).trans (ih _)

theorem sameRegistry_claimEach {claimed conditions : List (Condition σ × Nat)}
    {result : Except CommandError Unit}
    (h : claimEach serial context claimed conditions s = (result, s')) : s.SameRegistry s' := by
  induction conditions generalizing claimed s with
  | nil => cases h; exact .refl _
  | cons placed rest ih =>
    rw [claimEach] at h
    split at h
    · cases h
      exact ((SameRegistry.standing _ _).trans (.note _ _ _)).trans (sameRegistry_releaseEach _ _)
    · exact ((SameRegistry.standing _ _).trans (.note _ _ _)).trans (ih h)

theorem sameRegistry_askExecuting {hooks : List (Hook α σ × Nat)} {allowed : Bool}
    (h : askExecuting serial context hooks s = (allowed, s')) : s.SameRegistry s' := by
  induction hooks generalizing s allowed with
  | nil => cases h; exact .refl _
  | cons placed rest ih =>
    rw [askExecuting] at h
    cases h
    exact ((SameRegistry.standing _ _).trans (.note _ _ _)).trans (ih rfl)

theorem hostOnly_ambientValue (d : Dispatcher α σ) (p : Parameter) (source : Ambient α)
    (context : Context) (s : Session α σ) : s.HostOnly (d.ambientValue p source context s).2 := by
  cases source with
  | actor => exact .refl s
  | input => exact .refl s
  | command => exact .refl s
  | object object => exact .refl s
  | host name => exact ⟨_, rfl⟩

theorem hostOnly_resolveAmbients {ambients : List (Parameter × Ambient α)}
    {result : Except CommandError Unit} {after : Context}
    (h : d.resolveAmbients ambients context s = (result, after, s')) : s.HostOnly s' := by
  induction ambients generalizing context s with
  | nil => cases h; exact .refl _
  | cons ambient rest ih =>
    have hfirst := hostOnly_ambientValue d ambient.1 ambient.2 context s
    rw [resolveAmbients] at h
    split at h
    · next hvalue =>
      cases h
      rw [hvalue] at hfirst
      exact hfirst
    · next hvalue =>
      rw [hvalue] at hfirst
      exact hfirst.trans (ih h)

theorem sameRegistry_resolveAmbients {ambients : List (Parameter × Ambient α)}
    {result : Except CommandError Unit} {after : Context}
    (h : d.resolveAmbients ambients context s = (result, after, s')) : s.SameRegistry s' :=
  (hostOnly_resolveAmbients h).sameRegistry

theorem sameRegistry_respond (response : Value) (s : Session α σ) :
    s.SameRegistry (d.respond serial context response s) := by
  unfold respond
  split <;> exact ⟨rfl, rfl⟩

theorem sameRegistry_settle (winner : Command α) (result : Except ActionError Value)
    (s : Session α σ) : s.SameRegistry (d.settle serial winner result context s).2 := by
  unfold settle
  cases result with
  | ok response =>
    exact ((SameRegistry.note _ _ _).trans (sameRegistry_confirmEach _ _)).trans
      (sameRegistry_respond _ _)
  | error e =>
    exact ((SameRegistry.note _ _ _).trans (sameRegistry_releaseEach _ _)).trans ⟨rfl, rfl⟩

/-! ## The calls of the registry -/

theorem sameRecord_register (c : Command α) (s : Session α σ) :
    s.SameRecord (d.register c s).2 := by
  unfold register
  cases askRegistering c d.hooks s.standing.host with
  | mk allowed host => cases allowed <;> exact ⟨rfl, rfl, rfl, rfl⟩

theorem sameRecord_registerEach (commands : List (Command α)) (s : Session α σ) :
    s.SameRecord (d.registerEach commands s).2 := by
  induction commands generalizing s with
  | nil => exact .refl s
  | cons c rest ih => exact (sameRecord_register c s).trans (ih _)

theorem sameRecord_registerDeclaration (declaration : Declaration α) (s : Session α σ) :
    s.SameRecord (d.registerDeclaration declaration s).2 := by
  unfold registerDeclaration
  cases Compile.compileAll d.pipeline declaration s.nextId with
  | error e => exact .refl s
  | ok compiled =>
    have hcounted : s.SameRecord { s with nextId := s.nextId + compiled.length } :=
      ⟨rfl, rfl, rfl, rfl⟩
    exact hcounted.trans (sameRecord_registerEach compiled _)

theorem sameRecord_unregister (id : CommandId) (s : Session α σ) :
    s.SameRecord (d.unregister id s).2 := by
  unfold unregister
  cases s.command? id <;> exact ⟨rfl, rfl, rfl, rfl⟩

theorem sameRecord_unregisterIf (p : Command α → Bool) (s : Session α σ) :
    s.SameRecord (d.unregisterIf p s).2 := ⟨rfl, rfl, rfl, rfl⟩

end Dispatcher

end CommandGrammar
