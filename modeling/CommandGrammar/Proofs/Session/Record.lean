import CommandGrammar.Proofs.Session.Course
import CommandGrammar.Proofs.Session.History
import CommandGrammar.Proofs.Trial.Acceptance

/-!
# What calls record

Every call makes a history longer by events of its own.  A declaration offers each of its commands,
unless one of its paths cannot be compiled; then nothing happens.  An action makes its calls in the
middle of a dispatch, and the events of the dispatch are those of its action, with the events of the
dispatches that the action nests among them.  A command that an action compiles and registers by
itself is a declaration with one path.

Before its action begins and after the action has ended, a dispatch leaves the registry alone
(`Dispatcher.Around`).  So the events that are recorded of a dispatch are all that happens to the
registry, and what holds of a registry at the end of a history holds whoever made the calls.
-/

set_option autoImplicit false

namespace CommandGrammar

variable {α σ : Type}

/-! ## Declarations -/

theorem compilePaths_eq_ok {pipeline : Pipeline α} {declaration : Declaration α} {first : Nat}
    {paths : List String} {compiled : List (Command α)}
    (h : Compile.compilePaths pipeline declaration first paths = .ok compiled) :
    (∀ c ∈ compiled, c.Compiled)
      ∧ compiled.map Command.id = (List.range' first compiled.length).map CommandId.mk := by
  induction paths generalizing first compiled with
  | nil =>
    cases h
    exact ⟨by simp, rfl⟩
  | cons path rest ih =>
    rw [Compile.compilePaths] at h
    split at h
    · cases h
    · next c hcompile =>
      split at h
      · cases h
      · next others hothers =>
        cases h
        obtain ⟨_, _, _, _, _, _, _, hid, _⟩ := Compile.compile_eq_ok hcompile
        obtain ⟨hcompiled, hids⟩ := ih hothers
        refine ⟨List.forall_mem_cons.mpr ⟨⟨pipeline, declaration, path, ⟨first⟩, hcompile⟩,
          hcompiled⟩, ?_⟩
        rw [List.map_cons, hid, hids, List.length_cons, List.range'_succ, List.map_cons]

/-- The commands of a declaration have identities of their own, in a row. -/
theorem compileAll_eq_ok {pipeline : Pipeline α} {declaration : Declaration α} {first : Nat}
    {compiled : List (Command α)}
    (h : Compile.compileAll pipeline declaration first = .ok compiled) :
    (∀ c ∈ compiled, c.Compiled)
      ∧ compiled.map Command.id = (List.range' first compiled.length).map CommandId.mk := by
  unfold Compile.compileAll at h
  split at h
  · cases h
  · exact compilePaths_eq_ok h

/-- The identity of a command of a declaration is one of those that are given out next. -/
theorem id_of_mem_compileAll {pipeline : Pipeline α} {declaration : Declaration α} {first : Nat}
    {compiled : List (Command α)}
    (h : Compile.compileAll pipeline declaration first = .ok compiled) {c : Command α}
    (hc : c ∈ compiled) : ∃ k, k < compiled.length ∧ c.id = ⟨first + k⟩ := by
  have hid : c.id ∈ (List.range' first compiled.length).map CommandId.mk :=
    (compileAll_eq_ok h).2 ▸ List.mem_map_of_mem hc
  obtain ⟨n, hn, heq⟩ := List.mem_map.mp hid
  obtain ⟨k, hk, rfl⟩ := List.mem_range'.mp hn
  exact ⟨k, hk, by rw [← heq, Nat.one_mul]⟩

/-- A declaration that cannot be compiled changes nothing, whatever hooks there are. -/
theorem registerDeclaration_of_error {d : Dispatcher α σ} {declaration : Declaration α}
    {s : Session α σ} {e : GrammarError} (h : (d.registerDeclaration declaration s).1 = .error e)
    (hooks : List (Hook α σ)) :
    ({ d with hooks := hooks } : Dispatcher α σ).registerDeclaration declaration s
      = (.error e, s) := by
  unfold Dispatcher.registerDeclaration at h ⊢
  cases hcompile : Compile.compileAll d.pipeline declaration s.nextId with
  | error fault =>
    rw [hcompile] at h
    cases h
    rfl
  | ok compiled =>
    rw [hcompile] at h
    cases h

namespace Dispatcher

/-- The events of registering commands one after another. -/
def offeringEach (d : Dispatcher α σ) :
    List (Command α) → Session α σ → List (RegistryEvent α)
  | [], _ => []
  | c :: rest, s => d.offering c s :: offeringEach d rest (d.register c s).2

/-- The events of registering a declaration. -/
def declaring (d : Dispatcher α σ) (declaration : Declaration α) (s : Session α σ) :
    List (RegistryEvent α) :=
  match Compile.compileAll d.pipeline declaration s.nextId with
  | .error _ => []
  | .ok compiled => d.offeringEach compiled { s with nextId := s.nextId + compiled.length }

variable {d : Dispatcher α σ} {s : Session α σ}

theorem offers_offeringEach (commands : List (Command α)) (s : Session α σ) :
    offers (d.offeringEach commands s) = commands := by
  induction commands generalizing s with
  | nil => rfl
  | cons c rest ih => exact congrArg (c :: ·) (ih (d.register c s).2)

/-- Registering commands gives back those that were accepted. -/
theorem added_offeringEach (commands : List (Command α)) (s : Session α σ) :
    added (d.offeringEach commands s) = (d.registerEach commands s).1 := by
  induction commands generalizing s with
  | nil => rfl
  | cons c rest ih =>
    have hsplit : added (d.offeringEach (c :: rest) s)
        = added [d.offering c s] ++ added (d.offeringEach rest (d.register c s).2) :=
      added_append [d.offering c s] _
    rw [hsplit, ih, offering, added_offered, ← fst_register_toList]
    rfl

/-- What a declaration that can be compiled offers, and what it answers. -/
theorem registerDeclaration_of_ok {declaration : Declaration α} {compiled : List (Command α)}
    (h : Compile.compileAll d.pipeline declaration s.nextId = .ok compiled) :
    offers (d.declaring declaration s) = compiled
      ∧ (d.registerDeclaration declaration s).1 = .ok (added (d.declaring declaration s)) := by
  unfold declaring registerDeclaration
  rw [h]
  exact ⟨offers_offeringEach _ _, congrArg Except.ok (added_offeringEach _ _).symm⟩

end Dispatcher

namespace Reached

variable {d : Dispatcher α σ} {events : List (RegistryEvent α)} {s : Session α σ}

/-- Registering commands with new identities one after another records an offer of each. -/
theorem registerEach (h : Reached d events s) {commands : List (Command α)}
    (hcompiled : ∀ c ∈ commands, c.Compiled) (hids : ∀ c ∈ commands, c.id.number < s.nextId)
    (hnew : ((s.commands ++ commands).map Command.id).Nodup) :
    Reached d (events ++ d.offeringEach commands s) (d.registerEach commands s).2 := by
  induction commands generalizing events s with
  | nil => rwa [Dispatcher.offeringEach, List.append_nil]
  | cons c rest ih =>
    obtain ⟨hc, hrest⟩ := List.forall_mem_cons.mp hcompiled
    obtain ⟨hcId, hrestIds⟩ := List.forall_mem_cons.mp hids
    have hmiddle : ((c :: (s.commands ++ rest)).map Command.id).Nodup :=
      (List.perm_middle.map Command.id).nodup_iff.mp hnew
    have hfresh : c.id ∉ s.commands.map Command.id := by
      have hout := (List.nodup_cons.mp hmiddle).1
      rw [List.map_append, List.mem_append] at hout
      exact fun hmem => hout (.inl hmem)
    have hlater : (((d.register c s).2.commands ++ rest).map Command.id).Nodup := by
      rw [commands_register]
      split
      · have hperm := (perm_insertRanked c s.commands).append_right rest
        exact (hperm.map Command.id).nodup_iff.mpr hmiddle
      · exact (List.nodup_cons.mp hmiddle).2
    have hreached := ih (h.register hc hcId hfresh) hrest
      (fun e he => nextId_register.symm ▸ hrestIds e he) hlater
    rwa [List.append_assoc] at hreached

/-- The commands of a declaration are none of those that are registered, and no two of them are the
same. -/
theorem nodup_compiled (h : Reached d events s) {declaration : Declaration α}
    {compiled : List (Command α)}
    (hcompile : Compile.compileAll d.pipeline declaration s.nextId = .ok compiled) :
    ((s.commands ++ compiled).map Command.id).Nodup := by
  rw [List.map_append]
  refine List.nodup_append.mpr ⟨h.nodup_commands, ?_, ?_⟩
  · rw [(compileAll_eq_ok hcompile).2]
    exact List.Nodup.map (fun a b hab => congrArg CommandId.number hab) List.nodup_range'
  · intro a ha b hb hab
    obtain ⟨c, hc, rfl⟩ := List.mem_map.mp ha
    obtain ⟨e, he, rfl⟩ := List.mem_map.mp hb
    obtain ⟨k, _, hk⟩ := id_of_mem_compileAll hcompile he
    have hlt := h.id_lt hc
    rw [hab, hk] at hlt
    exact Nat.not_lt.mpr (Nat.le_add_right s.nextId k) hlt

/-- Registering a declaration records an offer of each of its commands. -/
theorem registerDeclaration (h : Reached d events s) (declaration : Declaration α) :
    Reached d (events ++ d.declaring declaration s) (d.registerDeclaration declaration s).2 := by
  unfold Dispatcher.declaring Dispatcher.registerDeclaration
  cases hcompile : Compile.compileAll d.pipeline declaration s.nextId with
  | error e => rwa [List.append_nil]
  | ok compiled =>
    have hcounted : Reached d events { s with nextId := s.nextId + compiled.length } :=
      h.elsewhere rfl (Nat.le_add_right _ _)
    have hbelow : ∀ c ∈ compiled, c.id.number < s.nextId + compiled.length := by
      intro c hc
      obtain ⟨k, hk, heq⟩ := id_of_mem_compileAll hcompile hc
      rw [heq]
      exact Nat.add_lt_add_left hk _
    exact hcounted.registerEach (compileAll_eq_ok hcompile).1 hbelow (h.nodup_compiled hcompile)

end Reached

/-! ## Actions -/

namespace Dispatcher

/-- The events of dispatches that an action nests. -/
abbrev NestedEvents (α σ : Type) : Type :=
  Actor → String → Session α σ → List (RegistryEvent α)

/-- The events of the calls that a script makes, those inside its dispatches included. -/
def scriptEvents (d : Dispatcher α σ) (nested : Nested α σ) (inside : NestedEvents α σ) :
    Script α σ → Session α σ → List (RegistryEvent α)
  | .finish _, _ => []
  | .change f next, s => scriptEvents d nested inside next (s.mapHost f)
  | .inspect next, s => scriptEvents d nested inside (next s.standing.host) s
  | .dispatch actor input next, s =>
    inside actor input s ++
      match nested actor input s with
      | none => []
      | some (answer, s) => scriptEvents d nested inside (next answer) s
  | .register declaration next, s =>
    let (result, after) := d.registerDeclaration declaration s
    d.declaring declaration s ++ scriptEvents d nested inside (next result) after
  | .unregister id next, s =>
    let (removed, after) := d.unregister id s
    .removed (fun c => decide (c.id = id)) :: scriptEvents d nested inside (next removed) after
  | .unregisterIf p next, s =>
    let (removed, after) := d.unregisterIf p s
    .removed p :: scriptEvents d nested inside (next removed) after
  | .commands next, s => scriptEvents d nested inside (next s.commands) s

/-- The script of an action and the session in which it begins.  There is none where an ambient
parameter lacks its value. -/
def actionScript? (d : Dispatcher α σ) (serial : Nat) (body : Body α) (c : Context)
    (s : Session α σ) : Option (Script α σ × Session α σ) :=
  match d.resolveAmbients body.ambients c s with
  | (.error _, _, _) => none
  | (.ok (), c, s) =>
    some (d.perform body.action c,
      s.note serial (.invoked c.actor.id c.command.id c.command.metadata.cooldown))

/-- The script of a winner's action and the session in which it begins.  There is none where the
winner is refused or cancelled, or has no action that begins. -/
def winnerScript? (d : Dispatcher α σ) (serial : Nat) (winner : Trial α) (s : Session α σ) :
    Option (Script α σ × Session α σ) :=
  match claimEach serial winner.context [] d.placedConditions s with
  | (.error _, _) => none
  | (.ok (), s) =>
    match askExecuting serial winner.context d.hooks.zipIdx s with
    | (false, _) => none
    | (true, s) =>
      match winner.command.body? with
      | none => none
      | some body => d.actionScript? serial body winner.context s

/-- The script that a dispatch runs and the session in which it begins. -/
def script? (d : Dispatcher α σ) (actor : Actor) (input : String) (s : Session α σ) :
    Option (Script α σ × Session α σ) :=
  match d.tryEach actor input d.settings.cap (s.candidates input) s with
  | none => none
  | some (trials, s) =>
    match Trial.best? trials.successes with
    | none => none
    | some winner =>
      d.winnerScript? s.nextDispatch winner { s with nextDispatch := s.nextDispatch + 1 }

/-- The events of a dispatch whose actions may nest dispatches `depth` deep: those of the script
that it runs. -/
def dispatchEvents (d : Dispatcher α σ) : Nat → NestedEvents α σ
  | 0 => fun _ _ _ => []
  | depth + 1 => fun actor input s =>
    match d.script? actor input s with
    | none => []
    | some (script, begun) => d.scriptEvents (d.dispatch depth) (dispatchEvents d depth) script begun

/-- What happens from `s` to `s'` leaves the registry alone, the script of an action apart, if one
runs. -/
inductive Around (d : Dispatcher α σ) (nested : Nested α σ) (s s' : Session α σ) :
    Option (Script α σ × Session α σ) → Prop where
  | idle (h : s.SameRegistry s') : Around d nested s s' none
  | acts {script : Script α σ} {begun ended : Session α σ} {result : Except ActionError Value}
      (hbefore : s.SameRegistry begun) (hrun : d.runScript nested script begun = some (result, ended))
      (hafter : ended.SameRegistry s') : Around d nested s s' (some (script, begun))

variable {d : Dispatcher α σ} {nested : Nested α σ} {serial : Nat} {winner : Trial α}
  {s s₁ s' : Session α σ} {answer : Answer α} {actor : Actor} {input : String}

theorem Around.prepend {script? : Option (Script α σ × Session α σ)} (hbefore : s.SameRegistry s₁)
    (h : d.Around nested s₁ s' script?) : d.Around nested s s' script? := by
  cases h with
  | idle h => exact .idle (hbefore.trans h)
  | acts hfirst hrun hafter => exact .acts (hbefore.trans hfirst) hrun hafter

theorem Around.append {script? : Option (Script α σ × Session α σ)}
    (h : d.Around nested s s₁ script?) (hafter : s₁.SameRegistry s') :
    d.Around nested s s' script? := by
  cases h with
  | idle h => exact .idle (h.trans hafter)
  | acts hbefore hrun hlast => exact .acts hbefore hrun (hlast.trans hafter)

/-- Up to its first call, an action leaves the registry alone. -/
theorem sameRegistry_actionScript? {body : Body α} {c : Context} {script : Script α σ}
    {begun : Session α σ} (h : d.actionScript? serial body c s = some (script, begun)) :
    s.SameRegistry begun := by
  unfold actionScript? at h
  split at h
  · cases h
  · next hresolve =>
    cases h
    exact (sameRegistry_resolveAmbients hresolve).trans (.note _ _ _)

/-- Up to its action, running a winner leaves the registry alone. -/
theorem sameRegistry_winnerScript? {script : Script α σ} {begun : Session α σ}
    (h : d.winnerScript? serial winner s = some (script, begun)) : s.SameRegistry begun := by
  unfold winnerScript? at h
  split at h
  · cases h
  · next hclaim =>
    have hclaimed := sameRegistry_claimEach hclaim
    split at h
    · cases h
    · next hask =>
      have hasked := hclaimed.trans (sameRegistry_askExecuting hask)
      split at h
      · cases h
      · exact hasked.trans (sameRegistry_actionScript? h)

/-- An action finds the registry as its dispatch has found it. -/
theorem sameRegistry_script? {script : Script α σ} {begun : Session α σ}
    (h : d.script? actor input s = some (script, begun)) : s.SameRegistry begun := by
  unfold script? at h
  split at h
  · cases h
  · next trials tried htry =>
    have htried := sameRegistry_tryEach htry
    split at h
    · cases h
    · have hnumbered : s.SameRegistry { tried with nextDispatch := tried.nextDispatch + 1 } :=
        htried.trans ⟨rfl, rfl⟩
      exact hnumbered.trans (sameRegistry_winnerScript? h)

/-- Invoking an action leaves the registry alone around its script. -/
theorem around_invoke {body : Body α} {c c' : Context} {result : Except ActionError Value}
    (h : d.invoke nested serial body c s = some (result, c', s')) :
    d.Around nested s s' (d.actionScript? serial body c s) := by
  unfold actionScript?
  obtain ⟨_, hresolve, _⟩ | ⟨_, hresolve, hrun⟩ := invoke_cases h
  · rw [hresolve]
    exact .idle (sameRegistry_resolveAmbients hresolve)
  · rw [hresolve]
    exact .acts ((sameRegistry_resolveAmbients hresolve).trans (.note _ _ _)) hrun (.refl _)

/-- Running a winner leaves the registry alone around its action. -/
theorem around_execute (h : d.execute nested serial winner s = some (answer, s')) :
    d.Around nested s s' (d.winnerScript? serial winner s) := by
  unfold execute at h
  unfold winnerScript?
  dsimp only at h ⊢
  cases hclaim : claimEach serial winner.context [] d.placedConditions s with
  | mk claim claimed =>
    have hclaimed := sameRegistry_claimEach hclaim
    rw [hclaim] at h
    cases claim with
    | error e =>
      cases h
      exact .idle hclaimed
    | ok _ =>
      dsimp only at h ⊢
      cases hask : askExecuting serial winner.context d.hooks.zipIdx claimed with
      | mk allowed asked =>
        have hasked := hclaimed.trans (sameRegistry_askExecuting hask)
        rw [hask] at h
        cases allowed with
        | false =>
          cases h
          exact .idle (hasked.trans (sameRegistry_releaseEach _ _))
        | true =>
          dsimp only at h ⊢
          cases hbody : winner.command.body? with
          | none =>
            rw [hbody] at h
            cases h
            exact .idle (hasked.trans (sameRegistry_releaseEach _ _))
          | some body =>
            rw [hbody] at h
            dsimp only at h ⊢
            cases hinvoke : d.invoke nested serial body winner.context asked with
            | none =>
              rw [hinvoke] at h
              cases h
            | some invoked =>
              obtain ⟨result, c, ended⟩ := invoked
              rw [hinvoke] at h
              obtain rfl := congrArg Prod.snd (Option.some.inj h)
              exact ((around_invoke hinvoke).prepend hasked).append
                (sameRegistry_settle winner.command result ended)

/-- Trying candidates and running the winner leaves the registry alone around the script. -/
theorem around_dispatchAmong
    (h : d.dispatchAmong nested (s.candidates input) actor input s = some (answer, s')) :
    d.Around nested s s' (d.script? actor input s) := by
  unfold dispatchAmong at h
  unfold script?
  cases htry : d.tryEach actor input d.settings.cap (s.candidates input) s with
  | none =>
    rw [htry] at h
    cases h
  | some tried =>
    obtain ⟨trials, tried⟩ := tried
    have htried := sameRegistry_tryEach htry
    rw [htry] at h
    dsimp only at h ⊢
    cases hbest : Trial.best? trials.successes with
    | none =>
      rw [hbest] at h
      cases h
      exact .idle (htried.trans (.standing _ _))
    | some winner =>
      rw [hbest] at h
      have hnumbered : s.SameRegistry { tried with nextDispatch := tried.nextDispatch + 1 } :=
        htried.trans ⟨rfl, rfl⟩
      exact (around_execute h).prepend hnumbered

/-- A dispatch leaves the registry alone around the script that it runs. -/
theorem around_dispatch {depth : Nat}
    (h : d.dispatch (depth + 1) actor input s = some (answer, s')) :
    d.Around (d.dispatch depth) s s' (d.script? actor input s) := by
  rw [dispatch] at h
  dsimp only at h
  cases hcandidates : s.candidates input with
  | nil =>
    rw [hcandidates] at h
    cases h
    have hnone : d.script? actor input s = none := by
      unfold script?
      rw [hcandidates]
      cases d.settings.cap <;> rfl
    rw [hnone]
    exact .idle (.standing _ _)
  | cons c rest =>
    have hamong : d.dispatchAmong (d.dispatch depth) (s.candidates input) actor input s
        = some (answer, s') := by
      rw [hcandidates] at h ⊢
      exact h
    exact around_dispatchAmong hamong

end Dispatcher

section Nesting

open Dispatcher (NestedEvents)

variable {d : Dispatcher α σ} {nested : Nested α σ} {inside : NestedEvents α σ}
  {events : List (RegistryEvent α)} {s s' : Session α σ}

theorem Reached.sameRegistry (h : Reached d events s) (hsame : s.SameRegistry s') :
    Reached d events s' :=
  h.elsewhere hsame.commands (Nat.le_of_eq hsame.nextId.symm)

/-- What is recorded of nested dispatches is what happens to the registry in them. -/
def Records (d : Dispatcher α σ) (nested : Nested α σ) (inside : NestedEvents α σ) : Prop :=
  ∀ (actor : Actor) (input : String) (events : List (RegistryEvent α)) (s s' : Session α σ)
    (answer : Answer α), Reached d events s → nested actor input s = some (answer, s') →
    Reached d (events ++ inside actor input s) s'

/-- What is recorded of a script is what happens to the registry in it, if that is so for the
dispatches that it nests. -/
theorem Reached.runScript (hnested : Records d nested inside) {script : Script α σ}
    (h : Reached d events s) {result : Except ActionError Value}
    (hrun : d.runScript nested script s = some (result, s')) :
    Reached d (events ++ d.scriptEvents nested inside script s) s' := by
  induction script generalizing s events with
  | finish result =>
    cases hrun
    rwa [Dispatcher.scriptEvents, List.append_nil]
  | change f next ih => exact ih (h.sameRegistry (.mapHost s f)) hrun
  | inspect next ih => exact ih _ h hrun
  | dispatch actor input next ih =>
    rw [Dispatcher.runScript] at hrun
    rw [Dispatcher.scriptEvents]
    cases hanswer : nested actor input s with
    | none =>
      rw [hanswer] at hrun
      cases hrun
    | some answered =>
      obtain ⟨answer, after⟩ := answered
      rw [hanswer] at hrun
      have hlater := ih answer (hnested actor input events s after answer h hanswer) hrun
      rwa [List.append_assoc] at hlater
  | register declaration next ih =>
    have hlater := ih _ (h.registerDeclaration declaration) hrun
    rwa [List.append_assoc] at hlater
  | unregister id next ih =>
    have hlater := ih _ (h.unregister id) hrun
    rwa [List.append_assoc] at hlater
  | unregisterIf p next ih =>
    have hlater := ih _ (h.unregisterIf p) hrun
    rwa [List.append_assoc] at hlater
  | commands next ih => exact ih _ h hrun

/-- What is recorded of a dispatch is what happens to the registry in it, however deep it nests. -/
theorem records_dispatch (d : Dispatcher α σ) (depth : Nat) :
    Records d (d.dispatch depth) (d.dispatchEvents depth) := by
  induction depth with
  | zero => exact fun _ _ _ _ _ _ _ h => nomatch h
  | succ depth ih =>
    intro actor input events s s' answer h hdispatch
    have haround := Dispatcher.around_dispatch hdispatch
    rw [Dispatcher.dispatchEvents]
    dsimp only
    generalize d.script? actor input s = script? at haround
    cases haround with
    | idle hsame =>
      rw [List.append_nil]
      exact h.sameRegistry hsame
    | acts hbefore hrun hafter =>
      exact ((h.sameRegistry hbefore).runScript ih hrun).sameRegistry hafter

end Nesting

/-! ## The registry -/

/-- What a registry keeps to, whatever calls are made and in whatever order. -/
structure KeepsHistory (d : Dispatcher α σ) : Prop where
  /-- it holds exactly the commands that live, each once, by rank and then by registration -/
  holds : ∀ {events s}, Reached d events s → SamePriorities events → HoldsLiving events s.commands
  /-- a declaration that can be compiled offers each of its commands, and answers those that were
  accepted -/
  answers : ∀ {declaration s compiled},
    Compile.compileAll d.pipeline declaration s.nextId = .ok compiled →
      offers (d.declaring declaration s) = compiled
        ∧ (d.registerDeclaration declaration s).1 = .ok (added (d.declaring declaration s))
  /-- registering it makes the history longer by these offers -/
  declares : ∀ {events s} declaration, Reached d events s →
    Reached d (events ++ d.declaring declaration s) (d.registerDeclaration declaration s).2
  /-- a declaration that cannot be compiled changes nothing and asks no hook -/
  faulty : ∀ {declaration s e}, (d.registerDeclaration declaration s).1 = .error e →
    ∀ hooks : List (Hook α σ), ({ d with hooks := hooks } : Dispatcher α σ).registerDeclaration
      declaration s = (.error e, s)
  /-- an action finds the registry as its dispatch has found it -/
  begins : ∀ {actor input events s script begun}, Reached d events s →
    d.script? actor input s = some (script, begun) → Reached d events begun
  /-- whatever an action does makes the history longer by the calls that it makes -/
  acts : ∀ {depth script events s result s'}, Reached d events s →
    d.runScript (d.dispatch depth) script s = some (result, s') →
      Reached d (events ++ d.scriptEvents (d.dispatch depth) (d.dispatchEvents depth) script s) s'
  /-- and so does a dispatch, by the calls of its action -/
  dispatches : ∀ {depth actor input events s answer s'}, Reached d events s →
    d.dispatch depth actor input s = some (answer, s') →
      Reached d (events ++ d.dispatchEvents depth actor input s) s'
  /-- where no two commands that live have one rank, the order of registration does not show -/
  unordered : ∀ {events events' s s'}, Reached d events s → Reached d events' s' →
    SamePriorities events → SamePriorities events' → (living events).Perm (living events') →
    (living events).Pairwise (fun a b => a.rank b ≠ .eq) → s.commands = s'.commands

/-- Every registry keeps to its history: of the calls of the host and of those that actions make,
the commands that were accepted and not removed since are what it holds, ordered by rank and then
by registration. -/
theorem registry_history (d : Dispatcher α σ) : KeepsHistory d where
  holds h hpriorities := h.holdsLiving hpriorities
  answers hcompile := Dispatcher.registerDeclaration_of_ok hcompile
  declares declaration h := h.registerDeclaration declaration
  faulty h hooks := registerDeclaration_of_error h hooks
  begins h hscript := h.sameRegistry (Dispatcher.sameRegistry_script? hscript)
  acts h hrun := h.runScript (records_dispatch d _) hrun
  dispatches h hdispatch := records_dispatch d _ _ _ _ _ _ _ h hdispatch
  unordered h h' hpriorities hpriorities' hperm hdistinct :=
    commands_eq_of_perm_living h h' hpriorities hpriorities' hperm hdistinct

/-! ## A registry with a history -/

/-- `home`, `warp`, `spawn` and `home again`, all without parameters. -/
def places : Declaration Unit := ⟨["home", "warp", "spawn", "home again"], [], (), .none⟩

/-- A dispatcher with a hook that objects to `mute`.  Its actions try to register `mute`, and then
remove `spawn`. -/
def travel : Dispatcher Unit Unit :=
  { Dispatcher.bare Unit Unit .standard with
    hooks := [⟨fun c host => (c.name != "mute", host), fun _ host => host,
      fun _ host => (true, host)⟩]
    perform := fun _ _ =>
      .register (.ofPath "mute" ()) fun _ =>
        .unregisterIf (fun c => c.name == "spawn") fun _ => .finish (.ok .nil) }

/-- A session in which `places` has been registered. -/
def travelling : Session Unit Unit := (travel.registerDeclaration places (.start ⟨0⟩ ())).2

/-- What has happened to the registry once `home` has been dispatched. -/
def travelled : List (RegistryEvent Unit) :=
  travel.declaring places (.start ⟨0⟩ ()) ++ travel.dispatchEvents 1 default "home" travelling

/-- The longest command stands first, two of one rank stand as they were registered, what a hook
objects to is not there, and what an action removes is gone. -/
theorem holdsLiving_travelled :
    (offers travelled).map Command.path = ["home", "warp", "spawn", "home again", "mute"]
      ∧ (living travelled).map Command.path = ["home", "warp", "home again"]
      ∧ ∃ answer s, travel.dispatch 1 default "home" travelling = some (.ok answer, s)
        ∧ s.commands.map Command.path = ["home again", "home", "warp"]
        ∧ HoldsLiving travelled s.commands := by
  obtain ⟨answer, s, hdispatch, hpaths⟩ : ∃ answer s,
      travel.dispatch 1 default "home" travelling = some (.ok answer, s)
        ∧ s.commands.map Command.path = ["home again", "home", "warp"] := ⟨_, _, rfl, rfl⟩
  have hkeeps := registry_history travel
  have hdeclared : Reached travel _ travelling := hkeeps.declares places (.start ⟨0⟩ ())
  have hpriorities : SamePriorities travelled := by
    have hnone : (added travelled).map (fun c => c.metadata.priority) = [none, none, none, none] :=
      rfl
    refine .inr fun c hc => ?_
    have hpriority := List.mem_map_of_mem (f := fun c => c.metadata.priority) hc
    rw [hnone] at hpriority
    simp only [List.mem_cons, List.not_mem_nil, or_false, or_self] at hpriority
    rw [hpriority]
    rfl
  refine ⟨rfl, rfl, answer, s, hdispatch, hpaths, ?_⟩
  exact hkeeps.holds (hkeeps.dispatches hdeclared hdispatch) hpriorities

end CommandGrammar
