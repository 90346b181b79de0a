import CommandGrammar.Proofs.Session.Calls

/-!
# The course of a dispatch

A dispatch that has chosen a winner takes one of five courses: a condition refuses the winner; it is
cancelled, by a hook or because it has no action; an ambient parameter cannot be resolved; its
action fails; or its action ends well.  What an action does in between is a script, which may
dispatch again, so what every course of a dispatch preserves is preserved by every dispatch.
-/

set_option autoImplicit false

namespace CommandGrammar

variable {α σ : Type}

/-- What a dispatch notes of its winner, from first to last. -/
structure Outline where
  /-- how many conditions are claimed -/
  claimed : Nat
  /-- the condition that refuses the winner -/
  refused : Option Nat
  /-- what the hooks answer -/
  answers : List Bool
  /-- whose action is invoked, and with which cooldown -/
  invoked : Option (ActorId × CommandId × Option Duration)
  /-- whether the invocation ends well, if there is one -/
  ended : Option Bool
  /-- whether the response is handed on -/
  responded : Bool

namespace Outline

open Happening

/-- A condition refuses the winner. -/
def refusedAt (k : Nat) : Outline := ⟨k, some k, [], none, none, false⟩

/-- The winner is cancelled before its invocation. -/
def cancelled (conditions : Nat) (answers : List Bool) : Outline :=
  ⟨conditions, none, answers, none, none, false⟩

/-- The invocation fails, before or while the action runs. -/
def failed (conditions hooks : Nat) (invoked : Option (ActorId × CommandId × Option Duration)) :
    Outline :=
  ⟨conditions, none, List.replicate hooks true, invoked, some false, false⟩

/-- The action ends well. -/
def well (conditions hooks : Nat) (invoked : ActorId × CommandId × Option Duration)
    (responded : Bool) : Outline :=
  ⟨conditions, none, List.replicate hooks true, some invoked, some true, responded⟩

/-- The invocation of the action. -/
def invocation (o : Outline) : List Happening :=
  o.invoked.toList.map fun i => .invoked i.1 i.2.1 i.2.2

/-- What is claimed is settled. -/
def settlement (o : Outline) : List Happening :=
  if o.ended = some true then confirms o.claimed else releases o.claimed

/-- What the handlers hear. -/
def echo (o : Outline) : List Happening :=
  match o.ended with
  | none => []
  | some false => [.excepted]
  | some true => if o.responded then [.responded] else []

/-- All that is noted. -/
def happenings (o : Outline) : List Happening :=
  claims o.claimed ++ (o.refused.toList.map .refused ++ (asks o.answers ++ (o.invocation
    ++ (o.ended.toList.map .ended ++ (o.settlement ++ o.echo)))))

theorem happenings_refusedAt (k : Nat) :
    (refusedAt k).happenings = claims k ++ .refused k :: releases k := by
  simp [happenings, refusedAt, invocation, settlement, echo, asks, asksFrom]

theorem happenings_cancelled (conditions : Nat) (answers : List Bool) :
    (cancelled conditions answers).happenings
      = claims conditions ++ asks answers ++ releases conditions := by
  simp [happenings, cancelled, invocation, settlement, echo]

theorem happenings_failed (conditions hooks : Nat)
    (invoked : Option (ActorId × CommandId × Option Duration)) :
    (failed conditions hooks invoked).happenings
      = (claims conditions ++ asks (List.replicate hooks true)
          ++ invoked.toList.map fun i => .invoked i.1 i.2.1 i.2.2)
        ++ (.ended false :: releases conditions ++ [.excepted]) := by
  simp [happenings, failed, invocation, settlement, echo]

theorem happenings_well (conditions hooks : Nat)
    (invoked : ActorId × CommandId × Option Duration) (responded : Bool) :
    (well conditions hooks invoked responded).happenings
      = (claims conditions ++ asks (List.replicate hooks true)
          ++ [.invoked invoked.1 invoked.2.1 invoked.2.2])
        ++ (.ended true :: confirms conditions ++ if responded then [.responded] else []) := by
  cases responded <;> simp [happenings, well, invocation, settlement, echo]

end Outline

/-- The session once a dispatch has taken its number. -/
def Session.numbered (s : Session α σ) : Session α σ :=
  { s with nextDispatch := s.nextDispatch + 1 }

@[simp] theorem Session.numbered_journal (s : Session α σ) : s.numbered.journal = s.journal := rfl

@[simp] theorem Session.numbered_nextDispatch (s : Session α σ) :
    s.numbered.nextDispatch = s.nextDispatch + 1 := rfl

namespace Dispatcher

open Happening

/-- The candidates of a line are tried, and the best of those that fit is the winner. -/
def Chooses (d : Dispatcher α σ) (actor : Actor) (input : String) (s : Session α σ)
    (winner : Trial α) (s' : Session α σ) : Prop :=
  ∃ trials, d.tryEach actor input d.settings.cap (s.candidates input) s = some (trials, s')
    ∧ Trial.best? trials.successes = some winner

/-- A winner with an action has claimed every condition, and no hook objects. -/
structure Clears (d : Dispatcher α σ) (n : Nat) (winner : Trial α) (s : Session α σ)
    (body : Body α) (s' : Session α σ) : Prop where
  calls : d.Calls n winner.context
    (claims d.conditions.length ++ asks (List.replicate d.hooks.length true)) s s'
  body : winner.command.body? = some body

/-- The note that an action is invoked. -/
def invocation (c : Context) : ActorId × CommandId × Option Duration :=
  (c.actor.id, c.command.id, c.command.metadata.cooldown)

/-- The action of a winner begins: its ambient parameters are resolved, and its invocation is
noted. -/
inductive Begins (d : Dispatcher α σ) (n : Nat) (winner : Trial α) (s : Session α σ) :
    Body α → Context → Session α σ → Prop where
  | intro {body : Body α} {c : Context} {cleared resolved : Session α σ}
      (hclears : d.Clears n winner s body cleared)
      (hresolve : d.resolveAmbients body.ambients winner.context cleared = (.ok (), c, resolved)) :
      Begins d n winner s body c
        (resolved.note n (.invoked c.actor.id c.command.id c.command.metadata.cooldown))

/-- How a dispatch goes for its winner: what is noted, what is answered, and the session at the
end. -/
inductive Course (d : Dispatcher α σ) (nested : Nested α σ) (n : Nat) (winner : Trial α)
    (s : Session α σ) : Outline → Answer α → Session α σ → Prop where
  | refused {k : Nat} {e : CommandError} {s' : Session α σ} (hplace : k < d.conditions.length)
      (hcalls : d.Calls n winner.context (claims k ++ .refused k :: releases k) s s') :
      Course d nested n winner s (.refusedAt k) (.error (.failed e)) s'
  | cancelled {answers : List Bool} {e : DispatchError} {s' : Session α σ}
      (hlength : answers.length = d.hooks.length)
      (hheld : false ∈ answers ∨ winner.command.body? = none)
      (hcalls : d.Calls n winner.context (claims d.conditions.length ++ asks answers
        ++ releases d.conditions.length) s s') :
      Course d nested n winner s (.cancelled d.conditions.length answers) (.error e) s'
  | unresolved {body : Body α} {c : Context} {e : CommandError}
      {cleared resolved settled : Session α σ} (hclears : d.Clears n winner s body cleared)
      (hresolve : d.resolveAmbients body.ambients winner.context cleared
        = (.error e, c, resolved))
      (hsettle : d.Calls n c (releases d.conditions.length) (resolved.note n (.ended false))
        settled) :
      Course d nested n winner s (.failed d.conditions.length d.hooks.length none)
        (.error (.action c.command.path (.command e)))
        ((settled.mapHost (d.handlers.exception c (.command e))).note n .excepted)
  | failed {body : Body α} {c : Context} {e : ActionError} {begun ended settled : Session α σ}
      (hbegins : d.Begins n winner s body c begun)
      (hrun : d.runScript nested (d.perform body.action c) begun = some (.error e, ended))
      (hsettle : d.Calls n c (releases d.conditions.length) (ended.note n (.ended false))
        settled) :
      Course d nested n winner s
        (.failed d.conditions.length d.hooks.length (some (invocation c)))
        (.error (.action c.command.path e))
        ((settled.mapHost (d.handlers.exception c e)).note n .excepted)
  | well {body : Body α} {c : Context} {response : Value} {begun ended settled : Session α σ}
      (hbegins : d.Begins n winner s body c begun)
      (hrun : d.runScript nested (d.perform body.action c) begun = some (.ok response, ended))
      (hsettle : d.Calls n c (confirms d.conditions.length) (ended.note n (.ended true))
        settled) :
      Course d nested n winner s
        (.well d.conditions.length d.hooks.length (invocation c) (!response.isNil))
        (.ok ⟨winner.command, c.arguments, response⟩) (d.respond n c response settled)

variable {d : Dispatcher α σ} {nested : Nested α σ} {n : Nat} {winner : Trial α}
  {s s' : Session α σ} {answer : Answer α} {actor : Actor} {input : String}

/-! ## Every dispatch takes a course -/

theorem Chooses.hostOnly (h : d.Chooses actor input s winner s') : s.HostOnly s' :=
  let ⟨_, htry, _⟩ := h
  hostOnly_tryEach htry

/-- Resolving ambient parameters binds arguments and changes nothing else of the context. -/
theorem resolveAmbients_context {ambients : List (Parameter × Ambient α)} {c c' : Context}
    {result : Except CommandError Unit}
    (h : d.resolveAmbients ambients c s = (result, c', s')) :
    c'.actor = c.actor ∧ c'.command = c.command ∧ c'.input = c.input := by
  induction ambients generalizing c s with
  | nil =>
    cases h
    exact ⟨rfl, rfl, rfl⟩
  | cons ambient rest ih =>
    rw [resolveAmbients] at h
    split at h
    · cases h
      exact ⟨rfl, rfl, rfl⟩
    · have hrest := ih h
      exact hrest

/-- An invocation fails at an ambient parameter, or runs the action. -/
theorem invoke_cases {body : Body α} {c c' : Context} {result : Except ActionError Value}
    (h : d.invoke nested n body c s = some (result, c', s')) :
    (∃ e, d.resolveAmbients body.ambients c s = (.error e, c', s') ∧ result = .error (.command e))
      ∨ ∃ resolved, d.resolveAmbients body.ambients c s = (.ok (), c', resolved)
        ∧ d.runScript nested (d.perform body.action c') (resolved.note n
          (.invoked c'.actor.id c'.command.id c'.command.metadata.cooldown))
            = some (result, s') := by
  unfold invoke at h
  split at h
  · next hresolve =>
    cases h
    exact .inl ⟨_, hresolve, rfl⟩
  · next hresolve =>
    dsimp only at h
    split at h
    · cases h
    · next hrun =>
      cases h
      exact .inr ⟨_, hresolve, hrun⟩

/-- Running a winner takes one of the courses. -/
theorem course_of_execute (h : d.execute nested n winner s = some (answer, s')) :
    ∃ o, d.Course nested n winner s o answer s' := by
  unfold execute at h
  dsimp only at h
  split at h
  · next hclaim =>
    cases h
    obtain ⟨k, hplace, hcalls⟩ := calls_claim_error hclaim
    exact ⟨_, .refused hplace hcalls⟩
  · next hclaim =>
    have hclaims := calls_claim_ok hclaim
    split at h
    · next hask =>
      cases h
      obtain ⟨answers, hlength, hall, hasks⟩ := calls_ask hask
      have hveto : false ∈ answers := by simpa using hall.symm
      exact ⟨_, .cancelled hlength (.inl hveto) ((hclaims.append hasks).append (calls_release _))⟩
    · next hask =>
      obtain ⟨answers, hlength, hall, hasks⟩ := calls_ask hask
      split at h
      · next hbody =>
        cases h
        exact ⟨_, .cancelled hlength (.inr hbody)
          ((hclaims.append hasks).append (calls_release _))⟩
      · next body hbody =>
        have hconsent : answers = List.replicate d.hooks.length true :=
          List.eq_replicate_iff.mpr ⟨hlength, by simpa using hall.symm⟩
        rw [hconsent] at hasks
        have hclears : d.Clears n winner s body _ := ⟨hclaims.append hasks, hbody⟩
        split at h
        · cases h
        · next result _ _ hinvoke =>
          obtain ⟨e, hresolve, rfl⟩ | ⟨resolved, hresolve, hrun⟩ := invoke_cases hinvoke
          · cases h
            exact ⟨_, .unresolved hclears hresolve (calls_release _)⟩
          · cases result with
            | error e =>
              cases h
              exact ⟨_, .failed ⟨hclears, hresolve⟩ hrun (calls_release _)⟩
            | ok response =>
              cases h
              exact ⟨_, .well ⟨hclears, hresolve⟩ hrun (calls_confirm _)⟩

/-- A dispatch without a winner changes the state of the host at most, and one with a winner takes
one of the courses. -/
theorem dispatch_cases {depth : Nat}
    (h : d.dispatch (depth + 1) actor input s = some (answer, s')) :
    (s.HostOnly s' ∧ ∃ e, answer = .error e)
      ∨ ∃ winner s₁ o, d.Chooses actor input s winner s₁
        ∧ d.Course (d.dispatch depth) s.nextDispatch winner s₁.numbered o answer s' := by
  rw [dispatch] at h
  dsimp only at h
  split at h
  · cases h
    exact .inl ⟨⟨_, rfl⟩, _, rfl⟩
  · unfold dispatchAmong at h
    split at h
    · cases h
    · next trials tried htry =>
      split at h
      · cases h
        exact .inl ⟨(hostOnly_tryEach htry).trans ⟨_, rfl⟩, _, rfl⟩
      · next winner hbest =>
        obtain ⟨o, hcourse⟩ : ∃ o, d.Course (d.dispatch depth) tried.nextDispatch winner
            tried.numbered o answer s' := course_of_execute h
        rw [(hostOnly_tryEach htry).sameRecord.nextDispatch] at hcourse
        exact .inr ⟨winner, tried, o, ⟨trials, htry, hbest⟩, hcourse⟩

/-! ## What every course preserves -/

section Induction

variable {R : Session α σ → Session α σ → Prop}

/-- What the dispatches of a script preserve, the script preserves. -/
theorem runScript_induction (hsame : ∀ s s', s.SameRecord s' → R s s')
    (htrans : ∀ s s' s'', R s s' → R s' s'' → R s s'')
    (hnested : ∀ actor input s answer s', nested actor input s = some (answer, s') → R s s')
    {script : Script α σ} {result : Except ActionError Value}
    (h : d.runScript nested script s = some (result, s')) : R s s' := by
  induction script generalizing s with
  | finish result =>
    cases h
    exact hsame _ _ (.refl _)
  | change f next ih => exact htrans _ _ _ (hsame _ _ (.mapHost s f)) (ih h)
  | inspect next ih => exact ih s.standing.host h
  | dispatch actor input next ih =>
    rw [runScript] at h
    split at h
    · cases h
    · next hdispatch => exact htrans _ _ _ (hnested _ _ _ _ _ hdispatch) (ih _ h)
  | register declaration next ih =>
    exact htrans _ _ _ (hsame _ _ (sameRecord_registerDeclaration declaration s)) (ih _ h)
  | unregister id next ih =>
    exact htrans _ _ _ (hsame _ _ (sameRecord_unregister id s)) (ih _ h)
  | unregisterIf p next ih =>
    exact htrans _ _ _ (hsame _ _ (sameRecord_unregisterIf p s)) (ih _ h)
  | commands next ih => exact ih s.commands h

/-- What every course of a dispatch preserves, given that the scripts in it do, every dispatch
preserves, however deep its nesting. -/
theorem dispatch_induction (hsame : ∀ s s', s.SameRecord s' → R s s')
    (htrans : ∀ s s' s'', R s s' → R s' s'' → R s s'')
    (hcourse : ∀ depth,
      (∀ script s result s', d.runScript (d.dispatch depth) script s = some (result, s') →
        R s s') →
      ∀ actor input s winner s₁ o answer s',
        d.dispatch (depth + 1) actor input s = some (answer, s') →
        d.Chooses actor input s winner s₁ →
        d.Course (d.dispatch depth) s.nextDispatch winner s₁.numbered o answer s' → R s s')
    (depth : Nat) (actor : Actor) (input : String) (s : Session α σ) (answer : Answer α)
    (s' : Session α σ) (h : d.dispatch depth actor input s = some (answer, s')) : R s s' := by
  induction depth generalizing actor input s answer s' with
  | zero => cases h
  | succ depth ih =>
    obtain ⟨hhost, _⟩ | ⟨winner, s₁, o, hchooses, hgoes⟩ := dispatch_cases h
    · exact hsame _ _ hhost.sameRecord
    · refine hcourse depth ?_ actor input s winner s₁ o answer s' h hchooses hgoes
      intro script s result s' hrun
      exact runScript_induction hsame htrans ih hrun

end Induction

/-! ## What a course notes -/

theorem respond_journal (c : Context) (response : Value) (s : Session α σ) :
    (d.respond n c response s).journal
      = s.journal ++ entriesOf n (if !response.isNil then [.responded] else []) := by
  unfold respond
  cases response.isNil with
  | true => exact (List.append_nil _).symm
  | false => rfl

theorem respond_nextDispatch (c : Context) (response : Value) (s : Session α σ) :
    (d.respond n c response s).nextDispatch = s.nextDispatch := by
  unfold respond
  split <;> rfl

theorem Begins.journal {body : Body α} {c : Context} {begun : Session α σ}
    (h : d.Begins n winner s body c begun) :
    begun.journal = s.journal ++ entriesOf n (claims d.conditions.length
      ++ asks (List.replicate d.hooks.length true)
      ++ [.invoked c.actor.id c.command.id c.command.metadata.cooldown]) := by
  cases h with
  | intro hclears hresolve =>
    rw [Session.note_journal, (hostOnly_resolveAmbients hresolve).sameRecord.journal,
      hclears.calls.journal, List.append_assoc, entriesOf_append n (_ ++ _)]
    rfl

theorem Begins.nextDispatch {body : Body α} {c : Context} {begun : Session α σ}
    (h : d.Begins n winner s body c begun) : begun.nextDispatch = s.nextDispatch := by
  cases h with
  | intro hclears hresolve =>
    exact (hostOnly_resolveAmbients hresolve).sameRecord.nextDispatch.trans
      hclears.calls.nextDispatch

/-- The end of an invocation is noted, then the calls that settle it, then what the handlers
hear. -/
theorem journal_settled {c : Context} {well : Bool} {hs echo : List Happening}
    {ended settled : Session α σ} (hsettle : d.Calls n c hs (ended.note n (.ended well)) settled)
    (hecho : s'.journal = settled.journal ++ entriesOf n echo) :
    s'.journal = ended.journal ++ entriesOf n (.ended well :: hs ++ echo) := by
  rw [hecho, hsettle.journal, Session.note_journal]
  simp [entriesOf]

theorem journal_excepted {c : Context} (e : ActionError) {hs : List Happening}
    {ended settled : Session α σ}
    (hsettle : d.Calls n c hs (ended.note n (.ended false)) settled) :
    ((settled.mapHost (d.handlers.exception c e)).note n .excepted).journal
      = ended.journal ++ entriesOf n (.ended false :: hs ++ [.excepted]) :=
  journal_settled hsettle rfl

theorem journal_responded {c : Context} (response : Value) {hs : List Happening}
    {ended settled : Session α σ}
    (hsettle : d.Calls n c hs (ended.note n (.ended true)) settled) :
    (d.respond n c response settled).journal = ended.journal
      ++ entriesOf n (.ended true :: hs ++ if !response.isNil then [.responded] else []) :=
  journal_settled hsettle (respond_journal c response settled)

/-- What a course notes as invoked is an action that ran. -/
theorem Course.ran {o : Outline} {invoked : ActorId × CommandId × Option Duration}
    (h : d.Course nested n winner s o answer s') (hinvoked : o.invoked = some invoked) :
    ∃ body c begun result ended, invoked = invocation c ∧ d.Begins n winner s body c begun
      ∧ d.runScript nested (d.perform body.action c) begun = some (result, ended)
      ∧ ended.journal <+: s'.journal := by
  cases h with
  | refused hplace hcalls => cases hinvoked
  | cancelled hlength hheld hcalls => cases hinvoked
  | unresolved hclears hresolve hsettle => cases hinvoked
  | failed hbegins hrun hsettle =>
    cases hinvoked
    exact ⟨_, _, _, _, _, rfl, hbegins, hrun,
      journal_excepted _ hsettle ▸ List.prefix_append _ _⟩
  | well hbegins hrun hsettle =>
    cases hinvoked
    exact ⟨_, _, _, _, _, rfl, hbegins, hrun,
      journal_responded _ hsettle ▸ List.prefix_append _ _⟩

/-- What a course notes falls into two parts, with the action of the winner between them. -/
theorem Course.frame {R : Session α σ → Session α σ → Prop} {o : Outline} (hrefl : ∀ s, R s s)
    (hscript : ∀ script s result s', d.runScript nested script s = some (result, s') → R s s')
    (h : d.Course nested n winner s o answer s') :
    ∃ opening closing begun ended, o.happenings = opening ++ closing
      ∧ begun.journal = s.journal ++ entriesOf n opening
      ∧ begun.nextDispatch = s.nextDispatch
      ∧ R begun ended
      ∧ s'.journal = ended.journal ++ entriesOf n closing
      ∧ s'.nextDispatch = ended.nextDispatch := by
  cases h with
  | refused hplace hcalls =>
    rw [Outline.happenings_refusedAt]
    exact ⟨_, [], s', s', (List.append_nil _).symm, hcalls.journal, hcalls.nextDispatch, hrefl s',
      (List.append_nil _).symm, rfl⟩
  | cancelled hlength hheld hcalls =>
    rw [Outline.happenings_cancelled]
    exact ⟨_, [], s', s', (List.append_nil _).symm, hcalls.journal, hcalls.nextDispatch, hrefl s',
      (List.append_nil _).symm, rfl⟩
  | @unresolved _ _ _ _ resolved _ hclears hresolve hsettle =>
    have hhost := (hostOnly_resolveAmbients hresolve).sameRecord
    rw [Outline.happenings_failed]
    refine ⟨_, _, resolved, resolved, rfl, ?_, ?_, hrefl _, journal_excepted _ hsettle,
      hsettle.nextDispatch⟩
    · rw [hhost.journal, hclears.calls.journal]
      exact congrArg _ (congrArg _ (List.append_nil _).symm)
    · rw [hhost.nextDispatch, hclears.calls.nextDispatch]
  | failed hbegins hrun hsettle =>
    rw [Outline.happenings_failed]
    exact ⟨_, _, _, _, rfl, hbegins.journal, hbegins.nextDispatch, hscript _ _ _ _ hrun,
      journal_excepted _ hsettle, hsettle.nextDispatch⟩
  | well hbegins hrun hsettle =>
    rw [Outline.happenings_well]
    refine ⟨_, _, _, _, rfl, hbegins.journal, hbegins.nextDispatch, hscript _ _ _ _ hrun,
      journal_responded _ hsettle, ?_⟩
    rw [respond_nextDispatch]
    exact hsettle.nextDispatch

end Dispatcher

end CommandGrammar
