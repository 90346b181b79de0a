import CommandGrammar.Proofs.Command.Crossing
import CommandGrammar.Proofs.Session.Frame
import CommandGrammar.Proofs.Trial.Acceptance
import Mathlib.Logic.Relation

/-!
# Commands that a line does not call

A registry in which priorities are mixed need not be in the order of its ranks, so where a command
is put depends on all the others.  The others still stay in the order that they have, whatever is
put between them and whatever is taken away.  So the candidates of a line stay the same as long as
only commands of other first words come and go, and a dispatch comes to the same winner or the same
error.

What a hook does to the state of the host is its own matter: two sessions are compared with the
clock, the ledgers and the state of the host in the same place.
-/

set_option autoImplicit false

namespace CommandGrammar

variable {α σ : Type}

/-! ## The others keep their order -/

section Order

variable {c : Command α} {commands : List (Command α)} {p q : Command α → Bool}

/-- What is left out by a filter may be put anywhere. -/
theorem filter_insertRanked_of_neg (h : p c = false) (commands : List (Command α)) :
    (insertRanked c commands).filter p = commands.filter p := by
  have hc : ¬ p c = true := by simp [h]
  induction commands with
  | nil => exact List.filter_cons_of_neg hc
  | cons d rest ih =>
    rw [insertRanked]
    split
    · exact List.filter_cons_of_neg hc
    · rw [List.filter_cons, List.filter_cons, ih]

/-- What is left out by a filter may be taken away. -/
theorem filter_eraseP_of_neg (h : ∀ c ∈ commands.find? q, p c = false) :
    (commands.eraseP q).filter p = commands.filter p := by
  induction commands with
  | nil => rfl
  | cons d rest ih =>
    cases hd : q d with
    | true =>
      rw [List.find?_cons_of_pos hd] at h
      rw [List.eraseP_cons_of_pos hd, List.filter_cons_of_neg (by simp [h d rfl])]
    | false =>
      rw [List.find?_cons_of_neg (by simp [hd])] at h
      rw [List.eraseP_cons_of_neg (by simp [hd]), List.filter_cons, List.filter_cons, ih h]

theorem filter_filter_of_neg (h : ∀ c ∈ commands, q c = true → p c = false) :
    (commands.filter fun c => !q c).filter p = commands.filter p := by
  rw [List.filter_filter]
  refine List.filter_congr fun c hc => ?_
  cases hq : q c with
  | true => simp [h c hc hq]
  | false => simp

end Order

/-! ## The same course -/

/-- A line does not begin with the first word of the command. -/
def Command.UnrelatedTo (c : Command α) (input : String) : Prop :=
  ∀ word ∈ Text.leadingWord? input.toList, Text.sameFolded c.name.toList word = false

/-- The candidates are the same where the commands of other first words make no difference. -/
theorem Session.candidates_eq {s s' : Session α σ} {input : String}
    (h : ∀ p : Command α → Bool, (∀ c : Command α, c.UnrelatedTo input → p c = false) →
      s'.commands.filter p = s.commands.filter p) :
    s'.candidates input = s.candidates input := by
  unfold Session.candidates
  cases hword : Text.leadingWord? input.toList with
  | none => rfl
  | some word => exact h _ fun c hc => hc word hword

namespace Dispatcher

variable {d : Dispatcher α σ} {actor : Actor} {input : String} {s s' : Session α σ}

/-- What a dispatch comes to before anything runs: the trial of the winner, or the error that it
answers, and where clock, ledgers and host then stand. -/
def choice (d : Dispatcher α σ) (actor : Actor) (input : String) (s : Session α σ) :
    Option (Except DispatchError (Trial α) × Standing σ) :=
  match s.candidates input with
  | [] =>
    let (e, host) := d.handlers.unknown actor input s.standing.host
    some (.error (.unknownCommand e), { s.standing with host := host })
  | candidates =>
    match d.tryEach actor input d.settings.cap candidates s with
    | none => none
    | some (trials, after) =>
      match Trial.best? trials.successes with
      | none =>
        let (e, host) := d.handlers.failures actor input trials.failures after.standing.host
        some (.error (.failed e), { after.standing with host := host })
      | some winner => some (.ok winner, after.standing)

/-- A dispatch runs what it chooses. -/
theorem dispatch_eq_choice (depth : Nat) (s : Session α σ) :
    d.dispatch (depth + 1) actor input s = match d.choice actor input s with
      | none => none
      | some (.error e, standing) => some (.error e, { s with standing := standing })
      | some (.ok winner, standing) => d.execute (d.dispatch depth) s.nextDispatch winner
          { s with standing := standing, nextDispatch := s.nextDispatch + 1 } := by
  rw [dispatch, choice]
  dsimp only
  cases hcandidates : s.candidates input with
  | nil => rfl
  | cons c rest =>
    dsimp only
    unfold dispatchAmong
    cases htry : d.tryEach actor input d.settings.cap (c :: rest) s with
    | none => rfl
    | some r =>
      obtain ⟨trials, after⟩ := r
      obtain ⟨host, rfl⟩ := hostOnly_tryEach htry
      dsimp only
      cases Trial.best? trials.successes <;> rfl

/-- A line of an actor comes to the same in two sessions, wherever clock, ledgers and host stand:
the candidates are the same in the same order, each command is tried alike, and a dispatch chooses
the same winner or answers the same error. -/
structure SameCourse (d : Dispatcher α σ) (actor : Actor) (input : String)
    (s s' : Session α σ) : Prop where
  candidates : s'.candidates input = s.candidates input
  trials : ∀ (c : Command α) (standing : Standing σ),
    (d.test c actor input { s' with standing := standing }).map Prod.fst
      = (d.test c actor input { s with standing := standing }).map Prod.fst
  choice : ∀ standing : Standing σ,
    d.choice actor input { s' with standing := standing }
      = d.choice actor input { s with standing := standing }

/-! ## Trials look at clock, ledgers and host -/

/-- A trial and where clock, ledgers and host stand after it. -/
def outcome {β : Type} (r : Option (β × Session α σ)) : Option (β × Standing σ) :=
  r.map fun r => (r.1, r.2.standing)

theorem outcome_test (d : Dispatcher α σ) (actor : Actor) (input : String) (c : Command α)
    (h : s'.standing = s.standing) :
    outcome (d.test c actor input s') = outcome (d.test c actor input s) := by
  unfold test
  cases Reading.ofInput d.settings c actor input with
  | none => rfl
  | some reading =>
    dsimp only [absorbAll, Session.mapHost]
    rw [h]
    cases reading.result with
    | error e => rfl
    | ok rest =>
      dsimp only
      split <;> rfl

/-- Two calls with one outcome both fail, or give the same and leave the same standing. -/
theorem outcome_eq_cases {β : Type} {r r' : Option (β × Session α σ)} (h : outcome r' = outcome r) :
    (r' = none ∧ r = none)
      ∨ ∃ b after after', r' = some (b, after') ∧ r = some (b, after)
        ∧ after'.standing = after.standing := by
  cases r with
  | none => exact .inl ⟨Option.map_eq_none_iff.mp h, rfl⟩
  | some found =>
    obtain ⟨found', hr, hsame⟩ := Option.map_eq_some_iff.mp h
    obtain ⟨hfirst, hstanding⟩ := Prod.mk.inj hsame
    refine .inr ⟨found.1, found.2, found'.2, ?_, rfl, hstanding⟩
    rw [hr, ← hfirst]

theorem outcome_tryEach (d : Dispatcher α σ) (actor : Actor) (input : String)
    (commands : List (Command α)) (missing : Nat) (h : s'.standing = s.standing) :
    outcome (d.tryEach actor input missing commands s')
      = outcome (d.tryEach actor input missing commands s) := by
  induction commands generalizing missing s s' with
  | nil => cases missing <;> simp [tryEach, outcome, h]
  | cons c rest ih =>
    cases missing with
    | zero => simp [tryEach, outcome, h]
    | succ missing =>
      rw [tryEach, tryEach]
      -- after the first trial the sessions stand alike again, so the later trials go alike
      rcases outcome_eq_cases (outcome_test d actor input c h) with
        ⟨htest', htest⟩ | ⟨trial, after, after', htest', htest, hafter⟩
      · rw [htest', htest]
      · rw [htest', htest]
        dsimp only
        split
        · rcases outcome_eq_cases (ih missing hafter) with
            ⟨hlater', hlater⟩ | ⟨later, last, last', hlater', hlater, hlast⟩
          · rw [hlater', hlater]
          · rw [hlater', hlater]
            simp [outcome, hlast]
        · rcases outcome_eq_cases (ih (missing + 1) hafter) with
            ⟨hlater', hlater⟩ | ⟨later, last, last', hlater', hlater, hlast⟩
          · rw [hlater', hlater]
          · rw [hlater', hlater]
            simp [outcome, hlast]

/-- What a dispatch chooses depends on the candidates, and on clock, ledgers and host. -/
theorem choice_eq (hcandidates : s'.candidates input = s.candidates input)
    (h : s'.standing = s.standing) : d.choice actor input s' = d.choice actor input s := by
  rw [choice, choice, hcandidates, h]
  split
  · rfl
  · have htries := outcome_tryEach d actor input (s.candidates input) d.settings.cap h
    rcases outcome_eq_cases htries with
      ⟨htry', htry⟩ | ⟨trials, after, after', htry', htry, hafter⟩
    · rw [htry', htry]
    · rw [htry', htry]
      dsimp only
      rw [hafter]

/-- Sessions with the same candidates do the same with the line. -/
theorem sameCourse_of_candidates (hcandidates : s'.candidates input = s.candidates input) :
    d.SameCourse actor input s s' where
  candidates := hcandidates
  trials := by
    intro c standing
    have houtcome : outcome (d.test c actor input { s' with standing := standing })
        = outcome (d.test c actor input { s with standing := standing }) :=
      outcome_test d actor input c rfl
    simpa [outcome, Function.comp_def] using congrArg (Option.map Prod.fst) houtcome
  choice := fun standing => choice_eq hcandidates rfl

/-! ## Registering and unregistering -/

/-- A call of the registry that adds or removes only commands to which a line is not related. -/
inductive UnrelatedCall (d : Dispatcher α σ) (input : String) : Session α σ → Session α σ → Prop
  | register {s : Session α σ} {c : Command α} (hc : c.UnrelatedTo input) :
      UnrelatedCall d input s (d.register c s).2
  | unregister {s : Session α σ} {id : CommandId}
      (h : ∀ c ∈ s.command? id, c.UnrelatedTo input) :
      UnrelatedCall d input s (d.unregister id s).2
  | unregisterIf {s : Session α σ} {p : Command α → Bool}
      (h : ∀ c ∈ s.commands, p c = true → c.UnrelatedTo input) :
      UnrelatedCall d input s (d.unregisterIf p s).2

theorem UnrelatedCall.candidates_eq (h : d.UnrelatedCall input s s') :
    s'.candidates input = s.candidates input := by
  refine Session.candidates_eq fun p hp => ?_
  cases h with
  | @register c hc =>
    unfold Dispatcher.register
    dsimp only
    split
    · exact filter_insertRanked_of_neg (hp c hc) _
    · rfl
  | @unregister id hc =>
    unfold Dispatcher.unregister
    split
    · rfl
    · exact filter_eraseP_of_neg fun c hmem => hp c (hc c hmem)
  | @unregisterIf q hq => exact filter_filter_of_neg fun c hc hqc => hp c (hq c hc hqc)

theorem UnrelatedCall.sameCourse (h : d.UnrelatedCall input s s') : d.SameCourse actor input s s' :=
  sameCourse_of_candidates h.candidates_eq

/-- However many such calls there are, the line comes to the same. -/
theorem sameCourse_of_calls (h : Relation.ReflTransGen (d.UnrelatedCall input) s s') :
    d.SameCourse actor input s s' := by
  refine sameCourse_of_candidates ?_
  induction h with
  | refl => rfl
  | tail _ hcall ih => exact hcall.candidates_eq.trans ih

/-- Registering a command that does not begin with the first word of a line changes nothing that the
line comes to, in whatever order the registry is, and unregistering it does not either: the
candidates, every trial and the winner or the error are the same.  The error is the one that the
handlers choose; the standard ones choose that of the failure that got furthest. -/
theorem unrelated_sameCourse (d : Dispatcher α σ) (actor : Actor) {input : String}
    (s : Session α σ) {c : Command α} (hc : c.UnrelatedTo input) :
    d.SameCourse actor input s (d.register c s).2
      ∧ (∀ id, s.command? id = some c → d.SameCourse actor input s (d.unregister id s).2)
      ∧ ∀ p : Command α → Bool,
        (∀ e ∈ s.commands, p e = true → e.UnrelatedTo input) →
          d.SameCourse actor input s (d.unregisterIf p s).2 := by
  refine ⟨(UnrelatedCall.register hc).sameCourse, fun id hid => ?_, fun p hp => ?_⟩
  · refine (UnrelatedCall.unregister fun e he => ?_).sameCourse
    rw [hid] at he
    exact Option.some.inj he ▸ hc
  · exact (UnrelatedCall.unregisterIf hp).sameCourse

/-- What is registered later may find another place: `home` comes in front of `warp` if `warp to` is
there, and behind it if not. -/
example : insertRanked Command.home (insertRanked Command.warpTo [Command.warp])
        = [Command.home, Command.warpTo, Command.warp]
      ∧ insertRanked Command.home [Command.warp] = [Command.warp, Command.home] :=
  ⟨rfl, rfl⟩

/-- A session whose commands are not in the order of their ranks, since priorities are mixed. -/
def mixedPriorities : Session Unit Unit :=
  { (Session.start ⟨0⟩ () : Session Unit Unit) with
    commands := insertRanked Command.warpTo (insertRanked Command.home [Command.warp]), nextId := 3 }

/-- Taking `home` from behind two commands, one of which it ranks higher than, leaves the candidates
of `warp to` as they are. -/
theorem sameCourse_withoutHome :
    Command.home.UnrelatedTo "warp to"
      ∧ mixedPriorities.command? ⟨0⟩ = some Command.home
      ∧ ((bare Unit Unit .standard).unregister ⟨0⟩ mixedPriorities).2.candidates "warp to"
        = [Command.warpTo, Command.warp] := by
  have hunrelated : Command.home.UnrelatedTo "warp to" := by
    intro word hword
    cases hword
    decide
  have hfound : mixedPriorities.command? ⟨0⟩ = some Command.home := rfl
  exact ⟨hunrelated, hfound, ((unrelated_sameCourse (bare Unit Unit .standard) default
    mixedPriorities hunrelated).2.1 ⟨0⟩ hfound).candidates⟩

end Dispatcher

end CommandGrammar
