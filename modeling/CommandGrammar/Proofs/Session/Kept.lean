import CommandGrammar.Proofs.Session.Cooldown

/-!
# What a ledger of cooldowns tells

While no cooldown elapses, the ledger that keeps them tells which invocations have not failed: a
slot is taken before an action begins, and given back if it fails.  Each course of a dispatch keeps
this, so every dispatch does, also one inside an action.
-/

set_option autoImplicit false

namespace CommandGrammar

variable {α σ : Type}

/-! ## Sessions and their ledgers -/

/-- The slots of a ledger are those of the invocations that have not failed. -/
structure Session.Kept (k : Nat) (s : Session α σ) : Prop where
  tidy : (s.standing.ledgers k).Tidy s.standing.now
  numbered : ∀ e ∈ s.journal, e.dispatch < s.nextDispatch
  holds : ∀ actor command, (s.standing.ledgers k).Holds actor command
    ↔ ∃ n, Unfailed s.journal actor command n
  exclusive : Exclusive s.journal

/-- A session in which a dispatch has taken its number, and nothing is noted of it. -/
structure Session.Entered (k n : Nat) (s : Session α σ) : Prop extends Session.Kept k s where
  fresh : ∀ e ∈ s.journal, e.dispatch < n
  taken : n < s.nextDispatch

/-- A session in which an action that was invoked with a context is under way. -/
structure Session.Running (k n : Nat) (c : Context) (s : Session α σ) : Prop
    extends Session.Kept k s where
  taken : n < s.nextDispatch
  invoked : ⟨n, .invoked c.actor.id c.command.id c.command.metadata.cooldown⟩ ∈ s.journal
  sole : ∀ actor command cooldown, ⟨n, .invoked actor command cooldown⟩ ∈ s.journal →
    actor = c.actor.id ∧ command = c.command.id ∧ cooldown = c.command.metadata.cooldown
  unfailed : ⟨n, .ended false⟩ ∉ s.journal

/-- Two sessions with the same slots in a ledger. -/
structure Session.SameSlots (k : Nat) (s s' : Session α σ) : Prop where
  tidy : (s'.standing.ledgers k).Tidy s'.standing.now
  holds : ∀ actor command, (s'.standing.ledgers k).Holds actor command
    ↔ (s.standing.ledgers k).Holds actor command

namespace Session

open Happening

variable {k n : Nat} {s s' : Session α σ} {hs : List Happening} {actor : ActorId}
  {command : CommandId} {m : Nat}

theorem SameSlots.of_eq (htidy : (s.standing.ledgers k).Tidy s.standing.now)
    (hnow : s'.standing.now = s.standing.now)
    (hledger : s'.standing.ledgers k = s.standing.ledgers k) : s.SameSlots k s' :=
  ⟨by rwa [hnow, hledger], fun _ _ => by rw [hledger]⟩

theorem Entered.lt_of_unfailed (h : s.Entered k n) (hm : Unfailed s.journal actor command m) :
    m < n :=
  let ⟨_, hinvoked, _⟩ := hm
  h.fresh _ hinvoked

/-- What a ledger tells once more is noted of a dispatch, without an invocation. -/
theorem Kept.close (h : s.Kept k) (htaken : n < s.nextDispatch)
    (hjournal : s'.journal = s.journal ++ entriesOf n hs)
    (hnext : s'.nextDispatch = s.nextDispatch) (hquiet : Quiet hs)
    (htidy : (s'.standing.ledgers k).Tidy s'.standing.now)
    (hholds : ∀ actor command, (s'.standing.ledgers k).Holds actor command
      ↔ ∃ m, Unfailed s.journal actor command m ∧ ¬ (m = n ∧ .ended false ∈ hs)) : s'.Kept k where
  tidy := htidy
  numbered := by
    rw [hjournal, hnext]
    refine List.forall_mem_append.mpr ⟨h.numbered, fun e he => ?_⟩
    rw [(mem_entriesOf.mp he).1]
    exact htaken
  holds actor command := by
    rw [hholds, hjournal]
    exact exists_congr fun m => (unfailed_append_quiet hquiet).symm
  exclusive := hjournal ▸ h.exclusive.append_quiet hquiet

/-- A dispatch that comes to nothing leaves the slots as they were. -/
theorem Entered.close (h : s.Entered k n) (hslots : s.SameSlots k s')
    (hjournal : s'.journal = s.journal ++ entriesOf n hs)
    (hnext : s'.nextDispatch = s.nextDispatch) (hquiet : Quiet hs) : s'.Kept k := by
  refine h.toKept.close h.taken hjournal hnext hquiet hslots.tidy fun actor command => ?_
  rw [hslots.holds, h.holds]
  refine exists_congr fun m => (and_iff_left_of_imp fun hm => ?_).symm
  exact fun hsame => Nat.ne_of_lt (h.lt_of_unfailed hm) hsame.1

/-- An invocation that is noted behind calls is one more that has not failed. -/
theorem Entered.unfailed_invoked (h : s.Entered k n) (hquiet : Quiet hs)
    (hunended : .ended false ∉ hs) {actor' : ActorId} {command' : CommandId}
    {cooldown : Option Duration} (hjournal : s'.journal
      = s.journal ++ entriesOf n hs ++ [⟨n, .invoked actor' command' cooldown⟩])
    (actor : ActorId) (command : CommandId) (m : Nat) : Unfailed s'.journal actor command m
      ↔ Unfailed s.journal actor command m
        ∨ (m = n ∧ actor = actor' ∧ command = command' ∧ cooldown ≠ none) := by
  have hfresh : ⟨n, .ended false⟩ ∉ s.journal ++ entriesOf n hs := by
    intro hmem
    rcases List.mem_append.mp hmem with hmem | hmem
    · exact Nat.lt_irrefl n (h.fresh _ hmem)
    · exact hunended (mem_entriesOf.mp hmem).2
  rw [hjournal, unfailed_concat hfresh, unfailed_append_quiet hquiet]
  refine or_congr_left (and_iff_left_of_imp fun hm hsame => ?_)
  exact Nat.ne_of_lt (h.lt_of_unfailed hm) hsame.1

end Session

namespace Dispatcher

open Happening Session

variable {d : Dispatcher α σ} {nested : Nested α σ} {k p n m : Nat} {c c' : Context}
  {winner : Trial α} {o : Outline} {answer : Answer α} {s t s' : Session α σ}

/-! ## Taking a slot and giving it back -/

/-- What claiming the cooldown does to its ledger. -/
inductive Takes (k : Nat) (c : Context) (s s' : Session α σ) : Prop where
  | none (hcooldown : c.command.metadata.cooldown = .none)
      (hledger : s'.standing.ledgers k = s.standing.ledgers k)
  | slot {wait : Duration} (hcooldown : c.command.metadata.cooldown = some wait)
      (hfree : ¬ (s.standing.ledgers k).Holds c.actor.id c.command.id)
      (hledger : s'.standing.ledgers k = (s.standing.ledgers k).record c.actor.id c.command.id
        (s.standing.now.after wait))

theorem SoleCooldown.lt_length (h : d.SoleCooldown k p) : p < d.conditions.length :=
  (List.getElem?_eq_some_iff.mp h.placed).1

theorem Calls.takes (hsole : d.SoleCooldown k p) (hp : p < m)
    (htidy : (s.standing.ledgers k).Tidy s.standing.now)
    (h : d.Calls n c (claims m) s s') : Takes k c s s' := by
  cases hcooldown : c.command.metadata.cooldown with
  | none => exact .none hcooldown (congrFun (h.ledgers_eq hsole fun _ _ _ => hcooldown) k)
  | some wait =>
    obtain ⟨before, after, hcall, hnow, hbefore, hafter⟩ :=
      h.exists_call hsole (f := .claimed) (fun _ => rfl) hp
    rw [← hbefore, ← hnow] at htidy
    obtain ⟨hfree, hrecord⟩ := hcall.claimed_ledger hsole hcooldown htidy
    rw [hbefore, hnow] at hrecord
    rw [hbefore] at hfree
    exact .slot hcooldown hfree ((congrFun hafter k).trans hrecord)

theorem Takes.of_ledger_eq (h : Takes k c s t)
    (hledger : s'.standing.ledgers k = t.standing.ledgers k) : Takes k c s s' := by
  cases h with
  | none hcooldown htaken => exact .none hcooldown (hledger.trans htaken)
  | slot hcooldown hfree htaken => exact .slot hcooldown hfree (hledger.trans htaken)

/-- The slot is that of an actor and a command, whatever the arguments are. -/
theorem Takes.of_context (h : Takes k c s t) (hactor : c'.actor = c.actor)
    (hcommand : c'.command = c.command) : Takes k c' s t := by
  cases h with
  | none hcooldown htaken => exact .none (hcommand ▸ hcooldown) htaken
  | slot hcooldown hfree htaken =>
    rw [← hactor, ← hcommand] at hfree htaken
    exact .slot (hcommand ▸ hcooldown) hfree htaken

/-- Releasing the cooldown gives back the slot that was taken. -/
theorem Takes.released (hsole : d.SoleCooldown k p) (hp : p < m)
    (htidy : (s.standing.ledgers k).Tidy s.standing.now) (htakes : Takes k c s t)
    (hnow : t.standing.now = s.standing.now) (h : d.Calls n c (releases m) t s') :
    s.SameSlots k s' := by
  have hnow' := h.now.trans hnow
  cases htakes with
  | none hcooldown hledger =>
    have hcalls := h.ledgers_eq hsole fun _ _ _ => hcooldown
    exact .of_eq htidy hnow' ((congrFun hcalls k).trans hledger)
  | slot hcooldown hfree hledger =>
    obtain ⟨before, after, hcall, _, hbefore, hafter⟩ :=
      h.exists_call hsole (f := .released) (fun _ => rfl) hp
    have herase := hcall.released_ledger hsole hcooldown
    rw [hbefore, hledger, ← congrFun hafter k] at herase
    refine ⟨?_, fun actor command => ?_⟩
    · rw [herase, hnow']
      exact htidy.erase_record
    · rw [herase]
      exact Ledger.holds_erase_record hfree

/-- Calls that are not of the condition that keeps the cooldowns leave its slots alone. -/
theorem Calls.sameSlots (hsole : d.SoleCooldown k p) {hs : List Happening}
    (htidy : (s.standing.ledgers k).Tidy s.standing.now)
    (hother : ∀ x ∈ hs, x.condition? ≠ some p) (h : d.Calls n c hs s s') : s.SameSlots k s' :=
  .of_eq htidy h.now
    (congrFun (h.ledgers_eq hsole fun x hx hcondition => absurd hcondition (hother x hx)) k)

theorem condition?_claims {x : Happening} (h : x ∈ claims m) : ∃ i < m, x.condition? = some i := by
  obtain ⟨i, hi, rfl⟩ := mem_claims.mp h
  exact ⟨i, hi, rfl⟩

theorem condition?_releases {x : Happening} (h : x ∈ releases m) :
    ∃ i < m, x.condition? = some i := by
  obtain ⟨i, hi, rfl⟩ := mem_releases.mp h
  exact ⟨i, hi, rfl⟩

theorem condition?_asks {answers : List Bool} {x : Happening} (h : x ∈ asks answers) :
    x.condition? = none := by
  obtain ⟨j, allowed, _, rfl⟩ := mem_asks.mp h
  rfl

theorem Calls.asks_ledgers (hsole : d.SoleCooldown k p) {answers : List Bool}
    (h : d.Calls n c (asks answers) s s') : s'.standing.ledgers = s.standing.ledgers :=
  h.ledgers_eq hsole fun _ hx hcondition => nomatch (condition?_asks hx).symm.trans hcondition

/-- A winner that is refused leaves the slots as they were, whichever condition refuses it. -/
theorem Calls.refused_sameSlots (hsole : d.SoleCooldown k p)
    (htidy : (s.standing.ledgers k).Tidy s.standing.now)
    (h : d.Calls n c (claims m ++ .refused m :: releases m) s s') : s.SameSlots k s' := by
  obtain ⟨claimed, hclaims, hrest⟩ := h.split
  cases hrest with
  | cons call hreleases =>
    -- the cooldown was claimed before the refusal, or refuses itself, or was never reached
    rcases Nat.lt_trichotomy p m with hlt | rfl | hgt
    · have hother := call.ledgers_eq hsole fun hcondition =>
        absurd (Option.some.inj hcondition) (Nat.ne_of_gt hlt)
      refine Takes.released hsole hlt htidy ?_ (call.now.trans hclaims.now) hreleases
      exact (hclaims.takes hsole hlt htidy).of_ledger_eq (congrFun hother k)
    · have hbelow : ∀ x : Happening, (∃ i < p, x.condition? = some i) →
          x.condition? = some p → c.command.metadata.cooldown = none := by
        rintro x ⟨i, hi, hx⟩ hcondition
        exact absurd (Option.some.inj (hx.symm.trans hcondition)) (Nat.ne_of_lt hi)
      have hbefore := hclaims.ledgers_eq hsole fun x hx => hbelow x (condition?_claims hx)
      have hafter := hreleases.ledgers_eq hsole fun x hx => hbelow x (condition?_releases hx)
      have hrefused := call.refused_ledger hsole (by rwa [hclaims.now, hbefore])
      refine .of_eq htidy (hreleases.now.trans (call.now.trans hclaims.now)) ?_
      exact (congrFun hafter k).trans (hrefused.trans (congrFun hbefore k))
    · refine Calls.sameSlots hsole htidy (fun x hx hcondition => ?_) h
      have hbelow : ∃ i ≤ m, x.condition? = some i := by
        rcases List.mem_append.mp hx with hx | hx
        · obtain ⟨i, hi, hplace⟩ := condition?_claims hx
          exact ⟨i, Nat.le_of_lt hi, hplace⟩
        · rcases List.mem_cons.mp hx with rfl | hx
          · exact ⟨m, Nat.le_refl m, rfl⟩
          · obtain ⟨i, hi, hplace⟩ := condition?_releases hx
            exact ⟨i, Nat.le_of_lt hi, hplace⟩
      obtain ⟨i, hi, hplace⟩ := hbelow
      exact absurd (Option.some.inj (hplace.symm.trans hcondition))
        (Nat.ne_of_lt (Nat.lt_of_le_of_lt hi hgt))

/-- A winner that has claimed every condition has taken its slot, whatever the hooks answer. -/
theorem Calls.takes_all (hsole : d.SoleCooldown k p) {answers : List Bool}
    (htidy : (s.standing.ledgers k).Tidy s.standing.now)
    (h : d.Calls n c (claims d.conditions.length ++ asks answers) s s') : Takes k c s s' := by
  obtain ⟨claimed, hclaims, hasks⟩ := h.split
  exact (hclaims.takes hsole hsole.lt_length htidy).of_ledger_eq
    (congrFun (hasks.asks_ledgers hsole) k)

/-! ## Invocations -/

/-- No call is an invocation or the end of one. -/
theorem Calls.stage_ne {hs : List Happening} (h : d.Calls n c hs s s') :
    ∀ x ∈ hs, x.stage ≠ 3 ∧ x.stage ≠ 4 := by
  induction h with
  | nil s => exact List.forall_mem_nil _
  | cons call _ ih =>
    refine List.forall_mem_cons.mpr ⟨?_, ih⟩
    cases call <;> exact ⟨by simp [stage], by simp [stage]⟩

theorem Calls.quiet {hs : List Happening} (h : d.Calls n c hs s s') : Quiet hs :=
  fun x hx => decide_eq_false (h.stage_ne x hx).1

theorem Begins.takes (hsole : d.SoleCooldown k p) {body : Body α}
    (htidy : (s.standing.ledgers k).Tidy s.standing.now) (h : d.Begins n winner s body c s') :
    s'.standing.now = s.standing.now ∧ Takes k c s s' := by
  cases h with
  | intro hclears hresolve =>
    obtain ⟨hactor, hcommand, _⟩ := resolveAmbients_context hresolve
    have hhost := (hostOnly_resolveAmbients hresolve).sameRecord
    have htakes := hclears.calls.takes_all hsole htidy
    exact ⟨hhost.now.trans hclears.calls.now,
      (htakes.of_context hactor hcommand).of_ledger_eq (congrFun hhost.ledgers k)⟩

/-- Before an invocation calls are noted, and nothing else. -/
theorem Begins.exists_calls {body : Body α} (h : d.Begins n winner s body c s') :
    ∃ calls t, d.Calls n winner.context calls s t ∧ s'.journal = s.journal ++ entriesOf n calls
      ++ [⟨n, .invoked c.actor.id c.command.id c.command.metadata.cooldown⟩] := by
  have hjournal := h.journal
  rw [entriesOf_append, ← List.append_assoc] at hjournal
  cases h with
  | intro hclears _ => exact ⟨_, _, hclears.calls, hjournal⟩

/-- An action begins only if the slot was free, and has it from then on. -/
theorem Begins.running (hsole : d.SoleCooldown k p) (henter : s.Entered k n) {body : Body α}
    (h : d.Begins n winner s body c s') (hpositive : PositiveCooldowns s'.journal) :
    s'.Running k n c := by
  obtain ⟨hnow, htakes⟩ := h.takes hsole henter.tidy
  obtain ⟨calls, t, hcalls, hjournal⟩ := h.exists_calls
  have hunended : .ended false ∉ calls := fun hmem => (hcalls.stage_ne _ hmem).2 rfl
  have hown : ∀ x, ⟨n, x⟩ ∈ s'.journal
      ↔ x ∈ calls ∨ x = .invoked c.actor.id c.command.id c.command.metadata.cooldown := by
    intro x
    rw [hjournal, List.mem_append, List.mem_append, mem_entriesOf, List.mem_singleton,
      Entry.mk.injEq]
    simp only [true_and]
    refine or_congr_left (or_iff_right fun hmem => ?_)
    exact Nat.lt_irrefl n (henter.fresh _ hmem)
  have hafter := henter.unfailed_invoked hcalls.quiet hunended hjournal
  exact
    { tidy := by
        cases htakes with
        | none _ hledger =>
          rw [hnow, hledger]
          exact henter.tidy
        | slot hcooldown _ hledger =>
          rw [hnow, hledger]
          have hwait := hpositive _ _ _ _ (hcooldown ▸ (hown _).mpr (.inr rfl))
          exact henter.tidy.record (Nat.lt_add_of_pos_right hwait)
      numbered := by
        rw [hjournal, h.nextDispatch]
        refine List.forall_mem_append.mpr ⟨List.forall_mem_append.mpr ⟨henter.numbered, ?_⟩,
          List.forall_mem_singleton.mpr henter.taken⟩
        intro e he
        rw [(mem_entriesOf.mp he).1]
        exact henter.taken
      holds := by
        intro actor command
        cases htakes with
        | none hcooldown hledger =>
          rw [hledger, henter.holds]
          simp only [hafter, hcooldown, ne_eq, not_true_eq_false, and_false, or_false]
        | slot hcooldown _ hledger =>
          rw [hledger, Ledger.holds_record, henter.holds]
          simp only [hafter, hcooldown, ne_eq, reduceCtorEq, not_false_eq_true, and_true,
            exists_or, exists_eq_left]
          exact or_comm
      exclusive := by
        rw [hjournal]
        refine (henter.exclusive.append_quiet hcalls.quiet).concat fun hsome m hm => ?_
        cases htakes with
        | none hcooldown _ => exact hsome hcooldown
        | slot _ hfree _ =>
          have hbefore := ((unfailed_append_quiet hcalls.quiet).mp hm).1
          exact hfree ((henter.holds _ _).mpr ⟨m, hbefore⟩)
      taken := h.nextDispatch ▸ henter.taken
      invoked := (hown _).mpr (.inr rfl)
      sole := by
        intro actor command cooldown hmem
        rcases (hown _).mp hmem with hmem | heq
        · exact absurd hmem (hcalls.quiet.not_mem _ _ _)
        · cases heq
          exact ⟨rfl, rfl, rfl⟩
      unfailed := by
        intro hmem
        rcases (hown _).mp hmem with hmem | heq
        · exact hunended hmem
        · cases heq }

end Dispatcher

namespace Session.Running

open Happening Dispatcher

variable {d : Dispatcher α σ} {k p n : Nat} {c : Context} {s t s' : Session α σ}

/-- An action stays under way while what it dispatches comes and goes. -/
theorem grows {entries : List Entry} (h : s.Running k n c) (hkept : s'.Kept k)
    (hgrows : d.Grows s s' entries) : s'.Running k n c := by
  have hother : ∀ x, ⟨n, x⟩ ∈ s'.journal ↔ ⟨n, x⟩ ∈ s.journal := by
    intro x
    rw [hgrows.journal, List.mem_append]
    refine or_iff_left fun hmem => ?_
    exact Nat.not_le_of_lt h.taken (hgrows.numbered _ hmem).1
  exact
    { toKept := hkept
      taken := Nat.lt_of_lt_of_le h.taken hgrows.nextDispatch
      invoked := (hother _).mpr h.invoked
      sole := fun actor command cooldown hmem => h.sole actor command cooldown ((hother _).mp hmem)
      unfailed := fun hmem => h.unfailed ((hother _).mp hmem) }

theorem unfailed_self (h : s.Running k n c) {wait : Duration}
    (hcooldown : c.command.metadata.cooldown = some wait) :
    Unfailed s.journal c.actor.id c.command.id n :=
  ⟨wait, hcooldown ▸ h.invoked, h.unfailed⟩

/-- The slot of an invocation that ends well stays. -/
theorem succeeds (hsole : d.SoleCooldown k p) (h : s.Running k n c)
    (hpositive : PositiveCooldowns s.journal)
    (hsettle : d.Calls n c (confirms d.conditions.length) t s')
    (hnow : t.standing.now = s.standing.now)
    (hledger : t.standing.ledgers k = s.standing.ledgers k) : s.SameSlots k s' := by
  have hnow' := hsettle.now.trans hnow
  cases hcooldown : c.command.metadata.cooldown with
  | none =>
    have hcalls := hsettle.ledgers_eq hsole fun _ _ _ => hcooldown
    exact .of_eq h.tidy hnow' ((congrFun hcalls k).trans hledger)
  | some wait =>
    obtain ⟨before, after, hcall, hbeforeNow, hbefore, hafter⟩ :=
      hsettle.exists_call hsole (f := .confirmed) (fun _ => rfl) hsole.lt_length
    have hbeforeLedger := (congrFun hbefore k).trans hledger
    have hconfirm := hcall.confirmed_ledger hsole hcooldown
      (by rw [hbeforeNow, hnow, hbeforeLedger]; exact h.tidy)
    rw [hbeforeNow, hnow, hbeforeLedger, ← congrFun hafter k] at hconfirm
    have hwait := hpositive _ _ _ _ (hcooldown ▸ h.invoked)
    refine ⟨?_, fun actor command => ?_⟩
    · rw [hconfirm, hnow']
      exact h.tidy.record (Nat.lt_add_of_pos_right hwait)
    · rw [hconfirm, Ledger.holds_record]
      refine or_iff_right_of_imp ?_
      rintro ⟨rfl, rfl⟩
      exact (h.holds _ _).mpr ⟨n, h.unfailed_self hcooldown⟩

/-- The slot of an invocation that fails is given back, and no other. -/
theorem fails (hsole : d.SoleCooldown k p) (h : s.Running k n c)
    (hsettle : d.Calls n c (releases d.conditions.length) t s')
    (hnow : t.standing.now = s.standing.now)
    (hledger : t.standing.ledgers k = s.standing.ledgers k) :
    (s'.standing.ledgers k).Tidy s'.standing.now
      ∧ ∀ actor command, (s'.standing.ledgers k).Holds actor command
        ↔ ∃ m, Unfailed s.journal actor command m ∧ m ≠ n := by
  have hnow' := hsettle.now.trans hnow
  cases hcooldown : c.command.metadata.cooldown with
  | none =>
    have hcalls := (congrFun (hsettle.ledgers_eq hsole fun _ _ _ => hcooldown) k).trans hledger
    rw [hnow', hcalls]
    refine ⟨h.tidy, fun actor command => ?_⟩
    rw [h.holds]
    refine exists_congr fun m => (and_iff_left_of_imp ?_).symm
    rintro ⟨wait, hinvoked, _⟩ rfl
    exact nomatch (h.sole _ _ _ hinvoked).2.2.trans hcooldown
  | some wait =>
    obtain ⟨before, after, hcall, _, hbefore, hafter⟩ :=
      hsettle.exists_call hsole (f := .released) (fun _ => rfl) hsole.lt_length
    have herase := hcall.released_ledger hsole hcooldown
    rw [congrFun hbefore k, hledger, ← congrFun hafter k] at herase
    rw [hnow', herase]
    refine ⟨h.tidy.erase, fun actor command => ?_⟩
    rw [Ledger.holds_erase, h.holds]
    constructor
    · rintro ⟨⟨m, hm⟩, hother⟩
      refine ⟨m, hm, ?_⟩
      rintro rfl
      obtain ⟨_, hinvoked, _⟩ := hm
      obtain ⟨hactor, hcommand, _⟩ := h.sole _ _ _ hinvoked
      exact hother ⟨hactor, hcommand⟩
    · rintro ⟨m, hm, hne⟩
      refine ⟨⟨m, hm⟩, ?_⟩
      rintro ⟨rfl, rfl⟩
      exact hne (h.exclusive.unique hm (h.unfailed_self hcooldown))

end Session.Running

namespace Dispatcher

open Happening Session

variable {d : Dispatcher α σ} {nested : Nested α σ} {k p n : Nat} {c : Context}
  {winner : Trial α} {o : Outline} {answer : Answer α} {s t s' : Session α σ}

theorem respond_sameLedgers (c : Context) (response : Value) (s : Session α σ) :
    (d.respond n c response s).standing.now = s.standing.now
      ∧ (d.respond n c response s).standing.ledgers = s.standing.ledgers := by
  unfold respond
  split <;> exact ⟨rfl, rfl⟩

theorem kept_of_sameRecord (h : s.Kept k) (hsame : s.SameRecord s') : s'.Kept k where
  tidy := by
    rw [hsame.now, hsame.ledgers]
    exact h.tidy
  numbered := by
    rw [hsame.journal, hsame.nextDispatch]
    exact h.numbered
  holds := by
    rw [hsame.ledgers, hsame.journal]
    exact h.holds
  exclusive := hsame.journal ▸ h.exclusive

theorem Chooses.entered {actor : Actor} {input : String} (hkept : s.Kept k)
    (h : d.Chooses actor input s winner t) : t.numbered.Entered k s.nextDispatch := by
  have hsame := h.hostOnly.sameRecord
  have hchosen := kept_of_sameRecord hkept hsame
  exact
    { tidy := hchosen.tidy
      numbered := fun e he => Nat.lt_succ_of_lt (hchosen.numbered e he)
      holds := hchosen.holds
      exclusive := hchosen.exclusive
      fresh := hsame.nextDispatch ▸ hchosen.numbered
      taken := hsame.nextDispatch ▸ Nat.lt_succ_self _ }

/-- A session grows, and its ledger tells afterwards what it told before. -/
structure Keeps (d : Dispatcher α σ) (k : Nat) (s s' : Session α σ) : Prop where
  grows : ∃ entries, d.Grows s s' entries
  kept : PositiveCooldowns s'.journal → s.Kept k → s'.Kept k

theorem Keeps.ofSameRecord (h : s.SameRecord s') : d.Keeps k s s' :=
  ⟨⟨[], .ofSameRecord h⟩, fun _ hkept => kept_of_sameRecord hkept h⟩

theorem Keeps.positive (h : d.Keeps k s s') (hpositive : PositiveCooldowns s'.journal) :
    PositiveCooldowns s.journal :=
  let ⟨_, hgrows⟩ := h.grows
  hpositive.subset (hgrows.journal ▸ List.subset_append_left _ _)

theorem Keeps.trans (h : d.Keeps k s t) (h' : d.Keeps k t s') : d.Keeps k s s' where
  grows :=
    let ⟨_, hgrows⟩ := h.grows
    let ⟨_, hgrows'⟩ := h'.grows
    ⟨_, hgrows.trans hgrows'⟩
  kept hpositive hkept := h'.kept hpositive (h.kept (h'.positive hpositive) hkept)

/-- An action that has begun is under way until its script ends, if the script keeps what the ledger
tells. -/
theorem Begins.running_of_keeps (hsole : d.SoleCooldown k p) (henter : s.Entered k n)
    {body : Body α} (h : d.Begins n winner s body c t) (hkeeps : d.Keeps k t s')
    (hpositive : PositiveCooldowns s'.journal) : s'.Running k n c := by
  have hrunning := h.running hsole henter (hkeeps.positive hpositive)
  obtain ⟨entries, hgrows⟩ := hkeeps.grows
  exact hrunning.grows (hkeeps.kept hpositive hrunning.toKept) hgrows

/-- Each course of a dispatch keeps what the ledger tells, if the scripts in it do. -/
theorem Course.kept (hsole : d.SoleCooldown k p)
    (hscript : ∀ script s result s', d.runScript nested script s = some (result, s') →
      d.Keeps k s s')
    (henter : s.Entered k n) (h : d.Course nested n winner s o answer s')
    (hpositive : PositiveCooldowns s'.journal) : s'.Kept k := by
  cases h with
  -- the first three come to nothing, so the slot is given back before anything is dispatched inside
  | refused hplace hcalls =>
    exact henter.close (hcalls.refused_sameSlots hsole henter.tidy) hcalls.journal
      hcalls.nextDispatch hcalls.quiet
  | cancelled hlength hheld hcalls =>
    obtain ⟨cleared, hclears, hreleases⟩ := hcalls.split
    have htakes := hclears.takes_all hsole henter.tidy
    have hslots := htakes.released hsole hsole.lt_length henter.tidy hclears.now hreleases
    exact henter.close hslots hcalls.journal hcalls.nextDispatch hcalls.quiet
  | @unresolved body c e cleared resolved settled hclears hresolve hsettle =>
    obtain ⟨hactor, hcommand, _⟩ := resolveAmbients_context hresolve
    have hhost := (hostOnly_resolveAmbients hresolve).sameRecord
    have htakes := (hclears.calls.takes_all hsole henter.tidy).of_context hactor hcommand
    have hresolved : Takes k c s (resolved.note n (.ended false)) :=
      htakes.of_ledger_eq (congrFun hhost.ledgers k)
    have hslots := hresolved.released hsole hsole.lt_length henter.tidy
      (hhost.now.trans hclears.calls.now) hsettle
    have hjournal := journal_excepted (.command e) hsettle
    rw [hhost.journal, hclears.calls.journal, List.append_assoc, ← entriesOf_append] at hjournal
    refine henter.close ⟨hslots.tidy, hslots.holds⟩ hjournal ?_ ?_
    · exact hsettle.nextDispatch.trans (hhost.nextDispatch.trans hclears.calls.nextDispatch)
    · exact hclears.calls.quiet.append ((hsettle.quiet.cons rfl).append (quiet_singleton rfl))
  | @failed body c e begun ended settled hbegins hrun hsettle =>
    have hjournal := journal_excepted e hsettle
    have hended := hpositive.subset (hjournal ▸ List.subset_append_left _ _)
    have hrunning := hbegins.running_of_keeps hsole henter (hscript _ _ _ _ hrun) hended
    obtain ⟨htidy, hholds⟩ := hrunning.fails hsole hsettle rfl rfl
    refine hrunning.toKept.close hrunning.taken hjournal hsettle.nextDispatch
      ((hsettle.quiet.cons rfl).append (quiet_singleton rfl)) htidy fun actor command => ?_
    refine (hholds actor command).trans (exists_congr fun m => and_congr_right fun _ => ?_)
    exact (not_congr (and_iff_left List.mem_cons_self)).symm
  | @well body c response begun ended settled hbegins hrun hsettle =>
    have hjournal := journal_responded response hsettle
    have hended := hpositive.subset (hjournal ▸ List.subset_append_left _ _)
    have hrunning := hbegins.running_of_keeps hsole henter (hscript _ _ _ _ hrun) hended
    have hslots := hrunning.succeeds hsole hended hsettle rfl rfl
    obtain ⟨hnow, hledgers⟩ := respond_sameLedgers (d := d) (n := n) c response settled
    refine hrunning.toKept.close hrunning.taken hjournal ?_ ?_ ?_ ?_
    · exact (respond_nextDispatch c response settled).trans hsettle.nextDispatch
    · refine (hsettle.quiet.cons rfl).append ?_
      split
      · exact quiet_singleton rfl
      · exact List.forall_mem_nil _
    · rw [hnow, hledgers]
      exact hslots.tidy
    · intro actor command
      rw [hledgers, hslots.holds, hrunning.holds]
      refine exists_congr fun m => (and_iff_left_of_imp fun _ hsame => ?_).symm
      have hfailed := hsame.2
      simp only [List.cons_append, List.mem_cons, List.mem_append, mem_confirms, reduceCtorEq,
        and_false, exists_const, false_or] at hfailed
      split at hfailed <;> simp at hfailed

/-- Every dispatch keeps what the ledger tells, also one inside an action. -/
theorem dispatch_keeps (hsole : d.SoleCooldown k p) {depth : Nat} {actor : Actor} {input : String}
    (h : d.dispatch depth actor input s = some (answer, s')) : d.Keeps k s s' := by
  refine dispatch_induction (R := d.Keeps k) (fun _ _ => .ofSameRecord) (fun _ _ _ => .trans) ?_
    depth actor input s answer s' h
  intro depth hscript actor input s winner s₁ o answer s' hdispatch hchooses hcourse
  obtain ⟨entries, hgrows, _⟩ :=
    hcourse.grows (fun _ _ _ _ hrun => (hscript _ _ _ _ hrun).grows) hdispatch hchooses
  exact ⟨⟨entries, hgrows⟩, fun hpositive hkept =>
    hcourse.kept hsole hscript (hchooses.entered hkept) hpositive⟩

end Dispatcher

end CommandGrammar
