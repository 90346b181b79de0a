import CommandGrammar.Proofs.Session.Protocol
import CommandGrammar.Proofs.Session.Slots

/-!
# Cooldowns across dispatches

Where one condition keeps the cooldowns and none of them elapses, an actor and a command have a slot
in its ledger as long as an invocation of that command by that actor has not failed: it may have
ended well, or may still be under way.  A dispatch takes a slot when it claims the condition, and
gives it back when it comes to nothing.
-/

set_option autoImplicit false

namespace CommandGrammar

variable {α σ : Type}

/-- The condition that is called, if it is one. -/
def Happening.condition? : Happening → Option Nat
  | .claimed i => some i
  | .refused i => some i
  | .confirmed i => some i
  | .released i => some i
  | _ => none

/-! ## What a call does to the ledgers -/

namespace Condition

variable {condition : Condition σ} {c : Context}

theorem claim_now (condition : Condition σ) (c : Context) (s : Standing σ) :
    (condition.claim c s).2.now = s.now := by
  cases condition with
  | permission => rfl
  | host h => rfl
  | cooldown ledger =>
    simp only [claim, claimCooldown]
    split
    · rfl
    · split <;> rfl

theorem confirm_now (condition : Condition σ) (c : Context) (s : Standing σ) :
    (condition.confirm c s).now = s.now := by
  cases condition with
  | permission => rfl
  | host h => rfl
  | cooldown ledger =>
    simp only [confirm]
    split <;> rfl

theorem release_now (condition : Condition σ) (c : Context) (s : Standing σ) :
    (condition.release c s).now = s.now := by
  cases condition with
  | permission => rfl
  | host h => rfl
  | cooldown ledger =>
    simp only [release]
    split <;> rfl

/-- A condition that keeps no cooldown for a command. -/
def Aloof (condition : Condition σ) (c : Context) : Prop :=
  ∀ ledger, condition = .cooldown ledger → c.command.metadata.cooldown = none

theorem Aloof.claim_ledgers (h : condition.Aloof c) (s : Standing σ) :
    (condition.claim c s).2.ledgers = s.ledgers := by
  cases condition with
  | permission => rfl
  | host _ => rfl
  | cooldown ledger => simp only [claim, claimCooldown, h ledger rfl]

theorem Aloof.confirm_ledgers (h : condition.Aloof c) (s : Standing σ) :
    (condition.confirm c s).ledgers = s.ledgers := by
  cases condition with
  | permission => rfl
  | host _ => rfl
  | cooldown ledger => simp only [confirm, h ledger rfl]

theorem Aloof.release_ledgers (h : condition.Aloof c) (s : Standing σ) :
    (condition.release c s).ledgers = s.ledgers := by
  cases condition with
  | permission => rfl
  | host _ => rfl
  | cooldown ledger => simp only [release, h ledger rfl]

/-! No table that a call leaves behind is empty. -/

theorem filled_setLedger {s : Standing σ} {k j : Nat} {f : Ledger → Ledger}
    (hf : ∀ l : Ledger, l.Filled → (f l).Filled) (h : (s.ledgers k).Filled) :
    ((s.setLedger j (f (s.ledgers j))).ledgers k).Filled := by
  by_cases hj : k = j
  · subst hj
    rw [Standing.setLedger_ledgers_self]
    exact hf _ h
  · rw [Standing.setLedger_ledgers_of_ne _ _ hj]
    exact h

theorem claim_filled (condition : Condition σ) (c : Context) {s : Standing σ} {k : Nat}
    (h : (s.ledgers k).Filled) : ((condition.claim c s).2.ledgers k).Filled := by
  cases condition with
  | permission => exact h
  | host _ => exact h
  | cooldown ledger =>
    simp only [claim, claimCooldown]
    split
    · exact h
    · split
      · exact filled_setLedger (f := fun l => l.prune s.now) (fun _ hl => hl.prune _) h
      · exact filled_setLedger (f := fun l => (l.prune s.now).record _ _ _)
          (fun _ hl => (hl.prune _).record) h

theorem confirm_filled (condition : Condition σ) (c : Context) {s : Standing σ} {k : Nat}
    (h : (s.ledgers k).Filled) : ((condition.confirm c s).ledgers k).Filled := by
  cases condition with
  | permission => exact h
  | host _ => exact h
  | cooldown ledger =>
    simp only [confirm]
    split
    · exact h
    · exact filled_setLedger (f := fun l => (l.prune s.now).record _ _ _)
        (fun _ hl => (hl.prune _).record) h

theorem release_filled (condition : Condition σ) (c : Context) {s : Standing σ} {k : Nat}
    (h : (s.ledgers k).Filled) : ((condition.release c s).ledgers k).Filled := by
  cases condition with
  | permission => exact h
  | host _ => exact h
  | cooldown ledger =>
    simp only [release]
    split
    · exact h
    · exact filled_setLedger (f := fun l => l.erase _ _) (fun _ hl => hl.erase) h

end Condition

namespace Dispatcher

open Happening

/-- One condition keeps the cooldowns, in a ledger of its own. -/
structure SoleCooldown (d : Dispatcher α σ) (ledger place : Nat) : Prop where
  placed : d.conditions[place]? = some (.cooldown ledger)
  only : ∀ i other, d.conditions[i]? = some (.cooldown other) → i = place

variable {d : Dispatcher α σ} {k p n : Nat} {c : Context} {x : Happening} {w : Duration}
  {before after : Standing σ} {s s' : Session α σ} {hs : List Happening}

theorem Call.now (h : d.Call c x before after) : after.now = before.now := by
  cases h with
  | claimed _ hclaim => exact (congrArg (·.2.now) hclaim).symm.trans (Condition.claim_now _ _ _)
  | refused _ hclaim => exact (congrArg (·.2.now) hclaim).symm.trans (Condition.claim_now _ _ _)
  | confirmed _ _ => exact Condition.confirm_now _ _ _
  | released _ _ => exact Condition.release_now _ _ _
  | asked _ _ => rfl

/-- A call of any other condition, or for a command without a cooldown, leaves the ledgers alone. -/
theorem Call.ledgers_eq (hsole : d.SoleCooldown k p) (h : d.Call c x before after)
    (hother : x.condition? = some p → c.command.metadata.cooldown = none) :
    after.ledgers = before.ledgers := by
  have haloof : ∀ {i : Nat} {condition : Condition σ}, d.conditions[i]? = some condition →
      x.condition? = some i → condition.Aloof c := by
    rintro i condition hplace hx ledger rfl
    rw [hsole.only i ledger hplace] at hx
    exact hother hx
  cases h with
  | claimed hplace hclaim =>
    exact (congrArg (·.2.ledgers) hclaim).symm.trans ((haloof hplace rfl).claim_ledgers _)
  | refused hplace hclaim =>
    exact (congrArg (·.2.ledgers) hclaim).symm.trans ((haloof hplace rfl).claim_ledgers _)
  | confirmed _ hplace => exact (haloof hplace rfl).confirm_ledgers _
  | released _ hplace => exact (haloof hplace rfl).release_ledgers _
  | asked _ _ => rfl

/-- The cooldown is claimed where there is no slot, and takes one. -/
theorem Call.claimed_ledger (hsole : d.SoleCooldown k p)
    (h : d.Call c (.claimed p) before after) (hcooldown : c.command.metadata.cooldown = some w)
    (htidy : (before.ledgers k).Tidy before.now) :
    ¬ (before.ledgers k).Holds c.actor.id c.command.id
      ∧ after.ledgers k
        = (before.ledgers k).record c.actor.id c.command.id (before.now.after w) := by
  cases h with
  | claimed hplace hclaim =>
    cases Option.some.inj (hplace.symm.trans hsole.placed)
    simp only [Condition.claim, Condition.claimCooldown, hcooldown, htidy.prune_eq] at hclaim
    split at hclaim
    · cases hclaim
    · next hfree =>
      cases hclaim
      exact ⟨htidy.remaining?_eq_none.mp hfree, Standing.setLedger_ledgers_self _ _ _⟩

theorem Call.refused_ledger (hsole : d.SoleCooldown k p)
    (h : d.Call c (.refused p) before after) (htidy : (before.ledgers k).Tidy before.now) :
    after.ledgers k = before.ledgers k := by
  cases h with
  | refused hplace hclaim =>
    cases Option.some.inj (hplace.symm.trans hsole.placed)
    simp only [Condition.claim, Condition.claimCooldown, htidy.prune_eq] at hclaim
    split at hclaim
    · cases hclaim
    · split at hclaim
      · cases hclaim
        exact Standing.setLedger_ledgers_self _ _ _
      · cases hclaim

theorem Call.confirmed_ledger (hsole : d.SoleCooldown k p)
    (h : d.Call c (.confirmed p) before after) (hcooldown : c.command.metadata.cooldown = some w)
    (htidy : (before.ledgers k).Tidy before.now) :
    after.ledgers k
      = (before.ledgers k).record c.actor.id c.command.id (before.now.after w) := by
  cases h with
  | confirmed _ hplace =>
    cases Option.some.inj (hplace.symm.trans hsole.placed)
    simp only [Condition.confirm, hcooldown, htidy.prune_eq]
    exact Standing.setLedger_ledgers_self _ _ _

theorem Call.released_ledger (hsole : d.SoleCooldown k p)
    (h : d.Call c (.released p) before after) (hcooldown : c.command.metadata.cooldown = some w) :
    after.ledgers k = (before.ledgers k).erase c.actor.id c.command.id := by
  cases h with
  | released _ hplace =>
    cases Option.some.inj (hplace.symm.trans hsole.placed)
    simp only [Condition.release, hcooldown]
    exact Standing.setLedger_ledgers_self _ _ _

/-- A call of any condition whatever leaves no empty table behind. -/
theorem Call.filled (h : d.Call c x before after) (hfilled : (before.ledgers k).Filled) :
    (after.ledgers k).Filled := by
  cases h with
  | @claimed _ condition _ _ _ hclaim =>
    have hclaimed := Condition.claim_filled condition c hfilled
    rwa [hclaim] at hclaimed
  | @refused _ condition _ _ _ _ hclaim =>
    have hrefused := Condition.claim_filled condition c hfilled
    rwa [hclaim] at hrefused
  | confirmed _ _ => exact Condition.confirm_filled _ c hfilled
  | released _ _ => exact Condition.release_filled _ c hfilled
  | asked _ _ => exact hfilled

/-! ## What calls in a row do to them -/

theorem Calls.now (h : d.Calls n c hs s s') : s'.standing.now = s.standing.now := by
  induction h with
  | nil s => rfl
  | cons call _ ih => exact ih.trans call.now

theorem Calls.ledgers_eq (hsole : d.SoleCooldown k p) (h : d.Calls n c hs s s')
    (hother : ∀ x ∈ hs, x.condition? = some p → c.command.metadata.cooldown = none) :
    s'.standing.ledgers = s.standing.ledgers := by
  induction h with
  | nil s => rfl
  | cons call _ ih =>
    obtain ⟨hfirst, hrest⟩ := List.forall_mem_cons.mp hother
    exact (ih hrest).trans (call.ledgers_eq hsole hfirst)

/-- Among calls of each of the first conditions, one is of the condition that keeps the
cooldowns. -/
theorem Calls.exists_call (hsole : d.SoleCooldown k p) {f : Nat → Happening} {m : Nat}
    (hf : ∀ i, (f i).condition? = some i) (hp : p < m)
    (h : d.Calls n c ((List.range m).map f) s s') :
    ∃ before after, d.Call c (f p) before after ∧ before.now = s.standing.now
      ∧ before.ledgers = s.standing.ledgers ∧ s'.standing.ledgers = after.ledgers := by
  obtain ⟨front, back, hsplit⟩ := List.append_of_mem (List.mem_range.mpr hp)
  have hnodup : (front ++ p :: back).Nodup := hsplit ▸ List.nodup_range
  obtain ⟨_, hback, hfront⟩ := List.nodup_append.mp hnodup
  have hother : ∀ places : List Nat, p ∉ places →
      ∀ x ∈ places.map f, x.condition? = some p → c.command.metadata.cooldown = none := by
    intro places hnot x hx hcondition
    obtain ⟨i, hi, rfl⟩ := List.mem_map.mp hx
    rw [hf] at hcondition
    exact absurd (Option.some.inj hcondition ▸ hi) hnot
  rw [hsplit, List.map_append, List.map_cons] at h
  obtain ⟨t, hfirst, hlast⟩ := h.split
  cases hlast with
  | cons call rest =>
    refine ⟨_, _, call, hfirst.now, ?_, ?_⟩
    · exact hfirst.ledgers_eq hsole
        (hother front fun hmem => hfront p hmem p List.mem_cons_self rfl)
    · exact rest.ledgers_eq hsole (hother back (List.nodup_cons.mp hback).1)

end Dispatcher

/-! ## Invocations in a journal -/

section Journal

variable {journal : List Entry} {actor : ActorId} {command : CommandId} {n m : Nat}
  {hs : List Happening} {cooldown : Option Duration}

/-- Under a number, an actor's invocation of a command with a cooldown is noted, and not that it
failed. -/
def Unfailed (journal : List Entry) (actor : ActorId) (command : CommandId) (n : Nat) : Prop :=
  ∃ wait, ⟨n, .invoked actor command (some wait)⟩ ∈ journal ∧ ⟨n, .ended false⟩ ∉ journal

/-- An invocation of a command with a cooldown starts only when all earlier ones by that actor have
failed. -/
def Exclusive (journal : List Entry) : Prop :=
  ∀ before after n actor command wait,
    journal = before ++ ⟨n, .invoked actor command (some wait)⟩ :: after →
    ∀ m, ¬ Unfailed before actor command m

/-- The cooldowns of invoked commands are positive. -/
def PositiveCooldowns (journal : List Entry) : Prop :=
  ∀ n actor command wait, ⟨n, .invoked actor command (some wait)⟩ ∈ journal → 0 < wait.micros

/-- No invocation is among some happenings. -/
def Quiet (hs : List Happening) : Prop := ∀ h ∈ hs, h.isInvoked = false

theorem Quiet.not_mem (h : Quiet hs) (actor : ActorId) (command : CommandId)
    (cooldown : Option Duration) : .invoked actor command cooldown ∉ hs :=
  fun hmem => Bool.noConfusion (h _ hmem)

theorem Quiet.append {hs' : List Happening} (h : Quiet hs) (h' : Quiet hs') : Quiet (hs ++ hs') :=
  List.forall_mem_append.mpr ⟨h, h'⟩

theorem Quiet.cons {x : Happening} (h : Quiet hs) (hx : x.isInvoked = false) : Quiet (x :: hs) :=
  List.forall_mem_cons.mpr ⟨hx, h⟩

theorem quiet_singleton {x : Happening} (hx : x.isInvoked = false) : Quiet [x] :=
  List.forall_mem_singleton.mpr hx

/-- At most one invocation of a command by an actor has not failed. -/
theorem Exclusive.unique (h : Exclusive journal) (hm : Unfailed journal actor command m)
    (hn : Unfailed journal actor command n) : m = n := by
  obtain ⟨wait, hinvoked, hunfailed⟩ := hm
  obtain ⟨wait', hinvoked', hunfailed'⟩ := hn
  by_contra hne
  obtain ⟨before, after, rfl⟩ := List.append_of_mem hinvoked
  rcases List.mem_append.mp hinvoked' with hbefore | hafter
  · exact h before after m actor command wait rfl n
      ⟨wait', hbefore, fun hfailed => hunfailed' (List.mem_append_left _ hfailed)⟩
  · have hlater : ⟨n, .invoked actor command (some wait')⟩ ∈ after :=
      (List.mem_cons.mp hafter).resolve_left fun heq => hne (congrArg Entry.dispatch heq).symm
    obtain ⟨between, rest, rfl⟩ := List.append_of_mem hlater
    refine h (before ++ ⟨m, .invoked actor command (some wait)⟩ :: between) rest n actor command
      wait' (by simp) m ⟨wait, by simp, fun hfailed => hunfailed ?_⟩
    have hwhole := List.mem_append_left (⟨n, .invoked actor command (some wait')⟩ :: rest) hfailed
    simpa using hwhole

theorem PositiveCooldowns.subset {more : List Entry} (h : PositiveCooldowns more)
    (hsub : journal ⊆ more) : PositiveCooldowns journal :=
  fun n actor command wait hmem => h n actor command wait (hsub hmem)

/-- What is noted without an invocation can only tell that one has failed. -/
theorem unfailed_append_quiet (hquiet : Quiet hs) :
    Unfailed (journal ++ entriesOf n hs) actor command m
      ↔ Unfailed journal actor command m ∧ ¬ (m = n ∧ .ended false ∈ hs) := by
  unfold Unfailed
  constructor
  · rintro ⟨wait, hinvoked, hunfailed⟩
    have hearlier := (List.mem_append.mp hinvoked).resolve_right fun hmem =>
      hquiet.not_mem _ _ _ (mem_entriesOf.mp hmem).2
    exact ⟨⟨wait, hearlier, fun hfailed => hunfailed (List.mem_append_left _ hfailed)⟩,
      fun hfailed => hunfailed (List.mem_append_right _ (mem_entriesOf.mpr hfailed))⟩
  · rintro ⟨⟨wait, hinvoked, hunfailed⟩, hquiet'⟩
    refine ⟨wait, List.mem_append_left _ hinvoked, fun hfailed => ?_⟩
    rcases List.mem_append.mp hfailed with hfailed | hfailed
    · exact hunfailed hfailed
    · exact hquiet' (mem_entriesOf.mp hfailed)

theorem Exclusive.append_quiet (h : Exclusive journal) (hquiet : Quiet hs) :
    Exclusive (journal ++ entriesOf n hs) := by
  intro before after m actor command wait hsplit
  have hmem : ⟨m, .invoked actor command (some wait)⟩ ∉ entriesOf n hs := fun hmem =>
    hquiet.not_mem _ _ _ (mem_entriesOf.mp hmem).2
  rcases List.append_eq_append_iff.mp hsplit with ⟨back, hbefore, hafter⟩ | ⟨back, hjournal, hafter⟩
  · rw [hafter] at hmem
    exact absurd (List.mem_append_right back List.mem_cons_self) hmem
  · cases back with
    | nil =>
      rw [List.nil_append] at hafter
      rw [← hafter] at hmem
      exact absurd List.mem_cons_self hmem
    | cons first rest =>
      rw [List.cons_append, List.cons.injEq] at hafter
      rw [← hafter.1] at hjournal
      exact h before rest m actor command wait hjournal

/-- An invocation that is noted has not failed so far. -/
theorem unfailed_concat (hfresh : ⟨n, .ended false⟩ ∉ journal) (actor' : ActorId)
    (command' : CommandId) :
    Unfailed (journal ++ [⟨n, .invoked actor' command' cooldown⟩]) actor command m
      ↔ Unfailed journal actor command m
        ∨ (m = n ∧ actor = actor' ∧ command = command' ∧ cooldown ≠ none) := by
  unfold Unfailed
  simp only [List.mem_append, List.mem_singleton, Entry.mk.injEq, Happening.invoked.injEq,
    reduceCtorEq, and_false, or_false]
  constructor
  · rintro ⟨wait, hinvoked | ⟨rfl, rfl, rfl, rfl⟩, hunfailed⟩
    · exact .inl ⟨wait, hinvoked, hunfailed⟩
    · exact .inr ⟨rfl, rfl, rfl, Option.some_ne_none _⟩
  · rintro (⟨wait, hinvoked, hunfailed⟩ | ⟨rfl, rfl, rfl, hcooldown⟩)
    · exact ⟨wait, .inl hinvoked, hunfailed⟩
    · obtain ⟨wait, rfl⟩ := Option.ne_none_iff_exists'.mp hcooldown
      exact ⟨wait, .inr ⟨rfl, rfl, rfl, rfl⟩, hfresh⟩

theorem Exclusive.concat (h : Exclusive journal)
    (hfree : cooldown ≠ none → ∀ m, ¬ Unfailed journal actor command m) :
    Exclusive (journal ++ [⟨n, .invoked actor command cooldown⟩]) := by
  intro before after m actor' command' wait hsplit
  rcases List.eq_nil_or_concat after with rfl | ⟨front, last, rfl⟩
  · obtain ⟨rfl, hlast⟩ := List.append_inj' hsplit rfl
    cases hlast
    exact hfree (Option.some_ne_none _)
  · rw [List.concat_eq_append, ← List.cons_append, ← List.append_assoc] at hsplit
    obtain ⟨hjournal, _⟩ := List.append_inj' hsplit rfl
    exact h before front m actor' command' wait hjournal

end Journal

end CommandGrammar
