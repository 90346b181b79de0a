import CommandGrammar.Proofs.Session.Kept

/-!
# At most one use

At any time of a run in which no cooldown elapses, also while actions are under way, an actor has
used a command with a cooldown once at most, and the slots are those of the uses that have ended
well or are in progress.
-/

set_option autoImplicit false

namespace CommandGrammar

variable {α σ : Type}

/-! ## Order in a journal -/

namespace Session

open Happening

variable {s s' : Session α σ}

/-- What is noted under one number is in the order of the protocol, also while the dispatch is under
way. -/
structure InOrder (s : Session α σ) : Prop where
  numbered : ∀ e ∈ s.journal, e.dispatch < s.nextDispatch
  inOrder : ∀ n, (happeningsOf n s.journal).Pairwise Before

namespace InOrder

/-- Entries under new numbers, each number in order, keep the order. -/
theorem grow {entries : List Entry} (h : s.InOrder)
    (hjournal : s'.journal = s.journal ++ entries)
    (hnumbered : ∀ e ∈ entries, s.nextDispatch ≤ e.dispatch ∧ e.dispatch < s'.nextDispatch)
    (hnext : s.nextDispatch ≤ s'.nextDispatch)
    (hentries : ∀ n, (happeningsOf n entries).Pairwise Before) : s'.InOrder where
  numbered := by
    rw [hjournal]
    refine List.forall_mem_append.mpr ⟨fun e he => ?_, fun e he => (hnumbered e he).2⟩
    exact Nat.lt_of_lt_of_le (h.numbered e he) hnext
  inOrder n := by
    rw [hjournal, happeningsOf_append]
    rcases Nat.lt_or_ge n s.nextDispatch with hlt | hge
    · rw [happeningsOf_eq_nil fun e he =>
        Nat.ne_of_gt (Nat.lt_of_lt_of_le hlt (hnumbered e he).1), List.append_nil]
      exact h.inOrder n
    · rw [happeningsOf_eq_nil fun e he => Nat.ne_of_lt (Nat.lt_of_lt_of_le (h.numbered e he) hge),
        List.nil_append]
      exact hentries n

/-- No invocation ends both ways. -/
theorem ended_once {n : Nat} (h : s.InOrder) (hwell : ⟨n, .ended true⟩ ∈ s.journal) :
    ⟨n, .ended false⟩ ∉ s.journal := by
  intro hfailed
  have hcomparable := comparable_of_pairwise_before (h.inOrder n) (mem_happeningsOf.mpr hwell)
    (mem_happeningsOf.mpr hfailed)
  simp [Before, stage, place] at hcomparable

end InOrder

end Session

namespace Dispatcher

open Happening Session

variable {d : Dispatcher α σ} {k p : Nat} {c : Context} {winner : Trial α} {answer : Answer α}
  {s s' : Session α σ}

/-! ## Any time -/

/-- A session at some time of a run: between dispatches, or while actions are under way, one inside
another.  Time passes only as long as no instant that a ledger records has come. -/
inductive Underway (d : Dispatcher α σ) (k : Nat) : Session α σ → Prop where
  | start (now : Instant) (host : σ) : Underway d k (.start now host)
  | elsewhere {s s' : Session α σ} (h : Underway d k s) (hsame : s.SameRecord s') :
      Underway d k s'
  | waits {s : Session α σ} (h : Underway d k s) (now : Instant)
      (hearly : ∀ table ∈ (s.standing.ledgers k).tables, ∀ entry ∈ table.2,
        now.micros < entry.2.micros) :
      Underway d k { s with standing := { s.standing with now := now } }
  | dispatched {s s' : Session α σ} {depth : Nat} {actor : Actor} {input : String}
      {answer : Answer α} (h : Underway d k s)
      (hdispatch : d.dispatch depth actor input s = some (answer, s')) : Underway d k s'
  | begun {s s₁ s' : Session α σ} {actor : Actor} {input : String} {winner : Trial α}
      {body : Body α} {c : Context} (h : Underway d k s)
      (hchooses : d.Chooses actor input s winner s₁)
      (hbegins : d.Begins s.nextDispatch winner s₁.numbered body c s') : Underway d k s'

theorem Underway.kept (hsole : d.SoleCooldown k p) (h : d.Underway k s)
    (hpositive : PositiveCooldowns s.journal) : s.Kept k := by
  induction h with
  | start now host =>
    exact
      { tidy := Ledger.tidy_empty now
        numbered := List.forall_mem_nil _
        holds := fun actor command => iff_of_false (Ledger.holds_empty actor command)
          fun ⟨_, _, hinvoked, _⟩ => List.not_mem_nil hinvoked
        exclusive := fun before after _ _ _ _ hsplit => by simp [Session.start] at hsplit }
  | elsewhere _ hsame ih => exact kept_of_sameRecord (ih (hsame.journal ▸ hpositive)) hsame
  | waits _ now hearly ih =>
    have hkept := ih hpositive
    exact ⟨⟨hkept.tidy.toFilled, hearly⟩, hkept.numbered, hkept.holds, hkept.exclusive⟩
  | dispatched _ hdispatch ih =>
    have hkeeps := dispatch_keeps hsole hdispatch
    exact hkeeps.kept hpositive (ih (hkeeps.positive hpositive))
  | begun _ hchooses hbegins ih =>
    have hjournal := hbegins.journal
    rw [numbered_journal, hchooses.hostOnly.sameRecord.journal] at hjournal
    have hearlier := hpositive.subset (hjournal ▸ List.subset_append_left _ _)
    exact (hbegins.running hsole (hchooses.entered (ih hearlier)) hpositive).toKept

theorem Grows.inOrder {entries : List Entry} (h : s.InOrder) (hgrows : d.Grows s s' entries) :
    s'.InOrder := by
  refine h.grow hgrows.journal hgrows.numbered hgrows.nextDispatch fun n => ?_
  by_cases hn : s.nextDispatch ≤ n ∧ n < s'.nextDispatch
  · exact (hgrows.conducted n hn.1 hn.2).orderly.inOrder
  · have hnone : ∀ e ∈ entries, e.dispatch ≠ n := by
      rintro e he rfl
      exact hn (hgrows.numbered e he)
    rw [happeningsOf_eq_nil hnone]
    exact .nil

theorem Begins.inOrder {actor : Actor} {input : String} {s₁ : Session α σ} {body : Body α}
    (h : s.InOrder) (hchooses : d.Chooses actor input s winner s₁)
    (hbegins : d.Begins s.nextDispatch winner s₁.numbered body c s') : s'.InOrder := by
  have hsame := hchooses.hostOnly.sameRecord
  have hnext := hbegins.nextDispatch
  have hjournal := hbegins.journal
  rw [numbered_journal, hsame.journal] at hjournal
  rw [numbered_nextDispatch, hsame.nextDispatch] at hnext
  refine h.grow hjournal (fun e he => ?_) (hnext ▸ Nat.le_succ _) fun n => ?_
  · rw [(mem_entriesOf.mp he).1, hnext]
    exact ⟨Nat.le_refl _, Nat.lt_succ_self _⟩
  · by_cases hn : s.nextDispatch = n
    · rw [← hn, happeningsOf_entriesOf_self]
      have hwhole := Outline.pairwise_happenings
        (.well d.conditions.length d.hooks.length (invocation c) false)
      rw [Outline.happenings_well] at hwhole
      exact (List.pairwise_append.mp hwhole).1
    · rw [happeningsOf_entriesOf_of_ne hn]
      exact .nil

theorem Underway.inOrder (h : d.Underway k s) : s.InOrder := by
  induction h with
  | start now host => exact ⟨List.forall_mem_nil _, fun _ => .nil⟩
  | elsewhere _ hsame ih =>
    obtain ⟨hnumbered, hordered⟩ := ih
    exact ⟨by rwa [hsame.journal, hsame.nextDispatch], by rwa [hsame.journal]⟩
  | waits _ now _ ih => exact ⟨ih.numbered, ih.inOrder⟩
  | dispatched _ hdispatch ih =>
    obtain ⟨entries, hgrows⟩ := dispatch_grows hdispatch
    exact hgrows.inOrder ih
  | begun _ hchooses hbegins ih => exact Begins.inOrder ih hchooses hbegins

end Dispatcher

/-! ## One use -/

/-- An invocation of a command with a cooldown has ended well. -/
def Succeeded (journal : List Entry) (actor : ActorId) (command : CommandId) (n : Nat) : Prop :=
  ∃ wait, ⟨n, .invoked actor command (some wait)⟩ ∈ journal ∧ ⟨n, .ended true⟩ ∈ journal

/-- An invocation of a command with a cooldown has not come to its end. -/
def InProgress (journal : List Entry) (actor : ActorId) (command : CommandId) (n : Nat) : Prop :=
  ∃ wait, ⟨n, .invoked actor command (some wait)⟩ ∈ journal
    ∧ ∀ well, ⟨n, .ended well⟩ ∉ journal

/-- What holds of the commands with a cooldown while none elapses. -/
structure Session.UsedOnce (k : Nat) (s : Session α σ) : Prop where
  /-- no invocation starts while another by that actor is in progress or after one has ended well -/
  exclusive : Exclusive s.journal
  /-- one invocation by an actor ends well at most -/
  once : ∀ actor command m n, Succeeded s.journal actor command m →
    Succeeded s.journal actor command n → m = n
  /-- a number stands for one invocation at most -/
  sole : ∀ n, ((happeningsOf n s.journal).filter Happening.isInvoked).length ≤ 1
  /-- the slots are those of the invocations that have ended well or are in progress -/
  slots : ∀ actor command, (s.standing.ledgers k).Holds actor command
    ↔ ∃ n, Succeeded s.journal actor command n ∨ InProgress s.journal actor command n
  /-- no actor is tracked with an empty table -/
  filled : (s.standing.ledgers k).Filled
  /-- the tracked actors are those that hold a slot -/
  tracked : ∃ actors : List ActorId, actors.Nodup
    ∧ (∀ actor, actor ∈ actors ↔ ∃ command, (s.standing.ledgers k).Holds actor command)
    ∧ (s.standing.ledgers k).trackedActors = actors.length

namespace Session

variable {k n m : Nat} {s s' : Session α σ} {actor : ActorId} {command : CommandId}

/-- An invocation that has not failed has ended well or is in progress. -/
theorem InOrder.unfailed_iff (h : s.InOrder) : Unfailed s.journal actor command n
    ↔ Succeeded s.journal actor command n ∨ InProgress s.journal actor command n := by
  constructor
  · rintro ⟨wait, hinvoked, hunfailed⟩
    by_cases hwell : ⟨n, .ended true⟩ ∈ s.journal
    · exact .inl ⟨wait, hinvoked, hwell⟩
    · exact .inr ⟨wait, hinvoked, fun well => by cases well <;> assumption⟩
  · rintro (⟨wait, hinvoked, hwell⟩ | ⟨wait, hinvoked, hunended⟩)
    · exact ⟨wait, hinvoked, h.ended_once hwell⟩
    · exact ⟨wait, hinvoked, hunended false⟩

theorem Kept.usedOnce (h : s.Kept k) (horder : s.InOrder) : s.UsedOnce k where
  exclusive := h.exclusive
  once _ _ _ _ hm hn :=
    h.exclusive.unique (horder.unfailed_iff.mpr (.inl hm)) (horder.unfailed_iff.mpr (.inl hn))
  sole n := Happening.length_filter_isInvoked_le_one (horder.inOrder n)
  slots actor command := (h.holds actor command).trans (exists_congr fun _ => horder.unfailed_iff)
  filled := h.tidy.toFilled
  tracked := h.tidy.toFilled.trackedActors

end Session

namespace Dispatcher

open Happening Session

variable {d : Dispatcher α σ} {nested : Nested α σ} {k p n : Nat} {winner : Trial α} {o : Outline}
  {s s' : Session α σ} {actor : Actor} {input : String}

theorem Course.ended_of_error {e : DispatchError}
    (h : d.Course nested n winner s o (.error e) s') : o.ended ≠ some true := by
  cases h <;> simp [Outline.refusedAt, Outline.cancelled, Outline.failed]

/-- A dispatch that answers an error has not ended well itself. -/
theorem not_succeeded_of_error {depth : Nat} {e : DispatchError} (horder : s.InOrder)
    (h : d.dispatch depth actor input s = some (.error e, s')) :
    ⟨s.nextDispatch, .ended true⟩ ∉ s'.journal := by
  intro hwell
  cases depth with
  | zero => cases h
  | succ depth =>
    obtain ⟨hhost, _⟩ | ⟨winner, s₁, o, hchooses, hcourse⟩ := dispatch_cases h
    · rw [hhost.sameRecord.journal] at hwell
      exact Nat.lt_irrefl _ (horder.numbered _ hwell)
    · obtain ⟨entries, hgrows, hown⟩ :=
        hcourse.grows (fun _ _ _ _ hrun => runScript_grows hrun) h hchooses
      rw [hgrows.journal] at hwell
      rcases List.mem_append.mp hwell with hwell | hwell
      · exact Nat.lt_irrefl _ (horder.numbered _ hwell)
      · rw [← mem_happeningsOf, hown] at hwell
        exact hcourse.ended_of_error (Outline.mem_happenings.mp hwell)

/-- The slots after a dispatch: those before it, and those of the invocations in it that have ended
well. -/
theorem Grows.holds_iff {entries : List Entry} (hkept : s.Kept k) (hkept' : s'.Kept k)
    (horder' : s'.InOrder) (hgrows : d.Grows s s' entries) (actor : ActorId)
    (command : CommandId) : (s'.standing.ledgers k).Holds actor command
      ↔ (s.standing.ledgers k).Holds actor command
        ∨ ∃ n, s.nextDispatch ≤ n ∧ Succeeded s'.journal actor command n := by
  have hearlier : ∀ {n x}, n < s.nextDispatch → (⟨n, x⟩ ∈ s'.journal ↔ ⟨n, x⟩ ∈ s.journal) := by
    intro n x hn
    rw [hgrows.journal, List.mem_append]
    exact or_iff_left fun hmem => Nat.not_le_of_lt hn (hgrows.numbered _ hmem).1
  rw [hkept.holds, hkept'.holds]
  constructor
  · rintro ⟨n, hn⟩
    have hlast := hn.choose_spec.1
    rcases Nat.lt_or_ge n s.nextDispatch with hlt | hge
    · obtain ⟨wait, hinvoked, hunfailed⟩ := hn
      exact .inl ⟨n, wait, (hearlier hlt).mp hinvoked, fun h => hunfailed ((hearlier hlt).mpr h)⟩
    · -- what was invoked since then has come to its end
      refine .inr ⟨n, hge, (horder'.unfailed_iff.mp hn).resolve_right ?_⟩
      rintro ⟨wait, hinvoked, hunended⟩
      have hown : ⟨n, .invoked actor command (some wait)⟩ ∈ entries := by
        rw [hgrows.journal] at hinvoked
        refine (List.mem_append.mp hinvoked).resolve_left fun hmem => ?_
        exact Nat.not_le_of_lt (hkept.numbered _ hmem) hge
      have horderly := (hgrows.conducted n hge (hkept'.numbered _ hlast)).orderly
      obtain ⟨well, hended⟩ := horderly.ended _ (mem_happeningsOf.mpr hown) rfl
      refine hunended well ?_
      rw [hgrows.journal]
      exact List.mem_append_right _ (mem_happeningsOf.mp hended)
  · rintro (⟨n, hn⟩ | ⟨n, _, hn⟩)
    · have hlt := hkept.numbered _ hn.choose_spec.1
      obtain ⟨wait, hinvoked, hunfailed⟩ := hn
      exact ⟨n, wait, (hearlier hlt).mpr hinvoked, fun h => hunfailed ((hearlier hlt).mp h)⟩
    · exact ⟨n, horder'.unfailed_iff.mpr (.inl hn)⟩

/-- Where one condition keeps the cooldowns, all positive, and none elapses: at any time, also while
actions are under way, no actor uses a command with a cooldown twice, and the slots are those of the
uses; a dispatch that answers an error leaves what was there and the uses that ended well inside it;
and no call, of whichever condition, leaves an empty table. -/
theorem underway_usedOnce (hsole : d.SoleCooldown k p) (h : d.Underway k s)
    (hpositive : PositiveCooldowns s.journal) :
    s.UsedOnce k
      ∧ (∀ depth actor input e s', d.dispatch depth actor input s = some (.error e, s') →
        PositiveCooldowns s'.journal → ∀ actor command,
          (s'.standing.ledgers k).Holds actor command
            ↔ (s.standing.ledgers k).Holds actor command
              ∨ ∃ n, s.nextDispatch < n ∧ Succeeded s'.journal actor command n)
      ∧ ∀ c x before after, d.Call c x before after → (before.ledgers k).Filled →
        (after.ledgers k).Filled := by
  have hkept := h.kept hsole hpositive
  refine ⟨hkept.usedOnce h.inOrder, ?_, fun _ _ _ _ hcall => hcall.filled⟩
  intro depth actor input e s' hdispatch hpositive' a command
  obtain ⟨entries, hgrows⟩ := dispatch_grows hdispatch
  have hlater := h.dispatched hdispatch
  rw [hgrows.holds_iff hkept (hlater.kept hsole hpositive') hlater.inOrder]
  refine or_congr_right (exists_congr fun n => and_congr_left fun hn => ?_)
  refine ⟨fun hle => Nat.lt_of_le_of_ne hle ?_, Nat.le_of_lt⟩
  rintro rfl
  obtain ⟨_, _, hwell⟩ := hn
  exact not_succeeded_of_error h.inOrder hdispatch hwell

/-- After one use that ended well the actor holds the slot, and still does when a second attempt has
been held back. -/
theorem usedOnce_halt :
    ∃ s s' answer e, guarded.dispatch 1 default "halt" halting = some (.ok answer, s)
      ∧ guarded.dispatch 1 default "halt" s = some (.error e, s')
      ∧ s.UsedOnce 0 ∧ (s'.standing.ledgers 0).Holds default ⟨0⟩ := by
  obtain ⟨s, s', answer, e, hfirst, hsecond, hjournal, hjournal', hholds⟩ :
      ∃ s s' answer e, guarded.dispatch 1 default "halt" halting = some (.ok answer, s)
        ∧ guarded.dispatch 1 default "halt" s = some (.error e, s')
        ∧ s.journal = entriesOf 0 [.claimed 0, .claimed 1, .asked 0 true,
          .invoked default ⟨0⟩ (some ⟨5⟩), .ended true, .confirmed 0, .confirmed 1]
        ∧ s'.journal = s.journal ∧ (s.standing.ledgers 0).Holds default ⟨0⟩ :=
    ⟨_, _, _, _, rfl, rfl, rfl, rfl, ⟨5⟩, rfl⟩
  have hsole : guarded.SoleCooldown 0 1 := by
    refine ⟨rfl, fun i other hplace => ?_⟩
    match i with
    | 0 => cases hplace
    | 1 => rfl
    | i + 2 => cases hplace
  have hstart : guarded.Underway 0 halting := .elsewhere (.start ⟨0⟩ ()) ⟨rfl, rfl, rfl, rfl⟩
  have hpositive : PositiveCooldowns s.journal := by
    intro n actor command wait hmem
    rw [hjournal, mem_entriesOf] at hmem
    have hwait : wait = ⟨5⟩ := by
      simp only [List.mem_cons, reduceCtorEq, Happening.invoked.injEq, Option.some.injEq,
        List.not_mem_nil, or_false, false_or] at hmem
      exact hmem.2.2.2
    rw [hwait]
    exact Nat.zero_lt_succ 4
  obtain ⟨hused, herror, _⟩ := underway_usedOnce hsole (hstart.dispatched hfirst) hpositive
  refine ⟨s, s', answer, e, hfirst, hsecond, hused, ?_⟩
  exact (herror 1 default "halt" e s' hsecond (hjournal' ▸ hpositive) default ⟨0⟩).mpr (.inl hholds)

end Dispatcher

end CommandGrammar
