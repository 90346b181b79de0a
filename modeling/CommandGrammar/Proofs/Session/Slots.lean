import CommandGrammar.Session.Ledger

/-!
# The slots of a ledger

An actor and a command have a slot in a ledger while an instant is recorded for them.  Recording
takes a slot, erasing gives it back, and dropping what has elapsed gives back all whose instant has
come.  An actor is tracked only as long as there is a slot left.
-/

set_option autoImplicit false

namespace CommandGrammar

namespace Ledger

/-! ## Looking up -/

section Lookup

variable {κ β : Type} [DecidableEq κ]

theorem mem_of_lookup {key : κ} {b : β} {entries : List (κ × β)}
    (h : entries.lookup key = some b) : (key, b) ∈ entries := by
  obtain ⟨before, after, rfl, _⟩ := List.lookup_eq_some_iff.mp h
  exact List.mem_append_right before List.mem_cons_self

/-- Without a key, nothing else is lost. -/
theorem lookup_without (key other : κ) (entries : List (κ × β)) :
    (without key entries).lookup other = if other = key then none else entries.lookup other := by
  induction entries with
  | nil => simp [without]
  | cons entry rest ih =>
    obtain ⟨k, b⟩ := entry
    unfold without at ih ⊢
    by_cases hkey : k = key
    · subst hkey
      rw [List.filter_cons_of_neg (by simp), ih]
      split
      · rfl
      · next hne => rw [List.lookup_cons, beq_false_of_ne hne]
    · rw [List.filter_cons_of_pos (by simpa using hkey), List.lookup_cons, List.lookup_cons, ih]
      split
      · next heq =>
        rw [if_neg]
        rw [eq_of_beq heq]
        exact hkey
      · rfl

/-- A key that is put behind all others is found there. -/
theorem lookup_without_append (key other : κ) (b : β) (entries : List (κ × β)) :
    (without key entries ++ [(key, b)]).lookup other
      = if other = key then some b else entries.lookup other := by
  rw [List.lookup_append, lookup_without]
  split
  · next heq =>
    subst heq
    simp
  · next hne => simp [List.lookup_cons, beq_false_of_ne hne]

/-- Replacing what stands at a key changes only what is found there. -/
theorem lookup_map_replace (key other : κ) (b : β) (entries : List (κ × β)) :
    (entries.map fun entry => if entry.1 = key then (key, b) else entry).lookup other
      = if other = key then (entries.lookup other).map fun _ => b else entries.lookup other := by
  induction entries with
  | nil => simp
  | cons entry rest ih =>
    obtain ⟨k, v⟩ := entry
    rw [List.map_cons, List.lookup_cons, List.lookup_cons, ih]
    by_cases hother : other = k
    · subst hother
      by_cases hkey : other = key <;> simp [hkey]
    · rw [beq_false_of_ne hother]
      by_cases hkey : k = key
      · subst hkey
        simp [beq_false_of_ne hother, hother]
      · simp only [hkey, if_false, beq_false_of_ne hother]

end Lookup

variable {l : Ledger} {now t : Instant} {actor actor' : ActorId} {command command' : CommandId}

theorem tableOf_record (l : Ledger) (actor actor' : ActorId) (command : CommandId) (t : Instant) :
    (l.record actor command t).tableOf actor'
      = if actor' = actor then without command (l.tableOf actor) ++ [(command, t)]
        else l.tableOf actor' := by
  unfold record
  dsimp only
  rw [tableOf, lookup_without_append]
  split <;> rfl

theorem tableOf_erase (l : Ledger) (actor actor' : ActorId) (command : CommandId) :
    (l.erase actor command).tableOf actor'
      = if actor' = actor then without command (l.tableOf actor) else l.tableOf actor' := by
  unfold erase
  dsimp only
  split
  · next hempty =>
    rw [tableOf, lookup_without]
    split
    · exact (List.isEmpty_iff.mp hempty).symm
    · rfl
  · next hempty =>
    rw [tableOf, lookup_map_replace]
    split
    · next heq =>
      subst heq
      cases hfound : l.tables.lookup actor' with
      | none =>
        refine absurd ?_ hempty
        simp [tableOf, hfound, without]
      | some table => rfl
    · rfl

/-! ## Slots -/

/-- An instant is recorded for an actor and a command. -/
def Holds (l : Ledger) (actor : ActorId) (command : CommandId) : Prop :=
  ∃ t, (l.tableOf actor).lookup command = some t

theorem holds_empty (actor : ActorId) (command : CommandId) : ¬ empty.Holds actor command :=
  fun ⟨_, h⟩ => nomatch h

/-- Recording takes one slot. -/
theorem holds_record : (l.record actor command t).Holds actor' command'
    ↔ (actor' = actor ∧ command' = command) ∨ l.Holds actor' command' := by
  unfold Holds
  rw [tableOf_record]
  by_cases hactor : actor' = actor
  · subst hactor
    rw [if_pos rfl, lookup_without_append]
    by_cases hcommand : command' = command <;> simp [hcommand]
  · simp [hactor]

/-- Erasing gives back one slot. -/
theorem holds_erase : (l.erase actor command).Holds actor' command'
    ↔ l.Holds actor' command' ∧ ¬ (actor' = actor ∧ command' = command) := by
  unfold Holds
  rw [tableOf_erase]
  by_cases hactor : actor' = actor
  · subst hactor
    rw [if_pos rfl, lookup_without]
    by_cases hcommand : command' = command <;> simp [hcommand]
  · simp [hactor]

/-! ## Tables -/

/-- Each actor has one table at most, and no table is empty. -/
structure Filled (l : Ledger) : Prop where
  actors : (l.tables.map Prod.fst).Nodup
  filled : ∀ table ∈ l.tables, table.2 ≠ []

theorem filled_empty : empty.Filled := ⟨List.nodup_nil, List.forall_mem_nil _⟩

theorem nodup_keys_filter {κ β : Type} {p : κ × β → Bool} {entries : List (κ × β)}
    (h : (entries.map Prod.fst).Nodup) : ((entries.filter p).map Prod.fst).Nodup :=
  h.sublist (List.filter_sublist.map _)

theorem Filled.prune (h : l.Filled) (now : Instant) : (l.prune now).Filled where
  actors := by
    refine nodup_keys_filter ?_
    rw [List.map_map]
    exact h.actors
  filled := by
    intro table htable
    have hfilled := (List.mem_filter.mp htable).2
    simpa using hfilled

theorem Filled.record (h : l.Filled) : (l.record actor command t).Filled where
  actors := by
    unfold Ledger.record without
    rw [List.map_append]
    refine List.nodup_append.mpr ⟨nodup_keys_filter h.actors, by simp, ?_⟩
    intro a ha b hb
    obtain ⟨entry, hentry, rfl⟩ := List.mem_map.mp ha
    rw [List.mem_singleton.mp hb]
    simpa using (List.mem_filter.mp hentry).2
  filled := by
    unfold Ledger.record without
    refine List.forall_mem_append.mpr ⟨fun table htable => ?_, ?_⟩
    · exact h.filled table (List.mem_filter.mp htable).1
    · exact List.forall_mem_singleton.mpr (by simp)

theorem Filled.erase (h : l.Filled) : (l.erase actor command).Filled := by
  unfold Ledger.erase
  dsimp only
  split
  · exact ⟨nodup_keys_filter h.actors, fun table htable =>
      h.filled table (List.mem_filter.mp htable).1⟩
  · next hempty =>
    refine ⟨?_, List.forall_mem_map.mpr fun table htable => ?_⟩
    · have hkeys : ∀ table : ActorId × CooldownTable, (if table.1 = actor then
          (actor, without command (l.tableOf actor)) else table).1 = table.1 := by
        intro table
        split
        · next heq => exact heq.symm
        · rfl
      simpa [Function.comp_def, hkeys] using h.actors
    · split
      · simpa using hempty
      · exact h.filled table htable

/-- What a table holds stands in a table of the actor. -/
theorem mem_tableOf {entry : CommandId × Instant} (h : entry ∈ l.tableOf actor) :
    ∃ table ∈ l.tables, table.1 = actor ∧ entry ∈ table.2 := by
  unfold tableOf at h
  cases hfound : l.tables.lookup actor with
  | none =>
    rw [hfound] at h
    cases h
  | some table =>
    rw [hfound] at h
    exact ⟨(actor, table), mem_of_lookup hfound, rfl, h⟩

/-- An actor has a table if it holds a slot, and only then. -/
theorem Filled.mem_actors (h : l.Filled) :
    actor ∈ l.tables.map Prod.fst ↔ ∃ command, l.Holds actor command := by
  constructor
  · intro hmem
    obtain ⟨table, htable, rfl⟩ := List.mem_map.mp hmem
    have hfound : (l.tables.lookup table.1).isSome := by
      rw [List.lookup_isSome_iff]
      exact ⟨table, htable, beq_self_eq_true _⟩
    obtain ⟨entries, hentries⟩ := Option.isSome_iff_exists.mp hfound
    have hne := h.filled _ (mem_of_lookup hentries)
    obtain ⟨⟨command, t⟩, hfirst⟩ := List.exists_mem_of_ne_nil entries hne
    have hslot : (entries.lookup command).isSome := by
      rw [List.lookup_isSome_iff]
      exact ⟨_, hfirst, beq_self_eq_true _⟩
    obtain ⟨u, hu⟩ := Option.isSome_iff_exists.mp hslot
    refine ⟨command, u, ?_⟩
    rw [tableOf, hentries]
    exact hu
  · rintro ⟨command, t, ht⟩
    obtain ⟨table, htable, rfl, _⟩ := mem_tableOf (mem_of_lookup ht)
    exact List.mem_map_of_mem htable

/-- The actors that are tracked are those that hold a slot, each counted once. -/
theorem Filled.trackedActors (h : l.Filled) :
    ∃ actors : List ActorId, actors.Nodup ∧ (∀ a, a ∈ actors ↔ ∃ command, l.Holds a command)
      ∧ l.trackedActors = actors.length :=
  ⟨l.tables.map Prod.fst, h.actors, fun _ => h.mem_actors, (List.length_map _).symm⟩

/-! ## Before anything has elapsed -/

/-- Each actor has one table at most, no table is empty, and no instant has come. -/
structure Tidy (now : Instant) (l : Ledger) : Prop extends Filled l where
  waiting : ∀ table ∈ l.tables, ∀ entry ∈ table.2, now.micros < entry.2.micros

theorem tidy_empty (now : Instant) : empty.Tidy now := ⟨filled_empty, List.forall_mem_nil _⟩

/-- Where nothing has elapsed, nothing is dropped. -/
theorem Tidy.prune_eq (h : l.Tidy now) : l.prune now = l := by
  have hmap : l.tables.map (fun table => (table.1, pruneTable now table.2)) = l.tables := by
    refine (List.map_congr_left fun table htable => ?_).trans (List.map_id _)
    have hall : pruneTable now table.2 = table.2 :=
      List.filter_eq_self.mpr fun entry hentry =>
        decide_eq_true (h.waiting table htable entry hentry)
    rw [hall]
    rfl
  unfold prune
  rw [hmap, List.filter_eq_self.mpr fun table htable => by simpa using h.filled table htable]

/-- Where nothing has elapsed, exactly those that hold a slot have to wait. -/
theorem Tidy.remaining?_eq_none (h : l.Tidy now) :
    l.remaining? now actor command = none ↔ ¬ l.Holds actor command := by
  unfold remaining? Holds
  cases hfound : (l.tableOf actor).lookup command with
  | none => simp
  | some t =>
    obtain ⟨table, htable, _, hentry⟩ := mem_tableOf (mem_of_lookup hfound)
    simp [Instant.timeUntil?, h.waiting table htable _ hentry]

theorem Tidy.record (h : l.Tidy now) (hlater : now.micros < t.micros) :
    (l.record actor command t).Tidy now where
  toFilled := h.toFilled.record
  waiting := by
    unfold Ledger.record
    refine List.forall_mem_append.mpr ⟨fun table htable => ?_, List.forall_mem_singleton.mpr ?_⟩
    · exact h.waiting table (List.mem_filter.mp htable).1
    · refine List.forall_mem_append.mpr ⟨fun entry hentry => ?_, ?_⟩
      · obtain ⟨table, htable, _, hin⟩ := mem_tableOf (List.mem_filter.mp hentry).1
        exact h.waiting table htable entry hin
      · exact List.forall_mem_singleton.mpr hlater

/-- Erasing a slot leaves a tidy ledger if nothing but that slot may have elapsed. -/
theorem tidy_erase_of (h : l.Filled) (hwaiting : ∀ table ∈ l.tables, ∀ entry ∈ table.2,
    (table.1 = actor ∧ entry.1 = command) ∨ now.micros < entry.2.micros) :
    (l.erase actor command).Tidy now where
  toFilled := h.erase
  waiting := by
    have hother : ∀ table ∈ l.tables, table.1 ≠ actor → ∀ entry ∈ table.2,
        now.micros < entry.2.micros := fun table htable hne entry hentry =>
      (hwaiting table htable entry hentry).resolve_left fun hsame => hne hsame.1
    unfold Ledger.erase
    dsimp only
    split
    · exact fun table htable => hother table (List.mem_filter.mp htable).1
        (by simpa using (List.mem_filter.mp htable).2)
    · refine List.forall_mem_map.mpr fun table htable => ?_
      split
      · intro entry hentry
        obtain ⟨hin, hkept⟩ := List.mem_filter.mp hentry
        obtain ⟨source, hsource, _, hfound⟩ := mem_tableOf hin
        exact (hwaiting source hsource entry hfound).resolve_left fun hsame =>
          (of_decide_eq_true hkept) hsame.2
      · next hne => exact hother table htable hne

theorem Tidy.erase (h : l.Tidy now) : (l.erase actor command).Tidy now :=
  tidy_erase_of h.toFilled fun table htable entry hentry =>
    .inr (h.waiting table htable entry hentry)

/-- A slot that is given back leaves a tidy ledger, even if it was taken for no time. -/
theorem Tidy.erase_record (h : l.Tidy now) :
    ((l.record actor command t).erase actor command).Tidy now := by
  refine tidy_erase_of h.toFilled.record ?_
  unfold Ledger.record
  refine List.forall_mem_append.mpr ⟨fun table htable entry hentry => ?_, ?_⟩
  · exact .inr (h.waiting table (List.mem_filter.mp htable).1 entry hentry)
  · refine List.forall_mem_singleton.mpr (List.forall_mem_append.mpr ⟨fun entry hentry => ?_, ?_⟩)
    · obtain ⟨table, htable, _, hin⟩ := mem_tableOf (List.mem_filter.mp hentry).1
      exact .inr (h.waiting table htable entry hin)
    · exact List.forall_mem_singleton.mpr (.inl ⟨rfl, rfl⟩)

/-- Giving back a slot that was just taken leaves the slots as they were. -/
theorem holds_erase_record (h : ¬ l.Holds actor command) :
    ((l.record actor command t).erase actor command).Holds actor' command'
      ↔ l.Holds actor' command' := by
  rw [holds_erase, holds_record]
  constructor
  · rintro ⟨hsame | hholds, hne⟩
    · exact absurd hsame hne
    · exact hholds
  · intro hholds
    refine ⟨.inr hholds, ?_⟩
    rintro ⟨rfl, rfl⟩
    exact h hholds

end Ledger

end CommandGrammar
