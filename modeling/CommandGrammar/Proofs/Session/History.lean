import CommandGrammar.Proofs.Command.Order
import CommandGrammar.Proofs.Session.Frame
import Mathlib.Data.List.Basic
import Mathlib.Data.List.Induction
import Mathlib.Data.List.Nodup
import Mathlib.Data.List.Pairwise

/-!
# What a registry holds

The history of a registry is the list of its events: a command is offered to the hooks, or commands
are removed.  The commands that live are those that every hook accepted and that have not been
removed since.  Whatever the events and their order, a session that comes out of a history holds
exactly the commands that live, ordered by rank and among equals by registration.
-/

set_option autoImplicit false

namespace CommandGrammar

variable {α σ : Type}

/-! ## Histories -/

/-- What happens to a registry. -/
inductive RegistryEvent (α : Type) where
  /-- a command is offered to all hooks, which give their answers -/
  | offered (c : Command α) (answers : List Bool)
  /-- the commands that satisfy a condition are removed -/
  | removed (p : Command α → Bool)

namespace RegistryEvent

/-- What an event makes of the commands that live. -/
def after (lives : List (Command α)) : RegistryEvent α → List (Command α)
  | .offered c answers => if answers.all id then lives ++ [c] else lives
  | .removed p => lives.filter fun c => !p c

/-- The command that is offered. -/
def offer? : RegistryEvent α → Option (Command α)
  | .offered c _ => some c
  | .removed _ => none

/-- The command that is offered and accepted. -/
def added? : RegistryEvent α → Option (Command α)
  | .offered c answers => if answers.all id then some c else none
  | .removed _ => none

end RegistryEvent

/-- The commands that were accepted and have not been removed, in the order of their
registration. -/
def living (events : List (RegistryEvent α)) : List (Command α) :=
  events.foldl RegistryEvent.after []

/-- The commands that were offered, whether or not they were accepted. -/
def offers (events : List (RegistryEvent α)) : List (Command α) :=
  events.filterMap RegistryEvent.offer?

/-- The commands that were accepted, whether or not they have been removed. -/
def added (events : List (RegistryEvent α)) : List (Command α) :=
  events.filterMap RegistryEvent.added?

@[simp] theorem living_append_singleton (events : List (RegistryEvent α)) (e : RegistryEvent α) :
    living (events ++ [e]) = e.after (living events) := by
  simp [living]

@[simp] theorem offers_append (events others : List (RegistryEvent α)) :
    offers (events ++ others) = offers events ++ offers others := by
  simp [offers]

@[simp] theorem offers_offered (c : Command α) (answers : List Bool) :
    offers [.offered c answers] = [c] := rfl

@[simp] theorem offers_removed (p : Command α → Bool) : offers [.removed p] = [] := rfl

@[simp] theorem added_append (events others : List (RegistryEvent α)) :
    added (events ++ others) = added events ++ added others := by
  simp [added]

@[simp] theorem added_offered (c : Command α) (answers : List Bool) :
    added [.offered c answers] = if answers.all id then [c] else [] := by
  rw [added, List.filterMap_cons, RegistryEvent.added?]
  cases answers.all id <;> rfl

@[simp] theorem added_removed (p : Command α → Bool) : added [.removed p] = [] := rfl

/-- What lives was added, and in this order. -/
theorem living_sublist_added (events : List (RegistryEvent α)) :
    (living events).Sublist (added events) := by
  induction events using List.reverseRecOn with
  | nil => exact .slnil
  | append_singleton events e ih =>
    rw [living_append_singleton, added_append]
    cases e with
    | offered c answers =>
      rw [RegistryEvent.after, added_offered]
      split
      · exact ih.append (.refl _)
      · rwa [List.append_nil]
    | removed p =>
      rw [RegistryEvent.after, added_removed, List.append_nil]
      exact List.filter_sublist.trans ih

/-- What was added was offered, and in this order. -/
theorem added_sublist_offers (events : List (RegistryEvent α)) :
    (added events).Sublist (offers events) := by
  induction events using List.reverseRecOn with
  | nil => exact .slnil
  | append_singleton events e ih =>
    rw [added_append, offers_append]
    cases e with
    | offered c answers =>
      rw [added_offered, offers_offered]
      split
      · exact ih.append (.refl _)
      · exact ih.append (List.nil_sublist _)
    | removed p => exact ih.append (.refl _)

namespace Dispatcher

/-- What the hooks answer, one after another, when a command is offered. -/
def answers (c : Command α) : List (Hook α σ) → σ → List Bool
  | [], _ => []
  | hook :: rest, host =>
    (hook.registering c host).1 :: answers c rest (hook.registering c host).2

/-- The event of offering a command. -/
def offering (d : Dispatcher α σ) (c : Command α) (s : Session α σ) : RegistryEvent α :=
  .offered c (answers c d.hooks s.standing.host)

end Dispatcher

/-- A history leads to a session, between calls or while an action is running.  Identities are given
out once, so a command is offered only if none with its identity is registered; once it has been
removed it may come back.  What happens elsewhere keeps the commands and takes back no identity. -/
inductive Reached (d : Dispatcher α σ) : List (RegistryEvent α) → Session α σ → Prop where
  | start (now : Instant) (host : σ) : Reached d [] (.start now host)
  | elsewhere {events : List (RegistryEvent α)} {s s' : Session α σ} (h : Reached d events s)
      (hcommands : s'.commands = s.commands) (hnextId : s.nextId ≤ s'.nextId) : Reached d events s'
  | register {events : List (RegistryEvent α)} {s : Session α σ} (h : Reached d events s)
      {c : Command α} (hcompiled : c.Compiled) (hid : c.id.number < s.nextId)
      (hnew : c.id ∉ s.commands.map Command.id) :
      Reached d (events ++ [d.offering c s]) (d.register c s).2
  | unregister {events : List (RegistryEvent α)} {s : Session α σ} (h : Reached d events s)
      (id : CommandId) :
      Reached d (events ++ [.removed fun c => decide (c.id = id)]) (d.unregister id s).2
  | unregisterIf {events : List (RegistryEvent α)} {s : Session α σ} (h : Reached d events s)
      (p : Command α → Bool) : Reached d (events ++ [.removed p]) (d.unregisterIf p s).2

/-! ## The calls of the registry -/

section Calls

variable {d : Dispatcher α σ} {c : Command α} {s : Session α σ}

theorem askRegistering_fst (c : Command α) (hooks : List (Hook α σ)) (host : σ) :
    (Dispatcher.askRegistering c hooks host).1 = (Dispatcher.answers c hooks host).all id := by
  induction hooks generalizing host with
  | nil => rfl
  | cons hook rest ih => simp [Dispatcher.askRegistering, Dispatcher.answers, ih]

theorem commands_register :
    (d.register c s).2.commands
      = if (Dispatcher.answers c d.hooks s.standing.host).all id then insertRanked c s.commands
        else s.commands := by
  rw [← askRegistering_fst]
  unfold Dispatcher.register
  cases hasked : Dispatcher.askRegistering c d.hooks s.standing.host with
  | mk allowed host => cases allowed <;> rfl

/-- A command that is accepted is given back. -/
theorem fst_register_toList :
    (d.register c s).1.toList
      = if (Dispatcher.answers c d.hooks s.standing.host).all id then [c] else [] := by
  rw [← askRegistering_fst]
  unfold Dispatcher.register
  cases hasked : Dispatcher.askRegistering c d.hooks s.standing.host with
  | mk allowed host => cases allowed <;> rfl

theorem nextId_register : (d.register c s).2.nextId = s.nextId := by
  unfold Dispatcher.register
  cases hasked : Dispatcher.askRegistering c d.hooks s.standing.host with
  | mk allowed host => cases allowed <;> rfl

/-- Where identities occur once, removing the first command with one removes all. -/
theorem eraseP_id_eq_filter {commands : List (Command α)} (id : CommandId)
    (h : (commands.map Command.id).Nodup) :
    commands.eraseP (fun c => decide (c.id = id))
      = commands.filter fun c => !decide (c.id = id) := by
  induction commands with
  | nil => rfl
  | cons c rest ih =>
    obtain ⟨hnew, hrest⟩ := List.nodup_cons.mp h
    by_cases hc : c.id = id
    · subst hc
      have hothers : rest.filter (fun e => !decide (e.id = c.id)) = rest := by
        apply List.filter_eq_self.mpr
        intro e he
        have hne : e.id ≠ c.id := by
          intro heq
          exact hnew (heq ▸ List.mem_map_of_mem he)
        simpa using hne
      simp [hothers]
    · simp [hc, ih hrest]

theorem commands_unregister {id : CommandId} (h : (s.commands.map Command.id).Nodup) :
    (d.unregister id s).2.commands = s.commands.filter fun c => !decide (c.id = id) := by
  unfold Dispatcher.unregister
  cases hfind : s.command? id with
  | none =>
    refine (List.filter_eq_self.mpr ?_).symm
    intro c hc
    have hnone := List.find?_eq_none.mp hfind c hc
    simpa using hnone
  | some c => exact eraseP_id_eq_filter id h

theorem nextId_unregister {id : CommandId} : (d.unregister id s).2.nextId = s.nextId := by
  unfold Dispatcher.unregister
  cases s.command? id <;> rfl

end Calls

/-! ## What a history leaves -/

namespace Reached

variable {d : Dispatcher α σ} {events : List (RegistryEvent α)} {s : Session α σ}

/-- What has been offered is compiled, and its identity is not given out again. -/
theorem offers_known (h : Reached d events s) :
    ∀ c ∈ offers events, c.Compiled ∧ c.id.number < s.nextId := by
  induction h with
  | start => exact List.forall_mem_nil _
  | elsewhere _ _ hnextId ih =>
    exact fun c hc => ⟨(ih c hc).1, Nat.lt_of_lt_of_le (ih c hc).2 hnextId⟩
  | @register events s _ c hcompiled hid _ ih =>
    rw [offers_append, Dispatcher.offering, offers_offered, nextId_register]
    intro e he
    rcases List.mem_append.mp he with he | he
    · exact ih e he
    · rw [List.mem_singleton.mp he]
      exact ⟨hcompiled, hid⟩
  | unregister _ id ih =>
    rw [offers_append, offers_removed, List.append_nil, nextId_unregister]
    exact ih
  | unregisterIf _ p ih =>
    rw [offers_append, offers_removed, List.append_nil]
    exact ih

/-- No two registered commands have one identity. -/
theorem nodup_commands (h : Reached d events s) : (s.commands.map Command.id).Nodup := by
  induction h with
  | start => exact .nil
  | elsewhere _ hcommands _ ih => rwa [hcommands]
  | @register _ s _ c _ _ hnew ih =>
    rw [commands_register]
    split
    · have hperm := (perm_insertRanked c s.commands).map Command.id
      exact hperm.nodup_iff.mpr (List.nodup_cons.mpr ⟨hnew, ih⟩)
    · exact ih
  | @unregister _ s _ id ih =>
    rw [commands_unregister ih]
    exact ih.sublist (List.filter_sublist.map Command.id)
  | unregisterIf _ p ih => exact ih.sublist (List.filter_sublist.map Command.id)

/-- A session holds exactly the commands that live. -/
theorem perm_living (h : Reached d events s) : s.commands.Perm (living events) := by
  induction h with
  | start => exact .nil
  | elsewhere _ hcommands _ ih => rwa [hcommands]
  | @register events s _ c _ _ _ ih =>
    rw [commands_register, living_append_singleton, Dispatcher.offering, RegistryEvent.after]
    split
    · exact (perm_insertRanked c s.commands).trans
        ((ih.cons c).trans (List.perm_append_singleton c _).symm)
    · exact ih
  | @unregister events s h id ih =>
    rw [living_append_singleton, RegistryEvent.after, commands_unregister h.nodup_commands]
    exact ih.filter _
  | unregisterIf _ p ih =>
    rw [living_append_singleton, RegistryEvent.after]
    exact ih.filter _

theorem subset_added (h : Reached d events s) : s.commands ⊆ added events :=
  fun _ hc => (living_sublist_added events).subset (h.perm_living.mem_iff.mp hc)

theorem id_lt (h : Reached d events s) {c : Command α} (hc : c ∈ s.commands) :
    c.id.number < s.nextId :=
  (h.offers_known c ((added_sublist_offers events).subset (h.subset_added hc))).2

/-- A session holds its commands in the order of their ranks. -/
theorem ranked_commands (h : Reached d events s) (horderable : Command.Orderable (added events)) :
    Command.Ranked s.commands := by
  induction h with
  | start => exact .nil
  | elsewhere _ hcommands _ ih =>
    rw [hcommands]
    exact ih horderable
  | @register events s h c _ _ _ ih =>
    rw [added_append, Dispatcher.offering, added_offered] at horderable
    rw [commands_register]
    split
    · next haccepted =>
      rw [if_pos haccepted] at horderable
      have hbefore := ih (horderable.subset (List.subset_append_left _ _))
      refine ranked_insertRanked (horderable.subset ?_) hbefore
      refine List.cons_subset.mpr ⟨by simp, ?_⟩
      intro e he
      exact List.mem_append_left _ (h.subset_added he)
    · next hrejected =>
      rw [if_neg hrejected, List.append_nil] at horderable
      exact ih horderable
  | @unregister events s h id ih =>
    rw [added_append, added_removed, List.append_nil] at horderable
    rw [commands_unregister h.nodup_commands]
    exact (ih horderable).filter _
  | unregisterIf _ p ih =>
    rw [added_append, added_removed, List.append_nil] at horderable
    exact (ih horderable).filter _

/-- Among commands of one rank, a session keeps the order of their registration. -/
theorem filter_commands (h : Reached d events s) {x : Command α}
    (horderable : Command.Orderable (x :: added events)) :
    s.commands.filter (fun e => decide (x.rank e = .eq))
      = (living events).filter fun e => decide (x.rank e = .eq) := by
  induction h with
  | start => rfl
  | elsewhere _ hcommands _ ih =>
    rw [hcommands]
    exact ih horderable
  | @register events s h c _ _ _ ih =>
    rw [added_append, Dispatcher.offering, added_offered] at horderable
    rw [commands_register, living_append_singleton, Dispatcher.offering, RegistryEvent.after]
    split
    · next haccepted =>
      rw [if_pos haccepted] at horderable
      have hsub : x :: added events ⊆ x :: (added events ++ [c]) :=
        List.cons_subset_cons x (List.subset_append_left _ _)
      have hbefore := ih (horderable.subset hsub)
      have hranked := h.ranked_commands
        ((horderable.subset hsub).subset (List.subset_cons_self x (added events)))
      have hinsert : x :: c :: s.commands ⊆ x :: (added events ++ [c]) := by
        refine List.cons_subset_cons x (List.cons_subset.mpr ⟨by simp, ?_⟩)
        intro e he
        exact List.mem_append_left _ (h.subset_added he)
      rw [filter_insertRanked (horderable.subset hinsert) hranked, List.filter_append, hbefore,
        List.filter_append]
    · next hrejected =>
      rw [if_neg hrejected, List.append_nil] at horderable
      exact ih horderable
  | @unregister events s h id ih =>
    rw [added_append, added_removed, List.append_nil] at horderable
    rw [commands_unregister h.nodup_commands, living_append_singleton, RegistryEvent.after,
      List.filter_comm, ih horderable, List.filter_comm]
  | @unregisterIf events s _ p ih =>
    rw [added_append, added_removed, List.append_nil] at horderable
    rw [living_append_singleton, RegistryEvent.after, List.filter_comm, ← ih horderable]
    exact List.filter_comm _ _ _

end Reached

/-! ## The registry -/

/-- All commands that were added have a priority, or none has.  This counts those that have been
removed since: one without a priority may have stood between two that have one, which stay where
they are when it goes. -/
def SamePriorities (events : List (RegistryEvent α)) : Prop :=
  (∀ c ∈ added events, c.metadata.priority.isSome = true)
    ∨ ∀ c ∈ added events, c.metadata.priority.isSome = false

/-- What a registry holds at the end of a history. -/
structure HoldsLiving (events : List (RegistryEvent α)) (commands : List (Command α)) : Prop where
  /-- the commands that live, and no others -/
  exactly : commands.Perm (living events)
  once : (commands.map Command.id).Nodup
  /-- none stands behind one that it ranks higher than -/
  ranked : commands.Pairwise fun a b => a.rank b ≠ .gt
  /-- those of one rank stand as they were registered -/
  inOrder : ∀ x ∈ commands, commands.filter (fun e => decide (x.rank e = .eq))
    = (living events).filter fun e => decide (x.rank e = .eq)

section Registry

variable {d d' : Dispatcher α σ} {events events' : List (RegistryEvent α)} {s s' : Session α σ}

theorem Reached.orderable (h : Reached d events s) (hpriorities : SamePriorities events) :
    Command.Orderable (added events) where
  compiled := by
    intro c hc
    exact (h.offers_known c ((added_sublist_offers events).subset hc)).1
  priorities := hpriorities

theorem Reached.holdsLiving (h : Reached d events s) (hpriorities : SamePriorities events) :
    HoldsLiving events s.commands where
  exactly := h.perm_living
  once := h.nodup_commands
  ranked := h.ranked_commands (h.orderable hpriorities)
  inOrder := by
    intro x hx
    refine h.filter_commands ((h.orderable hpriorities).subset ?_)
    exact List.cons_subset.mpr ⟨h.subset_added hx, List.Subset.refl _⟩

/-- Where no two commands that live have the same rank, their order of registration is lost. -/
theorem commands_eq_of_perm_living (h : Reached d events s) (h' : Reached d' events' s')
    (hpriorities : SamePriorities events) (hpriorities' : SamePriorities events')
    (hperm : (living events).Perm (living events'))
    (hdistinct : (living events).Pairwise fun a b => a.rank b ≠ .eq) :
    s.commands = s'.commands := by
  have horderable := (h.orderable hpriorities).subset h.subset_added
  have hliving : ∀ a ∈ living events, a ∈ s.commands := fun a ha => h.perm_living.mem_iff.mpr ha
  have hkeys : (living events).Pairwise fun a b => a.byRank b ≠ .eq :=
    hdistinct.imp_of_mem fun ha hb hab => by
      rwa [horderable.rank_eq (hliving _ ha) (hliving _ hb)] at hab
  have hsame : s.commands.Perm s'.commands :=
    (h.perm_living.trans hperm).trans h'.perm_living.symm
  have hranked := h.ranked_commands (h.orderable hpriorities)
  have hranked' := h'.ranked_commands (h'.orderable hpriorities')
  refine eq_of_perm_of_ranked horderable hsame hranked hranked' ?_
  intro a ha b hb hrank
  by_contra hne
  rw [horderable.rank_eq ha hb] at hrank
  have hsymm : Std.Symm fun a b : Command α => a.byRank b ≠ .eq :=
    ⟨fun _ _ hab => mt Std.OrientedCmp.eq_symm hab⟩
  exact hkeys.forall (h.perm_living.mem_iff.mp ha) (h.perm_living.mem_iff.mp hb) hne hrank

end Registry

end CommandGrammar
