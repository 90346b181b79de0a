import CommandGrammar.Proofs.Session.Frame

/-!
# Calls on behalf of a winner

A winner claims conditions, asks hooks, and settles what it has claimed.  Each of these is one call
of one condition or hook, which changes the standing and leaves one entry in the journal.  What a
dispatcher does before and after the action of a winner is a chain of such calls.
-/

set_option autoImplicit false

namespace CommandGrammar

variable {α σ : Type}

/-- Entries of one dispatch. -/
def entriesOf (n : Nat) (happenings : List Happening) : List Entry := happenings.map (Entry.mk n)

@[simp] theorem entriesOf_append (n : Nat) (hs hs' : List Happening) :
    entriesOf n (hs ++ hs') = entriesOf n hs ++ entriesOf n hs' := List.map_append

theorem mem_entriesOf {n : Nat} {hs : List Happening} {e : Entry} :
    e ∈ entriesOf n hs ↔ e.dispatch = n ∧ e.happening ∈ hs := by
  constructor
  · intro he
    obtain ⟨h, hmem, rfl⟩ := List.mem_map.mp he
    exact ⟨rfl, hmem⟩
  · rintro ⟨rfl, hmem⟩
    exact List.mem_map_of_mem hmem

@[simp] theorem Session.note_journal (s : Session α σ) (n : Nat) (happening : Happening) :
    (s.note n happening).journal = s.journal ++ [⟨n, happening⟩] := rfl

namespace Happening

/-- The first conditions are claimed. -/
def claims (k : Nat) : List Happening := (List.range k).map .claimed

/-- The first conditions are confirmed. -/
def confirms (k : Nat) : List Happening := (List.range k).map .confirmed

/-- The first conditions are released. -/
def releases (k : Nat) : List Happening := (List.range k).map .released

/-- The hooks are asked from the given place on. -/
def asksFrom (i : Nat) (answers : List Bool) : List Happening :=
  (answers.zipIdx i).map fun answer => .asked answer.2 answer.1

/-- The hooks are asked. -/
def asks (answers : List Bool) : List Happening := asksFrom 0 answers

end Happening

namespace Dispatcher

open Happening

/-- A call of a condition or a hook for a winner, with what is noted of it and the standing before
and after it. -/
inductive Call (d : Dispatcher α σ) (c : Context) :
    Happening → Standing σ → Standing σ → Prop where
  | claimed {i : Nat} {condition : Condition σ} {before after : Standing σ}
      (hplace : d.conditions[i]? = some condition)
      (hclaim : condition.claim c before = (.ok (), after)) : Call d c (.claimed i) before after
  | refused {i : Nat} {condition : Condition σ} {before after : Standing σ} {e : CommandError}
      (hplace : d.conditions[i]? = some condition)
      (hclaim : condition.claim c before = (.error e, after)) : Call d c (.refused i) before after
  | confirmed {i : Nat} {condition : Condition σ} (before : Standing σ)
      (hplace : d.conditions[i]? = some condition) :
      Call d c (.confirmed i) before (condition.confirm c before)
  | released {i : Nat} {condition : Condition σ} (before : Standing σ)
      (hplace : d.conditions[i]? = some condition) :
      Call d c (.released i) before (condition.release c before)
  | asked {i : Nat} {hook : Hook α σ} {before : Standing σ} {allowed : Bool} {host : σ}
      (hplace : d.hooks[i]? = some hook)
      (hask : hook.executing c before.host = (allowed, host)) :
      Call d c (.asked i allowed) before { before with host := host }

/-- Calls in a row, each of which is noted under the number of the dispatch. -/
inductive Calls (d : Dispatcher α σ) (n : Nat) (c : Context) :
    List Happening → Session α σ → Session α σ → Prop where
  | nil (s : Session α σ) : Calls d n c [] s s
  | cons {h : Happening} {hs : List Happening} {s s' : Session α σ} {after : Standing σ}
      (call : d.Call c h s.standing after)
      (rest : Calls d n c hs (({ s with standing := after }).note n h) s') :
      Calls d n c (h :: hs) s s'

variable {d : Dispatcher α σ} {n : Nat} {c : Context} {s s' s'' : Session α σ}
  {hs hs' : List Happening}

namespace Calls

theorem append (h : d.Calls n c hs s s') (h' : d.Calls n c hs' s' s'') :
    d.Calls n c (hs ++ hs') s s'' := by
  induction h with
  | nil s => exact h'
  | cons call _ ih => exact .cons call (ih h')

theorem split (h : d.Calls n c (hs ++ hs') s s'') :
    ∃ s', d.Calls n c hs s s' ∧ d.Calls n c hs' s' s'' := by
  induction hs generalizing s with
  | nil => exact ⟨s, .nil s, h⟩
  | cons _ hs ih =>
    cases h with
    | cons call rest =>
      obtain ⟨s', hfirst, hlast⟩ := ih rest
      exact ⟨s', .cons call hfirst, hlast⟩

theorem journal (h : d.Calls n c hs s s') : s'.journal = s.journal ++ entriesOf n hs := by
  induction h with
  | nil s => exact (List.append_nil _).symm
  | cons _ _ ih =>
    rw [ih]
    exact List.append_assoc _ _ _

theorem nextDispatch (h : d.Calls n c hs s s') : s'.nextDispatch = s.nextDispatch := by
  induction h with
  | nil s => rfl
  | cons _ _ ih => exact ih

end Calls

/-! ## The calls of a phase -/

/-- Conditions that stand where they say. -/
def Placed (d : Dispatcher α σ) (conditions : List (Condition σ × Nat)) : Prop :=
  ∀ placed ∈ conditions, d.conditions[placed.2]? = some placed.1

theorem placed_placedConditions (d : Dispatcher α σ) : d.Placed d.placedConditions :=
  fun _ hmem => List.mem_zipIdx_iff_getElem?.mp hmem

theorem map_place_placedConditions (d : Dispatcher α σ) :
    d.placedConditions.map Prod.snd = List.range d.conditions.length := by
  rw [placedConditions, List.zipIdx_map_snd, List.range_eq_range']

theorem calls_releaseEach {conditions : List (Condition σ × Nat)} (hplaced : d.Placed conditions)
    (s : Session α σ) :
    d.Calls n c ((conditions.map Prod.snd).map .released) s (releaseEach n c conditions s) := by
  induction conditions generalizing s with
  | nil => exact .nil s
  | cons placed rest ih =>
    obtain ⟨hfirst, hrest⟩ := List.forall_mem_cons.mp hplaced
    exact .cons (.released s.standing hfirst) (ih hrest _)

theorem calls_confirmEach {conditions : List (Condition σ × Nat)} (hplaced : d.Placed conditions)
    (s : Session α σ) :
    d.Calls n c ((conditions.map Prod.snd).map .confirmed) s (confirmEach n c conditions s) := by
  induction conditions generalizing s with
  | nil => exact .nil s
  | cons placed rest ih =>
    obtain ⟨hfirst, hrest⟩ := List.forall_mem_cons.mp hplaced
    exact .cons (.confirmed s.standing hfirst) (ih hrest _)

/-- Where every condition lets the winner through, each was claimed. -/
theorem calls_claimEach_ok {claimed conditions : List (Condition σ × Nat)}
    (hplaced : d.Placed conditions)
    (h : claimEach n c claimed conditions s = (.ok (), s')) :
    d.Calls n c ((conditions.map Prod.snd).map .claimed) s s' := by
  induction conditions generalizing claimed s with
  | nil =>
    cases h
    exact .nil _
  | cons placed rest ih =>
    obtain ⟨hfirst, hrest⟩ := List.forall_mem_cons.mp hplaced
    rw [claimEach] at h
    split at h
    · cases h
    · next hclaim => exact .cons (.claimed hfirst hclaim) (ih hrest h)

/-- Where a condition refuses, those before it were claimed, and are released with those that had
been claimed already. -/
theorem calls_claimEach_error {claimed conditions : List (Condition σ × Nat)} {e : CommandError}
    (hclaimed : d.Placed claimed) (hplaced : d.Placed conditions)
    (h : claimEach n c claimed conditions s = (.error e, s')) :
    ∃ before refusing after, conditions = before ++ refusing :: after
      ∧ d.Calls n c ((before.map Prod.snd).map .claimed ++ .refused refusing.2 ::
        ((claimed ++ before).map Prod.snd).map .released) s s' := by
  induction conditions generalizing claimed s with
  | nil => cases h
  | cons placed rest ih =>
    obtain ⟨hfirst, hrest⟩ := List.forall_mem_cons.mp hplaced
    rw [claimEach] at h
    split at h
    · next hclaim =>
      cases h
      refine ⟨[], placed, rest, rfl, ?_⟩
      rw [List.append_nil]
      exact .cons (.refused hfirst hclaim) (calls_releaseEach hclaimed _)
    · next hclaim =>
      have hlonger : d.Placed (claimed ++ [placed]) :=
        List.forall_mem_append.mpr ⟨hclaimed, List.forall_mem_singleton.mpr hfirst⟩
      obtain ⟨before, refusing, after, rfl, hcalls⟩ := ih hlonger hrest h
      refine ⟨placed :: before, refusing, after, rfl, ?_⟩
      rw [List.append_assoc] at hcalls
      exact .cons (.claimed hfirst hclaim) hcalls

/-- Every hook is asked, whatever those before it answered. -/
theorem calls_askExecuting {hooks : List (Hook α σ)} {first : Nat} {allowed : Bool}
    (hplaced : ∀ placed ∈ hooks.zipIdx first, d.hooks[placed.2]? = some placed.1)
    (h : askExecuting n c (hooks.zipIdx first) s = (allowed, s')) :
    ∃ answers, answers.length = hooks.length ∧ allowed = answers.all id
      ∧ d.Calls n c (asksFrom first answers) s s' := by
  induction hooks generalizing first s allowed with
  | nil =>
    cases h
    exact ⟨[], rfl, rfl, .nil _⟩
  | cons hook rest ih =>
    obtain ⟨hfirst, hrest⟩ := List.forall_mem_cons.mp hplaced
    rw [List.zipIdx_cons, askExecuting] at h
    cases h
    obtain ⟨answers, hlength, hlater, hcalls⟩ := ih hrest rfl
    refine ⟨(hook.executing c s.standing.host).1 :: answers, ?_, ?_, ?_⟩
    · rw [List.length_cons, List.length_cons, hlength]
    · rw [List.all_cons, ← hlater]
      rfl
    · exact .cons (.asked hfirst rfl) hcalls

/-! ## The calls for a winner -/

theorem calls_release (s : Session α σ) :
    d.Calls n c (releases d.conditions.length) s (releaseEach n c d.placedConditions s) := by
  have hcalls := calls_releaseEach (n := n) (c := c) (placed_placedConditions d) s
  rwa [map_place_placedConditions] at hcalls

theorem calls_confirm (s : Session α σ) :
    d.Calls n c (confirms d.conditions.length) s (confirmEach n c d.placedConditions s) := by
  have hcalls := calls_confirmEach (n := n) (c := c) (placed_placedConditions d) s
  rwa [map_place_placedConditions] at hcalls

theorem calls_claim_ok (h : claimEach n c [] d.placedConditions s = (.ok (), s')) :
    d.Calls n c (claims d.conditions.length) s s' := by
  have hcalls := calls_claimEach_ok (placed_placedConditions d) h
  rwa [map_place_placedConditions] at hcalls

/-- A winner is refused by the first condition that does not let it through, and what it had claimed
is released in order. -/
theorem calls_claim_error {e : CommandError}
    (h : claimEach n c [] d.placedConditions s = (.error e, s')) :
    ∃ k < d.conditions.length, d.Calls n c (claims k ++ .refused k :: releases k) s s' := by
  obtain ⟨before, refusing, after, hsplit, hcalls⟩ :=
    calls_claimEach_error (List.forall_mem_nil _) (placed_placedConditions d) h
  have hplaces := map_place_placedConditions d
  rw [hsplit, List.map_append, List.map_cons] at hplaces
  have hlength : before.length < d.conditions.length := by
    have htotal := congrArg List.length hplaces
    simp only [List.length_append, List.length_map, List.length_cons, List.length_range] at htotal
    omega
  have hbefore : before.map Prod.snd = List.range before.length := by
    have htake := congrArg (List.take before.length) hplaces
    rwa [List.take_left' (List.length_map _), List.take_range,
      Nat.min_eq_left (Nat.le_of_lt hlength)] at htake
  have hrefusing : refusing.2 = before.length := by
    have hat := congrArg (fun places => places[before.length]?) hplaces
    simpa [hlength] using hat
  rw [List.nil_append, hbefore, hrefusing] at hcalls
  exact ⟨before.length, hlength, hcalls⟩

theorem calls_ask {allowed : Bool} (h : askExecuting n c d.hooks.zipIdx s = (allowed, s')) :
    ∃ answers, answers.length = d.hooks.length ∧ allowed = answers.all id
      ∧ d.Calls n c (asks answers) s s' :=
  calls_askExecuting (fun _ hmem => List.mem_zipIdx_iff_getElem?.mp hmem) h

end Dispatcher

end CommandGrammar
