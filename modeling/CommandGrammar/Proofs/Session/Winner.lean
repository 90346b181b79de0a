import CommandGrammar.Proofs.Session.History
import CommandGrammar.Proofs.Trial.Acceptance
import CommandGrammar.Proofs.Trial.Interleaving

/-!
# Choosing the winner

Of the successes that a dispatch collects, the winner is the earliest that no other beats.  Trials
are compared by declaration, by having consumed all input, and by chain, which among commands that
their rank orders is an order with ties.  Candidates are tried by rank, so among trials that have
all consumed the input, or have all left some of it, the first success is unbeaten, and the number
of successes after which trials stop does not matter.
-/

set_option autoImplicit false

namespace CommandGrammar

open Std

variable {α σ : Type}

namespace Trial

/-! ## The order of successes -/

/-- Compares successes of commands that their rank orders. -/
def byMerit : Trial α → Trial α → Ordering :=
  compareLex (fun a b => a.command.byDeclaration b.command)
    (compareLex (fun a b => compareOn (fun t => t.consumedAll.toNat) b a)
      (fun a b => a.command.byChain b.command))

instance : TransCmp (byMerit (α := α)) := by
  have hdeclaration := transCmp_on Command.byDeclaration (Trial.command (α := α))
  have hchain := transCmp_on Command.byChain (Trial.command (α := α))
  exact inferInstanceAs (TransCmp (compareLex
    (fun a b : Trial α => a.command.byDeclaration b.command)
    (compareLex (fun a b => compareOn (fun t => t.consumedAll.toNat) b a)
      (fun a b => a.command.byChain b.command))))

/-- Successes of commands that their rank orders. -/
structure Comparable (trials : List (Trial α)) : Prop where
  succeeded : ∀ t ∈ trials, t.succeeded = true
  orderable : Command.Orderable (trials.map Trial.command)

namespace Comparable

variable {trials others : List (Trial α)} {t u : Trial α}

theorem subset (h : Comparable trials) (hsub : others ⊆ trials) : Comparable others :=
  ⟨fun t ht => h.succeeded t (hsub ht), h.orderable.subset (List.map_subset _ hsub)⟩

theorem compare_eq (h : Comparable trials) (ht : t ∈ trials) (hu : u ∈ trials) :
    t.compare u = t.byMerit u := by
  have htCommand := List.mem_map_of_mem (f := Trial.command) ht
  have huCommand := List.mem_map_of_mem (f := Trial.command) hu
  unfold compare byMerit compareLex compareOn
  rw [h.succeeded t ht, h.succeeded u hu, h.orderable.precedence_eq htCommand huCommand,
    h.orderable.specificity_eq htCommand huCommand]
  simp

/-- Among trials that have consumed alike, the rank of the commands decides. -/
theorem compare_eq_rank (h : Comparable trials) (ht : t ∈ trials) (hu : u ∈ trials)
    (hconsumed : t.consumedAll = u.consumedAll) : t.compare u = t.command.rank u.command := by
  unfold compare Command.rank
  rw [h.succeeded t ht, h.succeeded u hu, hconsumed]
  simp

end Comparable

/-! ## The earliest that no other beats -/

/-- The earliest trial of a list that no other of the list compares less than. -/
def EarliestUnbeaten (trials : List (Trial α)) (winner : Trial α) : Prop :=
  ∃ front back, trials = front ++ winner :: back
    ∧ (∀ t ∈ trials, t.compare winner ≠ .lt)
    ∧ ∀ t ∈ front, ∃ u ∈ trials, u.compare t = .lt

theorem EarliestUnbeaten.mem {trials : List (Trial α)} {winner : Trial α}
    (h : EarliestUnbeaten trials winner) : winner ∈ trials := by
  obtain ⟨front, back, rfl, _⟩ := h
  simp

/-- Where the last of a row is the least of it, the last after an insertion is the lesser of the two,
or the one that was there already. -/
theorem getLast?_insertBack {trials row : List (Trial α)} {best t : Trial α}
    (h : Comparable trials) (hrow : row ⊆ trials) (ht : t ∈ trials)
    (hlast : row.getLast? = some best) (hleast : ∀ u ∈ row, u.byMerit best ≠ .lt) :
    (insertBack t row).getLast? = some (if best.byMerit t = .gt then t else best) := by
  induction row with
  | nil => cases hlast
  | cons u row ih =>
    obtain ⟨hu, hrest⟩ := List.cons_subset.mp hrow
    rw [insertBack, h.compare_eq ht hu]
    split
    · next hlt =>
      cases row with
      | nil =>
        obtain rfl : u = best := Option.some.inj hlast
        rw [if_pos (OrientedCmp.gt_of_lt hlt)]
        rfl
      | cons v row =>
        rw [List.getLast?_cons_cons] at hlast
        have hlater := ih hrest hlast fun w hw => hleast w (List.mem_cons_of_mem u hw)
        rw [List.getLast?_cons, hlater]
        rfl
    · next hnot =>
      have hbest := OrientedCmp.isLE_of_isGE (Ordering.isGE_iff_ne_lt.mpr
        (hleast u List.mem_cons_self))
      have hbehind := OrientedCmp.isLE_of_isGE (Ordering.isGE_iff_ne_lt.mpr hnot)
      rw [if_neg (Ordering.isLE_iff_ne_gt.mp (TransCmp.isLE_trans hbest hbehind)),
        List.getLast?_cons_cons]
      exact hlast

/-- Successes that can be compared are sorted with the first of the least in front. -/
theorem exists_firstLeast_sorted {trials : List (Trial α)} (h : Comparable trials)
    (hne : trials ≠ []) :
    ∃ best, (sorted trials).head? = some best ∧ FirstLeast byMerit trials best := by
  induction trials using List.reverseRecOn with
  | nil => exact absurd rfl hne
  | append_singleton trials t ih =>
    unfold sorted at ih ⊢
    rw [List.foldl_append, List.foldl_cons, List.foldl_nil, List.head?_reverse]
    rcases List.eq_nil_or_concat trials with rfl | hconcat
    · exact ⟨t, rfl, firstLeast_singleton t⟩
    · have hsub : trials ⊆ trials ++ [t] := List.subset_append_left _ _
      have hearlier : trials ≠ [] := by
        rintro rfl
        simp at hconcat
      obtain ⟨best, hhead, hfirst⟩ := ih (h.subset hsub) hearlier
      rw [List.head?_reverse] at hhead
      refine ⟨_, ?_, hfirst.append t⟩
      have hrow := (List.reverse_perm _).symm.trans (perm_sorted trials)
      refine getLast?_insertBack h ?_ (by simp) hhead ?_
      · exact fun u hu => hsub (hrow.mem_iff.mp hu)
      · exact fun u hu => hfirst.least u (hrow.mem_iff.mp hu)

/-- The trial to run is the earliest that no other beats. -/
theorem exists_best? {trials : List (Trial α)} (h : Comparable trials) (hne : trials ≠ []) :
    ∃ winner, best? trials = some winner ∧ EarliestUnbeaten trials winner := by
  obtain ⟨winner, hhead, hleast⟩ := exists_firstLeast_sorted h hne
  obtain ⟨front, back, heq, hfront⟩ := hleast.first
  refine ⟨winner, hhead, front, back, heq, ?_, ?_⟩
  · intro t ht
    rw [h.compare_eq ht hleast.mem]
    exact hleast.least t ht
  · intro t ht
    refine ⟨winner, hleast.mem, ?_⟩
    rw [h.compare_eq hleast.mem (heq ▸ List.mem_append_left _ ht)]
    exact hfront t ht

/-- Where trials have consumed alike and are ordered by rank, none beats the first. -/
theorem EarliestUnbeaten.eq_head {first winner : Trial α} {rest : List (Trial α)}
    (h : EarliestUnbeaten (first :: rest) winner) (hcomparable : Comparable (first :: rest))
    (hconsumed : ∀ t ∈ first :: rest, t.consumedAll = first.consumedAll)
    (hranked : Command.Ranked ((first :: rest).map Trial.command)) : winner = first := by
  obtain ⟨front, back, heq, _, hfront⟩ := h
  cases front with
  | nil => exact (List.cons.inj heq).1.symm
  | cons t front =>
    obtain ⟨rfl, _⟩ := List.cons.inj heq
    obtain ⟨u, hu, hlt⟩ := hfront first List.mem_cons_self
    rw [hcomparable.compare_eq_rank hu List.mem_cons_self (hconsumed u hu)] at hlt
    have huCommand := List.mem_map_of_mem (f := Trial.command) hu
    have hfirst : first.command ∈ (first :: rest).map Trial.command := by simp
    rw [hcomparable.orderable.rank_eq huCommand hfirst] at hlt
    rcases List.mem_cons.mp hu with rfl | hmem
    · have hself : u.command.byRank u.command = .eq := ReflCmp.compare_self
      rw [hself] at hlt
      cases hlt
    · have hrank := (List.pairwise_cons.mp hranked).1 u.command (List.mem_map_of_mem hmem)
      rw [hcomparable.orderable.rank_eq hfirst huCommand] at hrank
      exact absurd (OrientedCmp.gt_of_lt hlt) hrank

end Trial

/-! ## The success cap -/

/-- The settings with another success cap. -/
def Settings.capped (settings : Settings) (n : Nat) : Settings :=
  { settings with maxSuccesses := n }

/-- The dispatcher with another success cap. -/
def Dispatcher.capped (d : Dispatcher α σ) (n : Nat) : Dispatcher α σ :=
  { d with settings := d.settings.capped n }

namespace FlagScan

variable (settings : Settings) (n : Nat) (c : Command α)

theorem turn_capped (s : State) : turn (settings.capped n) c s = turn settings c s := rfl

theorem scan_capped (turns : Nat) (s : State) :
    scan (settings.capped n) c turns s = scan settings c turns s := by
  induction turns generalizing s with
  | zero => rfl
  | succ turns ih =>
    rw [scan, scan, turn_capped]
    split
    · rfl
    · rfl
    · exact ih _

/-- The success cap plays no part in reading flags. -/
theorem extract_capped (input : Cursor) (context : Context) :
    extract (settings.capped n) c input context = extract settings c input context := by
  rw [extract_eq, extract_eq, scan_capped]

end FlagScan

namespace Dispatcher

variable {d : Dispatcher α σ} {actor : Actor} {input : String} {s s' : Session α σ}

theorem ofInput_capped (settings : Settings) (n : Nat) (c : Command α) (actor : Actor)
    (input : String) :
    Reading.ofInput (settings.capped n) c actor input = Reading.ofInput settings c actor input := by
  unfold Reading.ofInput
  dsimp only
  rw [FlagScan.extract_capped]

/-- The success cap plays no part in a trial. -/
theorem test_capped (n : Nat) (c : Command α) :
    (d.capped n).test c actor input s = d.test c actor input s := by
  unfold test
  rw [capped, ofInput_capped]
  rfl

theorem testEach_capped (n : Nat) (commands : List (Command α)) :
    (d.capped n).testEach actor input commands s = d.testEach actor input commands s := by
  induction commands generalizing s with
  | nil => rfl
  | cons c rest ih =>
    rw [testEach, testEach, test_capped]
    cases d.test c actor input s with
    | none => rfl
    | some tried =>
      dsimp only
      rw [ih]

theorem cap_capped (n : Nat) : (d.capped n).settings.cap = max 1 n := Nat.max_comm n 1

/-! ## Trials in a row -/

theorem command_ofInput {settings : Settings} {c : Command α} {r : Reading α}
    (h : Reading.ofInput settings c actor input = some r) : r.command = c := by
  have hrest : ∀ rest context notes, (Reading.ofRest c rest context notes).command = c := by
    intro rest context notes
    unfold Reading.ofRest
    split <;> rfl
  unfold Reading.ofInput at h
  dsimp only at h
  split at h
  · split at h
    · cases h
    · cases h
      rfl
    · cases h
      exact hrest _ _ _
  · cases h
    exact hrest _ _ _

/-- A trial is one of the command that was tried. -/
theorem command_test {c : Command α} {trial : Trial α}
    (h : d.test c actor input s = some (trial, s')) : trial.command = c := by
  unfold test at h
  split at h
  · cases h
  · next reading hreading =>
    have hcommand := command_ofInput hreading
    dsimp only at h
    split at h
    · cases h
      exact hcommand
    · split at h <;> cases h <;> exact hcommand

theorem testEach_cons_eq_some {c : Command α} {rest : List (Command α)} {trials : List (Trial α)} :
    d.testEach actor input (c :: rest) s = some (trials, s') ↔
      ∃ trial later s₁, trials = trial :: later ∧ d.test c actor input s = some (trial, s₁)
        ∧ d.testEach actor input rest s₁ = some (later, s') := by
  rw [testEach]
  cases htest : d.test c actor input s with
  | none => simp
  | some tried =>
    obtain ⟨trial, s₁⟩ := tried
    dsimp only
    cases hlater : d.testEach actor input rest s₁ with
    | none => simp [hlater]
    | some last => simp [hlater]; grind

theorem map_command_testEach {commands : List (Command α)} {trials : List (Trial α)}
    (h : d.testEach actor input commands s = some (trials, s')) :
    trials.map Trial.command = commands := by
  induction commands generalizing trials s with
  | nil =>
    cases h
    rfl
  | cons c rest ih =>
    obtain ⟨trial, later, s₁, rfl, htest, hlater⟩ := testEach_cons_eq_some.mp h
    rw [List.map_cons, command_test htest, ih hlater]

/-- Trials that stop after a number of successes are those of the first commands, and their
successes are the first of all. -/
theorem tryEach_eq_of_testEach {missing : Nat} {tried untried : List (Command α)}
    {trials : List (Trial α)} (h : d.testEach actor input tried s = some (trials, s'))
    (henough : untried = [] ∨ missing ≤ trials.countP Trial.succeeded) :
    ∃ prior done s₁, prior <+: tried ∧ d.testEach actor input prior s = some (done, s₁)
      ∧ done.filter Trial.succeeded = (trials.filter Trial.succeeded).take missing
      ∧ d.tryEach actor input missing (tried ++ untried) s
        = some (⟨done.filter Trial.succeeded, done.filter fun t => !t.succeeded⟩, s₁) := by
  induction tried generalizing missing trials s with
  | nil =>
    cases h
    refine ⟨[], [], s', List.prefix_rfl, rfl, by simp, ?_⟩
    cases missing with
    | zero => simp [tryEach]
    | succ missing =>
      rcases henough with rfl | hcount
      · rfl
      · exact absurd hcount (Nat.not_succ_le_zero _)
  | cons c rest ih =>
    obtain ⟨trial, later, s₁, rfl, htest, hlater⟩ := testEach_cons_eq_some.mp h
    cases missing with
    | zero => exact ⟨[], [], s, List.nil_prefix, rfl, rfl, rfl⟩
    | succ missing =>
      rw [List.cons_append, tryEach, htest]
      dsimp only
      split
      · next hsucceeded =>
        have hmore : untried = [] ∨ missing ≤ later.countP Trial.succeeded := by
          rw [List.countP_cons_of_pos hsucceeded] at henough
          exact henough.imp_right Nat.le_of_succ_le_succ
        obtain ⟨prior, done, s₂, hprior, hfirst, hdone, htry⟩ := ih hlater hmore
        refine ⟨c :: prior, trial :: done, s₂, List.cons_prefix_cons.mpr ⟨rfl, hprior⟩,
          testEach_cons_eq_some.mpr ⟨trial, done, s₁, rfl, htest, hfirst⟩, ?_, ?_⟩
        · rw [List.filter_cons_of_pos hsucceeded, List.filter_cons_of_pos hsucceeded,
            List.take_succ_cons, hdone]
        · rw [htry]
          simp [hsucceeded]
      · next hfailed =>
        have hmore : untried = [] ∨ missing + 1 ≤ later.countP Trial.succeeded := by
          rwa [List.countP_cons_of_neg hfailed] at henough
        obtain ⟨prior, done, s₂, hprior, hfirst, hdone, htry⟩ := ih hlater hmore
        refine ⟨c :: prior, trial :: done, s₂, List.cons_prefix_cons.mpr ⟨rfl, hprior⟩,
          testEach_cons_eq_some.mpr ⟨trial, done, s₁, rfl, htest, hfirst⟩, ?_, ?_⟩
        · rw [List.filter_cons_of_neg hfailed, List.filter_cons_of_neg hfailed, hdone]
        · rw [htry]
          simp [hfailed]

/-! ## The winner of a dispatch -/

/-- The successes of trials that a dispatch with a success cap collects. -/
def firstSuccesses (n : Nat) (trials : List (Trial α)) : List (Trial α) :=
  (trials.filter Trial.succeeded).take (max 1 n)

/-- A dispatch tries candidates up to some place and then runs a winner, which is one of those that
were tried. -/
def Selects (d : Dispatcher α σ) (actor : Actor) (input : String) (s : Session α σ)
    (winner : Trial α) : Prop :=
  ∃ prior trials s₁, prior <+: s.candidates input
    ∧ d.testEach actor input prior s = some (trials, s₁)
    ∧ winner ∈ trials
    ∧ ∀ depth, d.dispatch (depth + 1) actor input s
      = d.execute (d.dispatch depth) s₁.nextDispatch winner
        { s₁ with nextDispatch := s₁.nextDispatch + 1 }

theorem candidates_sublist (s : Session α σ) (input : String) :
    (s.candidates input).Sublist s.commands := by
  unfold Session.candidates
  split
  · exact List.nil_sublist _
  · exact List.filter_sublist

/-- The successes of trials of candidates stand as their commands do in the registry. -/
theorem commands_successes_sublist {tried untried : List (Command α)} {trials : List (Trial α)}
    (hcandidates : s.candidates input = tried ++ untried)
    (htrials : d.testEach actor input tried s = some (trials, s')) :
    ((trials.filter Trial.succeeded).map Trial.command).Sublist s.commands := by
  have hfilter := (List.filter_sublist (p := Trial.succeeded) (l := trials)).map Trial.command
  rw [map_command_testEach htrials] at hfilter
  have htried : tried.Sublist (s.candidates input) :=
    hcandidates ▸ List.sublist_append_left tried untried
  exact hfilter.trans (htried.trans (candidates_sublist s input))

/-- What a history leaves orders the successes of a dispatch. -/
theorem comparable_successes {events : List (RegistryEvent α)} {tried untried : List (Command α)}
    {trials : List (Trial α)} (h : Reached d events s) (hpriorities : SamePriorities events)
    (hcandidates : s.candidates input = tried ++ untried)
    (htrials : d.testEach actor input tried s = some (trials, s')) :
    Trial.Comparable (trials.filter Trial.succeeded)
      ∧ Command.Ranked ((trials.filter Trial.succeeded).map Trial.command) := by
  have hsublist := commands_successes_sublist hcandidates htrials
  have horderable := (h.orderable hpriorities).subset h.subset_added
  refine ⟨⟨?_, horderable.subset hsublist.subset⟩, ?_⟩
  · intro t ht
    exact List.of_mem_filter ht
  · exact (h.ranked_commands (h.orderable hpriorities)).sublist hsublist

/-- A dispatch runs the best of the successes that it collects. -/
theorem selects_of_best? {n : Nat} {tried untried : List (Command α)} {trials : List (Trial α)}
    {winner : Trial α} (hcandidates : s.candidates input = tried ++ untried)
    (htrials : d.testEach actor input tried s = some (trials, s'))
    (henough : untried = [] ∨ max 1 n ≤ trials.countP Trial.succeeded)
    (hmem : winner ∈ firstSuccesses n trials)
    (hbest : Trial.best? (firstSuccesses n trials) = some winner) :
    (d.capped n).Selects actor input s winner := by
  rw [← testEach_capped n] at htrials
  obtain ⟨prior, done, s₁, hprior, hfirst, hdone, htry⟩ := tryEach_eq_of_testEach htrials henough
  rw [firstSuccesses, ← hdone] at hmem hbest
  have htried : prior <+: s.candidates input := by
    rw [hcandidates]
    exact hprior.trans (List.prefix_append _ _)
  have hwinner : winner.command ∈ s.candidates input := by
    refine htried.subset ?_
    rw [← map_command_testEach hfirst]
    exact List.mem_map_of_mem (List.mem_of_mem_filter hmem)
  refine ⟨prior, done, s₁, htried, hfirst, List.mem_of_mem_filter hmem, ?_⟩
  intro depth
  rw [dispatch]
  dsimp only
  split
  · next hnone =>
    rw [hnone] at hwinner
    cases hwinner
  · unfold dispatchAmong
    rw [hcandidates, cap_capped, htry]
    dsimp only
    rw [hbest]

/-- Whatever the history of a registry, as long as all its commands have a priority or none has: if
a candidate fits, a dispatch with a success cap runs the earliest of the successes that it collects
that no other of them beats.  If all successes have consumed alike, that is the first success,
whatever the cap.  The trials that count are those of all candidates, or of as many as it takes to
reach the cap. -/
theorem selects_earliestUnbeaten {events : List (RegistryEvent α)}
    {tried untried : List (Command α)} {trials : List (Trial α)} (actor : Actor)
    (h : Reached d events s) (hpriorities : SamePriorities events)
    (hcandidates : s.candidates input = tried ++ untried)
    (htrials : d.testEach actor input tried s = some (trials, s'))
    (hsome : ∃ t ∈ trials, t.succeeded = true) (n : Nat)
    (henough : untried = [] ∨ max 1 n ≤ trials.countP Trial.succeeded) :
    ∃ winner, (d.capped n).Selects actor input s winner
      ∧ Trial.EarliestUnbeaten (firstSuccesses n trials) winner
      ∧ ((∀ t ∈ trials, ∀ u ∈ trials, t.succeeded = true → u.succeeded = true →
          t.consumedAll = u.consumedAll) → trials.find? Trial.succeeded = some winner) := by
  obtain ⟨hall, hranked⟩ := comparable_successes h hpriorities hcandidates htrials
  have hcomparable : Trial.Comparable (firstSuccesses n trials) :=
    hall.subset (List.take_subset _ _)
  obtain ⟨t, ht, hsucceeded⟩ := hsome
  cases hfilter : trials.filter Trial.succeeded with
  | nil => exact absurd hsucceeded (List.filter_eq_nil_iff.mp hfilter t ht)
  | cons first rest =>
    have hfirst : firstSuccesses n trials = first :: rest.take (max 1 n - 1) := by
      rw [firstSuccesses, hfilter]
      exact List.take_cons (Nat.lt_of_lt_of_le Nat.one_pos (Nat.le_max_left 1 n))
    obtain ⟨winner, hbest, hunbeaten⟩ :=
      Trial.exists_best? hcomparable (hfirst ▸ List.cons_ne_nil _ _)
    refine ⟨winner, selects_of_best? hcandidates htrials henough hunbeaten.mem hbest, hunbeaten, ?_⟩
    intro hconsumed
    rw [← List.head?_filter, hfilter, List.head?_cons]
    rw [hfirst] at hcomparable hunbeaten
    have hmem : ∀ u ∈ first :: rest.take (max 1 n - 1), u ∈ trials ∧ u.succeeded = true := by
      intro u hu
      rw [← hfirst] at hu
      exact List.mem_filter.mp (List.mem_of_mem_take hu)
    refine congrArg some (hunbeaten.eq_head hcomparable ?_ ?_).symm
    · intro u hu
      have hfirstMem := hmem first List.mem_cons_self
      exact hconsumed u (hmem u hu).1 first hfirstMem.1 (hmem u hu).2 hfirstMem.2
    · rw [hfilter] at hranked
      refine hranked.sublist (List.Sublist.map _ ?_)
      exact (List.take_sublist _ _).cons_cons first

/-! ## Two forms of a command -/

/-- `give <item>`: a shorter form of the same command. -/
def giveOne : Command Unit :=
  ⟨⟨1⟩, [⟨.word "give", false, false⟩,
      ⟨.slot (.ofParameter (.required "item" .string) .text), true, true⟩],
    .none, ⟨(), []⟩⟩

theorem compiled_giveOne : giveOne.Compiled :=
  ⟨.standard Unit, ⟨["give <item>"], [.required "item" .string], (), .none⟩, "give <item>", ⟨1⟩,
    rfl⟩

/-- A session in which both forms are registered, the shorter one first. -/
def bothForms : Session Unit Unit :=
  { (Session.start ⟨0⟩ () : Session Unit Unit) with commands := [give, giveOne], nextId := 2 }

theorem reached_bothForms :
    ∃ events, Reached (bare Unit Unit .standard) events bothForms ∧ SamePriorities events := by
  have hstart : Reached (bare Unit Unit .standard) [] (.start ⟨0⟩ ()) := .start _ _
  have hcounted : Reached (bare Unit Unit .standard) []
      { Session.start ⟨0⟩ () with nextId := 2 } := hstart.elsewhere rfl (Nat.zero_le 2)
  have hone := hcounted.register compiled_giveOne Nat.one_lt_two (List.not_mem_nil)
  have hboth := hone.register compiled_give Nat.zero_lt_two (by decide)
  refine ⟨_, hboth, Or.inr ?_⟩
  decide

/-- Both forms fit, and the longer one runs. -/
theorem selects_longerForm :
    ∃ winner, ((bare Unit Unit .standard).capped 5).Selects default "give apple" bothForms winner
      ∧ winner.command = give := by
  obtain ⟨events, hreached, hpriorities⟩ := reached_bothForms
  have hcandidates : bothForms.candidates "give apple" = [give, giveOne] ++ [] := rfl
  obtain ⟨winner, hselects, _, hfirst⟩ :=
    selects_earliestUnbeaten default hreached hpriorities hcandidates rfl (by decide) 5 (.inl rfl)
  refine ⟨winner, hselects, ?_⟩
  have hwinner := hfirst (by decide)
  cases hwinner
  rfl

end Dispatcher

end CommandGrammar
