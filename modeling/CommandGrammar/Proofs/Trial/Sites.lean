import CommandGrammar.Proofs.Command.Lookup
import CommandGrammar.Proofs.Command.Order
import CommandGrammar.Proofs.Trial.Assignment
import CommandGrammar.Proofs.Trial.Permission
import CommandGrammar.Proofs.Trial.Unsited

/-!
# Where a failed trial points

A trial fails while its flags are taken out, or at a node of the walk, or in a condition.  The site
of its error, and how far it says that it got, tell which of these it was: `Stage.Reports` says what
they are in each, and `test_reports` that every failed trial reports the stage in which it failed.
-/

set_option autoImplicit false

namespace CommandGrammar

variable {α σ : Type}

namespace CommandError

/-- An error without a site takes the one that it is given. -/
theorem site_locate_of_none {e : CommandError} (h : e.site = none) (site : Site) :
    (e.locate site).site = some site := by
  unfold locate
  rw [h]

end CommandError

/-! ## Flags -/

/-- The sites of failures among the flags: that of a name that no flag has, and those of the nodes
of the flags and switches. -/
def Command.SitesFlag (c : Command α) (site : Site) : Prop :=
  site = .flags c.path
    ∨ ∃ i n f unread, c.nodes[i]? = some n ∧ n.slot? = some f ∧ f.isPositional = false
      ∧ site = .parameter c.path f.name i unread

/-- Where names differ, the site of a failure at a flag has the index of the flag's own node. -/
theorem Command.sitesFlag_flagSite {c : Command α} (hnames : (c.slots.map Slot.name).Nodup)
    {f : Slot} (hf : f ∈ c.flags) (unread : List Char) : c.SitesFlag (c.flagSite f unread) := by
  obtain ⟨hslot, hflag⟩ := mem_flags_iff.mp hf
  obtain ⟨n, hn, hnslot⟩ := List.mem_filterMap.mp hslot
  obtain ⟨i, hi⟩ := List.mem_iff_getElem?.mp hn
  obtain ⟨hindex, -⟩ := indicesIdentify_iff.mp hnames i n f hi hnslot
  refine .inr ⟨i, n, f, String.ofList unread, hi, hnslot, hflag, ?_⟩
  rw [flagSite, hindex]
  rfl

namespace FlagScan

variable {settings : Settings} {c : Command α} {s s' : State} {e : CommandError}

/-- An error that points at the flags of a command. -/
def PointsAtFlag (c : Command α) (e : CommandError) : Prop :=
  ∃ site, e.site = some site ∧ c.SitesFlag site

theorem pointsAtFlag_unknown (name : List Char) (shorthand : Bool) :
    PointsAtFlag c (c.unknownFlag name shorthand) := ⟨.flags c.path, rfl, .inl rfl⟩

theorem pointsAtFlag_locate (hnames : (c.slots.map Slot.name).Nodup) {f : Slot} (hf : f ∈ c.flags)
    (he : e.site = none) (unread : List Char) :
    PointsAtFlag c (e.locate (c.flagSite f unread)) :=
  ⟨_, CommandError.site_locate_of_none he _, Command.sitesFlag_flagSite hnames hf unread⟩

section Named

variable (hnames : (c.slots.map Slot.name).Nodup) (htypes : ∀ f ∈ c.slots, f.type.Unsited)

include hnames htypes

theorem readFlag_error {f : Slot} (hf : f ∈ c.flags) (h : readFlag c f s = (.error e, s')) :
    PointsAtFlag c e := by
  have htype := htypes f (Command.mem_flags_iff.mp hf).1
  unfold readFlag at h
  dsimp only at h
  split at h
  · split at h
    · cases h
    · cases h
      exact pointsAtFlag_locate hnames hf rfl _
  · split at h
    · cases h
      exact pointsAtFlag_locate hnames hf rfl _
    · split at h
      · cases h
      · next e' hparse =>
        cases h
        exact pointsAtFlag_locate hnames hf (Slot.unsited_parse htype _ _ e' hparse) _

theorem readCluster_error {letters : List Char} (h : readCluster c letters s = (.error e, s')) :
    PointsAtFlag c e := by
  induction letters generalizing s with
  | nil => cases h
  | cons letter rest ih =>
    rw [readCluster] at h
    split at h
    · cases h
      exact pointsAtFlag_unknown [letter] true
    · next f hfind =>
      split at h
      · next hread =>
        cases h
        exact readFlag_error hnames htypes (List.mem_of_find?_eq_some hfind) hread
      · exact ih h

theorem readLong_error {name : List Char} (h : readLong c name s = (.error e, s')) :
    PointsAtFlag c e := by
  unfold readLong at h
  split at h
  · cases h
    exact pointsAtFlag_unknown name false
  · next f hfind => exact readFlag_error hnames htypes (List.mem_of_find?_eq_some hfind) h

theorem turn_error (h : turn settings c s = (.error e, s')) : PointsAtFlag c e := by
  unfold turn at h
  dsimp only at h
  split at h
  · cases h
  · unfold turnAtWord at h
    dsimp only at h
    split at h
    · cases h
    · split at h
      · next hread =>
        cases h
        exact readLong_error hnames htypes hread
      · cases h
    · split at h
      · next hread =>
        cases h
        exact readCluster_error hnames htypes hread
      · cases h
    · cases h
    · cases h

theorem scan_error {turns : Nat} (h : scan settings c turns s = some (.error e, s')) :
    PointsAtFlag c e := by
  induction turns generalizing s with
  | zero => cases h
  | succ turns ih =>
    rw [scan] at h
    split at h
    · next hturn =>
      cases h
      exact turn_error hnames htypes hturn
    · cases h
    · exact ih h

theorem resolveAbsent_error {flags : List Slot} (hflags : ∀ f ∈ flags, f ∈ c.flags)
    (h : resolveAbsent c flags s = (.error e, s')) : PointsAtFlag c e := by
  induction flags generalizing s with
  | nil => cases h
  | cons f rest ih =>
    obtain ⟨hf, hrest⟩ := List.forall_mem_cons.mp hflags
    have htype := htypes f (Command.mem_flags_iff.mp hf).1
    rw [resolveAbsent] at h
    split at h
    · exact ih hrest h
    · dsimp only at h
      split at h
      · next e' habsent =>
        cases h
        exact pointsAtFlag_locate hnames hf (Slot.unsited_absentValue htype _ e' habsent) []
      · exact ih hrest h

/-- Where taking the flags out fails, the error points at them. -/
theorem extract_error {input : Cursor} {start context : Context} {notes : List Note}
    (h : extract settings c input start = some ⟨.error e, context, notes⟩) : PointsAtFlag c e := by
  rw [extract_eq] at h
  generalize turnLimit c input = turns at h
  split at h
  · cases h
  · next hscan =>
    cases h
    exact scan_error hnames htypes hscan
  · next scanned hscan =>
    cases hresolve : resolveAbsent c c.flags scanned with
    | mk result resolved =>
      rw [hresolve] at h
      cases result with
      | error e' =>
        cases h
        exact resolveAbsent_error hnames htypes (fun f hf => hf) hresolve
      | ok _ => cases h

end Named

end FlagScan

/-! ## The walk -/

namespace Walk

variable {c : Command α} {index : Nat} {s s' : State} {e : CommandError}

theorem readSegment_error {segment : Segment}
    (htype : ∀ slot, segment = .slot slot → slot.type.Unsited)
    (h : readSegment segment s = (.error e, s')) : e.site = none ∧ s'.furthest = s.furthest := by
  cases segment with
  | word text =>
    simp only [readSegment] at h
    split at h
    · cases h
    · cases h
      exact ⟨rfl, rfl⟩
  | slot slot =>
    simp only [readSegment] at h
    split at h
    · cases h
    · next hparse =>
      cases h
      exact ⟨Slot.unsited_parse (htype slot rfl) _ _ e hparse, rfl⟩

theorem furthest_readSegment {segment : Segment} (h : readSegment segment s = (.ok (), s')) :
    s'.furthest = s.furthest := by
  cases segment with
  | word text =>
    simp only [readSegment] at h
    split at h
    · cases h
      rfl
    · cases h
  | slot slot =>
    simp only [readSegment] at h
    split at h
    · cases h
      rfl
    · cases h

/-- A node that fails gives its own site to the error, with the text from its start on, and is the
last that was tried. -/
theorem readNode_error {node : Node} (htype : ∀ slot, node.slot? = some slot → slot.type.Unsited)
    (h : readNode c index node s = (.error e, s')) :
    e.site = some (site c index node s.cursor.skipBlanks.rest) ∧ s'.furthest = index := by
  have hslot : ∀ slot, node.segment = .slot slot → slot.type.Unsited := by
    intro slot hsegment
    exact htype slot (by rw [Node.slot?, hsegment])
  unfold readNode at h
  dsimp only at h
  split at h
  · next hread =>
    cases h
    obtain ⟨hsite, hfurthest⟩ := readSegment_error hslot hread
    exact ⟨CommandError.site_locate_of_none hsite _, hfurthest⟩
  · next t hread =>
    unfold checkSeparated at h
    split at h
    · next hcheck =>
      cases h
      split at hcheck
      · cases hcheck
        exact ⟨CommandError.site_locate_of_none rfl _, furthest_readSegment hread⟩
      · cases hcheck
    · cases h

theorem furthest_readNode {node : Node} (h : readNode c index node s = (.ok (), s')) :
    s'.furthest = index :=
  furthest_readSegment (readNode_eq_ok_iff.mp h).1

/-- A walk fails at a node, behind all nodes before it. -/
theorem exists_readNode_of_run_error {nodes : List Node}
    (h : run c index nodes s = (.error e, s')) :
    ∃ i node t, nodes[i]? = some node ∧ node.isPositional = true
      ∧ run c index (nodes.take i) s = (.ok (), t)
      ∧ readNode c (index + i) node t = (.error e, s') := by
  induction nodes generalizing index s with
  | nil => cases h
  | cons node rest ih =>
    rw [run] at h
    split at h
    · next hflag =>
      obtain ⟨i, n, t, hn, hplaced, hrun, hread⟩ := ih h
      refine ⟨i + 1, n, t, hn, hplaced, ?_, ?_⟩
      · rw [List.take_succ_cons, run, if_pos hflag]
        exact hrun
      · rwa [← Nat.add_assoc, Nat.add_right_comm]
    · next hplaced =>
      split at h
      · next hread =>
        cases h
        exact ⟨0, node, s, rfl, by simpa using hplaced, rfl, hread⟩
      · next after hread =>
        obtain ⟨i, n, t, hn, hnplaced, hrun, hlater⟩ := ih h
        refine ⟨i + 1, n, t, hn, hnplaced, ?_, ?_⟩
        · rw [List.take_succ_cons, run, if_neg hplaced, hread]
          exact hrun
        · rwa [← Nat.add_assoc, Nat.add_right_comm]

/-- Where a node fails behind all nodes before it, the walk fails there. -/
theorem run_error_of_readNode {nodes : List Node} {i : Nat} {node : Node} {t : State}
    (hnode : nodes[i]? = some node) (hplaced : node.isPositional = true)
    (hrun : run c index (nodes.take i) s = (.ok (), t))
    (hread : readNode c (index + i) node t = (.error e, s')) :
    run c index nodes s = (.error e, s') := by
  obtain ⟨hi, rfl⟩ := List.getElem?_eq_some_iff.mp hnode
  have hsplit : nodes = nodes.take i ++ nodes[i] :: nodes.drop (i + 1) := by
    rw [List.getElem_cons_drop, List.take_append_drop]
  have hlength : (nodes.take i).length = i := List.length_take_of_le (Nat.le_of_lt hi)
  rw [hsplit, run_append, hrun]
  dsimp only
  rw [hlength, run, hread]
  simp [hplaced]

theorem run_of_flags {nodes : List Node} (h : ∀ n ∈ nodes, n.isPositional = false) :
    run c index nodes s = (.ok (), s) := by
  induction nodes generalizing index with
  | nil => rfl
  | cons node rest ih =>
    obtain ⟨hflag, hrest⟩ := List.forall_mem_cons.mp h
    rw [run, hflag]
    exact ih hrest

/-- A walk that is not ended by a failure last tries the last node that is matched by place. -/
theorem furthest_run {front flags : List Node} {last : Node} (hlast : last.isPositional = true)
    (hflags : ∀ n ∈ flags, n.isPositional = false)
    (h : run c index (front ++ last :: flags) s = (.ok (), s')) :
    s'.furthest = index + front.length := by
  rw [run_append] at h
  split at h
  · cases h
  · rw [run] at h
    simp only [hlast, Bool.not_true, Bool.false_eq_true, if_false] at h
    split at h
    · cases h
    · next hread =>
      rw [run_of_flags hflags] at h
      cases h
      exact furthest_readNode hread

end Walk

/-! ## Readings -/

/-- The last node of a compiled command that is matched by place has only flags behind it. -/
theorem Command.WellShaped.exists_lastPlace {c : Command α} (h : c.WellShaped) :
    ∃ front last flags, c.nodes = front ++ last :: flags ∧ last.isPositional = true
      ∧ ∀ n ∈ flags, n.isPositional = false := by
  have hplaces : c.positional ≠ [] := by
    intro hnone
    have hlast := h.lastPositional?_eq
    rw [lastPositional?, hnone] at hlast
    cases hlast
  obtain ⟨front, last, hsplit⟩ := (List.eq_nil_or_concat c.positional).resolve_left hplaces
  have hlast : last ∈ c.positional := by simp [hsplit]
  refine ⟨front, last, c.nodes.filter fun n => !n.isPositional, ?_, (List.mem_filter.mp hlast).2,
    ?_⟩
  · have hnodes := h.flagsLast
    rw [hsplit] at hnodes
    simpa using hnodes
  · intro n hn
    simpa using (List.mem_filter.mp hn).2

namespace Reading

variable {settings : Settings} {c : Command α} {actor : Actor} {input : String} {r : Reading α}
  {start : Walk.State} {e : CommandError}

theorem ofRest_of_run {result : Except CommandError Unit} {s : Walk.State}
    {cursor : Cursor} {context : Context} {notes : List Note}
    (h : Walk.run c 0 c.nodes ⟨cursor, context, notes, 0⟩ = (result, s)) :
    ofRest c cursor context notes
      = ⟨c, result.map fun _ => s.cursor, s.context, s.furthest, s.notes⟩ := by
  rw [ofRest, h]
  cases result <;> rfl

/-- Where the walk begins, a reading is what comes of it. -/
theorem ofInput_of_run {result : Except CommandError Unit} {s : Walk.State}
    (h : walkStart? settings c actor input = some start)
    (hrun : Walk.run c 0 c.nodes start = (result, s)) :
    ofInput settings c actor input
      = some ⟨c, result.map fun _ => s.cursor, s.context, s.furthest, s.notes⟩ := by
  unfold walkStart? at h
  unfold ofInput
  dsimp only at h ⊢
  split at h
  · next hflags =>
    rw [if_pos hflags]
    split at h
    · next hextract =>
      cases h
      rw [hextract, ← ofRest_of_run hrun]
    · cases h
  · next hflags =>
    cases h
    rw [if_neg hflags, ← ofRest_of_run hrun]

theorem ofInput_of_extract_error {context : Context} {notes : List Note}
    (hflags : c.hasFlags = true)
    (h : FlagScan.extract settings c (.ofText input.toList) (.start actor c.info input)
      = some ⟨.error e, context, notes⟩) :
    ofInput settings c actor input = some ⟨c, .error e, context, 0, notes⟩ := by
  unfold ofInput
  dsimp only
  rw [if_pos hflags, h]

theorem ofRest_eq_error {cursor : Cursor} {context : Context} {notes : List Note}
    (h : (ofRest c cursor context notes).result = .error e) :
    ∃ s, Walk.run c 0 c.nodes ⟨cursor, context, notes, 0⟩ = (.error e, s) := by
  unfold ofRest at h
  split at h
  · next s hrun =>
    cases h
    exact ⟨s, hrun⟩
  · cases h

/-- A reading that fails has failed to take the flags out, or at a node of the walk. -/
theorem extract_or_run_of_error (h : ofInput settings c actor input = some r)
    (hresult : r.result = .error e) :
    (c.hasFlags = true ∧ ∃ context notes,
        FlagScan.extract settings c (.ofText input.toList) (.start actor c.info input)
          = some ⟨.error e, context, notes⟩)
      ∨ ∃ start s, walkStart? settings c actor input = some start
        ∧ Walk.run c 0 c.nodes start = (.error e, s) := by
  unfold ofInput at h
  unfold walkStart?
  dsimp only at h ⊢
  split at h
  · next hflags =>
    rw [if_pos hflags]
    split at h
    · cases h
    · next context notes hextract =>
      cases h
      cases hresult
      exact .inl ⟨hflags, context, notes, hextract⟩
    · next hextract =>
      cases h
      obtain ⟨s, hrun⟩ := ofRest_eq_error hresult
      rw [hextract]
      exact .inr ⟨_, s, rfl, hrun⟩
  · next hflags =>
    cases h
    obtain ⟨s, hrun⟩ := ofRest_eq_error hresult
    rw [if_neg hflags]
    exact .inr ⟨_, s, rfl, hrun⟩

/-- A reading shows the command that is tried. -/
theorem command_context_of_ok {rest : Cursor} (h : ofInput settings c actor input = some r)
    (hok : r.result = .ok rest) : r.context.command = c.info := by
  obtain ⟨s, s', hstart, hrun, -, hcontext⟩ := ofInput_eq_ok h hok
  rw [← hcontext, (Walk.run_assigned hrun).1, Context.bindAll_command]
  unfold walkStart? at hstart
  dsimp only at hstart
  split at hstart
  · split at hstart
    · next hextract =>
      cases hstart
      obtain ⟨scanned, resolved, hscan, hresolve, rfl, -⟩ := FlagScan.extract_cases hextract
      rw [(FlagScan.resolveAbsent_assigned hresolve).1, Context.bindAll_command,
        (FlagScan.scan_takes hscan).context, Context.bindAll_command]
      rfl
    · cases hstart
  · cases hstart
    rfl

end Reading

/-! ## Stages -/

/-- Where a trial can fail. -/
inductive Stage where
  /-- while the flags are taken out -/
  | flags
  /-- at a node of the walk, which starts in front of `unread` -/
  | walk (index : Nat) (node : Node) (unread : List Char)
  /-- in a condition -/
  | conditions

/-- What a failed trial says of the stage in which it failed: how far it got, and the site of its
error. -/
def Stage.Reports (c : Command α) (furthest : Nat) (site : Site) : Stage → Prop
  | .flags => furthest = 0 ∧ c.SitesFlag site
  | .walk index node unread =>
    furthest = index
      ∧ match node.segment with
        | .word text => site = .literal c.path text index
        | .slot f => site = .parameter c.path f.name index (String.ofList unread)
  | .conditions =>
    site = .executing c.path
      ∧ ∃ front last flags, c.nodes = front ++ last :: flags ∧ last.isPositional = true
        ∧ (∀ n ∈ flags, n.isPositional = false) ∧ furthest = front.length

/-- What is reported has the path of the command. -/
theorem Stage.Reports.path? {stage : Stage} {c : Command α} {furthest : Nat} {site : Site}
    (h : stage.Reports c furthest site) : site.path? = some c.path := by
  cases stage with
  | flags =>
    obtain ⟨-, rfl | ⟨_, _, _, _, -, -, -, rfl⟩⟩ := h <;> rfl
  | walk index node unread =>
    obtain ⟨-, hsite⟩ := h
    split at hsite <;> exact hsite ▸ rfl
  | conditions => exact h.1 ▸ rfl

namespace Dispatcher

/-- Where the trial of a command fails. -/
def FailsIn (d : Dispatcher α σ) (c : Command α) (actor : Actor) (input : String)
    (before : Session α σ) : Stage → Prop
  | .flags => c.hasFlags = true ∧ ∃ e context notes,
      FlagScan.extract d.settings c (.ofText input.toList) (.start actor c.info input)
        = some ⟨.error e, context, notes⟩
  | .walk index node unread => ∃ start s e s',
      Reading.walkStart? d.settings c actor input = some start
        ∧ Walk.run c 0 (c.nodes.take index) start = (.ok (), s)
        ∧ c.nodes[index]? = some node ∧ node.isPositional = true
        ∧ Walk.readNode c index node s = (.error e, s')
        ∧ unread = s.cursor.skipBlanks.rest
  | .conditions => ∃ r rest e standing,
      Reading.ofInput d.settings c actor input = some r ∧ r.result = .ok rest
        ∧ Condition.testAll r.context d.conditions (d.absorbAll r.notes before).standing
          = (.error e, standing)

variable {d : Dispatcher α σ} {c : Command α} {actor : Actor} {input : String}
  {before after : Session α σ} {trial : Trial α} {r : Reading α} {e : CommandError}

theorem test_of_reading_error (h : d.test c actor input before = some (trial, after))
    (hreading : Reading.ofInput d.settings c actor input = some r) (hresult : r.result = .error e) :
    trial = .refuse r e := by
  unfold test at h
  rw [hreading] at h
  dsimp only at h
  rw [hresult] at h
  cases h
  rfl

theorem test_of_condition_error {rest : Cursor} {standing : Standing σ}
    (h : d.test c actor input before = some (trial, after))
    (hreading : Reading.ofInput d.settings c actor input = some r) (hresult : r.result = .ok rest)
    (hcondition : Condition.testAll r.context d.conditions (d.absorbAll r.notes before).standing
      = (.error e, standing)) :
    trial = .refuse r (e.locate r.context.executing) := by
  unfold test at h
  rw [hreading] at h
  dsimp only at h
  rw [hresult] at h
  dsimp only at h
  rw [hcondition] at h
  cases h
  rfl

/-- A trial that fails does so in one of the stages. -/
theorem exists_failsIn (h : d.test c actor input before = some (trial, after))
    (hfailed : trial.succeeded = false) : ∃ stage, d.FailsIn c actor input before stage := by
  unfold test at h
  split at h
  · cases h
  · next r hreading =>
    dsimp only at h
    split at h
    · next e hresult =>
      rcases Reading.extract_or_run_of_error hreading hresult with
        ⟨hflags, hextract⟩ | ⟨start, s, hstart, hrun⟩
      · exact ⟨.flags, hflags, e, hextract⟩
      · obtain ⟨i, node, t, hnode, hplaced, htake, hread⟩ := Walk.exists_readNode_of_run_error hrun
        rw [Nat.zero_add] at hread
        exact ⟨.walk i node _, start, t, e, s, hstart, htake, hnode, hplaced, hread, rfl⟩
    · next rest hresult =>
      split at h
      · next e standing hcondition =>
        exact ⟨.conditions, r, rest, e, standing, hreading, hresult, hcondition⟩
      · cases h
        cases hfailed

section Hosts

variable (hnames : (c.slots.map Slot.name).Nodup) (htypes : ∀ f ∈ c.slots, f.type.Unsited)

include hnames htypes

/-- A trial reports the stage in which it fails. -/
theorem reports_of_failsIn (hshape : c.WellShaped) (hconditions : ∀ x ∈ d.conditions, x.Unsited)
    (h : d.test c actor input before = some (trial, after)) {stage : Stage}
    (hstage : d.FailsIn c actor input before stage) :
    ∃ e site, trial.error = some e ∧ e.site = some site
      ∧ stage.Reports c trial.furthest site := by
  cases stage with
  | flags =>
    obtain ⟨hflags, e, context, notes, hextract⟩ := hstage
    obtain ⟨site, hsite, hflag⟩ := FlagScan.extract_error hnames htypes hextract
    rw [test_of_reading_error h (Reading.ofInput_of_extract_error hflags hextract) rfl]
    exact ⟨e, site, rfl, hsite, rfl, hflag⟩
  | walk index node unread =>
    obtain ⟨start, s, e, s', hstart, htake, hnode, hplaced, hread, rfl⟩ := hstage
    have htype : ∀ slot, node.slot? = some slot → slot.type.Unsited := fun slot hslot =>
      htypes slot (List.mem_filterMap.mpr ⟨node, List.mem_of_getElem? hnode, hslot⟩)
    obtain ⟨hsite, hfurthest⟩ := Walk.readNode_error htype hread
    have hrun := Walk.run_error_of_readNode hnode hplaced htake (Nat.zero_add index ▸ hread)
    rw [test_of_reading_error h (Reading.ofInput_of_run hstart hrun) rfl]
    refine ⟨e, _, rfl, hsite, hfurthest, ?_⟩
    split <;> next hsegment => rw [Walk.site, hsegment]
  | conditions =>
    obtain ⟨r, rest, e, standing, hreading, hresult, hcondition⟩ := hstage
    have hsite :=
      Condition.unsited_testAll hconditions r.context (d.absorbAll r.notes before).standing
    rw [hcondition] at hsite
    have hcommand := Reading.command_context_of_ok hreading hresult
    rw [test_of_condition_error h hreading hresult hcondition]
    refine ⟨_, _, rfl, CommandError.site_locate_of_none (hsite e rfl) _, ?_, ?_⟩
    · rw [Context.executing, hcommand]
      rfl
    · obtain ⟨front, last, flags, hnodes, hlast, hflags⟩ := hshape.exists_lastPlace
      obtain ⟨start, s, hstart, hrun, -, -⟩ := Reading.ofInput_eq_ok hreading hresult
      rw [Reading.ofInput_of_run hstart hrun] at hreading
      cases hreading
      rw [hnodes] at hrun
      have hfurthest := Walk.furthest_run hlast hflags hrun
      rw [Nat.zero_add] at hfurthest
      exact ⟨front, last, flags, hnodes, hlast, hflags, hfurthest⟩

end Hosts

/-- Where no two slots share a name, and a host's types, validators and conditions leave the site of
an error open, every failed trial has failed in a stage, and reports that stage: its error has a
site with the path of the command, which with how far the trial got is that of the flags, or of the
node that failed, or of the conditions behind the last place. -/
theorem test_reports (hcompiled : c.Compiled) (hnames : (c.slots.map Slot.name).Nodup)
    (htypes : ∀ f ∈ c.slots, f.type.Unsited) (hconditions : ∀ x ∈ d.conditions, x.Unsited)
    (h : d.test c actor input before = some (trial, after)) (hfailed : trial.succeeded = false) :
    ∃ e site, trial.error = some e ∧ e.site = some site ∧ site.path? = some c.path
      ∧ (∃ stage, d.FailsIn c actor input before stage)
      ∧ ∀ stage, d.FailsIn c actor input before stage →
          stage.Reports c trial.furthest site := by
  obtain ⟨stage, hstage⟩ := exists_failsIn h hfailed
  obtain ⟨e, site, herror, hsite, hreports⟩ :=
    reports_of_failsIn hnames htypes hcompiled.wellShaped hconditions h hstage
  refine ⟨e, site, herror, hsite, hreports.path?, ⟨stage, hstage⟩, ?_⟩
  intro other hother
  obtain ⟨e', site', herror', hsite', hreports'⟩ :=
    reports_of_failsIn hnames htypes hcompiled.wellShaped hconditions h hother
  rw [herror] at herror'
  cases herror'
  rw [hsite] at hsite'
  cases hsite'
  exact hreports'

/-- The count of `give <item> [count]`. -/
def countNode : Node := ⟨.slot (.ofParameter (.optional (.required "count" .int)) .int), true, true⟩

/-- A count that is no number is reported at its node, with the text from there on. -/
theorem reports_count :
    ∃ trial after e, (bare Unit Unit .standard).test give default "give apple many" (.start ⟨0⟩ ())
        = some (trial, after)
      ∧ trial.error = some e ∧ trial.furthest = 2
      ∧ e.site = some (.parameter "give <item> [count]" "count" 2 "many") := by
  have hnames : (give.slots.map Slot.name).Nodup := by decide
  have htypes : ∀ f ∈ give.slots, f.type.Unsited :=
    List.forall_mem_cons.mpr ⟨trivial, List.forall_mem_singleton.mpr trivial⟩
  have hstage : (bare Unit Unit .standard).FailsIn give default "give apple many" (.start ⟨0⟩ ())
      (.walk 2 countNode "many".toList) := ⟨_, _, _, _, rfl, rfl, rfl, rfl, rfl, rfl⟩
  have htest : (bare Unit Unit .standard).test give default "give apple many" (.start ⟨0⟩ ())
      = some (_, _) := rfl
  obtain ⟨e, site, herror, hsite, -, -, hreports⟩ :=
    test_reports compiled_give hnames htypes (List.forall_mem_nil _) htest rfl
  obtain ⟨hfurthest, rfl⟩ := hreports _ hstage
  exact ⟨_, _, e, htest, herror, hfurthest, hsite⟩

end Dispatcher

end CommandGrammar
