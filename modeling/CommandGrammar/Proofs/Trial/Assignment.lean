import CommandGrammar.Proofs.Trial.Defaults
import CommandGrammar.Proofs.Trial.Turns

/-!
# What a trial assigns

The arguments of a reading are filed by name, so a later value replaces an earlier one of the same
name, whatever parameter the earlier one belongs to.  `Reading.assigned` lists the values of a
reading in the order in which they are given, each with the parameter it is given to: flags as they
occur, absent flags, and then the slots that are matched by place.

`ofInput_assigned` says that the arguments are these values, bound one after another.  Where no two
parameters share a name, every parameter occurs and keeps its own last value.
-/

set_option autoImplicit false

namespace CommandGrammar

variable {α : Type}

/-- A parameter and a value that it is given. -/
structure Assignment where
  parameter : Parameter
  value : Value

namespace Assignment

/-- The name the value is filed under, and the value. -/
def binding (a : Assignment) : String × Value := (a.parameter.name, a.value)

end Assignment

/-- What a slot is given by what it reads as. -/
def Slot.assigned (s : Slot) (result : Except CommandError Value) : List Assignment :=
  match result with
  | .ok value => [⟨s.parameter, value⟩]
  | .error _ => []

/-! ## Flags -/

namespace FlagScan

variable {settings : Settings} {c : Command α} {s s' s'' : State} {given others : List Assignment}

/-- What a flag or a switch is given where it is read. -/
def flagAssigned (f : Slot) (s : State) : List Assignment :=
  f.assigned (if f.isSwitch then .ok (.bool true)
    else (f.parse s.cursor.skipBlanks s.context).result)

/-- What the flags of a cluster are given, in order. -/
def clusterAssigned (c : Command α) : List Char → State → List Assignment
  | [], _ => []
  | letter :: rest, s =>
    match c.flagByShort? letter with
    | none => []
    | some f => flagAssigned f s ++ clusterAssigned c rest (readFlag c f s).2

/-- What the flag of a long name is given. -/
def longAssigned (c : Command α) (name : List Char) (s : State) : List Assignment :=
  match c.flagByLong? name with
  | none => []
  | some f => flagAssigned f s

/-- What one turn gives. -/
def turnAssigned (settings : Settings) (c : Command α) (s : State) : List Assignment :=
  let s := { s with cursor := s.cursor.skipBlanks }
  let behind := { s with cursor := s.cursor.readWord.2 }
  if s.cursor.atEnd then []
  else
    match settings.role s.cursor.peekWord with
    | .long name => longAssigned c name behind
    | .cluster letters => clusterAssigned c letters behind
    | _ => []

/-- What a pass gives, with at most the given number of turns. -/
def passAssigned (settings : Settings) (c : Command α) : Nat → State → List Assignment
  | 0, _ => []
  | turns + 1, s =>
    turnAssigned settings c s ++
      match turn settings c s with
      | (.ok false, after) => passAssigned settings c turns after
      | _ => []

/-- What the flags are given that have not occurred. -/
def absentAssigned : List Slot → List String → Context → List Assignment
  | [], _, _ => []
  | f :: rest, seen, context =>
    if f.name ∈ seen then absentAssigned rest seen context
    else
      match (f.absentValue context).1 with
      | .error _ => []
      | .ok value => ⟨f.parameter, value⟩ :: absentAssigned rest seen (context.bind f.name value)

/-- What taking the flags out gives them, if the pass ends within a number of turns. -/
def assigned (settings : Settings) (c : Command α) (turns : Nat) (s : State) : List Assignment :=
  match scan settings c turns s with
  | some (.ok (), scanned) =>
    passAssigned settings c turns s ++ absentAssigned c.flags scanned.seen scanned.context
  | _ => []

/-- From one state to another, a pass gives these values to flags of the command. -/
structure State.Takes (c : Command α) (given : List Assignment) (s s' : State) : Prop where
  context : s'.context = s.context.bindAll (given.map Assignment.binding)
  seen : s'.seen = s.seen ++ given.map fun a => a.parameter.name
  flags : ∀ a ∈ given, a.parameter ∈ c.flags.map Slot.parameter

theorem State.takes_nil (hcontext : s'.context = s.context) (hseen : s'.seen = s.seen) :
    State.Takes c [] s s' where
  context := hcontext
  seen := hseen.trans (List.append_nil _).symm
  flags := List.forall_mem_nil _

theorem State.Takes.append (h : State.Takes c given s s') (h' : State.Takes c others s' s'') :
    State.Takes c (given ++ others) s s'' where
  context := by rw [List.map_append, Context.bindAll_append, ← h.context, h'.context]
  seen := by rw [h'.seen, h.seen, List.map_append, List.append_assoc]
  flags := List.forall_mem_append.mpr ⟨h.flags, h'.flags⟩

/-- Only what is bound and what has occurred counts. -/
theorem State.Takes.of_eq {t t' : State} (h : State.Takes c given s s')
    (hbefore : t.context = s.context ∧ t.seen = s.seen)
    (hafter : t'.context = s'.context ∧ t'.seen = s'.seen) : State.Takes c given t t' where
  context := by rw [hafter.1, h.context, hbefore.1]
  seen := by rw [hafter.2, h.seen, hbefore.2]
  flags := h.flags

theorem readFlag_takes {f : Slot} (hf : f ∈ c.flags) (h : readFlag c f s = (.ok (), s')) :
    State.Takes c (flagAssigned f s) s s' := by
  have hresolve (value : Value) : State.Takes c [⟨f.parameter, value⟩] s (s.resolve f.name value) :=
    ⟨rfl, rfl, List.forall_mem_singleton.mpr (List.mem_map_of_mem hf)⟩
  unfold readFlag at h
  unfold flagAssigned
  dsimp only at h
  split at h
  · next hswitch =>
    rw [if_pos hswitch]
    split at h
    · cases h
      exact hresolve _
    · cases h
  · next hswitch =>
    rw [if_neg hswitch]
    split at h
    · cases h
    · split at h
      · next value hparse =>
        cases h
        rw [hparse]
        exact (hresolve value).of_eq ⟨rfl, rfl⟩ ⟨rfl, rfl⟩
      · cases h

theorem readCluster_takes {letters : List Char} (h : readCluster c letters s = (.ok (), s')) :
    State.Takes c (clusterAssigned c letters s) s s' := by
  induction letters generalizing s with
  | nil =>
    cases h
    exact State.takes_nil rfl rfl
  | cons letter rest ih =>
    rw [readCluster] at h
    rw [clusterAssigned]
    cases hfind : c.flagByShort? letter with
    | none =>
      rw [hfind] at h
      cases h
    | some f =>
      rw [hfind] at h
      dsimp only at h ⊢
      cases hread : readFlag c f s with
      | mk result after =>
        rw [hread] at h
        cases result with
        | error e => cases h
        | ok _ => exact (readFlag_takes (List.mem_of_find?_eq_some hfind) hread).append (ih h)

theorem readLong_takes {name : List Char} (h : readLong c name s = (.ok (), s')) :
    State.Takes c (longAssigned c name s) s s' := by
  unfold readLong at h
  unfold longAssigned
  cases hfind : c.flagByLong? name with
  | none =>
    rw [hfind] at h
    cases h
  | some f =>
    rw [hfind] at h
    exact readFlag_takes (List.mem_of_find?_eq_some hfind) h

theorem turn_takes {finished : Bool} (h : turn settings c s = (.ok finished, s')) :
    State.Takes c (turnAssigned settings c s) s s' := by
  unfold turn at h
  unfold turnAssigned
  dsimp only at h ⊢
  split at h
  · next hend =>
    cases h
    rw [if_pos hend]
    exact State.takes_nil rfl rfl
  · next hend =>
    rw [if_neg hend]
    unfold turnAtWord at h
    dsimp only at h
    split at h
    · next hrole =>
      cases h
      rw [hrole]
      exact State.takes_nil rfl rfl
    · next name hrole =>
      rw [hrole]
      split at h
      · cases h
      · next hread =>
        cases h
        exact (readLong_takes hread).of_eq ⟨rfl, rfl⟩ ⟨rfl, rfl⟩
    · next letters hrole =>
      rw [hrole]
      split at h
      · cases h
      · next hread =>
        cases h
        exact (readCluster_takes hread).of_eq ⟨rfl, rfl⟩ ⟨rfl, rfl⟩
    · next hrole =>
      cases h
      rw [hrole]
      exact State.takes_nil rfl rfl
    · next hrole =>
      cases h
      rw [hrole]
      exact State.takes_nil rfl rfl

theorem scan_takes {turns : Nat} (h : scan settings c turns s = some (.ok (), s')) :
    State.Takes c (passAssigned settings c turns s) s s' := by
  induction turns generalizing s with
  | zero => cases h
  | succ turns ih =>
    rw [scan] at h
    rw [passAssigned]
    split at h
    · cases h
    · next hturn =>
      cases h
      rw [hturn, List.append_nil]
      exact turn_takes hturn
    · next hturn =>
      rw [hturn]
      exact (turn_takes hturn).append (ih h)

/-- Resolving what is absent gives each flag a value that has not occurred, and no other. -/
theorem resolveAbsent_assigned {flags : List Slot} (h : resolveAbsent c flags s = (.ok (), s')) :
    s'.context = s.context.bindAll
        ((absentAssigned flags s.seen s.context).map Assignment.binding)
      ∧ ∀ p, p ∈ (absentAssigned flags s.seen s.context).map Assignment.parameter
        ↔ ∃ f ∈ flags, f.parameter = p ∧ f.name ∉ s.seen := by
  induction flags generalizing s with
  | nil =>
    cases h
    exact ⟨rfl, fun p => by simp [absentAssigned]⟩
  | cons f rest ih =>
    rw [resolveAbsent] at h
    rw [absentAssigned]
    split at h
    · next hseen =>
      rw [if_pos hseen]
      obtain ⟨hcontext, hmem⟩ := ih h
      refine ⟨hcontext, fun p => ?_⟩
      simp only [hmem, List.exists_mem_cons_iff, hseen, not_true_eq_false, and_false, false_or]
    · next hunseen =>
      rw [if_neg hunseen]
      dsimp only at h
      cases hvalue : (f.absentValue s.context).1 with
      | error e =>
        rw [hvalue] at h
        cases h
      | ok value =>
        rw [hvalue] at h
        obtain ⟨hcontext, hmem⟩ := ih h
        refine ⟨hcontext, fun p => ?_⟩
        have hlater := hmem p
        dsimp only at hlater ⊢
        rw [List.map_cons, List.mem_cons, hlater, List.exists_mem_cons_iff]
        simp [hunseen, eq_comm]

/-- A pass and what is resolved behind it give a value to every flag and to nothing else. -/
theorem resolved_assigned (hnames : (c.flags.map Slot.name).Nodup) {turns : Nat}
    {scanned resolved : State} (hseen : s.seen = [])
    (hscan : scan settings c turns s = some (.ok (), scanned))
    (hresolve : resolveAbsent c c.flags scanned = (.ok (), resolved)) :
    resolved.context
        = s.context.bindAll ((assigned settings c turns s).map Assignment.binding)
      ∧ ∀ p, p ∈ (assigned settings c turns s).map Assignment.parameter
        ↔ p ∈ c.flags.map Slot.parameter := by
  obtain ⟨hgiven, hoccurred, hflags⟩ := scan_takes hscan
  obtain ⟨habsent, hmem⟩ := resolveAbsent_assigned hresolve
  rw [hseen, List.nil_append] at hoccurred
  unfold assigned
  rw [hscan]
  dsimp only
  constructor
  · rw [List.map_append, Context.bindAll_append, ← hgiven, ← habsent]
  · intro p
    rw [List.map_append, List.mem_append, hmem]
    constructor
    · rintro (hp | ⟨f, hf, rfl, _⟩)
      · obtain ⟨a, ha, rfl⟩ := List.mem_map.mp hp
        exact hflags a ha
      · exact List.mem_map_of_mem hf
    · intro hp
      obtain ⟨f, hf, rfl⟩ := List.mem_map.mp hp
      by_cases hoccurs : f.name ∈ scanned.seen
      · -- what has occurred under the name of `f` is `f`, since the names differ
        rw [hoccurred] at hoccurs
        obtain ⟨a, ha, hname⟩ := List.mem_map.mp hoccurs
        obtain ⟨g, hg, hparameter⟩ := List.mem_map.mp (hflags a ha)
        have hsame : g = f := by
          refine List.inj_on_of_nodup_map hnames hg hf ?_
          rw [← hname, ← hparameter]
          rfl
        refine .inl (List.mem_map.mpr ⟨a, ha, ?_⟩)
        rw [← hparameter, hsame]
      · exact .inr ⟨f, hf, rfl, hoccurs⟩

/-- Taking flags out binds what it gives them. -/
theorem extract_assigned (hnames : (c.flags.map Slot.name).Nodup) {input rest : Cursor}
    {start context : Context} {notes : List Note}
    (h : extract settings c input start = some ⟨.ok rest, context, notes⟩) :
    context = start.bindAll ((assigned settings c (turnLimit c input)
        ⟨input, start, [], [], []⟩).map Assignment.binding)
      ∧ ∀ p, p ∈ (assigned settings c (turnLimit c input)
          ⟨input, start, [], [], []⟩).map Assignment.parameter
        ↔ p ∈ c.flags.map Slot.parameter := by
  obtain ⟨scanned, resolved, hscan, hresolve, rfl, _⟩ := extract_cases h
  exact resolved_assigned hnames rfl hscan hresolve

end FlagScan

/-! ## Slots that are matched by place -/

namespace Walk

variable {c : Command α} {index : Nat} {s s' : State}

/-- What a node is given where it is read. -/
def nodeAssigned (node : Node) (s : State) : List Assignment :=
  match node.segment with
  | .word _ => []
  | .slot slot => slot.assigned (slot.parse s.cursor.skipBlanks s.context).result

/-- What a walk over nodes gives. -/
def assigned (c : Command α) : Nat → List Node → State → List Assignment
  | _, [], _ => []
  | index, node :: rest, s =>
    if !node.isPositional then assigned c (index + 1) rest s
    else nodeAssigned node s ++ assigned c (index + 1) rest (readNode c index node s).2

theorem readNode_assigned {node : Node} (h : readNode c index node s = (.ok (), s')) :
    s'.context = s.context.bindAll ((nodeAssigned node s).map Assignment.binding)
      ∧ (nodeAssigned node s).map Assignment.parameter = node.slot?.toList.map Slot.parameter := by
  obtain ⟨hread, _⟩ := readNode_eq_ok_iff.mp h
  obtain ⟨segment, _, _⟩ := node
  cases segment with
  | word text =>
    simp only [readSegment] at hread
    split at hread
    · cases hread
      exact ⟨rfl, rfl⟩
    · cases hread
  | slot slot =>
    simp only [readSegment] at hread
    split at hread
    · next value hparse =>
      cases hread
      unfold nodeAssigned
      dsimp only
      rw [hparse]
      exact ⟨rfl, rfl⟩
    · cases hread

/-- A walk gives a value to every slot that is matched by place, in order. -/
theorem run_assigned {nodes : List Node} (h : run c index nodes s = (.ok (), s')) :
    s'.context = s.context.bindAll ((assigned c index nodes s).map Assignment.binding)
      ∧ (assigned c index nodes s).map Assignment.parameter
        = (placesIn nodes).map Slot.parameter := by
  induction nodes generalizing index s with
  | nil =>
    cases h
    exact ⟨rfl, rfl⟩
  | cons node rest ih =>
    rw [run] at h
    rw [assigned, placesIn_cons]
    split at h
    · next hflag =>
      rw [if_pos hflag, if_neg (by simpa using hflag)]
      exact ih h
    · next hplaced =>
      rw [if_neg hplaced, if_pos (by simpa using hplaced)]
      split at h
      · cases h
      · next after hnode =>
        obtain ⟨hfirst, hfirstParameters⟩ := readNode_assigned hnode
        obtain ⟨hlater, hlaterParameters⟩ := ih h
        rw [hnode]
        dsimp only
        constructor
        · rw [List.map_append, Context.bindAll_append, ← hfirst, ← hlater]
        · rw [List.map_append, List.map_append, hfirstParameters, hlaterParameters]

end Walk

/-! ## Readings -/

namespace Reading

variable {settings : Settings} {c : Command α} {actor : Actor} {input : String} {r : Reading α}
  {rest : Cursor}

/-- What a reading gives, in order. -/
def assigned (settings : Settings) (c : Command α) (actor : Actor) (input : String) :
    List Assignment :=
  (if c.hasFlags then
    FlagScan.assigned settings c (FlagScan.turnLimit c (.ofText input.toList))
      (.start c actor input) else []) ++
  match walkStart? settings c actor input with
  | some s => Walk.assigned c 0 c.nodes s
  | none => []

/-- A reading that succeeds binds what it gives, and gives a value to every slot and to nothing
else. -/
theorem ofInput_assigned (hnames : (c.slots.map Slot.name).Nodup)
    (h : ofInput settings c actor input = some r) (hok : r.result = .ok rest) :
    r.context = (Context.start actor c.info input).bindAll
        ((assigned settings c actor input).map Assignment.binding)
      ∧ ∀ p, p ∈ (assigned settings c actor input).map Assignment.parameter
        ↔ p ∈ c.slots.map Slot.parameter := by
  obtain ⟨s, s', hstart, hrun, -, hcontext⟩ := ofInput_eq_ok h hok
  obtain ⟨hplaced, hplaces⟩ := Walk.run_assigned hrun
  have hslots (p : Parameter) : p ∈ c.slots.map Slot.parameter
      ↔ p ∈ c.flags.map Slot.parameter ∨ p ∈ (placesIn c.nodes).map Slot.parameter := by
    have hplacesIn : placesIn c.nodes = c.places := rfl
    simp only [List.mem_map, hplacesIn, Command.mem_flags_iff, Command.mem_places_iff]
    grind
  unfold assigned
  rw [hstart]
  dsimp only
  rw [← hcontext, hplaced, List.map_append, List.map_append, hplaces]
  unfold walkStart? at hstart
  dsimp only at hstart
  split at hstart
  · next hflags =>
    rw [if_pos hflags]
    split at hstart
    · next hextract =>
      cases hstart
      obtain ⟨hflagged, hmem⟩ :=
        FlagScan.extract_assigned (Command.nodup_flags hnames) hextract
      constructor
      · rw [Context.bindAll_append, hflagged]
        rfl
      · intro p
        rw [hslots, List.mem_append]
        exact or_congr (hmem p) Iff.rfl
    · cases hstart
  · next hflags =>
    cases hstart
    rw [if_neg hflags]
    refine ⟨rfl, fun p => ?_⟩
    have hnone : c.flags = [] :=
      List.eq_nil_iff_forall_not_mem.mpr fun f hf => hflags (Command.hasFlags_of_mem_flags hf)
    rw [hslots, hnone]
    simp

end Reading

end CommandGrammar
