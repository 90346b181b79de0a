import CommandGrammar.Trial.Parse
import CommandGrammar.Proofs.Trial.Passes
import Mathlib.Data.List.Nodup

/-!
# Permissions of parameters

A slot is read only where its permission admits the actor, whether it is matched by place or named
by a flag in any spelling.  So a reading that succeeds has admitted the actor at every slot that is
matched by place, and a flag that denies the actor has the value of its absence.
-/

set_option autoImplicit false

namespace CommandGrammar

variable {α : Type}

namespace Context

@[simp] theorem bindAll_command (context : Context) (bindings : List (String × Value)) :
    (context.bindAll bindings).command = context.command := by
  induction bindings generalizing context with
  | nil => rfl
  | cons b rest ih => rw [bindAll_cons, ih, bind_command]

theorem bindAll_concat (context : Context) (bindings : List (String × Value)) (name : String)
    (value : Value) :
    context.bindAll (bindings ++ [(name, value)]) = (context.bindAll bindings).bind name value :=
  bindAll_append _ _ _

end Context

/-- Of the bindings that follow a start, the last one of a flag gives it the value of its absence,
as it is under the bindings before. -/
def Slot.BoundAbsent (f : Slot) (start : Context) (bindings : List (String × Value)) : Prop :=
  ∃ earlier value later, bindings = earlier ++ (f.name, value) :: later
    ∧ f.name ∉ later.map Prod.fst ∧ (f.absentValue (start.bindAll earlier)).1 = .ok value

namespace Slot.BoundAbsent

variable {f : Slot} {start : Context} {bindings others : List (String × Value)}

theorem append (h : f.BoundAbsent start bindings) (hother : f.name ∉ others.map Prod.fst) :
    f.BoundAbsent start (bindings ++ others) := by
  obtain ⟨earlier, value, later, rfl, hlater, hvalue⟩ := h
  refine ⟨earlier, value, later ++ others, by simp, ?_, hvalue⟩
  rw [List.map_append, List.mem_append]
  exact not_or.mpr ⟨hlater, hother⟩

theorem prepend (h : f.BoundAbsent (start.bindAll others) bindings) :
    f.BoundAbsent start (others ++ bindings) := by
  obtain ⟨earlier, value, later, rfl, hlater, hvalue⟩ := h
  refine ⟨others ++ earlier, value, later, by simp, hlater, ?_⟩
  rwa [Context.bindAll_append]

end Slot.BoundAbsent

theorem Slot.admits_of_parse {s : Slot} {cursor : Cursor} {context : Context} {value : Value}
    (h : (s.parse cursor context).result = .ok value) : s.admits context.actor = true := by
  unfold Slot.parse at h
  split at h
  · cases h
  · next hadmits => simpa using hadmits

/-! ## Flags -/

namespace FlagScan

variable {settings : Settings} {c : Command α} {start : Context} {s s' : State}

/-- Since a start, a pass has bound flags that admit the actor, and no others. -/
structure State.Admitted (c : Command α) (start : Context) (s : State) : Prop where
  context : ∃ bindings, s.context = start.bindAll bindings ∧ bindings.map Prod.fst = s.seen
  seen : ∀ name ∈ s.seen, ∃ f ∈ c.flags, f.name = name ∧ f.admits start.actor = true

theorem State.Admitted.actor (h : s.Admitted c start) : s.context.actor = start.actor := by
  obtain ⟨bindings, hcontext, _⟩ := h.context
  rw [hcontext, Context.bindAll_actor]

/-- Only what is bound and what has occurred counts. -/
theorem State.Admitted.of_eq (h : s.Admitted c start) (hcontext : s'.context = s.context)
    (hseen : s'.seen = s.seen) : s'.Admitted c start := by
  obtain ⟨hbound, hadmitted⟩ := h
  exact ⟨by rwa [hcontext, hseen], by rwa [hseen]⟩

theorem State.Admitted.resolve (h : s.Admitted c start) {f : Slot} (hf : f ∈ c.flags)
    (hadmits : f.admits start.actor = true) (value : Value) :
    (s.resolve f.name value).Admitted c start where
  context := by
    obtain ⟨bindings, hcontext, hseen⟩ := h.context
    refine ⟨bindings ++ [(f.name, value)], ?_, ?_⟩
    · rw [Context.bindAll_concat, ← hcontext]
      rfl
    · rw [List.map_append, hseen]
      rfl
  seen name hname := by
    rcases List.mem_append.mp hname with hname | hname
    · exact h.seen name hname
    · exact ⟨f, hf, (List.mem_singleton.mp hname).symm, hadmits⟩

/-- A flag or a switch is read only if it admits the actor. -/
theorem readFlag_admitted (h : s.Admitted c start) {f : Slot} (hf : f ∈ c.flags)
    (hread : readFlag c f s = (.ok (), s')) : s'.Admitted c start := by
  unfold readFlag at hread
  dsimp only at hread
  split at hread
  · split at hread
    · next hadmits =>
      cases hread
      rw [h.actor] at hadmits
      exact h.resolve hf hadmits _
    · cases hread
  · split at hread
    · cases hread
    · split at hread
      · next value hparse =>
        cases hread
        have hadmits := Slot.admits_of_parse hparse
        rw [h.actor] at hadmits
        exact (h.resolve hf hadmits value).of_eq rfl rfl
      · cases hread

theorem ReadsFlags.admitted (h : s.Admitted c start) (hread : ReadsFlags c s s') :
    s'.Admitted c start := by
  induction hread with
  | none s => exact h
  | more hf hflag _ ih => exact ih (readFlag_admitted h hf hflag)

/-- Whatever stands at the cursor, a turn reads no flag that denies the actor. -/
theorem Turned.admitted {finished : Bool} (h : s.Admitted c start)
    (hturn : Turned c s finished s') : s'.Admitted c start := by
  cases hturn with
  | atEnd => exact h.of_eq rfl rfl
  | marked => exact h.of_eq rfl rfl
  | flags _ hread =>
    have hbehind : s.skipBlanks.behindWord.Admitted c start := h.of_eq rfl rfl
    exact (hread.admitted hbehind).of_eq rfl rfl
  | quoted => exact h.of_eq rfl rfl
  | plain => exact h.of_eq rfl rfl

/-- However long a pass is, it reads no flag that denies the actor. -/
theorem scan_admitted {turns : Nat} (h : s.Admitted c start)
    (hscan : scan settings c turns s = some (.ok (), s')) : s'.Admitted c start :=
  scan_preserves (fun _ _ _ h => Turned.admitted h) h hscan

/-- What resolving absent flags binds: each flag that has not occurred, to the value of its
absence. -/
theorem resolveAbsent_boundAbsent {flags : List Slot} (hnames : (flags.map Slot.name).Nodup)
    (h : resolveAbsent c flags s = (.ok (), s')) :
    ∃ bindings, s'.context = s.context.bindAll bindings
      ∧ (bindings.map Prod.fst).Sublist (flags.map Slot.name)
      ∧ ∀ f ∈ flags, f.name ∉ s.seen → f.BoundAbsent s.context bindings := by
  induction flags generalizing s with
  | nil =>
    cases h
    exact ⟨[], rfl, List.Sublist.refl _, List.forall_mem_nil _⟩
  | cons f rest ih =>
    obtain ⟨hfirst, hrest⟩ := List.nodup_cons.mp hnames
    rw [resolveAbsent] at h
    split at h
    · next hseen =>
      obtain ⟨bindings, hcontext, hsub, hbound⟩ := ih hrest h
      refine ⟨bindings, hcontext, hsub.cons _, List.forall_mem_cons.mpr ⟨?_, hbound⟩⟩
      exact fun hunseen => absurd hseen hunseen
    · dsimp only at h
      split at h
      · cases h
      · next value hvalue =>
        obtain ⟨bindings, hcontext, hsub, hbound⟩ := ih hrest h
        refine ⟨(f.name, value) :: bindings, hcontext, hsub.cons_cons _,
          List.forall_mem_cons.mpr ⟨fun _ => ?_, fun g hg hunseen => ?_⟩⟩
        · exact ⟨[], value, bindings, rfl, fun hmem => hfirst (hsub.subset hmem), hvalue⟩
        · have hlater : g.BoundAbsent (s.context.bindAll [(f.name, value)]) bindings :=
            hbound g hg hunseen
          exact hlater.prepend

end FlagScan

/-! ## Slots that are matched by place -/

namespace Command

/-- The slots of a command. -/
def slots (c : Command α) : List Slot := c.nodes.filterMap Node.slot?

/-- The slots that are matched by place. -/
def places (c : Command α) : List Slot := c.positional.filterMap Node.slot?

variable {c : Command α} {f slot : Slot}

theorem mem_flags_iff : f ∈ c.flags ↔ f ∈ c.slots ∧ f.isPositional = false := by
  simp [flags, slots]

theorem mem_places_iff : slot ∈ c.places ↔ slot ∈ c.slots ∧ slot.isPositional = true := by
  have hplaced : ∀ n : Node, n.slot? = some slot → n.isPositional = slot.isPositional := by
    rintro ⟨segment, _, _⟩ hslot
    cases segment with
    | word text => cases hslot
    | slot s =>
      cases hslot
      rfl
  simp only [places, slots, positional, List.mem_filterMap, List.mem_filter]
  constructor
  · rintro ⟨n, ⟨hn, hpositional⟩, hslot⟩
    exact ⟨⟨n, hn, hslot⟩, hplaced n hslot ▸ hpositional⟩
  · rintro ⟨⟨n, hn, hslot⟩, hpositional⟩
    exact ⟨n, ⟨hn, hplaced n hslot ▸ hpositional⟩, hslot⟩

theorem hasFlags_of_mem_flags (h : f ∈ c.flags) : c.hasFlags = true := by
  obtain ⟨hslot, hflag⟩ := mem_flags_iff.mp h
  obtain ⟨⟨segment, last, ends⟩, hn, hslot⟩ := List.mem_filterMap.mp hslot
  refine List.any_eq_true.mpr ⟨_, hn, ?_⟩
  cases segment with
  | word text => cases hslot
  | slot s =>
    cases hslot
    simp [Node.isPositional, hflag]

/-- Where the names of slots are distinct, a name belongs to one slot. -/
theorem eq_of_name_eq (hnames : (c.slots.map Slot.name).Nodup) (hf : f ∈ c.slots)
    (hslot : slot ∈ c.slots) (hname : f.name = slot.name) : f = slot :=
  List.inj_on_of_nodup_map hnames hf hslot hname

theorem nodup_flags (hnames : (c.slots.map Slot.name).Nodup) :
    (c.flags.map Slot.name).Nodup :=
  hnames.sublist (List.filter_sublist.map _)

/-- A flag has a name that no slot that is matched by place has. -/
theorem name_not_mem_places (hnames : (c.slots.map Slot.name).Nodup) (hf : f ∈ c.flags) :
    f.name ∉ c.places.map Slot.name := by
  intro hmem
  obtain ⟨slot, hslot, hname⟩ := List.mem_map.mp hmem
  obtain ⟨hf, hflag⟩ := mem_flags_iff.mp hf
  obtain ⟨hslot, hplaced⟩ := mem_places_iff.mp hslot
  rw [eq_of_name_eq hnames hslot hf hname, hflag] at hplaced
  cases hplaced

end Command

namespace FlagScan

variable {settings : Settings} {c : Command α} {input rest : Cursor} {start context : Context}
  {notes : List Note}

/-- Taking the flags out of an input binds flags only, and a flag that denies the actor to the value
of its absence. -/
theorem extract_boundAbsent (hnames : (c.slots.map Slot.name).Nodup)
    (h : extract settings c input start = some ⟨.ok rest, context, notes⟩) :
    ∃ bindings, context = start.bindAll bindings
      ∧ bindings.map Prod.fst ⊆ c.flags.map Slot.name
      ∧ ∀ f ∈ c.flags, f.admits start.actor = false → f.BoundAbsent start bindings := by
  obtain ⟨scanned, resolved, hscan, hresolve, rfl, _⟩ := extract_cases h
  obtain ⟨⟨given, hgiven, hseen⟩, hadmitted⟩ :=
    scan_admitted (c := c) ⟨⟨[], rfl, rfl⟩, List.forall_mem_nil _⟩ hscan
  obtain ⟨absent, habsent, hsub, hbound⟩ :=
    resolveAbsent_boundAbsent (Command.nodup_flags hnames) hresolve
  refine ⟨given ++ absent, ?_, ?_, ?_⟩
  · rw [Context.bindAll_append, ← hgiven, habsent]
  · rw [List.map_append, hseen]
    refine List.append_subset.mpr ⟨fun name hname => ?_, hsub.subset⟩
    obtain ⟨f, hf, rfl, _⟩ := hadmitted name hname
    exact List.mem_map_of_mem hf
  · intro f hf hdenied
    have hunseen : f.name ∉ scanned.seen := by
      intro hname
      obtain ⟨g, hg, heq, hadmits⟩ := hadmitted f.name hname
      have hsame := Command.eq_of_name_eq hnames (Command.mem_flags_iff.mp hg).1
        (Command.mem_flags_iff.mp hf).1 heq
      rw [hsame, hdenied] at hadmits
      cases hadmits
    have hlast := hbound f hf hunseen
    rw [hgiven] at hlast
    exact hlast.prepend

end FlagScan

namespace Walk

variable {c : Command α} {index : Nat} {s s' : State}

/-- A node that is read admits the actor, and binds its slot. -/
theorem readNode_admits {node : Node} (h : readNode c index node s = (.ok (), s')) :
    (∃ bindings, s'.context = s.context.bindAll bindings
        ∧ bindings.map Prod.fst = node.slot?.toList.map Slot.name)
      ∧ ∀ slot ∈ node.slot?, slot.admits s.context.actor = true := by
  obtain ⟨segment, last, ends⟩ := node
  unfold readNode at h
  dsimp only at h
  split at h
  · cases h
  · next after hsegment =>
    have hseparated : s' = after := by
      unfold checkSeparated at h
      split at h
      · next hmatch =>
        split at hmatch <;> cases hmatch
        cases h
      · next hmatch =>
        split at hmatch <;> cases hmatch
        cases h
        rfl
    subst hseparated
    cases segment with
    | word text =>
      simp only [readSegment] at hsegment
      split at hsegment
      · cases hsegment
        exact ⟨⟨[], rfl, rfl⟩, fun _ hslot => nomatch hslot⟩
      · cases hsegment
    | slot slot =>
      simp only [readSegment] at hsegment
      split at hsegment
      · next value hparse =>
        cases hsegment
        refine ⟨⟨[(slot.name, value)], rfl, rfl⟩, fun other hother => ?_⟩
        cases hother
        exact Slot.admits_of_parse hparse
      · cases hsegment

/-- A walk that gets through admits the actor at every slot that is matched by place. -/
theorem run_admits {nodes : List Node} (h : run c index nodes s = (.ok (), s')) :
    (∃ bindings, s'.context = s.context.bindAll bindings ∧ bindings.map Prod.fst
        = ((nodes.filter Node.isPositional).filterMap Node.slot?).map Slot.name)
      ∧ ∀ slot ∈ (nodes.filter Node.isPositional).filterMap Node.slot?,
        slot.admits s.context.actor = true := by
  induction nodes generalizing index s with
  | nil =>
    cases h
    exact ⟨⟨[], rfl, rfl⟩, List.forall_mem_nil _⟩
  | cons node rest ih =>
    rw [run] at h
    split at h
    · next hflag =>
      rw [List.filter_cons_of_neg (by simpa using hflag)]
      exact ih h
    · next hplaced =>
      rw [List.filter_cons_of_pos (by simpa using hplaced)]
      split at h
      · cases h
      · next hnode =>
        obtain ⟨⟨first, hfirst, hfirstNames⟩, hfirstAdmits⟩ := readNode_admits hnode
        obtain ⟨⟨later, hlater, hlaterNames⟩, hlaterAdmits⟩ := ih h
        rw [hfirst, Context.bindAll_actor] at hlaterAdmits
        have hboth : s'.context = s.context.bindAll (first ++ later) := by
          rw [Context.bindAll_append, ← hfirst, hlater]
        cases hslot : node.slot? with
        | none =>
          rw [hslot] at hfirstNames
          rw [List.filterMap_cons_none hslot]
          refine ⟨⟨first ++ later, hboth, ?_⟩, hlaterAdmits⟩
          rw [List.map_append, hfirstNames, hlaterNames]
          rfl
        | some slot =>
          rw [hslot] at hfirstNames
          rw [List.filterMap_cons_some hslot]
          refine ⟨⟨first ++ later, hboth, ?_⟩, List.forall_mem_cons.mpr ⟨?_, hlaterAdmits⟩⟩
          · rw [List.map_append, hfirstNames, hlaterNames]
            rfl
          · exact hfirstAdmits slot hslot

end Walk

/-! ## Readings -/

namespace Reading

variable {settings : Settings} {c : Command α} {actor : Actor} {input : String} {r : Reading α}
  {rest : Cursor}

theorem ofRest_admits {cursor : Cursor} {context : Context} {notes : List Note}
    (hok : (ofRest c cursor context notes).result = .ok rest) :
    (∃ bindings, (ofRest c cursor context notes).context = context.bindAll bindings
        ∧ bindings.map Prod.fst = c.places.map Slot.name)
      ∧ ∀ slot ∈ c.places, slot.admits context.actor = true := by
  unfold ofRest at hok ⊢
  split at hok
  · cases hok
  · next hrun =>
    exact Walk.run_admits hrun

/-- A reading that succeeds has admitted the actor wherever it took a value, and has not taken one
for a flag that denies the actor. -/
theorem ofInput_admits (hnames : (c.slots.map Slot.name).Nodup)
    (h : Reading.ofInput settings c actor input = some r) (hok : r.result = .ok rest) :
    (∃ bindings, r.context = (Context.start actor c.info input).bindAll bindings
        ∧ (∀ name ∈ bindings.map Prod.fst, name ∈ c.slots.map Slot.name)
        ∧ ∀ f ∈ c.flags, f.admits actor = false →
          f.BoundAbsent (.start actor c.info input) bindings)
      ∧ ∀ slot ∈ c.places, slot.admits actor = true := by
  unfold ofInput at h
  dsimp only at h
  split at h
  · split at h
    · cases h
    · cases h
      cases hok
    · next unread context notes hextract =>
      cases h
      obtain ⟨⟨placed, hplaced, hplacedNames⟩, hadmits⟩ := ofRest_admits hok
      obtain ⟨flagged, hflagged, hflaggedNames, hbound⟩ :=
        FlagScan.extract_boundAbsent hnames hextract
      rw [hflagged, Context.bindAll_actor] at hadmits
      refine ⟨⟨flagged ++ placed, ?_, ?_, ?_⟩, hadmits⟩
      · rw [Context.bindAll_append, ← hflagged, hplaced]
      · intro name hname
        rw [List.map_append, hplacedNames] at hname
        rcases List.mem_append.mp hname with hname | hname
        · obtain ⟨f, hf, rfl⟩ := List.mem_map.mp (hflaggedNames hname)
          exact List.mem_map_of_mem (Command.mem_flags_iff.mp hf).1
        · obtain ⟨slot, hslot, rfl⟩ := List.mem_map.mp hname
          exact List.mem_map_of_mem (Command.mem_places_iff.mp hslot).1
      · intro f hf hdenied
        refine (hbound f hf hdenied).append ?_
        rw [hplacedNames]
        exact Command.name_not_mem_places hnames hf
  · next hflags =>
    cases h
    obtain ⟨⟨placed, hplaced, hplacedNames⟩, hadmits⟩ := ofRest_admits hok
    refine ⟨⟨placed, hplaced, ?_, ?_⟩, hadmits⟩
    · intro name hname
      rw [hplacedNames] at hname
      obtain ⟨slot, hslot, rfl⟩ := List.mem_map.mp hname
      exact List.mem_map_of_mem (Command.mem_places_iff.mp hslot).1
    · exact fun f hf => absurd (Command.hasFlags_of_mem_flags hf) hflags

end Reading

end CommandGrammar
