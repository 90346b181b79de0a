import CommandGrammar.Proofs.Trial.Assignment
import Mathlib.Logic.Relation

/-!
# Where values come from

A slot that is no switch has its value from the text in front of it, from its default text, or from
neither where it may be absent.  In a trial every binding is of this kind, whether it is made by the
pass over the flags, for the flags that have not occurred, or by the walk over the nodes: the context
goes from its start to its end by such bindings alone, along a *trail*.  What stands under the name
of a slot in the end has therefore been given by that slot, as long as no other has its name.
-/

set_option autoImplicit false

namespace CommandGrammar

variable {α : Type}

namespace Slot

variable {s : Slot} {context : Context} {value : Value}

/-- The ways in which a slot is given a value. -/
inductive Gives (s : Slot) (context : Context) : Value → Prop where
  /-- a switch that has or has not occurred -/
  | switched (hswitch : s.isSwitch = true) (b : Bool) : Gives s context (.bool b)
  /-- read from the text in front of it -/
  | typed {cursor : Cursor} {value : Value} (hopen : cursor.atEnd = false)
      (hread : (s.type.parse cursor context).result = .ok value) : Gives s context value
  /-- read from its default text -/
  | default {text : String} {cursor : Cursor} {value : Value}
      (hdefault : s.parameter.defaultText = some text) (hrest : cursor.rest = text.toList)
      (hread : (s.type.parse cursor context).result = .ok value) : Gives s context value
  /-- absent, without a default text -/
  | missing (hoptional : s.isOptional = true) (hnone : s.parameter.defaultText = none) :
      Gives s context .nil

theorem gives_of_parse {cursor : Cursor} (h : (s.parse cursor context).result = .ok value) :
    s.Gives context value := by
  cases hend : cursor.atEnd with
  | false =>
    rw [parse_eq_of_not_atEnd hend h] at h
    exact .typed hend h
  | true =>
    have hrest : cursor.rest = [] := List.isEmpty_iff.mp hend
    obtain ⟨hoptional, hread⟩ := parse_eq_of_atEnd hend h
    rw [hread] at h
    cases hdefault : s.parameter.defaultText with
    | none =>
      rw [hdefault] at h
      cases h
      exact .missing hoptional hdefault
    | some text =>
      rw [hdefault] at h
      exact .default hdefault (by simp [Cursor.extend, hrest]) h

theorem gives_of_absentValue (h : (s.absentValue context).1 = .ok value) :
    s.Gives context value := by
  unfold absentValue at h
  split at h
  · next hswitch =>
    cases h
    exact .switched hswitch false
  · split at h
    · next text hdefault => exact .default hdefault rfl h
    · next hnone =>
      split at h
      · next hoptional =>
        cases h
        exact .missing hoptional hnone
      · cases h

end Slot

/-! ## Trails -/

namespace Command

/-- A slot of the command is given a value. -/
inductive Binds (c : Command α) (context : Context) : Context → Prop where
  | slot {s : Slot} {value : Value} (hs : s ∈ c.slots) (hgives : s.Gives context value) :
      Binds c context (context.bind s.name value)

/-- Slots of the command are given values, one after another. -/
def Trail (c : Command α) : Context → Context → Prop := Relation.ReflTransGen c.Binds

variable {c : Command α} {start final : Context} {s : Slot} {value : Value}

/-- Where the names of slots differ, what stands under the name of a slot at the end of a trail has
been given by that slot on the way. -/
theorem Trail.exists_given (h : c.Trail start final) (hnames : (c.slots.map Slot.name).Nodup)
    (hs : s ∈ c.slots) (hstart : start.arguments.get? s.name = none)
    (hfinal : final.arguments.get? s.name = some value) :
    ∃ given, c.Trail start given ∧ s.Gives given value
      ∧ c.Trail (given.bind s.name value) final := by
  induction h with
  | refl =>
    rw [hstart] at hfinal
    cases hfinal
  | @tail mid final hbefore hbind ih =>
    have hlast := hbind
    cases hbind with
    | @slot other last hother hgives =>
      rw [Context.bind, Arguments.get?_insert] at hfinal
      split at hfinal
      · next hname =>
        cases hfinal
        cases eq_of_name_eq hnames hs hother hname
        exact ⟨mid, hbefore, hgives, .refl⟩
      · obtain ⟨given, htrail, hgiven, hlater⟩ := ih hfinal
        exact ⟨given, htrail, hgiven, hlater.tail hlast⟩

end Command

/-! ## Flags -/

namespace FlagScan

variable {settings : Settings} {c : Command α} {s s' : State}

theorem readFlag_binds {f : Slot} (hf : f ∈ c.flags) (h : readFlag c f s = (.ok (), s')) :
    c.Binds s.context s'.context := by
  have hslot := (Command.mem_flags_iff.mp hf).1
  unfold readFlag at h
  dsimp only at h
  split at h
  · next hswitch =>
    split at h
    · cases h
      exact .slot hslot (.switched hswitch true)
    · cases h
  · split at h
    · cases h
    · split at h
      · next hparse =>
        cases h
        exact .slot hslot (Slot.gives_of_parse hparse)
      · cases h

theorem readsFlags_trail (h : ReadsFlags c s s') : c.Trail s.context s'.context := by
  induction h with
  | none s => exact .refl
  | more hf hread _ ih => exact .head (readFlag_binds hf hread) ih

theorem scan_trail {turns : Nat} (h : scan settings c turns s = some (.ok (), s')) :
    c.Trail s.context s'.context := by
  refine scan_preserves (P := fun t => c.Trail s.context t.context) ?_ .refl h
  intro t finished t' htrail hturned
  cases hturned with
  | @flags _ after hread =>
    -- neither skipping a word nor cutting binds anything
    have hflags := readsFlags_trail hread
    exact htrail.trans hflags
  | _ => exact htrail

theorem resolveAbsent_trail {flags : List Slot} (hflags : ∀ f ∈ flags, f ∈ c.slots)
    (h : resolveAbsent c flags s = (.ok (), s')) : c.Trail s.context s'.context := by
  induction flags generalizing s with
  | nil =>
    cases h
    exact .refl
  | cons f rest ih =>
    obtain ⟨hf, hrest⟩ := List.forall_mem_cons.mp hflags
    rw [resolveAbsent] at h
    split at h
    · exact ih hrest h
    · dsimp only at h
      split at h
      · cases h
      · next hvalue => exact .head (.slot hf (Slot.gives_of_absentValue hvalue)) (ih hrest h)

theorem extract_trail {input rest : Cursor} {start context : Context} {notes : List Note}
    (h : extract settings c input start = some ⟨.ok rest, context, notes⟩) :
    c.Trail start context := by
  obtain ⟨scanned, resolved, hscan, hresolve, rfl, _⟩ := extract_cases h
  have hslots : ∀ f ∈ c.flags, f ∈ c.slots := fun f hf => (Command.mem_flags_iff.mp hf).1
  exact (scan_trail hscan).trans (resolveAbsent_trail hslots hresolve)

end FlagScan

/-! ## Nodes -/

namespace Walk

variable {c : Command α} {index : Nat} {s s' : State}

theorem readNode_trail {node : Node} (hslots : ∀ slot ∈ node.slot?, slot ∈ c.slots)
    (h : readNode c index node s = (.ok (), s')) : c.Trail s.context s'.context := by
  obtain ⟨hread, _⟩ := readNode_eq_ok_iff.mp h
  obtain ⟨segment, _, _⟩ := node
  cases segment with
  | word text =>
    simp only [readSegment] at hread
    split at hread
    · cases hread
      exact .refl
    · cases hread
  | slot slot =>
    simp only [readSegment] at hread
    split at hread
    · next hparse =>
      cases hread
      exact .single (.slot (hslots slot rfl) (Slot.gives_of_parse hparse))
    · cases hread

theorem run_trail {nodes : List Node} (hnodes : nodes ⊆ c.nodes)
    (h : run c index nodes s = (.ok (), s')) : c.Trail s.context s'.context := by
  induction nodes generalizing index s with
  | nil =>
    cases h
    exact .refl
  | cons node rest ih =>
    obtain ⟨hnode, hrest⟩ := List.cons_subset.mp hnodes
    rw [run] at h
    split at h
    · exact ih hrest h
    · split at h
      · cases h
      · next hread =>
        have hslots : ∀ slot ∈ node.slot?, slot ∈ c.slots := fun slot hslot =>
          List.mem_filterMap.mpr ⟨node, hnode, hslot⟩
        exact (readNode_trail hslots hread).trans (ih hrest h)

end Walk

/-! ## Readings -/

namespace Reading

variable {settings : Settings} {c : Command α} {actor : Actor} {input : String} {r : Reading α}
  {rest : Cursor}

theorem walkStart?_trail {s : Walk.State} (h : walkStart? settings c actor input = some s) :
    c.Trail (.start actor c.info input) s.context := by
  unfold walkStart? at h
  dsimp only at h
  split at h
  · split at h
    · next hextract =>
      cases h
      exact FlagScan.extract_trail hextract
    · cases h
  · cases h
    exact .refl

/-- A reading that succeeds has bound its arguments along a trail. -/
theorem ofInput_trail (h : ofInput settings c actor input = some r) (hok : r.result = .ok rest) :
    c.Trail (.start actor c.info input) r.context := by
  obtain ⟨s, s', hstart, hrun, -, hcontext⟩ := ofInput_eq_ok h hok
  rw [← hcontext]
  exact (walkStart?_trail hstart).trans (Walk.run_trail (List.Subset.refl _) hrun)

end Reading

end CommandGrammar
