import CommandGrammar.Proofs.Command.Structure

/-!
# Looking parameters up

The pass over an input asks for a flag by its long name or by its shorthand, and arguments and
failures are filed under the names of parameters.  A lookup of a flag stops at the first one that
fits, and the lookup of a node at the last one.

Compiling keeps shorthands apart, and long names as texts.  Long names are looked up without regard
to ASCII case, and parameter names are not compared at all: `compile_flagsFound` says which flags
are found under their own names, and `indicesIdentify_iff` when a name leads to its own node.
-/

set_option autoImplicit false

namespace CommandGrammar

variable {α : Type}

/-- What holds of any two members of a list, in their order, is told by the ways to take it apart at
two places. -/
theorem pairwise_iff_of_splits {β : Type} {R : β → β → Prop} {l : List β} :
    l.Pairwise R
      ↔ ∀ first a middle b last, l = first ++ a :: (middle ++ b :: last) → R a b := by
  constructor
  · rintro h first a middle b last rfl
    have hfrom := (List.pairwise_append.mp h).2.1
    exact (List.pairwise_cons.mp hfrom).1 b (List.mem_append_right _ List.mem_cons_self)
  · intro h
    induction l with
    | nil => exact List.Pairwise.nil
    | cons a rest ih =>
      refine List.pairwise_cons.mpr ⟨fun b hb => ?_, ih fun first a' middle b last hrest => ?_⟩
      · obtain ⟨middle, last, rfl⟩ := List.append_of_mem hb
        exact h [] a middle b last rfl
      · exact h (a :: first) a' middle b last (by rw [hrest]; rfl)

/-- A member that fits and has not occurred before is found exactly if nothing before it fits. -/
theorem find?_append_cons_eq_some_iff {β : Type} {p : β → Bool} {before after : List β} {a : β}
    (ha : p a = true) (hnew : a ∉ before) :
    (before ++ a :: after).find? p = some a ↔ ∀ b ∈ before, p b = false := by
  rw [List.find?_append, List.find?_cons_of_pos ha]
  constructor
  · intro hfind b hb
    cases hbefore : before.find? p with
    | none => simpa using List.find?_eq_none.mp hbefore b hb
    | some found =>
      rw [hbefore] at hfind
      cases hfind
      exact absurd (List.mem_of_find?_eq_some hbefore) hnew
  · intro hnone
    have hbefore : before.find? p = none :=
      List.find?_eq_none.mpr fun b hb => by simp [hnone b hb]
    rw [hbefore]
    rfl

/-! ## Flags -/

namespace Command

variable {c : Command α}

/-- Where names are distinct, no member before has the name of a later one. -/
theorem name_not_mem_before {β : Type} {nameOf : Slot → Option β} {before after : List Slot}
    {f : Slot} {name : β} (hnames : ((before ++ f :: after).filterMap nameOf).Nodup)
    (hf : nameOf f = some name) : ∀ g ∈ before, nameOf g ≠ some name := by
  intro g hg hname
  rw [List.filterMap_append, List.filterMap_cons_some hf] at hnames
  have hbefore : name ∈ before.filterMap nameOf := List.mem_filterMap.mpr ⟨g, hg, hname⟩
  exact (List.nodup_append.mp hnames).2.2 name hbefore name List.mem_cons_self rfl

/-- Where shorthands are distinct, each of them leads to its flag. -/
theorem flagByShort?_eq_some (hnames : (c.flags.filterMap Slot.shorthand?).Nodup) {f : Slot}
    (hf : f ∈ c.flags) {letter : Char} (hletter : f.shorthand? = some letter) :
    c.flagByShort? letter = some f := by
  obtain ⟨before, after, hsplit⟩ := List.append_of_mem hf
  rw [hsplit] at hnames
  have hbefore := name_not_mem_before hnames hletter
  unfold flagByShort?
  rw [hsplit]
  refine (find?_append_cons_eq_some_iff ?_ fun hf => hbefore f hf hletter).mpr ?_
  · exact decide_eq_true hletter
  · exact fun g hg => decide_eq_false (hbefore g hg)

/-- A long name leads to its flag exactly if no flag before has the same name up to case. -/
theorem flagByLong?_eq_some_iff (hnames : (c.flags.filterMap Slot.longName?).Nodup)
    {before after : List Slot} {f : Slot} (hsplit : c.flags = before ++ f :: after) {long : String}
    (hlong : f.longName? = some long) :
    c.flagByLong? long.toList = some f
      ↔ ∀ g ∈ before, ∀ other ∈ g.longName?, Text.sameFolded other.toList long.toList = false := by
  rw [hsplit] at hnames
  have hbefore := name_not_mem_before hnames hlong
  unfold flagByLong?
  rw [hsplit, find?_append_cons_eq_some_iff (by simp [hlong]) fun hf => hbefore f hf hlong]
  apply forall₂_congr
  intro g _
  cases g.longName? <;> simp

/-- All flags are found under their long names exactly if these differ by more than case. -/
theorem flagByLong?_iff_pairwise (hnames : (c.flags.filterMap Slot.longName?).Nodup) :
    (∀ f ∈ c.flags, ∀ long ∈ f.longName?, c.flagByLong? long.toList = some f)
      ↔ (c.flags.filterMap Slot.longName?).Pairwise fun other long =>
        Text.sameFolded other.toList long.toList = false := by
  rw [List.pairwise_filterMap, pairwise_iff_of_splits]
  constructor
  · intro hfound first g middle f last hsplit other hother long hlong
    have hone : c.flags = (first ++ g :: middle) ++ f :: last := by
      rw [hsplit, List.append_assoc]
      rfl
    have hf : f ∈ c.flags := by
      rw [hone]
      exact List.mem_append_right _ List.mem_cons_self
    have hbefore := (flagByLong?_eq_some_iff hnames hone hlong).mp (hfound f hf long hlong)
    exact hbefore g (List.mem_append_right _ List.mem_cons_self) other hother
  · intro hpairs f hf long hlong
    obtain ⟨before, after, hsplit⟩ := List.append_of_mem hf
    rw [flagByLong?_eq_some_iff hnames hsplit hlong]
    intro g hg other hother
    obtain ⟨first, middle, rfl⟩ := List.append_of_mem hg
    refine hpairs first g middle f after ?_ other hother long hlong
    rw [hsplit, List.append_assoc]
    rfl

end Command

/-! ## Nodes -/

/-- The name of the parameter that fills a node. -/
def Node.parameterName? (n : Node) : Option String := n.slot?.map Slot.name

theorem Node.name_eq_iff {n : Node} {name : String} :
    (!n.isWord && decide (n.name = name)) = true ↔ n.parameterName? = some name := by
  obtain ⟨segment, _, _⟩ := n
  cases segment with
  | word text => simp [isWord, parameterName?, slot?]
  | slot s =>
    simp only [isWord, parameterName?, slot?, Node.name, Option.map_some, Option.some.injEq]
    exact decide_eq_true_iff

namespace Command

variable {c : Command α}

/-- A name that no node has leads nowhere. -/
theorem slotIndexFrom_eq_none {name : String} {nodes : List Node}
    (h : ∀ n ∈ nodes, n.parameterName? ≠ some name) (i : Nat) :
    slotIndexFrom name i nodes = none := by
  induction nodes generalizing i with
  | nil => rfl
  | cons n rest ih =>
    obtain ⟨hfirst, hrest⟩ := List.forall_mem_cons.mp h
    rw [slotIndexFrom, ih hrest]
    exact if_neg fun hname => hfirst (Node.name_eq_iff.mp hname)

/-- A name leads to the last of the nodes that have it. -/
theorem slotIndexFrom_append_cons {name : String} {before after : List Node} {n : Node}
    (hname : n.parameterName? = some name) (hlast : ∀ m ∈ after, m.parameterName? ≠ some name)
    (i : Nat) : slotIndexFrom name i (before ++ n :: after) = some (i + before.length) := by
  induction before generalizing i with
  | nil =>
    rw [List.nil_append, slotIndexFrom, slotIndexFrom_eq_none hlast]
    exact if_pos (Node.name_eq_iff.mpr hname)
  | cons m rest ih =>
    rw [List.cons_append, slotIndexFrom, ih (i + 1), List.length_cons]
    dsimp only
    rw [Nat.add_right_comm, Nat.add_assoc]

theorem slot?_eq_some {name : String} {i : Nat} {n : Node} {slot : Slot}
    (hindex : c.indexOf? name = some i) (hn : c.nodes[i]? = some n) (hslot : n.slot? = some slot) :
    c.slot? name = some slot := by
  unfold slot?
  rw [hindex]
  dsimp only
  rw [hn]
  exact hslot

theorem names_slots : c.slots.map Slot.name = c.nodes.filterMap Node.parameterName? := by
  unfold slots
  rw [List.map_filterMap]
  rfl

/-- Every name leads to its own node exactly if no two nodes share one. -/
theorem indicesIdentify_iff :
    (c.slots.map Slot.name).Nodup
      ↔ ∀ i n slot, c.nodes[i]? = some n → n.slot? = some slot →
        c.indexOf? slot.name = some i ∧ c.slot? slot.name = some slot := by
  rw [names_slots, List.Nodup, List.pairwise_filterMap, pairwise_iff_of_splits]
  constructor
  · intro hdiffer i n slot hn hslot
    have hname : n.parameterName? = some slot.name := by rw [Node.parameterName?, hslot]; rfl
    obtain ⟨hi, rfl⟩ := List.getElem?_eq_some_iff.mp hn
    have hsplit : c.nodes = c.nodes.take i ++ c.nodes[i] :: c.nodes.drop (i + 1) := by
      rw [List.getElem_cons_drop, List.take_append_drop]
    have hlast : ∀ m ∈ c.nodes.drop (i + 1), m.parameterName? ≠ some slot.name := by
      intro m hm hsame
      obtain ⟨middle, last, hrest⟩ := List.append_of_mem hm
      rw [hrest] at hsplit
      exact hdiffer _ _ _ _ _ hsplit slot.name hname slot.name hsame rfl
    have hindex : c.indexOf? slot.name = some i := by
      unfold indexOf?
      rw [hsplit, slotIndexFrom_append_cons hname hlast, List.length_take, Nat.zero_add,
        Nat.min_eq_left (Nat.le_of_lt hi)]
    exact ⟨hindex, slot?_eq_some hindex hn hslot⟩
  · intro hidentify first m middle n last hsplit name hm other hn hsame
    subst hsame
    obtain ⟨s, hs, hsname⟩ := Option.map_eq_some_iff.mp hm
    obtain ⟨t, ht, htname⟩ := Option.map_eq_some_iff.mp hn
    have hfirst : c.nodes[first.length]? = some m := by simp [hsplit]
    have hlater : c.nodes[first.length + (middle.length + 1)]? = some n := by
      rw [hsplit, List.getElem?_append_right (Nat.le_add_right _ _), Nat.add_sub_cancel_left,
        List.getElem?_cons_succ]
      simp
    have hone := (hidentify _ _ _ hfirst hs).1
    have htwo := (hidentify _ _ _ hlater ht).1
    rw [hsname] at hone
    rw [htname, hone] at htwo
    have hplaces := Option.some.inj htwo
    omega

end Command

namespace Compile

variable {pipeline : Pipeline α} {d : Declaration α} {path : String} {id : CommandId}
  {c : Command α}

/-- Every shorthand of a compiled command leads to its flag.  A long name does unless a flag before
has the same name up to ASCII case, so all long names do exactly if they differ by more than
case. -/
theorem compile_flagsFound (h : compile pipeline d path id = .ok c) :
    (∀ f ∈ c.flags, ∀ letter ∈ f.shorthand?, c.flagByShort? letter = some f)
      ∧ (∀ before f after, c.flags = before ++ f :: after → ∀ long ∈ f.longName?,
          (c.flagByLong? long.toList = some f
            ↔ ∀ g ∈ before, ∀ other ∈ g.longName?,
              Text.sameFolded other.toList long.toList = false))
      ∧ ((∀ f ∈ c.flags, ∀ long ∈ f.longName?, c.flagByLong? long.toList = some f)
          ↔ (c.flags.filterMap Slot.longName?).Pairwise fun other long =>
            Text.sameFolded other.toList long.toList = false) := by
  obtain ⟨hlongNames, hshorthands⟩ := flagNames_nodup_of_compile h
  refine ⟨?_, ?_, ?_⟩
  · intro f hf letter hletter
    exact Command.flagByShort?_eq_some hshorthands hf hletter
  · intro before f after hsplit long hlong
    exact Command.flagByLong?_eq_some_iff hlongNames hsplit hlong
  · exact Command.flagByLong?_iff_pairwise hlongNames

/-- A switch under the name of its parameter. -/
def switchNamed (name : String) : Slot :=
  .ofParameter (.asSwitch (.required name .bool) .byParameter) .bool

/-- `play`, with two switches. -/
def playing (first second : String) : Declaration Unit where
  paths := ["play"]
  parameters := [(switchNamed first).parameter, (switchNamed second).parameter]
  action := ()
  metadata := .none

/-- `play [--first] [--second]` -/
def play (first second : String) : Command Unit :=
  ⟨⟨0⟩, [⟨.word "play", false, false⟩, ⟨.slot (switchNamed first), false, false⟩,
    ⟨.slot (switchNamed second), true, true⟩], .none, ⟨(), []⟩⟩

theorem flagsFound_play :
    compile (.standard Unit) (playing "loud" "mute") "play" ⟨0⟩ = .ok (play "loud" "mute")
      ∧ (play "loud" "mute").flagByShort? 'm' = some (switchNamed "mute")
      ∧ (play "loud" "mute").flagByLong? "mute".toList = some (switchNamed "mute") := by
  have hcompile : compile (.standard Unit) (playing "loud" "mute") "play" ⟨0⟩
      = .ok (play "loud" "mute") := rfl
  obtain ⟨hshort, hlong, _⟩ := compile_flagsFound hcompile
  have hmute : switchNamed "mute" ∈ (play "loud" "mute").flags :=
    List.mem_cons_of_mem _ List.mem_cons_self
  refine ⟨hcompile, hshort _ hmute 'm' rfl, ?_⟩
  refine (hlong [switchNamed "loud"] _ [] rfl "mute" rfl).mpr ?_
  intro g hg other hother
  rw [List.mem_singleton.mp hg] at hother
  cases hother
  rfl

/-- Two switches whose names differ in case are accepted, and the name of the second leads to the
first. -/
theorem flagByLong?_play_loud :
    compile (.standard Unit) (playing "Loud" "loud") "play" ⟨0⟩ = .ok (play "Loud" "loud")
      ∧ switchNamed "loud" ∈ (play "Loud" "loud").flags
      ∧ (switchNamed "loud").longName? = some "loud"
      ∧ (play "Loud" "loud").flagByLong? "loud".toList ≠ some (switchNamed "loud") := by
  refine ⟨rfl, List.mem_cons_of_mem _ List.mem_cons_self, rfl, ?_⟩
  have hfirst : (play "Loud" "loud").flagByLong? "loud".toList = some (switchNamed "Loud") := rfl
  rw [hfirst]
  intro hsame
  have hname := congrArg (Option.map Slot.name) hsame
  revert hname
  decide

end Compile

end CommandGrammar
