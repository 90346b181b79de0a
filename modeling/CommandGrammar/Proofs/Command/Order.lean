import CommandGrammar.Proofs.Command.Shape
import CommandGrammar.Session.Registry
import CommandGrammar.Trial.Basic

/-!
# The order of commands

Ranks are compared as the declaration says, then by size, then by the last node.  Priorities count
only between commands that both have one, so the rank is an order only where all commands have a
priority or none has.  There it is the lexicographic order of a key, `Command.byRank`, and with
ties it is total: inserting by rank keeps a list ordered, and puts a command behind all those of
its own rank.
-/

set_option autoImplicit false

namespace CommandGrammar

open Std

variable {α : Type}

/-! ## Keys -/

namespace Node

/-- The place of a node's type among those that are preferred; words come first. -/
def preferenceRank (n : Node) : Nat :=
  match n.segment with
  | .word _ => 0
  | .slot s => s.type.preference.rank

/-- Compares last nodes: required ones come first, then words, then preferred types. -/
def byPlace : Node → Node → Ordering :=
  compareLex (compareOn fun n => n.isOptional.toNat)
    (compareLex (compareOn fun n => (!n.isWord).toNat) (compareOn preferenceRank))

theorem isOptional_then_precedence (m n : Node) :
    (compare m.isOptional.toNat n.isOptional.toNat).then (m.precedence n) = m.byPlace n := by
  obtain ⟨segment, _, _⟩ := m
  obtain ⟨other, _, _⟩ := n
  have hflags : compare (0 : Nat) 1 = .lt ∧ compare (1 : Nat) 0 = .gt := by decide
  unfold byPlace compareLex compareOn precedence isOptional isWord preferenceRank
  cases segment with
  | word text => cases other <;> simp [hflags]
  | slot s =>
    cases other with
    | word text => simp [hflags]
    | slot t =>
      dsimp only
      cases compare s.isOptional.toNat t.isOptional.toNat <;> simp

end Node

namespace Command

/-- The last node that is matched by place; a compiled command has one. -/
def lastNode (c : Command α) : Node := c.lastPositional?.getD ⟨.word "", true, true⟩

/-- Compares what was declared, where both commands have a priority or neither has. -/
def byDeclaration : Command α → Command α → Ordering :=
  compareLex (compareOn fun c => c.metadata.priority.getD 0)
    (compareOn fun c => c.metadata.lowPriority.toNat)

/-- Compares chains. -/
def byChain : Command α → Command α → Ordering :=
  compareLex (fun a b => compareOn size b a) (fun a b => a.lastNode.byPlace b.lastNode)

/-- Compares ranks, where both commands have a priority or neither has. -/
def byRank : Command α → Command α → Ordering := compareLex byDeclaration byChain

end Command

instance : TransCmp Node.byPlace :=
  inferInstanceAs (TransCmp (compareLex (compareOn fun n => n.isOptional.toNat)
    (compareLex (compareOn fun n => (!n.isWord).toNat) (compareOn Node.preferenceRank))))

instance : TransCmp (Command.byDeclaration (α := α)) :=
  inferInstanceAs (TransCmp (compareLex (compareOn fun c : Command α => c.metadata.priority.getD 0)
    (compareOn fun c => c.metadata.lowPriority.toNat)))

/-- An order on keys is one on what has them. -/
theorem transCmp_on {β γ : Type} (cmp : γ → γ → Ordering) [TransCmp cmp] (key : β → γ) :
    TransCmp fun a b => cmp (key a) (key b) where
  eq_swap := OrientedCmp.eq_swap
  isLE_trans := TransCmp.isLE_trans

instance : TransCmp (Command.byChain (α := α)) := by
  have := transCmp_on Node.byPlace (Command.lastNode (α := α))
  exact inferInstanceAs (TransCmp (compareLex (fun a b => compareOn Command.size b a)
    (fun a b => a.lastNode.byPlace b.lastNode)))

instance : TransCmp (Command.byRank (α := α)) :=
  inferInstanceAs (TransCmp (compareLex Command.byDeclaration Command.byChain))

/-! ## The first of the least -/

section Least

variable {β : Type} {cmp : β → β → Ordering} {l : List β} {b : β}

/-- What none of a list comes before, at its earliest place in the list. -/
structure FirstLeast (cmp : β → β → Ordering) (l : List β) (b : β) : Prop where
  least : ∀ c ∈ l, cmp c b ≠ .lt
  first : ∃ front back, l = front ++ b :: back ∧ ∀ c ∈ front, cmp b c = .lt

theorem FirstLeast.mem (h : FirstLeast cmp l b) : b ∈ l := by
  obtain ⟨front, back, rfl, -⟩ := h.first
  simp

/-- One more at the end takes the place of the first of the least exactly if it comes before it. -/
theorem FirstLeast.append [TransCmp cmp] (h : FirstLeast cmp l b) (c : β) :
    FirstLeast cmp (l ++ [c]) (if cmp b c = .gt then c else b) := by
  obtain ⟨hleast, front, back, heq, hfront⟩ := h
  split
  · next hgt =>
    -- what is not before the former least one is behind the one that is before that
    have hbehind : ∀ d ∈ l, cmp c d = .lt := by
      intro d hd
      have hle := OrientedCmp.isLE_of_isGE (Ordering.isGE_iff_ne_lt.mpr (hleast d hd))
      exact TransCmp.lt_of_lt_of_isLE (OrientedCmp.lt_of_gt hgt) hle
    refine ⟨?_, l, [], rfl, hbehind⟩
    intro d hd
    rcases List.mem_append.mp hd with hd | hd
    · exact OrientedCmp.not_lt_of_lt (hbehind d hd)
    · rw [List.mem_singleton.mp hd, @ReflCmp.compare_self β cmp]
      decide
  · next hnot =>
    refine ⟨?_, front, back ++ [c], by simp [heq], hfront⟩
    intro d hd
    rcases List.mem_append.mp hd with hd | hd
    · exact hleast d hd
    · rw [List.mem_singleton.mp hd]
      exact mt OrientedCmp.gt_of_lt hnot

/-- Going over a list and keeping, of any two, the earlier unless the later comes before it, leaves
the first of the least. -/
theorem FirstLeast.foldl [TransCmp cmp] {pick : β → β → β} {rest : List β}
    (h : FirstLeast cmp l b)
    (hpick : ∀ b ∈ l ++ rest, ∀ c ∈ l ++ rest, pick b c = if cmp b c = .gt then c else b) :
    FirstLeast cmp (l ++ rest) (rest.foldl pick b) := by
  induction rest generalizing l b with
  | nil => simpa using h
  | cons c rest ih =>
    rw [List.foldl_cons, hpick b (List.mem_append_left _ h.mem) c (by simp)]
    rw [List.append_cons] at hpick ⊢
    exact ih (h.append c) hpick

theorem firstLeast_singleton [TransCmp cmp] (b : β) : FirstLeast cmp [b] b := by
  refine ⟨?_, [], [], rfl, by simp⟩
  intro c hc
  rw [List.mem_singleton.mp hc, @ReflCmp.compare_self β cmp]
  decide

end Least

/-! ## Orderable commands -/

namespace Command

theorem precedence_eq_byDeclaration {a b : Command α}
    (h : a.metadata.priority.isSome = b.metadata.priority.isSome) :
    a.precedence b = a.byDeclaration b := by
  unfold precedence byDeclaration compareLex compareOn
  cases ha : a.metadata.priority with
  | none =>
    cases hb : b.metadata.priority with
    | none => simp [ha, hb]
    | some q => simp [ha, hb] at h
  | some p =>
    cases hb : b.metadata.priority with
    | none => simp [ha, hb] at h
    | some q => simp [ha, hb]

theorem WellShaped.lastPositional?_eq {c : Command α} (h : c.WellShaped) :
    c.lastPositional? = some c.lastNode := by
  obtain ⟨n, rest, hnodes, hword⟩ := h.startsWithWord
  have hpositional : n.isPositional = true := by
    unfold Node.isWord at hword
    unfold Node.isPositional
    split <;> simp_all
  have hne : c.positional ≠ [] := by
    rw [positional, hnodes, List.filter_cons_of_pos hpositional]
    exact List.cons_ne_nil _ _
  rw [lastNode, lastPositional?, List.getLast?_eq_some_getLast hne]
  rfl

theorem specificity_eq_byChain {a b : Command α} (ha : a.WellShaped) (hb : b.WellShaped) :
    a.specificity b = a.byChain b := by
  unfold specificity lastNodeOrder byChain compareLex
  rw [ha.lastPositional?_eq, hb.lastPositional?_eq]
  dsimp only
  rw [Node.isOptional_then_precedence]
  rfl

/-- Commands that their rank orders: they are compiled, and all have a priority or none has. -/
structure Orderable (commands : List (Command α)) : Prop where
  compiled : ∀ c ∈ commands, c.Compiled
  priorities : (∀ c ∈ commands, c.metadata.priority.isSome = true)
    ∨ ∀ c ∈ commands, c.metadata.priority.isSome = false

namespace Orderable

variable {commands others : List (Command α)} {a b c : Command α}

theorem subset (h : Orderable commands) (hsub : others ⊆ commands) : Orderable others where
  compiled := by
    intro c hc
    exact h.compiled c (hsub hc)
  priorities := by
    rcases h.priorities with hall | hall
    · exact Or.inl fun c hc => hall c (hsub hc)
    · exact Or.inr fun c hc => hall c (hsub hc)

theorem precedence_eq (h : Orderable commands) (ha : a ∈ commands) (hb : b ∈ commands) :
    a.precedence b = a.byDeclaration b := by
  refine precedence_eq_byDeclaration ?_
  rcases h.priorities with hall | hall <;> rw [hall a ha, hall b hb]

theorem specificity_eq (h : Orderable commands) (ha : a ∈ commands) (hb : b ∈ commands) :
    a.specificity b = a.byChain b :=
  specificity_eq_byChain (h.compiled a ha).wellShaped (h.compiled b hb).wellShaped

theorem rank_eq (h : Orderable commands) (ha : a ∈ commands) (hb : b ∈ commands) :
    a.rank b = a.byRank b := by
  rw [rank, h.precedence_eq ha hb, h.specificity_eq ha hb]
  rfl

end Orderable

/-! ## Inserting by rank -/

/-- No command stands behind one that it ranks higher than. -/
def Ranked (commands : List (Command α)) : Prop := commands.Pairwise fun a b => a.rank b ≠ .gt

end Command

section Insertion

variable {c x : Command α} {commands : List (Command α)}

theorem perm_insertRanked (c : Command α) (commands : List (Command α)) :
    (insertRanked c commands).Perm (c :: commands) := by
  induction commands with
  | nil => exact .refl _
  | cons d rest ih =>
    rw [insertRanked]
    split
    · exact .refl _
    · exact (ih.cons d).trans (.swap c d rest)

/-- A command that ranks higher than the first of a ranked list ranks higher than all of it. -/
theorem rank_eq_lt_of_ranked {d : Command α} {rest : List (Command α)}
    (h : Command.Orderable (c :: d :: rest)) (hranked : Command.Ranked (d :: rest))
    (hlt : c.rank d = .lt) : ∀ e ∈ d :: rest, c.rank e = .lt := by
  intro e he
  rcases List.mem_cons.mp he with rfl | he
  · exact hlt
  · have hde := (List.pairwise_cons.mp hranked).1 e he
    rw [h.rank_eq (by simp) (by simp)] at hlt
    rw [h.rank_eq (by simp) (by simp [he])] at hde ⊢
    exact TransCmp.lt_of_lt_of_isLE hlt (Ordering.isLE_iff_ne_gt.mpr hde)

theorem ranked_insertRanked (h : Command.Orderable (c :: commands))
    (hranked : Command.Ranked commands) : Command.Ranked (insertRanked c commands) := by
  induction commands with
  | nil => exact List.pairwise_singleton _ _
  | cons d rest ih =>
    rw [insertRanked]
    split
    · next hlt =>
      refine .cons ?_ hranked
      intro e he
      rw [rank_eq_lt_of_ranked h hranked hlt e he]
      decide
    · next hnot =>
      obtain ⟨hd, hrest⟩ := List.pairwise_cons.mp hranked
      have hlater := ih (h.subset (by simp)) hrest
      refine .cons ?_ hlater
      intro e he
      rcases List.mem_cons.mp ((perm_insertRanked c rest).mem_iff.mp he) with rfl | he
      · rw [h.rank_eq (by simp) (by simp)] at hnot ⊢
        exact mt OrientedCmp.lt_of_gt hnot
      · exact hd e he

/-- Inserting puts a command behind all others of its own rank. -/
theorem filter_insertRanked (h : Command.Orderable (x :: c :: commands))
    (hranked : Command.Ranked commands) :
    (insertRanked c commands).filter (fun e => decide (x.rank e = .eq))
      = (commands ++ [c]).filter fun e => decide (x.rank e = .eq) := by
  induction commands with
  | nil => rfl
  | cons d rest ih =>
    rw [insertRanked]
    split
    · next hlt =>
      by_cases hc : x.rank c = .eq
      · -- nothing behind the command has its rank
        have hnone : (d :: rest).filter (fun e => decide (x.rank e = .eq)) = [] := by
          apply List.filter_eq_nil_iff.mpr
          intro e he
          have hce := rank_eq_lt_of_ranked (h.subset (by simp)) hranked hlt e he
          have hmem : e ∈ x :: c :: d :: rest := List.mem_cons_of_mem x (List.mem_cons_of_mem c he)
          rw [h.rank_eq (by simp) hmem] at hce
          rw [h.rank_eq (by simp) (by simp)] at hc
          rw [h.rank_eq (by simp) hmem, TransCmp.lt_of_eq_of_lt hc hce]
          decide
        rw [List.filter_cons_of_pos (by simpa using hc), List.filter_append, hnone]
        simp [hc]
      · rw [List.filter_cons_of_neg (by simpa using hc), List.filter_append]
        simp [hc]
    · have hsub : x :: c :: rest ⊆ x :: c :: d :: rest :=
        List.cons_subset_cons x (List.cons_subset_cons c (List.subset_cons_self d rest))
      have hlater := ih (h.subset hsub) (List.pairwise_cons.mp hranked).2
      rw [List.cons_append, List.filter_cons, List.filter_cons, hlater]

end Insertion

/-- Ranked lists of the same commands are equal where no two commands have the same rank. -/
theorem eq_of_perm_of_ranked {commands others : List (Command α)}
    (h : Command.Orderable commands) (hperm : commands.Perm others)
    (hranked : Command.Ranked commands) (hother : Command.Ranked others)
    (hdistinct : ∀ a ∈ commands, ∀ b ∈ commands, a.rank b = .eq → a = b) : commands = others := by
  unfold Command.Ranked at hranked hother
  refine List.Perm.eq_of_pairwise ?_ hranked hother hperm
  intro a b ha hb hab hba
  have hb := hperm.mem_iff.mpr hb
  refine hdistinct a ha b hb ?_
  rw [h.rank_eq ha hb] at hab ⊢
  rw [h.rank_eq hb ha] at hba
  exact OrientedCmp.isLE_antisymm (Ordering.isLE_iff_ne_gt.mpr hab)
    (Ordering.isLE_iff_ne_gt.mpr hba)

end CommandGrammar
