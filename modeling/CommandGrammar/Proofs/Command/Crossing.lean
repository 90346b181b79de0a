import CommandGrammar.Proofs.Command.Order

/-!
# Ranks where only some commands have a priority

Two priorities are compared with each other and with nothing else.  So the rank is the order
`Command.byRank` between commands that both have a priority, and the order `Command.byMark` between
any others, and the two need not agree: a command without a priority can stand, by its chain,
between two commands that their priorities put the other way round.  Such commands are *crossed*.

The rank of one command against another is always the reverse of the rank the other way.  It is
transitive among given commands exactly if no three of them are crossed.
-/

set_option autoImplicit false

namespace CommandGrammar

open Std

variable {α : Type}

namespace Command

/-! ## The two orders -/

/-- Compares ranks, where the priority of one command at most is known. -/
def byMark : Command α → Command α → Ordering :=
  compareLex (compareOn fun c => c.metadata.lowPriority.toNat) byChain

end Command

instance : TransCmp (Command.byMark (α := α)) :=
  inferInstanceAs (TransCmp (compareLex
    (compareOn fun c : Command α => c.metadata.lowPriority.toNat) Command.byChain))

namespace Command

variable {a b c : Command α}

/-- A declaration cannot have both a priority and the mark of low priority. -/
theorem Compiled.lowPriority_of_priority (h : c.Compiled) {p : Int}
    (hp : c.metadata.priority = some p) : c.metadata.lowPriority = false := by
  obtain ⟨pipeline, d, path, id, hcompile⟩ := h
  obtain ⟨_, _, _, hcheck, _, _, _, _, hmetadata, _⟩ := Compile.compile_eq_ok hcompile
  unfold Compile.checkDeclaration at hcheck
  rw [← hmetadata, hp] at hcheck
  cases hlow : c.metadata.lowPriority with
  | false => rfl
  | true =>
    rw [hlow] at hcheck
    cases hcheck

theorem rank_eq_byRank (ha : a.Compiled) (hb : b.Compiled)
    (h : a.metadata.priority.isSome = b.metadata.priority.isSome) : a.rank b = a.byRank b := by
  rw [rank, precedence_eq_byDeclaration h, specificity_eq_byChain ha.wellShaped hb.wellShaped]
  rfl

theorem rank_eq_byMark (ha : a.Compiled) (hb : b.Compiled)
    (h : a.metadata.priority = none ∨ b.metadata.priority = none) : a.rank b = a.byMark b := by
  have hprecedence : a.precedence b
      = compare a.metadata.lowPriority.toNat b.metadata.lowPriority.toNat := by
    unfold precedence
    rcases h with h | h
    · rw [h]
    · rw [h]
      cases a.metadata.priority <;> rfl
  rw [rank, hprecedence, specificity_eq_byChain ha.wellShaped hb.wellShaped]
  rfl

/-- The rank is `byRank` or `byMark`. -/
theorem rank_eq_or (ha : a.Compiled) (hb : b.Compiled) :
    (a.rank b = a.byRank b ∧ b.rank a = b.byRank a)
      ∨ (a.rank b = a.byMark b ∧ b.rank a = b.byMark a) := by
  by_cases h : a.metadata.priority.isSome = b.metadata.priority.isSome
  · exact Or.inl ⟨rank_eq_byRank ha hb h, rank_eq_byRank hb ha h.symm⟩
  · have hnone : a.metadata.priority = none ∨ b.metadata.priority = none := by
      cases hp : a.metadata.priority with
      | none => exact Or.inl rfl
      | some p =>
        refine Or.inr (Option.not_isSome_iff_eq_none.mp ?_)
        intro hq
        exact h (by rw [hp, hq]; rfl)
    exact Or.inr ⟨rank_eq_byMark ha hb hnone, rank_eq_byMark hb ha hnone.symm⟩

/-- The rank the other way is the reverse. -/
theorem rank_swap (ha : a.Compiled) (hb : b.Compiled) : b.rank a = (a.rank b).swap := by
  rcases rank_eq_or ha hb with ⟨hab, hba⟩ | ⟨hab, hba⟩
  · rw [hab, hba]
    exact OrientedCmp.eq_swap
  · rw [hab, hba]
    exact OrientedCmp.eq_swap

/-! ## Crossed commands -/

/-- Of two commands with priorities the second comes first, and yet a command that has neither a
priority nor the mark of low priority stands between them, by its chain, the other way round. -/
structure Crossed (x m y : Command α) : Prop where
  priorities : ∃ p q, x.metadata.priority = some p ∧ y.metadata.priority = some q ∧ q < p
  unranked : m.metadata.priority = none
  unmarked : m.metadata.lowPriority = false
  before : x.specificity m ≠ .gt
  behind : m.specificity y ≠ .gt

/-- Between a command with a priority and one that has neither that nor the mark, chains decide. -/
theorem rank_eq_specificity (ha : a.Compiled) (hb : b.Compiled) {p : Int}
    (hp : a.metadata.priority = some p) (hnone : b.metadata.priority = none)
    (hmark : b.metadata.lowPriority = false) :
    a.rank b = a.specificity b ∧ b.rank a = b.specificity a := by
  have hlow := ha.lowPriority_of_priority hp
  rw [rank_eq_byMark ha hb (Or.inr hnone), rank_eq_byMark hb ha (Or.inl hnone),
    specificity_eq_byChain ha.wellShaped hb.wellShaped,
    specificity_eq_byChain hb.wellShaped ha.wellShaped]
  unfold byMark compareLex compareOn
  dsimp only
  rw [hlow, hmark]
  exact ⟨rfl, rfl⟩

/-- A command with the mark comes behind one with a priority. -/
theorem rank_eq_gt_of_lowPriority (ha : a.Compiled) (hb : b.Compiled) {p : Int}
    (hp : a.metadata.priority = some p) (hmark : b.metadata.lowPriority = true) :
    b.rank a = .gt := by
  have hnone : b.metadata.priority = none := by
    by_contra hsome
    obtain ⟨q, hq⟩ := Option.ne_none_iff_exists'.mp hsome
    rw [hb.lowPriority_of_priority hq] at hmark
    cases hmark
  rw [rank_eq_byMark hb ha (Or.inl hnone)]
  unfold byMark compareLex compareOn
  dsimp only
  rw [ha.lowPriority_of_priority hp, hmark]
  rfl

/-- Of two commands with priorities, one that is not behind the other has the lower number, or the
same one and a chain that is not behind. -/
theorem rank_ne_gt_iff_of_priorities (ha : a.Compiled) (hb : b.Compiled) {p q : Int}
    (hp : a.metadata.priority = some p) (hq : b.metadata.priority = some q) :
    a.rank b ≠ .gt ↔ p < q ∨ (p = q ∧ a.specificity b ≠ .gt) := by
  have hprecedence : a.precedence b = compare p q := by
    unfold precedence
    rw [hp, hq, ha.lowPriority_of_priority hp, hb.lowPriority_of_priority hq]
    exact Ordering.then_eq
  rw [rank, hprecedence]
  rcases Int.lt_trichotomy p q with hlt | rfl | hgt
  · rw [Int.compare_eq_lt.mpr hlt]
    simp [hlt]
  · simp
  · rw [Int.compare_eq_gt.mpr hgt]
    simp [Int.lt_asymm hgt, (Int.ne_of_lt hgt).symm]

/-! ## Transitivity -/

theorem specificity_trans (ha : a.Compiled) (hb : b.Compiled) (hc : c.Compiled)
    (hab : a.specificity b ≠ .gt) (hbc : b.specificity c ≠ .gt) : a.specificity c ≠ .gt := by
  rw [specificity_eq_byChain ha.wellShaped hb.wellShaped] at hab
  rw [specificity_eq_byChain hb.wellShaped hc.wellShaped] at hbc
  rw [specificity_eq_byChain ha.wellShaped hc.wellShaped]
  exact Ordering.isLE_iff_ne_gt.mp (TransCmp.isLE_trans (Ordering.isLE_iff_ne_gt.mpr hab)
    (Ordering.isLE_iff_ne_gt.mpr hbc))

theorem specificity_ne_gt_of_gt (ha : a.Compiled) (hb : b.Compiled)
    (h : a.specificity b = .gt) : b.specificity a ≠ .gt := by
  rw [specificity_eq_byChain ha.wellShaped hb.wellShaped] at h
  rw [specificity_eq_byChain hb.wellShaped ha.wellShaped, OrientedCmp.lt_of_gt h]
  decide

/-- Where all three commands have a priority, the rank is one order. -/
theorem rank_trans_of_priorities (ha : a.Compiled) (hb : b.Compiled) (hc : c.Compiled)
    (hpa : a.metadata.priority.isSome = true) (hpb : b.metadata.priority.isSome = true)
    (hpc : c.metadata.priority.isSome = true) (hab : a.rank b ≠ .gt) (hbc : b.rank c ≠ .gt) :
    a.rank c ≠ .gt := by
  rw [rank_eq_byRank ha hb (hpa.trans hpb.symm)] at hab
  rw [rank_eq_byRank hb hc (hpb.trans hpc.symm)] at hbc
  rw [rank_eq_byRank ha hc (hpa.trans hpc.symm)]
  exact Ordering.isLE_iff_ne_gt.mp (TransCmp.isLE_trans (Ordering.isLE_iff_ne_gt.mpr hab)
    (Ordering.isLE_iff_ne_gt.mpr hbc))

/-- Where one of three commands at most has a priority, the rank is one order. -/
theorem rank_trans_of_none (ha : a.Compiled) (hb : b.Compiled) (hc : c.Compiled)
    (hpab : a.metadata.priority = none ∨ b.metadata.priority = none)
    (hpbc : b.metadata.priority = none ∨ c.metadata.priority = none)
    (hpac : a.metadata.priority = none ∨ c.metadata.priority = none) (hab : a.rank b ≠ .gt)
    (hbc : b.rank c ≠ .gt) : a.rank c ≠ .gt := by
  rw [rank_eq_byMark ha hb hpab] at hab
  rw [rank_eq_byMark hb hc hpbc] at hbc
  rw [rank_eq_byMark ha hc hpac]
  exact Ordering.isLE_iff_ne_gt.mp (TransCmp.isLE_trans (Ordering.isLE_iff_ne_gt.mpr hab)
    (Ordering.isLE_iff_ne_gt.mpr hbc))

/-- Where only the last of three commands has no priority, it may be crossed by the others. -/
theorem rank_trans_or_crossed_last (ha : a.Compiled) (hb : b.Compiled) (hc : c.Compiled)
    {p q : Int} (hp : a.metadata.priority = some p) (hq : b.metadata.priority = some q)
    (hnone : c.metadata.priority = none) (hab : a.rank b ≠ .gt) (hbc : b.rank c ≠ .gt) :
    a.rank c ≠ .gt ∨ b.Crossed c a := by
  cases hmark : c.metadata.lowPriority with
  | true =>
    have hgt := rank_eq_gt_of_lowPriority ha hc hp hmark
    refine Or.inl ?_
    rw [rank_swap hc ha, hgt]
    decide
  | false =>
    rw [(rank_eq_specificity hb hc hq hnone hmark).1] at hbc
    rw [(rank_eq_specificity ha hc hp hnone hmark).1]
    refine or_iff_not_imp_left.mpr ?_
    intro hac
    rcases (rank_ne_gt_iff_of_priorities ha hb hp hq).mp hab with hlt | ⟨_, hchain⟩
    · exact ⟨⟨q, p, hq, hp, hlt⟩, hnone, hmark, hbc,
        specificity_ne_gt_of_gt ha hc (Decidable.not_not.mp hac)⟩
    · exact absurd (specificity_trans ha hb hc hchain hbc) hac

/-- Where only the first of three commands has no priority, it may be crossed by the others. -/
theorem rank_trans_or_crossed_first (ha : a.Compiled) (hb : b.Compiled) (hc : c.Compiled)
    {p q : Int} (hnone : a.metadata.priority = none) (hp : b.metadata.priority = some p)
    (hq : c.metadata.priority = some q) (hab : a.rank b ≠ .gt) (hbc : b.rank c ≠ .gt) :
    a.rank c ≠ .gt ∨ c.Crossed a b := by
  cases hmark : a.metadata.lowPriority with
  | true => exact absurd (rank_eq_gt_of_lowPriority hb ha hp hmark) hab
  | false =>
    rw [(rank_eq_specificity hb ha hp hnone hmark).2] at hab
    rw [(rank_eq_specificity hc ha hq hnone hmark).2]
    refine or_iff_not_imp_left.mpr ?_
    intro hac
    rcases (rank_ne_gt_iff_of_priorities hb hc hp hq).mp hbc with hlt | ⟨_, hchain⟩
    · exact ⟨⟨q, p, hq, hp, hlt⟩, hnone, hmark,
        specificity_ne_gt_of_gt ha hc (Decidable.not_not.mp hac), hab⟩
    · exact absurd (specificity_trans ha hb hc hab hchain) hac

/-- Where only the second of three commands has no priority, it may be crossed by the others. -/
theorem rank_trans_or_crossed_middle (ha : a.Compiled) (hb : b.Compiled) (hc : c.Compiled)
    {p q : Int} (hp : a.metadata.priority = some p) (hnone : b.metadata.priority = none)
    (hq : c.metadata.priority = some q) (hab : a.rank b ≠ .gt) (hbc : b.rank c ≠ .gt) :
    a.rank c ≠ .gt ∨ a.Crossed b c := by
  cases hmark : b.metadata.lowPriority with
  | true => exact absurd (rank_eq_gt_of_lowPriority hc hb hq hmark) hbc
  | false =>
    rw [(rank_eq_specificity ha hb hp hnone hmark).1] at hab
    rw [(rank_eq_specificity hc hb hq hnone hmark).2] at hbc
    rw [rank_ne_gt_iff_of_priorities ha hc hp hq]
    rcases Int.lt_trichotomy p q with hlt | heq | hgt
    · exact Or.inl (Or.inl hlt)
    · exact Or.inl (Or.inr ⟨heq, specificity_trans ha hb hc hab hbc⟩)
    · exact Or.inr ⟨⟨p, q, hp, hq, hgt⟩, hnone, hmark, hab, hbc⟩

/-- The rank is transitive but where a command is crossed by the two others. -/
theorem rank_trans_or_crossed (ha : a.Compiled) (hb : b.Compiled) (hc : c.Compiled)
    (hab : a.rank b ≠ .gt) (hbc : b.rank c ≠ .gt) :
    a.rank c ≠ .gt ∨ a.Crossed b c ∨ b.Crossed c a ∨ c.Crossed a b := by
  cases hp : a.metadata.priority with
  | none =>
    cases hq : b.metadata.priority with
    | none => exact Or.inl (rank_trans_of_none ha hb hc (.inl hp) (.inl hq) (.inl hp) hab hbc)
    | some q =>
      cases hr : c.metadata.priority with
      | none => exact Or.inl (rank_trans_of_none ha hb hc (.inl hp) (.inr hr) (.inl hp) hab hbc)
      | some r =>
        exact (rank_trans_or_crossed_first ha hb hc hp hq hr hab hbc).imp_right
          fun h => Or.inr (Or.inr h)
  | some p =>
    cases hq : b.metadata.priority with
    | none =>
      cases hr : c.metadata.priority with
      | none => exact Or.inl (rank_trans_of_none ha hb hc (.inr hq) (.inl hq) (.inr hr) hab hbc)
      | some r =>
        exact (rank_trans_or_crossed_middle ha hb hc hp hq hr hab hbc).imp_right Or.inl
    | some q =>
      cases hr : c.metadata.priority with
      | none =>
        exact (rank_trans_or_crossed_last ha hb hc hp hq hr hab hbc).imp_right
          fun h => Or.inr (Or.inl h)
      | some r =>
        exact Or.inl (rank_trans_of_priorities ha hb hc (by rw [hp]; rfl) (by rw [hq]; rfl)
          (by rw [hr]; rfl) hab hbc)

/-- Three commands of which one is crossed by the others have ranks that go round in a circle. -/
theorem Crossed.rank_circle {x m y : Command α} (h : x.Crossed m y) (hx : x.Compiled)
    (hm : m.Compiled) (hy : y.Compiled) :
    x.rank m ≠ .gt ∧ m.rank y ≠ .gt ∧ x.rank y = .gt := by
  obtain ⟨p, q, hp, hq, hlt⟩ := h.priorities
  rw [(rank_eq_specificity hx hm hp h.unranked h.unmarked).1,
    (rank_eq_specificity hy hm hq h.unranked h.unmarked).2]
  refine ⟨h.before, h.behind, ?_⟩
  by_contra hne
  rcases (rank_ne_gt_iff_of_priorities hx hy hp hq).mp hne with hgt | ⟨heq, _⟩
  · exact Int.lt_asymm hlt hgt
  · exact Int.ne_of_gt hlt heq

/-- Among compiled commands the rank one way is always the reverse of the rank the other way.  It
is transitive, and so a total preorder, exactly if no command is crossed by two others. -/
theorem rank_preorder_iff {commands : List (Command α)} (h : ∀ c ∈ commands, c.Compiled) :
    (∀ a ∈ commands, ∀ b ∈ commands, b.rank a = (a.rank b).swap)
      ∧ ((∀ a ∈ commands, ∀ b ∈ commands, ∀ c ∈ commands,
          a.rank b ≠ .gt → b.rank c ≠ .gt → a.rank c ≠ .gt)
        ↔ ¬∃ x ∈ commands, ∃ m ∈ commands, ∃ y ∈ commands, x.Crossed m y) := by
  refine ⟨fun a ha b hb => rank_swap (h a ha) (h b hb), ?_, ?_⟩
  · rintro htrans ⟨x, hx, m, hm, y, hy, hcrossed⟩
    obtain ⟨hxm, hmy, hxy⟩ := hcrossed.rank_circle (h x hx) (h m hm) (h y hy)
    exact htrans x hx m hm y hy hxm hmy hxy
  · intro hnone a ha b hb c hc hab hbc
    rcases rank_trans_or_crossed (h a ha) (h b hb) (h c hc) hab hbc with
      hac | hcrossed | hcrossed | hcrossed
    · exact hac
    · exact absurd ⟨a, ha, b, hb, c, hc, hcrossed⟩ hnone
    · exact absurd ⟨b, hb, c, hc, a, ha, hcrossed⟩ hnone
    · exact absurd ⟨c, hc, a, ha, b, hb, hcrossed⟩ hnone

/-! ## Three ways to travel -/

/-- `home`, with priority 0. -/
def home : Command Unit :=
  ⟨⟨0⟩, [⟨.word "home", true, true⟩], { Metadata.none with priority := some 0 }, ⟨(), []⟩⟩

/-- `warp`, with neither a priority nor the mark. -/
def warp : Command Unit := ⟨⟨1⟩, [⟨.word "warp", true, true⟩], .none, ⟨(), []⟩⟩

/-- `warp to`, with priority 1. -/
def warpTo : Command Unit :=
  ⟨⟨2⟩, [⟨.word "warp", false, false⟩, ⟨.word "to", true, true⟩],
    { Metadata.none with priority := some 1 }, ⟨(), []⟩⟩

theorem compiled_home : home.Compiled :=
  ⟨.standard Unit, (Declaration.ofPath "home" ()).withPriority 0, "home", ⟨0⟩, rfl⟩

theorem compiled_warp : warp.Compiled :=
  ⟨.standard Unit, .ofPath "warp" (), "warp", ⟨1⟩, rfl⟩

theorem compiled_warpTo : warpTo.Compiled :=
  ⟨.standard Unit, (Declaration.ofPath "warp to" ()).withPriority 1, "warp to", ⟨2⟩, rfl⟩

/-- Neither `home` nor `warp` is crossed, so their ranks are a total preorder. -/
theorem rank_preorder_home_warp :
    warp.rank home = (home.rank warp).swap
      ∧ ∀ a ∈ [home, warp], ∀ b ∈ [home, warp], ∀ c ∈ [home, warp],
        a.rank b ≠ .gt → b.rank c ≠ .gt → a.rank c ≠ .gt := by
  have hcompiled : ∀ c ∈ [home, warp], c.Compiled := by
    intro c hc
    simp only [List.mem_cons, List.not_mem_nil, or_false] at hc
    rcases hc with rfl | rfl
    · exact compiled_home
    · exact compiled_warp
  obtain ⟨hswap, htrans⟩ := rank_preorder_iff hcompiled
  refine ⟨hswap home (by simp) warp (by simp), htrans.mpr ?_⟩
  -- only one of the two has a priority
  rintro ⟨x, hx, m, _, y, hy, ⟨p, q, hp, hq, hlt⟩, _⟩
  simp only [List.mem_cons, List.not_mem_nil, or_false] at hx hy
  rcases hx with rfl | rfl
  · rcases hy with rfl | rfl
    · rw [Option.some.inj (hp.symm.trans hq)] at hlt
      exact Int.lt_irrefl q hlt
    · cases hq
  · cases hp

/-- The rank is not transitive: `warp to` comes before `warp` by its size, `warp` is level with
`home`, and `home` comes before `warp to` by its priority. -/
theorem not_rank_trans :
    ¬(∀ a b c : Command Unit, a.Compiled → b.Compiled → c.Compiled →
      b.rank a = (a.rank b).swap
        ∧ (a.rank b ≠ .gt → b.rank c ≠ .gt → a.rank c ≠ .gt)) := by
  intro h
  exact (h warpTo warp home compiled_warpTo compiled_warp compiled_home).2 (by decide) (by decide)
    (by decide)

/-- The order `home`, `warp to`, `warp` is one of ranks, but a registry to which they are added as
`warp`, `home`, `warp to` keeps the last one in front. -/
example : home.rank warpTo = .lt ∧ warpTo.rank warp = .lt ∧ home.rank warp = .eq
    ∧ insertRanked warpTo (insertRanked home [warp]) = [warpTo, warp, home] :=
  ⟨rfl, rfl, rfl, rfl⟩

end Command

end CommandGrammar
