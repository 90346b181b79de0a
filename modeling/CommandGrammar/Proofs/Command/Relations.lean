import CommandGrammar.Proofs.Command.Rendering
import CommandGrammar.Proofs.Text.Boundaries
import CommandGrammar.Proofs.Text.SmallLetters
import CommandGrammar.Session.Registry
import Mathlib.Data.List.Forall2
import Mathlib.Order.Defs.Unbundled

/-!
# Relations between commands

Whether a command extends another, and whether two part at their last words, is decided on paths,
which are joined texts.  The path of a *legible* command, one without flags and switches whose
parameters' names hold no blank, is cut apart at its spaces into what its nodes are written as.  So
on legible commands both relations are relations between the lists of their nodes.
-/

set_option autoImplicit false

namespace CommandGrammar

open Text (AllInk)

/-! ## Joined words -/

namespace Text

/-- Two lists of words that are joined alike are alike. -/
theorem joinWith_injective {parts others : List (List Char)}
    (hparts : ∀ part ∈ parts, part ≠ [] ∧ AllInk part)
    (hothers : ∀ part ∈ others, part ≠ [] ∧ AllInk part)
    (h : joinWith [' '] parts = joinWith [' '] others) : parts = others := by
  rw [← words_joinWith hparts, h, words_joinWith hothers]

theorem joinWith_append {separator : List Char} {parts others : List (List Char)}
    (hparts : parts ≠ []) (hothers : others ≠ []) :
    joinWith separator (parts ++ others)
      = joinWith separator parts ++ separator ++ joinWith separator others := by
  induction parts with
  | nil => exact absurd rfl hparts
  | cons part rest ih =>
    cases rest with
    | nil =>
      obtain ⟨next, later, rfl⟩ := List.exists_cons_of_ne_nil hothers
      rfl
    | cons next later =>
      have hlater := ih (List.cons_ne_nil next later)
      rw [List.cons_append] at hlater
      rw [List.cons_append, List.cons_append, joinWith_cons_cons, hlater, joinWith_cons_cons]
      simp only [List.append_assoc]

/-- Joined words go on with a space behind other joined words exactly if there are more of them. -/
theorem joinWith_space_prefix_iff {parts others : List (List Char)} (hne : others ≠ [])
    (hparts : ∀ part ∈ parts, part ≠ [] ∧ AllInk part)
    (hothers : ∀ part ∈ others, part ≠ [] ∧ AllInk part) :
    joinWith [' '] others ++ [' '] <+: joinWith [' '] parts
      ↔ others <+: parts ∧ others ≠ parts := by
  constructor
  · rintro ⟨rest, hrest⟩
    have hspace : Separated (' ' :: rest) := separated_cons_iff.mpr (by decide)
    have hwords : parts = others ++ words rest := by
      rw [← words_joinWith hparts, ← hrest, List.append_assoc, List.singleton_append,
        words_append (.inr (.inr hspace)), words_joinWith hothers, words_cons_of_blank (by decide)]
    refine ⟨⟨words rest, hwords.symm⟩, ?_⟩
    rintro rfl
    have hlength := congrArg List.length hrest
    simp only [List.length_append, List.length_singleton] at hlength
    omega
  · rintro ⟨⟨more, rfl⟩, hdiffer⟩
    have hmore : more ≠ [] := by
      rintro rfl
      exact hdiffer (List.append_nil others).symm
    exact ⟨joinWith [' '] more, (joinWith_append hne hmore).symm⟩

/-- The fold turns ink into ink and leaves the rest as it is. -/
theorem isInk_toLower (c : Char) : isInk c.toLower = isInk c := by
  by_cases hc : c.toNat < 128
  · exact of_ascii (P := fun c => isInk c.toLower = isInk c) (by decide) hc
  · rw [toLower_of_beyond (Nat.le_of_not_lt hc)]

theorem allInk_foldCase {text : List Char} (h : AllInk text) : AllInk (foldCase text) := by
  intro c hc
  obtain ⟨x, hx, rfl⟩ := List.mem_map.mp hc
  rw [isInk_toLower]
  exact h x hx

theorem foldCase_joinWith_space (parts : List (List Char)) :
    foldCase (joinWith [' '] parts) = joinWith [' '] (parts.map foldCase) := by
  induction parts with
  | nil => rfl
  | cons part rest ih =>
    cases rest with
    | nil => rfl
    | cons next later =>
      rw [List.map_cons, List.map_cons, joinWith_cons_cons, joinWith_cons_cons, ← List.map_cons,
        ← ih]
      simp [foldCase]

/-- Joined words are equal up to ASCII case exactly if the words are, one by one. -/
theorem sameFolded_joinWith_iff {parts others : List (List Char)}
    (hparts : ∀ part ∈ parts, part ≠ [] ∧ AllInk part)
    (hothers : ∀ part ∈ others, part ≠ [] ∧ AllInk part) :
    sameFolded (joinWith [' '] parts) (joinWith [' '] others) = true
      ↔ List.Forall₂ (fun part other => sameFolded part other = true) parts others := by
  have hfolded {parts : List (List Char)} (h : ∀ part ∈ parts, part ≠ [] ∧ AllInk part) :
      ∀ part ∈ parts.map foldCase, part ≠ [] ∧ AllInk part := by
    intro part hpart
    obtain ⟨text, htext, rfl⟩ := List.mem_map.mp hpart
    exact ⟨by simpa [foldCase] using (h text htext).1, allInk_foldCase (h text htext).2⟩
  simp only [sameFolded_iff, foldCase_joinWith_space]
  rw [← List.forall₂_map_right_iff (R := fun part other => foldCase part = other),
    ← List.forall₂_map_left_iff (R := Eq), List.forall₂_eq_eq_eq]
  exact ⟨joinWith_injective (hfolded hparts) (hfolded hothers), fun h => by rw [h]⟩

end Text

namespace Command

variable {α σ : Type}

/-! ## The nodes of a legible command -/

/-- What the nodes of a command are written as. -/
def representations (c : Command α) : List (List Char) := c.nodes.map Node.render

/-- A compiled command without flags and switches whose parameters' names hold no blank. -/
structure Legible (c : Command α) : Prop where
  compiled : c.Compiled
  unflagged : c.hasFlags = false
  named : ∀ s ∈ c.slots, AllInk s.name.toList

/-- A node of a legible command is written as one word. -/
theorem Legible.render_word {c : Command α} (h : c.Legible) {n : Node} (hn : n ∈ c.nodes) :
    n.render ≠ [] ∧ AllInk n.render := by
  obtain ⟨⟨pipeline, d, path, id, hcompile⟩, hunflagged, hnamed⟩ := h
  obtain ⟨tokens, htokens, hbuilt⟩ := Compile.compile_wellBuilt hcompile
  have hplaced : ∀ n ∈ c.nodes, n.isPositional = true := by simpa [hasFlags] using hunflagged
  have hpositional : n.segment.isPositional = true := hplaced n hn
  rw [Node.render_eq_token hpositional]
  obtain ⟨segment, last, ends⟩ := n
  cases segment with
  | word text =>
    have hmem : text ∈ tokens.filterMap Token.word? := by
      rw [← hbuilt.words]
      exact List.mem_filterMap.mpr ⟨_, hn, rfl⟩
    obtain ⟨token, htoken, hword⟩ := List.mem_filterMap.mp hmem
    have hwell := (Path.tokenize_eq_ok_iff.mp htokens).2.wellFormed token htoken
    cases token with
    | word other =>
      cases hword
      exact ⟨hwell.1, hwell.2.1⟩
    | placeholder name optional => cases hword
  | slot s =>
    have hname := hnamed s (List.mem_filterMap.mpr ⟨_, hn, rfl⟩)
    have hbrackets : ∀ optional, Text.isInk (Token.opening optional) = true
        ∧ Text.isInk (Token.closing optional) = true := by
      decide
    rw [Segment.token, Token.render_placeholder]
    refine ⟨List.cons_ne_nil _ _, List.forall_mem_cons.mpr ⟨(hbrackets _).1, ?_⟩⟩
    exact List.forall_mem_append.mpr ⟨hname, List.forall_mem_singleton.mpr (hbrackets _).2⟩

theorem Legible.representations_word {c : Command α} (h : c.Legible) :
    ∀ part ∈ c.representations, part ≠ [] ∧ AllInk part := by
  intro part hpart
  obtain ⟨n, hn, rfl⟩ := List.mem_map.mp hpart
  exact h.render_word hn

theorem Legible.representations_ne_nil {c : Command α} (h : c.Legible) :
    c.representations ≠ [] := by
  obtain ⟨n, rest, hnodes, _⟩ := h.compiled.wellShaped.startsWithWord
  simp [representations, hnodes]

/-! ## Extending a command -/

/-- The nodes of `b` are written as the first nodes of `a`, and `a` has more of them. -/
def ProperlyExtends (a b : Command α) : Prop :=
  b.representations <+: a.representations ∧ b.representations ≠ a.representations

instance (a b : Command α) : Decidable (a.ProperlyExtends b) :=
  inferInstanceAs (Decidable (_ ∧ _))

theorem not_properlyExtends_of_nodes_eq {a b : Command α} (h : a.nodes = b.nodes) :
    ¬ a.ProperlyExtends b :=
  fun hextends => hextends.2 (congrArg (List.map Node.render) h.symm)

theorem ProperlyExtends.trans {a b c : Command α} (hab : a.ProperlyExtends b)
    (hbc : b.ProperlyExtends c) : a.ProperlyExtends c := by
  refine ⟨hbc.1.trans hab.1, fun hsame => hab.2 ?_⟩
  exact hab.1.eq_of_length_le (hsame ▸ hbc.1.length_le)

/-- On legible commands, one is a child of another exactly if it extends it. -/
theorem Legible.isChildOf_iff {a b : Command α} (ha : a.Legible) (hb : b.Legible) :
    a.isChildOf b = true ↔ a.id ≠ b.id ∧ a.ProperlyExtends b := by
  have hpaths := Text.joinWith_space_prefix_iff hb.representations_ne_nil ha.representations_word
    hb.representations_word
  simpa [isChildOf, renderNodes, ProperlyExtends, representations] using
    fun _ : a.id ≠ b.id => hpaths

/-! ## Parting at the last word -/

/-- `before` are the nodes in front of the last word of a chain. -/
def LeadsToLastWord (before nodes : List Node) : Prop :=
  ∃ word after, nodes = before ++ word :: after ∧ word.isWord = true
    ∧ ∀ n ∈ after, n.isWord = false

theorem beforeLastWord_eq {before nodes : List Node} (h : LeadsToLastWord before nodes) :
    beforeLastWord nodes = before := by
  obtain ⟨word, after, rfl, hword, hafter⟩ := h
  have hpassed : ∀ n ∈ after.reverse, (!n.isWord) = true := by
    simpa using hafter
  have hreverse : (before ++ word :: after).reverse = after.reverse ++ word :: before.reverse := by
    simp
  rw [beforeLastWord, hreverse, List.dropWhile_append_of_pos hpassed,
    List.dropWhile_cons_of_neg (by simp [hword])]
  exact List.reverse_reverse before

/-- A chain with a word has one list of nodes in front of its last word. -/
theorem existsUnique_leadsToLastWord {nodes : List Node} (h : ∃ n ∈ nodes, n.isWord = true) :
    ∃! before, LeadsToLastWord before nodes := by
  have hexists : ∃ before, LeadsToLastWord before nodes := by
    induction nodes with
    | nil =>
      obtain ⟨n, hn, _⟩ := h
      cases hn
    | cons first rest ih =>
      by_cases hrest : ∃ n ∈ rest, n.isWord = true
      · obtain ⟨before, word, after, rfl, hword, hafter⟩ := ih hrest
        exact ⟨first :: before, word, after, rfl, hword, hafter⟩
      · have hnone : ∀ n ∈ rest, n.isWord = false := by simpa using hrest
        obtain ⟨n, hn, hword⟩ := h
        rcases List.mem_cons.mp hn with rfl | hlater
        · exact ⟨[], n, rest, rfl, hword, hnone⟩
        · exact absurd ⟨n, hlater, hword⟩ hrest
  obtain ⟨before, hbefore⟩ := hexists
  exact ⟨before, hbefore, fun other hother =>
    (beforeLastWord_eq hother).symm.trans (beforeLastWord_eq hbefore)⟩

/-- On legible commands with different identities, siblings are those that are written alike, up to
ASCII case, in front of their last words. -/
theorem Legible.isSiblingOf_iff {a b : Command α} (ha : a.Legible) (hb : b.Legible)
    (hid : a.id ≠ b.id) {before other : List Node} (hbefore : LeadsToLastWord before a.nodes)
    (hother : LeadsToLastWord other b.nodes) :
    a.isSiblingOf b = true
      ↔ List.Forall₂ (fun part other => Text.sameFolded part other = true)
          (before.map Node.render) (other.map Node.render) := by
  have hwords {c : Command α} (hc : c.Legible) {front : List Node}
      (hfront : LeadsToLastWord front c.nodes) :
      ∀ part ∈ front.map Node.render, part ≠ [] ∧ AllInk part := by
    intro part hpart
    obtain ⟨n, hn, rfl⟩ := List.mem_map.mp hpart
    obtain ⟨word, after, hnodes, _⟩ := hfront
    exact hc.render_word (hnodes ▸ List.mem_append_left _ hn)
  rw [← Text.sameFolded_joinWith_iff (hwords ha hbefore) (hwords hb hother), isSiblingOf,
    siblingPath, siblingPath, beforeLastWord_eq hbefore, beforeLastWord_eq hother]
  simp [hid, renderNodes]

/-! ## Both relations -/

/-- Legible commands of which no two with different chains have one identity. -/
structure LegibleFamily (family : Command α → Prop) : Prop where
  legible : ∀ {c}, family c → c.Legible
  identified : ∀ {a b}, family a → family b → a.id = b.id → a.nodes = b.nodes

/-- Where the relations of commands are relations of what their nodes are written as. -/
structure RelatedByNodes (family : Command α → Prop) : Prop where
  /-- a child is a proper extension -/
  isChildOf_iff : ∀ {a b}, family a → family b → (a.isChildOf b = true ↔ a.ProperlyExtends b)
  /-- the children of a command are the registered commands that extend it -/
  children_eq : ∀ {σ : Type} (s : Session α σ) {b}, (∀ c ∈ s.commands, family c) → family b →
    s.children b = s.commands.filter fun a => decide (a.ProperlyExtends b)
  strictOrder : IsStrictOrder {c // family c} fun a b => a.1.isChildOf b.1 = true
  /-- each chain has one part in front of its last word -/
  lastWord : ∀ {c}, family c → ∃! before, LeadsToLastWord before c.nodes
  /-- siblings are written alike in front of their last words, up to ASCII case -/
  isSiblingOf_iff : ∀ {a b before other}, family a → family b → a.id ≠ b.id →
    LeadsToLastWord before a.nodes → LeadsToLastWord other b.nodes →
    (a.isSiblingOf b = true
      ↔ List.Forall₂ (fun part other => Text.sameFolded part other = true)
          (before.map Node.render) (other.map Node.render))

theorem LegibleFamily.isChildOf_iff {family : Command α → Prop} (h : LegibleFamily family)
    {a b : Command α} (ha : family a) (hb : family b) :
    a.isChildOf b = true ↔ a.ProperlyExtends b := by
  rw [(h.legible ha).isChildOf_iff (h.legible hb)]
  exact and_iff_right_of_imp fun hextends hid =>
    not_properlyExtends_of_nodes_eq (h.identified ha hb hid) hextends

/-- The relations of legible commands that their identities tell apart are relations of the lists of
what their nodes are written as: a child extends that list, and siblings agree, up to ASCII case, on
the part in front of the last word. -/
theorem relatedByNodes {family : Command α → Prop} (h : LegibleFamily family) :
    RelatedByNodes family where
  isChildOf_iff := h.isChildOf_iff
  children_eq := by
    intro σ s b hs hb
    refine List.filter_congr fun a ha => ?_
    rw [Bool.eq_iff_iff, h.isChildOf_iff (hs a ha) hb, decide_eq_true_iff]
  strictOrder :=
    { irrefl := fun a ha => not_properlyExtends_of_nodes_eq rfl ((h.isChildOf_iff a.2 a.2).mp ha)
      trans := fun a b c hab hbc => (h.isChildOf_iff a.2 c.2).mpr
        (((h.isChildOf_iff a.2 b.2).mp hab).trans ((h.isChildOf_iff b.2 c.2).mp hbc)) }
  lastWord := by
    intro c hc
    obtain ⟨n, rest, hnodes, hword⟩ := (h.legible hc).compiled.wellShaped.startsWithWord
    exact existsUnique_leadsToLastWord ⟨n, hnodes ▸ List.mem_cons_self, hword⟩
  isSiblingOf_iff := fun ha hb hid hbefore hother =>
    (h.legible ha).isSiblingOf_iff (h.legible hb) hid hbefore hother

/-- A declaration at one path, which names a team. -/
def teamwork (path : String) : Declaration Unit where
  paths := [path]
  parameters := [.required "name" .string]
  action := ()
  metadata := .none

/-- `team <name>`, where the name takes the rest of the line. -/
def team : Command Unit :=
  ⟨⟨0⟩, [⟨.word "team", false, false⟩,
      ⟨.slot (.ofParameter (.required "name" .string) .text), true, true⟩], .none, ⟨(), []⟩⟩

/-- A command with a word behind the name of a team. -/
def teamed (id : Nat) (first last : String) : Command Unit :=
  ⟨⟨id⟩, [⟨.word first, false, false⟩,
      ⟨.slot (.ofParameter (.required "name" .string) .string), false, false⟩,
      ⟨.word last, true, true⟩], .none, ⟨(), []⟩⟩

/-- Three commands about teams. -/
def AboutTeams (c : Command Unit) : Prop :=
  c ∈ [team, teamed 1 "team" "join", teamed 2 "TEAM" "leave"]

theorem legibleFamily_aboutTeams : LegibleFamily AboutTeams := by
  have hteam : team.Legible :=
    ⟨⟨.standard Unit, teamwork "team <name>", "team <name>", ⟨0⟩, rfl⟩, rfl, by decide⟩
  have hjoin : (teamed 1 "team" "join").Legible :=
    ⟨⟨.standard Unit, teamwork "team <name> join", "team <name> join", ⟨1⟩, rfl⟩, rfl, by decide⟩
  have hleave : (teamed 2 "TEAM" "leave").Legible :=
    ⟨⟨.standard Unit, teamwork "TEAM <name> leave", "TEAM <name> leave", ⟨2⟩, rfl⟩, rfl, by decide⟩
  constructor
  case legible =>
    intro c hc
    rcases List.mem_cons.mp hc with rfl | hc
    · exact hteam
    · rcases List.mem_pair.mp hc with rfl | rfl
      · exact hjoin
      · exact hleave
  case identified =>
    have hids : ([team, teamed 1 "team" "join", teamed 2 "TEAM" "leave"].map Command.id).Nodup := by
      decide
    intro a b ha hb hid
    exact congrArg Command.nodes (List.inj_on_of_nodup_map hids ha hb hid)

theorem leadsToLastWord_teamed (id : Nat) (first last : String) :
    LeadsToLastWord ((teamed id first last).nodes.take 2) (teamed id first last).nodes :=
  ⟨⟨.word last, true, true⟩, [], rfl, rfl, List.forall_mem_nil _⟩

/-- The case of a word counts where a command extends another, and not where two are siblings. -/
theorem relatedByNodes_aboutTeams :
    LegibleFamily AboutTeams
      ∧ (teamed 1 "team" "join").isChildOf team = true
      ∧ (teamed 2 "TEAM" "leave").isChildOf team = false
      ∧ (teamed 1 "team" "join").isSiblingOf (teamed 2 "TEAM" "leave") = true := by
  have hrelated := relatedByNodes legibleFamily_aboutTeams
  have hteam : AboutTeams team := List.mem_cons_self
  have hjoin : AboutTeams (teamed 1 "team" "join") := List.mem_cons_of_mem _ List.mem_cons_self
  have hleave : AboutTeams (teamed 2 "TEAM" "leave") :=
    List.mem_cons_of_mem _ (List.mem_cons_of_mem _ List.mem_cons_self)
  refine ⟨legibleFamily_aboutTeams, (hrelated.isChildOf_iff hjoin hteam).mpr (by decide), ?_, ?_⟩
  · rw [← Bool.not_eq_true, hrelated.isChildOf_iff hleave hteam]
    decide
  · refine (hrelated.isSiblingOf_iff hjoin hleave (by decide) (leadsToLastWord_teamed _ _ _)
      (leadsToLastWord_teamed _ _ _)).mpr ?_
    exact .cons (by decide) (.cons (by decide) .nil)

end Command

end CommandGrammar
