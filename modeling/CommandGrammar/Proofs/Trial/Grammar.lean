import CommandGrammar.Proofs.Command.Shape
import CommandGrammar.Proofs.Reading.Local
import CommandGrammar.Session.Dispatcher
import Mathlib.Data.List.Forall2

/-!
# The lines that a command accepts

The nodes of a command are a grammar: a line is a run of pieces, each of them blanks and a text
that fits a node, followed by a rest.  `Accepts` states that grammar without the walk that reads
it.  For a command without flags and default texts, whose slots have built-in types that the actor
may use, a trial without conditions succeeds exactly on the accepted lines.

The argument goes in two steps.  `Walks` follows the recursion of the walk, and one node of it is
`Reaches`; the walk agrees with it node by node.  `Walks` and `Accepts` then agree as relations.
-/

set_option autoImplicit false

namespace CommandGrammar

/-! ## The grammar -/

/-- A text that a node takes for its own: the word of the node in any case, or a text that the
slot's type reads to its end. -/
def Node.Fits (context : Context) (n : Node) (text : List Char) : Prop :=
  match n.segment with
  | .word literal => Text.AllInk text ∧ Text.foldCase text = Text.foldCase literal.toList
  | .slot s => ∃ v, s.type.ReadsWhole context text v

/-- Blanks, and a text behind them. -/
structure Piece where
  gap : List Char
  text : List Char

/-- The part of a line that a piece is. -/
def Piece.line (p : Piece) : List Char := p.gap ++ p.text

/-- A line is laid out in pieces, one for each of the first nodes, and a rest. -/
structure Layout (context : Context) (nodes : List Node) (line : List Char) (pieces : List Piece)
    (rest : List Char) : Prop where
  covers : line = pieces.flatMap Piece.line ++ rest
  fits : List.Forall₂ (fun n p => n.Fits context p.text) (nodes.take pieces.length) pieces
  inked : ∀ p ∈ pieces, Text.StartsInk p.text
  /-- only the first gap may be empty -/
  gaps : ∀ p ∈ pieces.tail, p.gap ≠ []
  blanks : ∀ p ∈ pieces, Text.AllBlank p.gap
  /-- what has no piece may be left out -/
  optional : ∀ n ∈ nodes.drop pieces.length, n.isOptional = true
  separated : Text.Separated rest
  /-- a greedy node leaves nothing -/
  greedy : ∀ n, (nodes.take pieces.length).getLast? = some n → n.isGreedy = true → rest = []
  /-- where a node is left out, nothing else is left over -/
  missing : pieces.length < nodes.length → Text.AllBlank rest

/-- The lines of the grammar that a chain of nodes is. -/
def Accepts (context : Context) (nodes : List Node) (line : List Char) : Prop :=
  ∃ pieces rest, Layout context nodes line pieces rest

/-! ## Following the walk -/

/-- Reading a node of `line` can end in front of `rest`. -/
def Reaches (context : Context) (n : Node) (line rest : List Char) : Prop :=
  (Text.AllBlank line ∧ n.isOptional = true ∧ rest = [])
    ∨ ∃ gap text, line = gap ++ (text ++ rest) ∧ Text.AllBlank gap ∧ Text.StartsInk text
      ∧ n.Fits context text ∧ Text.Separated rest ∧ (n.isGreedy = true → rest = [])

section Steps

variable {context : Context} {n : Node} {line rest : List Char}

/-- Behind the blanks, a word is reached past if it stands there and is not touched. -/
theorem reaches_word_iff {literal : String} (hsegment : n.segment = .word literal)
    (hfilled : literal.toList ≠ []) :
    Reaches context n line rest
      ↔ ∃ text, Text.trimLeft line = text ++ rest ∧ Text.AllInk text
        ∧ Text.foldCase text = Text.foldCase literal.toList ∧ Text.Separated rest := by
  have hoptional : n.isOptional = false := by simp [Node.isOptional, hsegment]
  have hgreedy : n.isGreedy = false := by simp [Node.isGreedy, hsegment]
  simp only [Reaches, hoptional, hgreedy, Node.Fits, hsegment, Bool.false_eq_true, false_and,
    and_false, false_or, false_implies, and_true]
  constructor
  · rintro ⟨gap, text, hline, hgap, hstarts, ⟨hink, hfold⟩, hsep⟩
    exact ⟨text, (Text.trimLeft_eq_iff (hstarts.append rest)).mpr ⟨gap, hline, hgap⟩, hink, hfold,
      hsep⟩
  · rintro ⟨text, hcover, hink, hfold, hsep⟩
    have hne : text ≠ [] := by
      rintro rfl
      exact hfilled (List.map_eq_nil_iff.mp hfold.symm)
    have hstarts := hink.startsInk hne
    obtain ⟨gap, hline, hgap⟩ := (Text.trimLeft_eq_iff (hstarts.append rest)).mp hcover
    exact ⟨gap, text, hline, hgap, hstarts, ⟨hink, hfold⟩, hsep⟩

/-- On blanks alone, a slot is reached past only by leaving it out. -/
theorem reaches_slot_iff_of_blank {slot : Slot} (hsegment : n.segment = .slot slot)
    (hblank : Text.AllBlank line) :
    Reaches context n line rest ↔ slot.isOptional = true ∧ rest = [] := by
  have hoptional : n.isOptional = slot.isOptional := by simp [Node.isOptional, hsegment]
  constructor
  · rintro (⟨_, hmay, rfl⟩ | ⟨gap, text, hline, hgap, hstarts, _⟩)
    · exact ⟨hoptional.symm.trans hmay, rfl⟩
    · have hcover := (Text.trimLeft_eq_iff (hstarts.append rest)).mpr ⟨gap, hline, hgap⟩
      have hnil := hcover.symm.trans (Text.trimLeft_eq_nil_iff.mpr hblank)
      exact absurd hnil (hstarts.append rest).ne_nil
  · rintro ⟨hmay, rfl⟩
    exact Or.inl ⟨hblank, hoptional.trans hmay, rfl⟩

/-- Where there is more than blanks, a slot is reached past by a text that it takes. -/
theorem reaches_slot_iff_of_not_blank {slot : Slot} (hsegment : n.segment = .slot slot)
    (hblank : ¬ Text.AllBlank line) :
    Reaches context n line rest
      ↔ ∃ text v, Text.trimLeft line = text ++ rest ∧ Text.StartsInk text
        ∧ slot.type.ReadsWhole context text v ∧ Text.Separated rest
        ∧ (slot.type.isGreedy = true → rest = []) := by
  have hgreedy : n.isGreedy = slot.type.isGreedy := by
    simp [Node.isGreedy, hsegment, Slot.isGreedy]
  simp only [Reaches, hblank, false_and, false_or, hgreedy, Node.Fits, hsegment]
  constructor
  · rintro ⟨gap, text, hline, hgap, hstarts, ⟨v, hwhole⟩, hsep, hall⟩
    exact ⟨text, v, (Text.trimLeft_eq_iff (hstarts.append rest)).mpr ⟨gap, hline, hgap⟩, hstarts,
      hwhole, hsep, hall⟩
  · rintro ⟨text, v, hcover, hstarts, hwhole, hsep, hall⟩
    obtain ⟨gap, hline, hgap⟩ := (Text.trimLeft_eq_iff (hstarts.append rest)).mp hcover
    exact ⟨gap, text, hline, hgap, hstarts, ⟨v, hwhole⟩, hsep, hall⟩

end Steps

/-- Nodes can be read one after another from the start of `line`. -/
def Walks (context : Context) : List Node → List Char → Prop
  | [], _ => True
  | n :: nodes, line => ∃ rest, Reaches context n line rest ∧ Walks context nodes rest

/-- On blanks alone the walk succeeds where everything may be left out. -/
theorem walks_of_blank {context : Context} {nodes : List Node} {line : List Char}
    (hline : Text.AllBlank line) :
    Walks context nodes line ↔ ∀ n ∈ nodes, n.isOptional = true := by
  induction nodes generalizing line with
  | nil => simp [Walks]
  | cons n nodes ih =>
    rw [List.forall_mem_cons]
    constructor
    · rintro ⟨rest, ⟨_, hoptional, rfl⟩ | ⟨gap, text, rfl, _, hink, _⟩, hwalks⟩
      · exact ⟨hoptional, (ih Text.allBlank_nil).mp hwalks⟩
      · -- a text that fits begins with ink, and there is none
        obtain ⟨x, later, rfl, hx⟩ := hink
        have hblank := hline x (by simp)
        rw [Text.isInk_iff, hblank] at hx
        cases hx
    · rintro ⟨hoptional, hrest⟩
      exact ⟨[], Or.inl ⟨hline, hoptional, rfl⟩, (ih Text.allBlank_nil).mpr hrest⟩

/-! ## The walk and the grammar -/

section Layouts

variable {context : Context} {n : Node} {nodes : List Node} {gap text line rest : List Char}
  {p : Piece} {pieces : List Piece}

/-- A line that begins with a piece of its layout has a blank there if it is separated. -/
theorem Layout.gap_ne_nil (h : Layout context nodes line (p :: pieces) rest)
    (hline : Text.Separated line) : p.gap ≠ [] := by
  have hink := (h.inked p List.mem_cons_self).append (pieces.flatMap Piece.line ++ rest)
  refine Text.gap_ne_nil_of_separated ?_ hink
  rw [h.covers] at hline
  simpa [Piece.line] using hline

/-- The last node that has a piece, when there is one node more in front. -/
theorem getLast?_take_cons {k : Nat} (hk : k ≠ 0) (hle : k ≤ nodes.length) :
    ((n :: nodes).take (k + 1)).getLast? = (nodes.take k).getLast? := by
  rw [List.take_succ_cons, List.getLast?_cons]
  have hne : nodes.take k ≠ [] := by
    rw [ne_eq, List.take_eq_nil_iff]
    rintro (hzero | rfl)
    · exact hk hzero
    · exact hk (Nat.le_zero.mp hle)
  rw [List.getLast?_eq_some_getLast hne, Option.getD_some]

theorem Layout.length_le (h : Layout context nodes line pieces rest) :
    pieces.length ≤ nodes.length := by
  have hlength := h.fits.length_eq
  rw [List.length_take] at hlength
  omega

/-- A piece in front of a layout. -/
theorem Layout.cons (h : Layout context nodes line pieces rest) (hgap : Text.AllBlank gap)
    (hink : Text.StartsInk text) (hfits : n.Fits context text) (hline : Text.Separated line)
    (hgreedy : n.isGreedy = true → line = []) :
    Layout context (n :: nodes) (gap ++ (text ++ line)) (⟨gap, text⟩ :: pieces) rest where
  covers := by simp [Piece.line, h.covers]
  fits := by
    rw [List.length_cons, List.take_succ_cons]
    exact .cons hfits h.fits
  inked := List.forall_mem_cons.mpr ⟨hink, h.inked⟩
  gaps := by
    cases pieces with
    | nil => simp
    | cons first others => exact List.forall_mem_cons.mpr ⟨h.gap_ne_nil hline, h.gaps⟩
  blanks := List.forall_mem_cons.mpr ⟨hgap, h.blanks⟩
  optional := by simpa using h.optional
  separated := h.separated
  greedy := by
    intro m hm hmgreedy
    cases pieces with
    | nil =>
      -- the piece is the only one, and everything behind it is the rest
      obtain rfl : n = m := by simpa using hm
      rw [← hgreedy hmgreedy, h.covers]
      rfl
    | cons first others =>
      rw [List.length_cons, getLast?_take_cons (by simp) h.length_le] at hm
      exact h.greedy m hm hmgreedy
  missing := fun hlt => h.missing (by simpa using hlt)

/-- What is behind the first piece of a layout. -/
theorem Layout.tail (h : Layout context (n :: nodes) line (p :: pieces) rest) :
    Layout context nodes (pieces.flatMap Piece.line ++ rest) pieces rest where
  covers := rfl
  fits := by
    have hfits := h.fits
    rw [List.length_cons, List.take_succ_cons, List.forall₂_cons] at hfits
    exact hfits.2
  inked := (List.forall_mem_cons.mp h.inked).2
  gaps := fun q hq => h.gaps q (List.mem_of_mem_tail hq)
  blanks := (List.forall_mem_cons.mp h.blanks).2
  optional := by simpa using h.optional
  separated := h.separated
  greedy := by
    intro m hm hmgreedy
    cases pieces with
    | nil => simp at hm
    | cons first others =>
      refine h.greedy m ?_ hmgreedy
      rw [List.length_cons, getLast?_take_cons (by simp) (Nat.le_of_succ_le_succ h.length_le)]
      exact hm
  missing := fun hlt => h.missing (by simpa using hlt)

/-- Behind the first piece of a layout stands a blank, or nothing. -/
theorem Layout.separated_tail (h : Layout context (n :: nodes) line (p :: pieces) rest) :
    Text.Separated (pieces.flatMap Piece.line ++ rest) := by
  cases pieces with
  | nil => exact h.separated
  | cons q others =>
    have hq : q ∈ p :: q :: others := by simp
    have hblank := (h.blanks q hq).separated_append (h.gaps q List.mem_cons_self)
      (q.text ++ (others.flatMap Piece.line ++ rest))
    simpa [Piece.line] using hblank

/-- Where a greedy node has the first piece, nothing is behind it. -/
theorem Layout.tail_eq_nil (h : Layout context (n :: nodes) line (p :: pieces) rest)
    (hlast : ∀ m ∈ (n :: nodes).dropLast, m.isGreedy = false) (hgreedy : n.isGreedy = true) :
    pieces.flatMap Piece.line ++ rest = [] := by
  cases nodes with
  | nil =>
    have hle := h.length_le
    obtain rfl : pieces = [] := List.eq_nil_of_length_eq_zero (by simpa using hle)
    exact h.greedy n rfl hgreedy
  | cons m others =>
    rw [hlast n (by simp)] at hgreedy
    cases hgreedy

theorem accepts_of_walks (h : Walks context nodes line) (hline : nodes ≠ [] ∨ Text.Separated line) :
    Accepts context nodes line := by
  induction nodes generalizing line with
  | nil =>
    have hseparated : Text.Separated line := hline.resolve_left (by simp)
    exact ⟨[], line, rfl, .nil, by simp, by simp, by simp, by simp, hseparated, by simp, by simp⟩
  | cons n nodes ih =>
    obtain ⟨rest, hreaches, hwalks⟩ := h
    obtain ⟨hblank, hoptional, rfl⟩ | ⟨gap, text, rfl, hgap, hink, hfits, hsep, hgreedy⟩ :=
      hreaches
    · -- nothing is there: this node and all later ones are left out
      have hlater := (walks_of_blank Text.allBlank_nil).mp hwalks
      exact ⟨[], line, rfl, .nil, by simp, by simp, by simp,
        List.forall_mem_cons.mpr ⟨hoptional, hlater⟩, hblank.separated, by simp, fun _ => hblank⟩
    · obtain ⟨pieces, last, hlayout⟩ := ih hwalks (Or.inr hsep)
      exact ⟨_, last, hlayout.cons hgap hink hfits hsep hgreedy⟩

theorem Layout.walks (h : Layout context nodes line pieces rest)
    (hlast : ∀ n ∈ nodes.dropLast, n.isGreedy = false) : Walks context nodes line := by
  induction pieces generalizing nodes line with
  | nil =>
    have hcovers : line = rest := h.covers
    cases nodes with
    | nil => trivial
    | cons n nodes =>
      have hblank : Text.AllBlank line := hcovers ▸ h.missing (by simp)
      exact (walks_of_blank hblank).mpr h.optional
  | cons p pieces ih =>
    cases nodes with
    | nil => exact absurd h.length_le (by simp)
    | cons n nodes =>
      have hfits := h.fits
      rw [List.length_cons, List.take_succ_cons, List.forall₂_cons] at hfits
      refine ⟨_, Or.inr ⟨p.gap, p.text, ?_, h.blanks p List.mem_cons_self,
        h.inked p List.mem_cons_self, hfits.1, h.separated_tail, h.tail_eq_nil hlast⟩, ?_⟩
      · rw [h.covers]
        simp [Piece.line]
      · refine ih h.tail fun m hm => hlast m ?_
        cases nodes with
        | nil => cases hm
        | cons _ _ => exact List.mem_cons_of_mem _ hm

/-- Where only the last node may be greedy, walking is accepting. -/
theorem walks_iff_accepts (hne : nodes ≠ []) (hlast : ∀ n ∈ nodes.dropLast, n.isGreedy = false) :
    Walks context nodes line ↔ Accepts context nodes line :=
  ⟨fun h => accepts_of_walks h (Or.inl hne), fun ⟨_, _, h⟩ => h.walks hlast⟩

end Layouts

end CommandGrammar
