import CommandGrammar.Proofs.Completion.Offers
import CommandGrammar.Proofs.Trial.Defaults
import CommandGrammar.Proofs.Trial.Residue

/-!
# Completing and trying in step

The walk of a completion and the walk of a trial go over the same nodes.  Where no word at which a
node begins spells a flag, both read each node from the same text.  They differ in what they refuse:
a trial refuses a place in the middle of a word, and a completion a slot that takes the rest.

So for a command without flags, the node that a completion is about is the one in front of which the
text of the head runs out in a trial: `takesFrom_iff_endsAt`.  A word of the head that looks like a
flag is passed over by the completion and read by the trial: `completion_skips_value`.
-/

set_option autoImplicit false

namespace CommandGrammar

variable {α : Type}

/-! ## Reading one node -/

/-- A value leaves less to read. -/
theorem Cursor.TakesOne.length_lt {c after : Cursor} (h : c.TakesOne after)
    (hink : Text.StartsInk c.rest) : after.rest.length < c.rest.length := by
  cases h with
  | word =>
    have hsplit := congrArg List.length (Text.firstWord_append_afterWord c.rest)
    have hword := List.length_pos_of_ne_nil (Text.firstWord_ne_nil hink)
    rw [List.length_append] at hsplit
    have hafter : c.readWord.2.rest = Text.afterWord c.rest := rfl
    rw [hafter]
    omega
  | @quoted text _ hquote _ =>
    have hsplit := congrArg List.length (Quoted.passed_append_left '"' text)
    rw [List.length_append] at hsplit
    rw [hquote, List.length_cons]
    dsimp only
    omega

theorem Cursor.TakesOne.source_eq {c after : Cursor} (h : c.TakesOne after) :
    after.source = c.source := by
  obtain ⟨taken, left, hrest, rfl⟩ := h.exists_taken
  rw [source, source, hrest, List.append_assoc]

/-- A standard type does not look at the context. -/
theorem ValueType.Standard.parse_eq {t : ValueType} (h : t.Standard) (c : Cursor)
    (context other : Context) : t.parse c context = t.parse c other := by
  rw [h.parse_eq_behind c context context, h.parse_eq_behind c other context]

/-- A slot that may be used is read by its type, where there is something to read. -/
theorem Slot.parse_of_admits {s : Slot} {context : Context}
    (hadmits : s.admits context.actor = true) {c : Cursor} (hopen : c.atEnd = false) :
    s.parse c context = s.type.parse c context := by
  simp [parse, hadmits, hopen]

/-- A node whose slot, if it is one, has a standard type and admits the actor. -/
def Node.Open (actor : Actor) (n : Node) : Prop :=
  ∀ slot, n.segment = .slot slot → slot.type.Standard ∧ slot.admits actor = true

/-- A node that does not take the rest takes a word or a quoted text. -/
theorem Walk.takesOne_of_readSegment {n : Node} {s s' : State} (hnode : n.Open s.context.actor)
    (hgreedy : n.isGreedy = false) (hopen : s.cursor.atEnd = false)
    (h : readSegment n.segment s = (.ok (), s')) : s.cursor.TakesOne s'.cursor := by
  obtain ⟨segment, _, _⟩ := n
  unfold readSegment at h
  cases segment with
  | word text =>
    dsimp only at h
    split at h
    · cases h
      exact .word
    · cases h
  | slot slot =>
    obtain ⟨htype, hadmits⟩ := hnode slot rfl
    dsimp only at h
    rw [Slot.parse_of_admits hadmits hopen] at h
    split at h
    · next value hparse =>
      cases h
      exact htype.takesOne hgreedy hparse
    · cases h

namespace Completion

variable {settings : Settings} {c : Command α} {actor : Actor}

/-- A walk of a completion that stands at a cursor, in front of some nodes, and has passed no bare
mark. -/
structure State.Stands (actor : Actor) (nodes : List Node) (cursor : Cursor) (s : State) :
    Prop where
  cursor : s.cursor = cursor
  pending : s.pending = nodes
  unmarked : s.flagsEnded = false
  actor : s.context.actor = actor

theorem State.Stands.skipBlanks {nodes : List Node} {cursor : Cursor} {s : State}
    (h : s.Stands actor nodes cursor) :
    State.Stands actor nodes cursor.skipBlanks { s with cursor := s.cursor.skipBlanks } :=
  ⟨congrArg Cursor.skipBlanks h.cursor, h.pending, h.unmarked, h.actor⟩

/-- A completion passes a node that a trial reads, unless it takes the rest. -/
theorem passNode_of_readSegment {n : Node} {rest : List Node} {cursor : Cursor} {s : State}
    {t t' : Walk.State} (hnode : n.Open actor) (hgreedy : n.isGreedy = false)
    (hopen : cursor.atEnd = false) (hs : s.Stands actor (n :: rest) cursor)
    (ht : t.cursor = cursor) (hactor : t.context.actor = actor)
    (hread : Walk.readSegment n.segment t = (.ok (), t')) :
    ∃ s' notes, passNode s = (some s', notes) ∧ s'.Stands actor rest t'.cursor := by
  obtain ⟨_, context, notes, _, ended⟩ := s
  obtain ⟨rfl, rfl, rfl, rfl⟩ := hs
  obtain ⟨segment, _, _⟩ := n
  unfold passNode
  unfold Walk.readSegment at hread
  cases segment with
  | word text =>
    dsimp only at hread ⊢
    rw [ht] at hread
    split at hread
    · next hmatch =>
      cases hread
      rw [if_pos hmatch]
      exact ⟨_, _, rfl, rfl, rfl, rfl, rfl⟩
    · cases hread
  | slot slot =>
    obtain ⟨htype, hadmits⟩ := hnode slot rfl
    have hnot : ¬ slot.isGreedy = true := by simpa [Node.isGreedy] using hgreedy
    dsimp only at hread ⊢ hopen hadmits
    rw [ht, Slot.parse_of_admits (hactor ▸ hadmits) hopen,
      htype.parse_eq _ t.context context] at hread
    rw [if_neg hnot, Slot.parse_of_admits hadmits hopen]
    split at hread
    · next hparse =>
      cases hread
      rw [hparse]
      exact ⟨_, _, rfl, rfl, rfl, rfl, rfl⟩
    · cases hread

/-- A node that a completion passes does not take the rest, and a trial reads it. -/
theorem readSegment_of_passNode {n : Node} {rest : List Node} {cursor : Cursor} {s s' : State}
    {notes : List Note} {t : Walk.State} (hnode : n.Open actor) (hopen : cursor.atEnd = false)
    (hs : s.Stands actor (n :: rest) cursor) (ht : t.cursor = cursor)
    (hactor : t.context.actor = actor) (hpass : passNode s = (some s', notes)) :
    n.isGreedy = false
      ∧ ∃ t', Walk.readSegment n.segment t = (.ok (), t') ∧ s'.Stands actor rest t'.cursor := by
  obtain ⟨_, _, hpending, hcases⟩ := passNode_cases hpass
  rw [hs.pending] at hpending
  cases hpending
  unfold Walk.readSegment Node.isGreedy
  rcases hcases with
    ⟨literal, hsegment, hmatch, rfl⟩ | ⟨slot, value, hsegment, hgreedy, hparse, rfl⟩
  · rw [hs.cursor] at hmatch
    rw [hsegment, ht]
    dsimp only
    rw [if_pos hmatch]
    exact ⟨rfl, _, rfl, congrArg (·.readWord.2) hs.cursor, rfl, hs.unmarked, hs.actor⟩
  · obtain ⟨htype, hadmits⟩ := hnode slot hsegment
    have htyped : slot.parse s.cursor s.context = slot.type.parse cursor t.context := by
      rw [hs.cursor, Slot.parse_of_admits (hs.actor ▸ hadmits) hopen]
      exact htype.parse_eq _ _ _
    have hread : slot.parse cursor t.context = slot.type.parse cursor t.context :=
      Slot.parse_of_admits (hactor ▸ hadmits) hopen
    rw [htyped] at hparse ⊢
    rw [hsegment, ht]
    dsimp only
    rw [hread, hparse]
    exact ⟨hgreedy, _, rfl, rfl, rfl, hs.unmarked, hs.actor⟩

theorem pending_of_passNode {s s' : State} {notes : List Note}
    (h : passNode s = (some s', notes)) : ∃ n, s.pending = n :: s'.pending := by
  obtain ⟨n, rest, hpending, ⟨_, _, _, rfl⟩ | ⟨_, _, _, _, _, rfl⟩⟩ := passNode_cases h
  · exact ⟨n, hpending⟩
  · exact ⟨n, hpending⟩

theorem flagsEnded_of_passNode {s s' : State} {notes : List Note}
    (h : passNode s = (some s', notes)) : s'.flagsEnded = s.flagsEnded := by
  obtain ⟨n, rest, _, ⟨_, _, _, rfl⟩ | ⟨_, _, _, _, _, rfl⟩⟩ := passNode_cases h
  · rfl
  · rfl

/-! ## One turn -/

/-- Whether a word is something to the flag scan: it names flags or is the bare mark. -/
def IsMarked (settings : Settings) (word : List Char) : Prop :=
  settings.role word ≠ .quoted ∧ settings.role word ≠ .plain

instance (settings : Settings) (word : List Char) : Decidable (IsMarked settings word) :=
  inferInstanceAs (Decidable (_ ∧ _))

theorem turn_of_not_marked {s : State} (h : ¬ IsMarked settings s.cursor.peekWord) :
    turn settings c s = passNode s := by
  have hnone : passFlag? settings c s = none := by
    unfold passFlag?
    unfold IsMarked at h
    dsimp only
    split <;> simp_all
  unfold turn
  rw [hnone]
  cases s.flagsEnded <;> rfl

/-- A walk ends where only blanks are left. -/
theorem walk_of_atEnd {s : State} (hend : s.cursor.skipBlanks.atEnd = true) (turns : Nat) :
    walk settings c (turns + 1) s = (some { s with cursor := s.cursor.skipBlanks }, s.notes) := by
  rw [walk]
  dsimp only
  rw [if_pos hend]

/-- In front of a word that spells no flag a walk passes a node, and goes on from there. -/
theorem walk_of_passNode {s : State} (hopen : s.cursor.skipBlanks.atEnd = false)
    (hmarked : ¬ IsMarked settings s.cursor.skipBlanks.peekWord) (turns : Nat) :
    walk settings c (turns + 1) s
      = match passNode { s with cursor := s.cursor.skipBlanks } with
        | (some s', _) => walk settings c turns s'
        | (none, notes) => (none, notes) := by
  have hturn : turn settings c { s with cursor := s.cursor.skipBlanks }
      = passNode { s with cursor := s.cursor.skipBlanks } := turn_of_not_marked hmarked
  rw [walk]
  dsimp only
  rw [if_neg (by simp [hopen])]
  generalize turn settings c { s with cursor := s.cursor.skipBlanks } = step at hturn ⊢
  subst hturn
  rfl

theorem length_pending_turn {s s' : State} {notes : List Note}
    (h : turn settings c s = (some s', notes)) : s'.pending.length ≤ s.pending.length := by
  unfold turn at h
  split at h
  · next hflag =>
    cases h
    split at hflag
    · cases hflag
    · obtain ⟨_, _, rfl⟩ := passFlag?_cases hflag
      exact Nat.le_refl _
  · obtain ⟨n, hpending⟩ := pending_of_passNode h
    rw [hpending, List.length_cons]
    exact Nat.le_succ _

/-- A walk never comes back to a node. -/
theorem length_pending_walk {turns : Nat} {s e : State} {notes : List Note}
    (h : walk settings c turns s = (some e, notes)) : e.pending.length ≤ s.pending.length := by
  induction turns generalizing s with
  | zero => cases h
  | succ turns ih =>
    rw [walk] at h
    dsimp only at h
    split at h
    · cases h
      exact Nat.le_refl _
    · split at h
      · next hturn =>
        have hlength := length_pending_turn hturn
        exact Nat.le_trans (ih h) hlength
      · cases h

/-! ## Whole walks -/

/-- Up to the node with index `i`, no word at which a walk over the nodes stands spells a flag. -/
def Unmarked (settings : Settings) (c : Command α) (index : Nat) (nodes : List Node) (i : Nat)
    (t : Walk.State) : Prop :=
  ∀ j ≤ i, ∀ t', Walk.run c index (nodes.take j) t = (.ok (), t') →
    t'.cursor.skipBlanks.atEnd = false → ¬ IsMarked settings t'.cursor.skipBlanks.peekWord

/-- A walk over the nodes reads the nodes before the one with index `i` from the text as it stands,
and finds there, and not before, that only blanks are left. -/
def EndsAt (c : Command α) (index : Nat) (nodes : List Node) (i : Nat) (t : Walk.State) : Prop :=
  (∃ t', Walk.run c index (nodes.take i) t = (.ok (), t') ∧ t'.cursor.source = t.cursor.source
    ∧ Text.AllBlank t'.cursor.rest)
  ∧ ∀ j < i, ∀ t', Walk.run c index (nodes.take j) t = (.ok (), t') →
      ¬ Text.AllBlank t'.cursor.rest

section

variable {index i : Nat} {n : Node} {nodes : List Node} {t t' : Walk.State}

theorem endsAt_zero_iff : EndsAt c index nodes 0 t ↔ Text.AllBlank t.cursor.rest := by
  constructor
  · rintro ⟨⟨t', hrun, _, hblank⟩, _⟩
    cases hrun
    exact hblank
  · intro hblank
    exact ⟨⟨t, rfl, rfl, hblank⟩, fun j hj => absurd hj (Nat.not_lt_zero j)⟩

theorem EndsAt.not_allBlank (h : EndsAt c index nodes (i + 1) t) :
    ¬ Text.AllBlank t.cursor.rest :=
  h.2 0 (Nat.succ_pos i) t rfl

/-- Once the first node is read, the others are read from there. -/
theorem run_take_succ (hplaced : n.isPositional = true)
    (hread : Walk.readNode c index n t = (.ok (), t')) (j : Nat) :
    Walk.run c index ((n :: nodes).take (j + 1)) t
      = Walk.run c (index + 1) (nodes.take j) t' := by
  rw [List.take_succ_cons, Walk.run, hread]
  simp [hplaced]

theorem exists_readNode_of_run (hplaced : n.isPositional = true) {j : Nat}
    (h : Walk.run c index ((n :: nodes).take (j + 1)) t = (.ok (), t')) :
    ∃ t'', Walk.readNode c index n t = (.ok (), t'') := by
  rw [List.take_succ_cons, Walk.run] at h
  simp only [hplaced, Bool.not_true, Bool.false_eq_true, if_false] at h
  split at h
  · cases h
  · next t'' hread => exact ⟨t'', hread⟩

theorem Unmarked.of_cons (h : Unmarked settings c index (n :: nodes) (i + 1) t)
    (hplaced : n.isPositional = true) (hread : Walk.readNode c index n t = (.ok (), t')) :
    Unmarked settings c (index + 1) nodes i t' := by
  intro j hj last hrun
  refine h (j + 1) (Nat.succ_le_succ hj) last ?_
  rw [run_take_succ hplaced hread]
  exact hrun

/-- The node at which a walk ends is counted from the one after the first. -/
theorem endsAt_cons_iff (hplaced : n.isPositional = true)
    (hread : Walk.readNode c index n t = (.ok (), t')) (hopen : ¬ Text.AllBlank t.cursor.rest)
    (hsource : t'.cursor.source = t.cursor.source) :
    EndsAt c index (n :: nodes) (i + 1) t ↔ EndsAt c (index + 1) nodes i t' := by
  unfold EndsAt
  rw [run_take_succ hplaced hread, hsource]
  refine and_congr_right fun _ => ?_
  constructor
  · intro h j hj last hrun
    refine h (j + 1) (Nat.succ_lt_succ hj) last ?_
    rw [run_take_succ hplaced hread]
    exact hrun
  · intro h j hj last hrun
    cases j with
    | zero =>
      cases hrun
      exact hopen
    | succ j =>
      rw [run_take_succ hplaced hread] at hrun
      exact h j (Nat.lt_of_succ_lt_succ hj) last hrun

end

/-- Nodes that are read by their places, with standard types, and that the actor may use. -/
def AllOpen (actor : Actor) (nodes : List Node) : Prop :=
  ∀ n ∈ nodes, n.isPositional = true ∧ n.Open actor

/-- In front of a word, a completion passes a node that a trial reads, and both stand behind it. -/
theorem passNode_of_readNode {n : Node} {rest : List Node} {index : Nat} {s : State}
    {t t' : Walk.State} (hnode : n.Open actor) (hgreedy : n.isGreedy = false)
    (hopen : t.cursor.skipBlanks.atEnd = false) (hs : s.Stands actor (n :: rest) t.cursor)
    (hactor : t.context.actor = actor) (hread : Walk.readNode c index n t = (.ok (), t')) :
    t.cursor.skipBlanks.TakesOne t'.cursor
      ∧ t'.context.actor = actor
      ∧ ∃ s' notes, passNode { s with cursor := s.cursor.skipBlanks } = (some s', notes)
        ∧ s'.Stands actor rest t'.cursor := by
  obtain ⟨hsegment, _⟩ := Walk.readNode_eq_ok_iff.mp hread
  refine ⟨?_, ?_, ?_⟩
  · exact Walk.takesOne_of_readSegment (hactor ▸ hnode) hgreedy hopen hsegment
  · rw [Walk.actor_of_readSegment hsegment]
    exact hactor
  · exact passNode_of_readSegment (t := { t with cursor := t.cursor.skipBlanks, furthest := index })
      hnode hgreedy hopen hs.skipBlanks rfl hactor hsegment

/-- In front of a word, a trial reads a node that a completion passes, where nothing is glued to a
text between quotes, and both stand behind it. -/
theorem readNode_of_passNode (index : Nat) {n : Node} {rest : List Node} {s s' : State}
    {notes : List Note} {t : Walk.State} {text : List Char} (hquotes : Text.QuotesApart text)
    (hnode : n.Open actor) (hopen : t.cursor.skipBlanks.atEnd = false)
    (hs : s.Stands actor (n :: rest) t.cursor) (hactor : t.context.actor = actor)
    (hsource : t.cursor.source = text) (hplace : Text.Boundary t.cursor.consumed t.cursor.rest)
    (hpass : passNode { s with cursor := s.cursor.skipBlanks } = (some s', notes)) :
    n.isGreedy = false
      ∧ ∃ t', Walk.readNode c index n t = (.ok (), t') ∧ s'.Stands actor rest t'.cursor
        ∧ t'.context.actor = actor ∧ t'.cursor.source = text
        ∧ Text.Separated t'.cursor.rest := by
  obtain ⟨hgreedy, t', hread, hs'⟩ := readSegment_of_passNode
    (t := { t with cursor := t.cursor.skipBlanks, furthest := index })
    hnode hopen hs.skipBlanks rfl hactor hpass
  have htakes : t.cursor.skipBlanks.TakesOne t'.cursor :=
    Walk.takesOne_of_readSegment (by exact hactor ▸ hnode) hgreedy hopen hread
  have hword : Text.trimLeft t.cursor.rest ≠ [] := (Cursor.startsInk_skipBlanks hopen).ne_nil
  have hsep : Text.Separated t'.cursor.rest :=
    htakes.separated hquotes ((Cursor.source_skipBlanks _).trans hsource) (hplace.trimLeft hword)
  refine ⟨hgreedy, t', Walk.readNode_eq_ok_iff.mpr ⟨hread, hsep⟩, hs', ?_, ?_, hsep⟩
  · rw [Walk.actor_of_readSegment hread]
    exact hactor
  · rw [htakes.source_eq, Cursor.source_skipBlanks, hsource]

/-- A completion stops in front of the node at which a trial finds nothing but blanks. -/
theorem walk_of_endsAt {nodes : List Node} {index i turns : Nat} {s : State} {t : Walk.State}
    (hnodes : AllOpen actor nodes) (hgreedy : ∀ n ∈ nodes.take i, n.isGreedy = false)
    (hs : s.Stands actor nodes t.cursor) (hactor : t.context.actor = actor)
    (hunmarked : Unmarked settings c index nodes i t) (hends : EndsAt c index nodes i t)
    (hturns : t.cursor.rest.length < turns) :
    ∃ e notes, walk settings c turns s = (some e, notes) ∧ e.pending = nodes.drop i := by
  induction i generalizing nodes index turns s t with
  | zero =>
    have hend : s.cursor.skipBlanks.atEnd = true := by
      rw [hs.cursor]
      exact Walk.atEnd_of_allBlank (endsAt_zero_iff.mp hends)
    obtain ⟨turns, rfl⟩ := Nat.exists_eq_succ_of_ne_zero (Nat.ne_zero_of_lt hturns)
    exact ⟨_, _, walk_of_atEnd hend turns, hs.pending⟩
  | succ i ih =>
    have hink : ¬ Text.AllBlank t.cursor.rest := hends.not_allBlank
    have hopen : t.cursor.skipBlanks.atEnd = false := by
      rw [← Bool.not_eq_true, Cursor.atEnd_skipBlanks_iff]
      exact hink
    obtain ⟨last, hrun, _, hblank⟩ := hends.1
    cases nodes with
    | nil =>
      cases hrun
      exact absurd hblank hink
    | cons n rest =>
      obtain ⟨⟨hplaced, hnode⟩, hrest⟩ := List.forall_mem_cons.mp hnodes
      rw [List.take_succ_cons] at hgreedy
      obtain ⟨hfirst, hothers⟩ := List.forall_mem_cons.mp hgreedy
      obtain ⟨t', hread⟩ := exists_readNode_of_run hplaced hrun
      obtain ⟨htakes, hactor', s', notes, hpass, hs'⟩ :=
        passNode_of_readNode hnode hfirst hopen hs hactor hread
      have hshorter : t'.cursor.rest.length < t.cursor.rest.length :=
        Nat.lt_of_lt_of_le (htakes.length_lt (Cursor.startsInk_skipBlanks hopen))
          (Text.length_trimLeft_le t.cursor.rest)
      obtain ⟨turns, rfl⟩ := Nat.exists_eq_succ_of_ne_zero (Nat.ne_zero_of_lt hturns)
      have hplain : ¬ IsMarked settings t.cursor.skipBlanks.peekWord :=
        hunmarked 0 (Nat.zero_le _) t rfl hopen
      have hsource : t'.cursor.source = t.cursor.source := by
        rw [htakes.source_eq, Cursor.source_skipBlanks]
      rw [← hs.cursor] at hopen hplain
      rw [walk_of_passNode hopen hplain, hpass]
      exact ih hrest hothers hs' hactor' (hunmarked.of_cons hplaced hread)
        ((endsAt_cons_iff hplaced hread hink hsource).mp hends) (by omega)

/-- Where nothing is glued to a text between quotes, a trial reads the nodes that a completion
passes, and finds nothing but blanks where the completion stops. -/
theorem endsAt_of_walk {nodes : List Node} {index i turns : Nat} {s e : State} {notes : List Note}
    {t : Walk.State} {text : List Char} (hquotes : Text.QuotesApart text)
    (hnodes : AllOpen actor nodes) (hs : s.Stands actor nodes t.cursor)
    (hactor : t.context.actor = actor) (hsource : t.cursor.source = text)
    (hplace : Text.Boundary t.cursor.consumed t.cursor.rest)
    (hunmarked : Unmarked settings c index nodes i t)
    (hwalk : walk settings c turns s = (some e, notes)) (hi : i < nodes.length)
    (hpending : e.pending = nodes.drop i) :
    EndsAt c index nodes i t ∧ ∀ n ∈ nodes.take i, n.isGreedy = false := by
  induction turns generalizing nodes index i s t with
  | zero => cases hwalk
  | succ turns ih =>
    cases hend : t.cursor.skipBlanks.atEnd with
    | true =>
      rw [walk_of_atEnd (hs.cursor ▸ hend)] at hwalk
      cases hwalk
      have hzero : i = 0 := by
        have hlength := congrArg List.length (hs.pending.symm.trans hpending)
        rw [List.length_drop] at hlength
        omega
      subst hzero
      exact ⟨endsAt_zero_iff.mpr (Cursor.atEnd_skipBlanks_iff.mp hend),
        fun n hn => absurd hn List.not_mem_nil⟩
    | false =>
      have hink : ¬ Text.AllBlank t.cursor.rest := by
        rw [← Cursor.atEnd_skipBlanks_iff, hend]
        exact Bool.false_ne_true
      have hplain : ¬ IsMarked settings t.cursor.skipBlanks.peekWord :=
        hunmarked 0 (Nat.zero_le _) t rfl hend
      rw [walk_of_passNode (hs.cursor ▸ hend) (hs.cursor ▸ hplain)] at hwalk
      split at hwalk
      · next s' _ hpass =>
        obtain ⟨n, hsplit⟩ := pending_of_passNode hpass
        dsimp only at hsplit
        rw [hs.pending] at hsplit
        subst hsplit
        obtain ⟨⟨hplaced, hnode⟩, hrest⟩ := List.forall_mem_cons.mp hnodes
        obtain ⟨hgreedy, t', hread, hs', hactor', hsource', hsep⟩ :=
          readNode_of_passNode (c := c) index hquotes hnode hend hs hactor hsource
            hplace hpass
        cases i with
        | zero =>
          -- the walk has passed a node, and does not come back to it
          have hlength := length_pending_walk hwalk
          rw [hpending, List.drop_zero, List.length_cons] at hlength
          omega
        | succ i =>
          obtain ⟨hends, hothers⟩ := ih hrest hs' hactor' hsource' (.inr (.inr hsep))
            (hunmarked.of_cons hplaced hread) hwalk (Nat.lt_of_succ_lt_succ hi) hpending
          refine ⟨(endsAt_cons_iff hplaced hread hink ?_).mpr hends, ?_⟩
          · rw [hsource', hsource]
          · exact List.forall_mem_cons.mpr ⟨hgreedy, hothers⟩
      · cases hwalk

/-! ## Lines -/

/-- A line is cut behind its last blank. -/
theorem splitPartial_append_of_allInk {head partialWord : List Char}
    (hhead : head = [] ∨ Text.endsBlank head = true) (hink : Text.AllInk partialWord) :
    splitPartial (head ++ partialWord) = (head, partialWord) := by
  have hback : ∀ x ∈ partialWord.reverse, Text.isInk x = true :=
    fun x hx => hink x (List.mem_reverse.mp hx)
  have hnone : head.reverse.takeWhile Text.isInk = []
      ∧ head.reverse.dropWhile Text.isInk = head.reverse := by
    unfold Text.endsBlank at hhead
    rw [← List.reverse_eq_nil_iff] at hhead
    cases hreverse : head.reverse with
    | nil => exact ⟨rfl, rfl⟩
    | cons x rest =>
      rw [hreverse] at hhead
      have hblank : Text.isBlank x = true := hhead.resolve_left (List.cons_ne_nil x rest)
      simp [Text.isInk, hblank]
  unfold splitPartial
  dsimp only
  rw [List.reverse_append, List.takeWhile_append_of_pos hback, List.dropWhile_append_of_pos hback,
    hnone.1, hnone.2, List.append_nil, List.reverse_reverse, List.reverse_reverse]

/-- A completion takes its suggestions from the node with index `i`: the walk over the head stops in
front of it, and what is offered is what that node offers. -/
def TakesFrom (settings : Settings) (c : Command α) (actor : Actor) (input : String) (i : Nat) :
    Prop :=
  ∃ e notes, walkHead settings c actor input = (some e, notes) ∧ i < c.positional.length
    ∧ e.pending = c.positional.drop i
    ∧ (ofCommand settings c actor input).1
      = (nodeOffers (c.positional.drop i) (splitPartial input.toList).2 e.context).filter
          (fits (splitPartial input.toList).2)

/-- Where a trial without flags begins to read a text. -/
def startOf (c : Command α) (actor : Actor) (text : List Char) : Walk.State :=
  ⟨.ofText text, .start actor c.info (String.ofList text), [], 0⟩

/-- For a command without flags, whose slots admit the actor, a completion takes its suggestions
from the node in front of which the head runs out in a trial, if no node before takes the rest and
no word at which one begins spells a flag; and where nothing is glued to a text between quotes, it
takes them from no other node. -/
theorem takesFrom_iff_endsAt {pipeline : Pipeline α} (hpipeline : pipeline.IsBuiltIn)
    {d : Declaration α} {path : String} {id : CommandId}
    (hcompile : Compile.compile pipeline d path id = .ok c) (hflags : c.hasFlags = false)
    (hadmits : ∀ s ∈ c.slots, s.admits actor = true) (head partialWord : List Char)
    (hhead : head = [] ∨ Text.endsBlank head = true) (hpartial : Text.AllInk partialWord)
    (hmark : ¬ settings.longMark.toList <+: partialWord) {i : Nat}
    (hunmarked : Unmarked settings c 0 c.nodes i (startOf c actor head)) :
    (EndsAt c 0 c.nodes i (startOf c actor head) → (∀ n ∈ c.nodes.take i, n.isGreedy = false) →
        i < c.nodes.length →
        TakesFrom settings c actor (String.ofList (head ++ partialWord)) i)
      ∧ (Text.QuotesApart head →
        TakesFrom settings c actor (String.ofList (head ++ partialWord)) i →
        EndsAt c 0 c.nodes i (startOf c actor head)
          ∧ (∀ n ∈ c.nodes.take i, n.isGreedy = false) ∧ i < c.nodes.length) := by
  have hplaced : ∀ n ∈ c.nodes, n.isPositional = true := by
    simpa [Command.hasFlags] using hflags
  have hpositional : c.positional = c.nodes := List.filter_eq_self.mpr hplaced
  have hnodes : AllOpen actor c.nodes := by
    intro n hn
    refine ⟨hplaced n hn, fun slot hslot => ?_⟩
    have hmem : slot ∈ c.slots := List.mem_filterMap.mpr ⟨n, hn, by rw [Node.slot?, hslot]⟩
    exact ⟨Compile.standard_of_compile hpipeline hcompile hmem, hadmits slot hmem⟩
  have hsplit :
      splitPartial (String.ofList (head ++ partialWord)).toList = (head, partialWord) := by
    rw [String.toList_ofList]
    exact splitPartial_append_of_allInk hhead hpartial
  have hstart : State.Stands actor c.nodes (startOf c actor head).cursor
      ⟨.ofText head, .start actor c.info (String.ofList (head ++ partialWord)), [], c.positional,
        false⟩ := ⟨rfl, hpositional, rfl, rfl⟩
  constructor
  · intro hends hgreedy hi
    have hturns : head.length < head.length + c.size + 1 :=
      Nat.lt_succ_of_le (Nat.le_add_right head.length c.size)
    obtain ⟨e, notes, hwalk, hpending⟩ :=
      walk_of_endsAt hnodes hgreedy hstart rfl hunmarked hends hturns
    have hwalkHead : walkHead settings c actor (String.ofList (head ++ partialWord))
        = (some e, notes) := by
      unfold walkHead
      rw [hsplit]
      exact hwalk
    refine ⟨e, notes, hwalkHead, hpositional.symm ▸ hi, hpositional.symm ▸ hpending, ?_⟩
    have hoffers : offersAt settings c e partialWord
        = nodeOffers e.pending partialWord e.context :=
      if_neg (mt List.isPrefixOf_iff_prefix.mp hmark)
    rw [ofCommand_eq hwalkHead, hsplit, hpositional, ← hpending]
    dsimp only
    rw [hoffers]
  · rintro hquotes ⟨e, notes, hwalk, hi, hpending, _⟩
    unfold walkHead at hwalk
    rw [hsplit] at hwalk
    rw [hpositional] at hi hpending
    obtain ⟨hends, hgreedy⟩ := endsAt_of_walk hquotes hnodes hstart rfl rfl (.inl rfl) hunmarked
      hwalk hi hpending
    exact ⟨hends, hgreedy, hi⟩

/-- A string with suggestions of its own. -/
def suggesting (name suggestion : String) : Parameter :=
  { Parameter.required name .string with suggester := some fun _ _ => [suggestion] }

/-- `tell <who> <what>`, with a suggestion for each. -/
def telling : Declaration Unit where
  paths := ["tell <who> <what>"]
  parameters := [suggesting "who" "alice", suggesting "what" "hello"]
  action := ()
  metadata := .none

/-- The command of `telling`. -/
def tell : Command Unit :=
  ⟨⟨0⟩, [⟨.word "tell", false, false⟩,
      ⟨.slot (.ofParameter (suggesting "who" "alice") .string), false, false⟩,
      ⟨.slot (.ofParameter (suggesting "what" "hello") .text), true, true⟩], .none, ⟨(), []⟩⟩

theorem compile_telling :
    Compile.compile (.standard Unit) telling "tell <who> <what>" ⟨0⟩ = .ok tell := rfl

/-- Behind a quoted name, completion is about what is told. -/
theorem takesFrom_what :
    Text.QuotesApart "tell \"al ice\" ".toList
      ∧ Unmarked .standard tell 0 tell.nodes 2 (startOf tell default "tell \"al ice\" ".toList)
      ∧ EndsAt tell 0 tell.nodes 2 (startOf tell default "tell \"al ice\" ".toList)
      ∧ TakesFrom .standard tell default "tell \"al ice\" he" 2 := by
  have hquotes : Text.QuotesApart "tell \"al ice\" ".toList := by decide +kernel
  have hone : Walk.run tell 0 (tell.nodes.take 1) (startOf tell default "tell \"al ice\" ".toList)
      = (.ok (), ⟨⟨"tell".toList, " \"al ice\" ".toList⟩,
          .start default tell.info "tell \"al ice\" ", [], 0⟩) := by
    unfold startOf
    simp only [String.reduceToList]
    rfl
  have htwo : Walk.run tell 0 (tell.nodes.take 2) (startOf tell default "tell \"al ice\" ".toList)
      = (.ok (), ⟨⟨"tell \"al ice\"".toList, " ".toList⟩,
          (Context.start default tell.info "tell \"al ice\" ").bind "who" (.string "al ice"), [],
          1⟩) := by
    unfold startOf
    simp only [String.reduceToList]
    rfl
  have hunmarked : Unmarked .standard tell 0 tell.nodes 2
      (startOf tell default "tell \"al ice\" ".toList) := by
    intro j hj t' hrun hopen
    obtain rfl | rfl | rfl : j = 0 ∨ j = 1 ∨ j = 2 := by omega
    · cases hrun
      decide +kernel
    · rw [hone] at hrun
      cases hrun
      decide +kernel
    · rw [htwo] at hrun
      cases hrun
      cases hopen
  have hends : EndsAt tell 0 tell.nodes 2 (startOf tell default "tell \"al ice\" ".toList) := by
    refine ⟨⟨_, htwo, by decide, by decide⟩, ?_⟩
    intro j hj t' hrun
    obtain rfl | rfl : j = 0 ∨ j = 1 := by omega
    · cases hrun
      decide +kernel
    · rw [hone] at hrun
      cases hrun
      decide +kernel
  have hadmits : ∀ s ∈ tell.slots, s.admits default = true := by
    intro s hs
    simp only [Command.slots, tell, List.filterMap_cons, Node.slot?, List.filterMap_nil,
      List.mem_cons, List.not_mem_nil, or_false] at hs
    rcases hs with rfl | rfl <;> rfl
  refine ⟨hquotes, hunmarked, hends, ?_⟩
  exact (takesFrom_iff_endsAt Pipeline.isBuiltIn_standard compile_telling rfl hadmits _ "he".toList
    (.inr rfl) (by decide) (by decide) hunmarked).1 hends (by decide) (by decide)

/-- A completion passes over a word that looks like a flag and is about the node that a trial has
read from that word, not about the one at which the head runs out. -/
theorem completion_skips_value :
    Compile.compile (.standard Unit) telling "tell <who> <what>" ⟨0⟩ = .ok tell
      ∧ tell.hasFlags = false
      ∧ TakesFrom .standard tell default "tell -x " 1
      ∧ (ofCommand .standard tell default "tell -x ").1 = ["alice"]
      ∧ EndsAt tell 0 tell.nodes 2 (startOf tell default "tell -x ".toList)
      ∧ ¬ EndsAt tell 0 tell.nodes 1 (startOf tell default "tell -x ".toList)
      ∧ ¬ TakesFrom .standard tell default "tell -x " 2 := by
  refine ⟨compile_telling, rfl, ⟨_, _, rfl, by decide, rfl, rfl⟩, rfl, ?_, ?_, ?_⟩
  · refine ⟨⟨_, rfl, rfl, by decide⟩, ?_⟩
    intro j hj t' hrun
    obtain rfl | rfl : j = 0 ∨ j = 1 := by omega
    · cases hrun
      decide
    · cases hrun
      decide
  · rintro ⟨⟨t', hrun, _, hblank⟩, _⟩
    cases hrun
    revert hblank
    decide
  · rintro ⟨e, notes, hwalk, _, hpending, _⟩
    cases hwalk
    exact absurd (congrArg List.length hpending) (by decide)

end Completion

end CommandGrammar
