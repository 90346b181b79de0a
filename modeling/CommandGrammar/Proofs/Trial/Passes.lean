import CommandGrammar.Proofs.Trial.Interleaving

/-!
# What a pass does

A turn that does not fail has one of five outcomes: nothing is left to read, or a bare long mark ends
the pass, or a word names flags, which are read one after another and cut out, or a quoted text or a
word is passed over.  `turned_of_turn` says so once, so that what a pass preserves is shown outcome
by outcome, and for flags by what reading one of them preserves.
-/

set_option autoImplicit false

namespace CommandGrammar

variable {α : Type}

/-- Behind the blanks a text has come to its end exactly if it has nothing else. -/
theorem Cursor.atEnd_skipBlanks_iff {c : Cursor} :
    c.skipBlanks.atEnd = true ↔ Text.AllBlank c.rest :=
  List.isEmpty_iff.trans Text.trimLeft_eq_nil_iff

/-- Blanks are followed by a word, or by nothing. -/
theorem Cursor.startsInk_skipBlanks {cursor : Cursor} (hopen : cursor.skipBlanks.atEnd = false) :
    Text.StartsInk cursor.skipBlanks.rest := by
  apply Text.startsInk_trimLeft
  intro hnil
  have hend : cursor.skipBlanks.atEnd = true := List.isEmpty_iff.mpr hnil
  rw [hopen] at hend
  cases hend

namespace FlagScan

variable {settings : Settings} {c : Command α} {s s' : State}

/-- Flags or switches of a command are read one after another. -/
inductive ReadsFlags (c : Command α) : State → State → Prop where
  | none (s : State) : ReadsFlags c s s
  | more {f : Slot} {s after s' : State} (hf : f ∈ c.flags)
      (hread : readFlag c f s = (.ok (), after)) (hrest : ReadsFlags c after s') :
      ReadsFlags c s s'

theorem readsFlags_of_readCluster {letters : List Char}
    (h : readCluster c letters s = (.ok (), s')) : ReadsFlags c s s' := by
  induction letters generalizing s with
  | nil =>
    cases h
    exact .none _
  | cons letter rest ih =>
    rw [readCluster] at h
    split at h
    · cases h
    · next hfind =>
      split at h
      · cases h
      · next hflag => exact .more (List.mem_of_find?_eq_some hfind) hflag (ih h)

theorem readsFlags_of_readLong {name : List Char} (h : readLong c name s = (.ok (), s')) :
    ReadsFlags c s s' := by
  unfold readLong at h
  split at h
  · cases h
  · next hfind => exact .more (List.mem_of_find?_eq_some hfind) h (.none _)

/-- A pass in front of the next word. -/
def State.skipBlanks (s : State) : State := { s with cursor := s.cursor.skipBlanks }

/-- A pass behind the word at the cursor. -/
def State.behindWord (s : State) : State := { s with cursor := s.cursor.readWord.2 }

/-- The outcomes of a turn: whether it ends the pass, and where the pass then stands. -/
inductive Turned (c : Command α) (s : State) : Bool → State → Prop where
  | atEnd (hend : s.cursor.skipBlanks.atEnd = true) : Turned c s true s.skipBlanks
  | marked (hopen : s.cursor.skipBlanks.atEnd = false) :
      Turned c s true (s.skipBlanks.behindWord.cutFrom s.cursor.skipBlanks.position)
  | flags (hopen : s.cursor.skipBlanks.atEnd = false) {after : State}
      (hread : ReadsFlags c s.skipBlanks.behindWord after) :
      Turned c s false (after.cutFrom s.cursor.skipBlanks.position)
  | quoted (hopen : s.cursor.skipBlanks.atEnd = false) :
      Turned c s false { s with cursor := passQuoted s.cursor.skipBlanks }
  | plain (hopen : s.cursor.skipBlanks.atEnd = false) : Turned c s false s.skipBlanks.behindWord

theorem turned_of_turn {finished : Bool} (h : turn settings c s = (.ok finished, s')) :
    Turned c s finished s' := by
  unfold turn at h
  dsimp only at h
  split at h
  · next hend =>
    cases h
    exact .atEnd hend
  · next hend =>
    rw [Bool.not_eq_true] at hend
    unfold turnAtWord at h
    dsimp only at h
    split at h
    · cases h
      exact .marked hend
    · split at h
      · cases h
      · next hlong =>
        cases h
        exact .flags hend (readsFlags_of_readLong hlong)
    · split at h
      · cases h
      · next hcluster =>
        cases h
        exact .flags hend (readsFlags_of_readCluster hcluster)
    · cases h
      exact .quoted hend
    · cases h
      exact .plain hend

/-- What every turn preserves, a pass preserves. -/
theorem scan_preserves {P : State → Prop}
    (hturn : ∀ s finished s', P s → Turned c s finished s' → P s') {turns : Nat} (h : P s)
    (hscan : scan settings c turns s = some (.ok (), s')) : P s' := by
  induction turns generalizing s with
  | zero => cases hscan
  | succ turns ih =>
    rw [scan] at hscan
    split at hscan
    · cases hscan
    · next hdone =>
      cases hscan
      exact hturn _ _ _ h (turned_of_turn hdone)
    · next hdone => exact ih (hturn _ _ _ h (turned_of_turn hdone)) hscan

/-- Flags are out once a pass has come to its end and the absent ones are resolved. -/
theorem extract_cases {input rest : Cursor} {start other : Context} {notes : List Note}
    (h : extract settings c input start = some ⟨.ok rest, other, notes⟩) :
    ∃ scanned resolved, scan settings c (turnLimit c input) ⟨input, start, [], [], []⟩
        = some (.ok (), scanned)
      ∧ resolveAbsent c c.flags scanned = (.ok (), resolved) ∧ other = resolved.context
      ∧ rest = .ofText (Text.withoutRanges resolved.cursor.source resolved.cuts) := by
  rw [extract_eq] at h
  generalize turnLimit c input = turns at h ⊢
  split at h
  · cases h
  · cases h
  · next scanned hscan =>
    cases hresolve : resolveAbsent c c.flags scanned with
    | mk result resolved =>
      rw [hresolve] at h
      cases result with
      | error e => cases h
      | ok _ =>
        cases h
        exact ⟨scanned, resolved, hscan, hresolve, rfl, rfl⟩

end FlagScan

end CommandGrammar
