import CommandGrammar.Proofs.Command.Types
import CommandGrammar.Proofs.Reading.Extent
import CommandGrammar.Proofs.Trial.Passes

/-!
# How long a pass over the flags takes

Each turn of a pass either ends it or leaves less to read: a word less, or, behind a quoted text,
two quotes less.  A flag does not change that, as its type moves over a start of the unread text,
unless the input has ended: then the default text of the flag stands there for it, and what its type
leaves of that text is scanned like input.

Where the types of the flags use up their default texts, `scan_ends` bounds the turns by the words
and the quotes of the input.  Otherwise there is no bound: `scan_say_goes_on` has a pass that never
ends.
-/

set_option autoImplicit false

namespace CommandGrammar

variable {α : Type}

namespace FlagScan

/-! ## What is left to do -/

/-- Twice the turns that a text can take: a word takes one, and so do two quotes. -/
def workload (text : List Char) : Nat := 2 * (Text.words text).length + text.count '"'

theorem workload_append_le (front text : List Char) :
    workload text ≤ workload (front ++ text) := by
  have hwords := Text.length_words_le_append front text
  unfold workload
  rw [List.count_append]
  omega

theorem workload_trimLeft_le (text : List Char) :
    workload (Text.trimLeft text) ≤ workload text := by
  have happend := workload_append_le (Text.leadingBlanks text) (Text.trimLeft text)
  rwa [Text.leadingBlanks_append_trimLeft] at happend

theorem workload_of_allBlank {text : List Char} (h : Text.AllBlank text) : workload text = 0 := by
  have hquote : '"' ∉ text := by
    intro hmem
    have hblank := h '"' hmem
    revert hblank
    decide
  unfold workload
  rw [Text.words_of_allBlank h, List.count_eq_zero_of_not_mem hquote]
  rfl

/-- Passing over a word leaves a word less. -/
theorem workload_afterWord_lt {text : List Char} (h : Text.StartsInk text) :
    workload (Text.afterWord text) + 2 ≤ workload text := by
  have hwords := congrArg List.length (Text.words_of_startsInk h)
  have hcount : text.count '"' = (Text.firstWord text).count '"'
      + (Text.afterWord text).count '"' := by
    rw [← List.count_append, Text.firstWord_append_afterWord]
  rw [List.length_cons] at hwords
  unfold workload
  omega

/-- Passing over a quoted text leaves two quotes less. -/
theorem workload_left_lt {text w : List Char} (h : (Quoted.scan '"' text).result = .ok w) :
    workload (Quoted.scan '"' text).left + 2 ≤ workload ('"' :: text) := by
  obtain ⟨front, hfront⟩ := Quoted.exists_encode_eq_concat '"' w
  have hsplit := Quoted.passed_append_left '"' text
  rw [Quoted.passed_of_result_eq_ok h, hfront] at hsplit
  generalize (Quoted.scan '"' text).left = left at hsplit
  have hwords := Text.length_words_le_append ('"' :: (front ++ ['"'])) left
  rw [List.cons_append, hsplit] at hwords
  have hcount : ('"' :: text).count '"' = 2 + front.count '"' + left.count '"' := by
    rw [← hsplit, List.count_cons_self, List.count_append, List.count_append,
      List.count_singleton_self]
    omega
  unfold workload
  omega

/-! ## Single steps -/

variable {settings : Settings} {c : Command α} {s s' : State}

/-- Reading a flag adds nothing to read, if what its type leaves of the default text is blank. -/
theorem workload_readFlag_le {f : Slot} (htype : f.type.Standard)
    (hwhole : f.isSwitch = false → f.DefaultWhole) (hread : readFlag c f s = (.ok (), s')) :
    workload s'.cursor.rest ≤ workload s.cursor.rest := by
  unfold readFlag at hread
  dsimp only at hread
  split at hread
  · split at hread
    · cases hread
      exact Nat.le_refl _
    · cases hread
  · next hswitch =>
    split at hread
    · cases hread
    · split at hread
      · next value hparse =>
        cases hread
        dsimp only [State.resolve]
        cases hend : s.cursor.skipBlanks.atEnd with
        | true =>
          have hflag : f.isSwitch = false := by simpa using hswitch
          have hblank := (Slot.parse_of_atEnd htype hflag hend hparse).2 (hwhole hflag)
          rw [workload_of_allBlank hblank]
          exact Nat.zero_le _
        | false =>
          obtain ⟨taken, left, htaken, hcursor⟩ :=
            htype.exists_moved s.cursor.skipBlanks s.context
          have hskipped : s.cursor.rest = Text.leadingBlanks s.cursor.rest
              ++ s.cursor.skipBlanks.rest := (Text.leadingBlanks_append_trimLeft _).symm
          rw [Slot.parse_eq_of_not_atEnd hend hparse, hcursor, hskipped, htaken,
            ← List.append_assoc]
          exact workload_append_le _ _
      · cases hread

/-- Every flag has a standard type, which uses up the default text if it is read. -/
def DefaultsWhole (c : Command α) : Prop :=
  ∀ f ∈ c.flags, f.type.Standard ∧ (f.isSwitch = false → f.DefaultWhole)

theorem ReadsFlags.workload_le (hflags : DefaultsWhole c) (hread : ReadsFlags c s s') :
    workload s'.cursor.rest ≤ workload s.cursor.rest := by
  induction hread with
  | none s => exact Nat.le_refl _
  | more hf hflag _ ih =>
    obtain ⟨htype, hwhole⟩ := hflags _ hf
    exact Nat.le_trans ih (workload_readFlag_le htype hwhole hflag)

/-- What is passed over behind a quote is a word or a text between quotes. -/
theorem takesOne_passQuoted (cursor : Cursor) : cursor.TakesOne (passQuoted cursor) := by
  unfold passQuoted
  split
  · next hread => exact Cursor.takesOne_of_readText hread
  · exact .word

theorem workload_passQuoted_lt {cursor : Cursor} (h : Text.StartsInk cursor.rest) :
    workload (passQuoted cursor).rest + 2 ≤ workload cursor.rest := by
  have htakes := takesOne_passQuoted cursor
  generalize passQuoted cursor = after at htakes ⊢
  cases htakes with
  | word => exact workload_afterWord_lt h
  | quoted hquote hscan =>
    rw [hquote]
    exact workload_left_lt hscan

/-! ## Whole passes -/

/-- A turn that does not end the pass leaves a word or two quotes less to read. -/
theorem Turned.workload_lt (hflags : DefaultsWhole c) (hturn : Turned c s false s') :
    workload s'.cursor.rest + 2 ≤ workload s.cursor.rest := by
  refine Nat.le_trans ?_ (workload_trimLeft_le s.cursor.rest)
  cases hturn with
  | flags hopen hread =>
    refine Nat.le_trans (Nat.add_le_add_right (hread.workload_le hflags) 2) ?_
    exact workload_afterWord_lt (Cursor.startsInk_skipBlanks hopen)
  | quoted hopen => exact workload_passQuoted_lt (Cursor.startsInk_skipBlanks hopen)
  | plain hopen => exact workload_afterWord_lt (Cursor.startsInk_skipBlanks hopen)

/-- A pass ends within half the workload and one turn more. -/
theorem scan_isSome (hflags : DefaultsWhole c) {turns : Nat}
    (hturns : workload s.cursor.rest < 2 * turns) : (scan settings c turns s).isSome = true := by
  induction turns generalizing s with
  | zero => omega
  | succ turns ih =>
    rw [scan]
    split
    · rfl
    · rfl
    · next after hturn =>
      have hless := (turned_of_turn hturn).workload_lt hflags
      apply ih
      omega

/-- The turns that are counted for an input are enough. -/
theorem workload_lt_turnLimit (c : Command α) (input : Cursor) :
    workload input.rest < 2 * turnLimit c input := by
  have hwords := Text.length_words_le input.rest
  have hquotes : input.rest.count '"' ≤ input.rest.length := List.count_le_length
  unfold workload turnLimit
  generalize hn : input.rest.length + defaultSize c + 2 = n
  have hsquare : 2 * n ≤ n ^ 2 := by
    rw [Nat.pow_two]
    exact Nat.mul_le_mul_right n (by omega)
  have hpow : Nat.pow n 2 = n ^ 2 := rfl
  omega

/-- Taking the flags out of an input has an outcome. -/
theorem extract_isSome (hflags : DefaultsWhole c) (settings : Settings) (input : Cursor)
    (context : Context) : (extract settings c input context).isSome = true := by
  have hscan : (scan settings c (turnLimit c input) ⟨input, context, [], [], []⟩).isSome = true :=
    scan_isSome hflags (workload_lt_turnLimit c input)
  rw [extract_eq]
  generalize turnLimit c input = turns at hscan ⊢
  cases hstep : scan settings c turns ⟨input, context, [], [], []⟩ with
  | none => simp [hstep] at hscan
  | some step =>
    obtain ⟨result, after⟩ := step
    cases result <;> rfl

/-- Where a pass over an input begins. -/
def State.start (c : Command α) (actor : Actor) (input : String) : State :=
  ⟨.ofText input.toList, .start actor c.info input, [], [], []⟩

/-- Where the flags use up their default texts, a pass ends: after at most one turn for each word,
one for every two quotes, and a last one.  So taking the flags out has an outcome. -/
theorem scan_ends (hflags : DefaultsWhole c) (settings : Settings) (actor : Actor)
    (input : String) :
    (scan settings c ((Text.words input.toList).length + input.toList.count '"' / 2 + 1)
        (.start c actor input)).isSome = true
      ∧ (extract settings c (.ofText input.toList) (.start actor c.info input)).isSome = true := by
  refine ⟨scan_isSome hflags ?_, extract_isSome hflags settings _ _⟩
  unfold workload
  dsimp only [State.start, Cursor.ofText]
  omega

/-! ## A flag with a default text -/

/-- `say <word> [--note <note>] [--times <times>]`, where a note that is not given is the text. -/
def saying (text : String) : Declaration Unit where
  paths := ["say <word>"]
  parameters := [.required "word" .string,
    .asFlag (.withDefault (.required "note" .string) text) .byParameter,
    .asFlag (.optional (.required "times" .int)) .byParameter]
  action := ()
  metadata := .none

/-- The command of `saying`. -/
def say (text : String) : Command Unit :=
  ⟨⟨0⟩, [⟨.word "say", false, false⟩,
      ⟨.slot (.ofParameter (.required "word" .string) .text), false, false⟩,
      ⟨.slot (.ofParameter
        (.asFlag (.withDefault (.required "note" .string) text) .byParameter) .string), false, true⟩,
      ⟨.slot (.ofParameter (.asFlag (.optional (.required "times" .int)) .byParameter) .int),
        true, true⟩],
    .none, ⟨(), []⟩⟩

/-- A pass does not end while its turns lead from such states to such states. -/
theorem scan_eq_none {P : State → Prop}
    (hstep : ∀ s, P s → ∃ s', turn settings c s = (.ok false, s') ∧ P s') (hs : P s) (turns : Nat) :
    scan settings c turns s = none := by
  induction turns generalizing s with
  | zero => rfl
  | succ turns ih =>
    obtain ⟨after, hturn, hafter⟩ := hstep s hs
    rw [scan, hturn]
    exact ih hafter

/-- A note of one word is used up. -/
theorem defaultsWhole_say : DefaultsWhole (say "x") := by
  intro f hf
  have hcompile : Compile.compile (.standard Unit) (saying "x") "say <word>" ⟨0⟩
      = .ok (say "x") := rfl
  have htype : f.type.Standard := Compile.standard_of_compile Pipeline.isBuiltIn_standard
    hcompile (Command.mem_flags_iff.mp hf).1
  refine ⟨htype, fun _ text htext context value _ => ?_⟩
  have hflags : (say "x").flags = [.ofParameter
      (.asFlag (.withDefault (.required "note" .string) "x") .byParameter) .string,
    .ofParameter (.asFlag (.optional (.required "times" .int)) .byParameter) .int] := rfl
  rw [hflags] at hf
  simp only [List.mem_cons, List.not_mem_nil, or_false] at hf
  rcases hf with rfl | rfl
  · cases htext
    exact Text.allBlank_nil
  · cases htext

theorem scan_say_ends :
    DefaultsWhole (say "x")
      ∧ (scan .standard (say "x") 4 (.start (say "x") default "say hi --note")).isSome = true
      ∧ (extract .standard (say "x") (.ofText "say hi --note".toList)
        (.start default (say "x").info "say hi --note")).isSome = true := by
  have hturns : (Text.words "say hi --note".toList).length
      + "say hi --note".toList.count '"' / 2 + 1 = 4 := rfl
  obtain ⟨hscan, hextract⟩ := scan_ends defaultsWhole_say .standard default "say hi --note"
  rw [hturns] at hscan
  exact ⟨defaultsWhole_say, hscan, hextract⟩

/-- A text that goes on behind the note takes a turn of its own, and one that names its flag again
keeps the pass going for ever. -/
theorem scan_say_goes_on :
    Compile.compile (.standard Unit) (saying "x --times 5") "say <word>" ⟨0⟩
        = .ok (say "x --times 5")
      ∧ Compile.compile (.standard Unit) (saying "x --note") "say <word>" ⟨0⟩
        = .ok (say "x --note")
      ∧ (Text.words "say hi --note".toList).length = 3
      ∧ scan .standard (say "x --times 5") 4 (.start (say "x --times 5") default "say hi --note")
        = none
      ∧ ∀ turns, scan .standard (say "x --note") turns
          (.start (say "x --note") default "say hi --note") = none := by
  refine ⟨rfl, rfl, rfl, rfl, ?_⟩
  -- the words of the input are passed one by one, and then the flag finds its own name again
  apply scan_eq_none (P := fun s => s.cursor.rest = "say hi --note".toList
    ∨ s.cursor.rest = " hi --note".toList ∨ s.cursor.rest = " --note".toList)
  · intro s hs
    obtain ⟨⟨consumed, rest⟩, context, notes, cuts, seen⟩ := s
    rcases hs with rfl | rfl | rfl
    · exact ⟨_, rfl, .inr (.inl rfl)⟩
    · exact ⟨_, rfl, .inr (.inr rfl)⟩
    · exact ⟨_, rfl, .inr (.inr rfl)⟩
  · exact .inl rfl

end FlagScan

end CommandGrammar
