import CommandGrammar.Proofs.Command.Additions
import CommandGrammar.Proofs.Reading.Trailing
import CommandGrammar.Proofs.Trial.Acceptance
import CommandGrammar.Proofs.Trial.Unflagged

/-!
# Flags that are not used

A command and the same command with more flags match the same nodes by place.  On an input in which
no flag occurs their walks read the same words, and keep in step: one of them fails where the other
one does, and both bind the same values.

They do not begin at the same text.  Taking the flags out takes the blanks around an input away,
and a type that takes the rest of the input as it stands can tell: `loud_trims`.  So the command
with flags does with an input what the other one does with the input without those blanks, and where
no such type reads the end of it, what the other one does with the input itself.
-/

set_option autoImplicit false

namespace CommandGrammar

open Text

variable {α σ : Type} {loose : Prop} {names : List String}

namespace Walk

/-! ## Walks in step -/

/-- Two walks on behalf of one actor have the same values under some names.  Behind the blanks, what
the first one has left to read trails what the second one has. -/
structure State.Alike (loose : Prop) (names : List String) (s s' : State) : Prop where
  actor : s.context.actor = s'.context.actor
  values : ∀ name ∈ names, s.context.arguments.get? name = s'.context.arguments.get? name
  rest : Trails loose s.cursor.skipBlanks.rest s'.cursor.skipBlanks.rest

/-- Two steps both fail, or both lead to walks in step. -/
inductive Step.Alike (loose : Prop) (names : List String) : Step → Step → Prop where
  | fails {e e' : CommandError} {s s' : State} :
      Step.Alike loose names (.error e, s) (.error e', s')
  | goesOn {s s' : State} (h : s.Alike loose names s') :
      Step.Alike loose names (.ok (), s) (.ok (), s')

variable {c c' : Command α} {s s' : State} {n n' : Node}

/-- A slot that is read alike with blanks at the end and without. -/
def ReadsAlike (loose : Prop) (segment : Segment) : Prop :=
  ∀ slot, segment = .slot slot →
    slot.type.Standard ∧ (loose → slot.type.keepsBlanks = false)

/-- Walks stay in step where they move on alike and bind the same. -/
theorem State.Alike.moved (h : s.Alike loose names s') {t t' : State}
    (hrest : Trails loose t.cursor.rest t'.cursor.rest)
    (hcontext : (t.context = s.context ∧ t'.context = s'.context)
      ∨ ∃ name value, t.context = s.context.bind name value
        ∧ t'.context = s'.context.bind name value) : t.Alike loose names t' := by
  rcases hcontext with ⟨hsame, hsame'⟩ | ⟨name, value, hbind, hbind'⟩
  · refine ⟨?_, ?_, hrest.trimLeft⟩
    · rw [hsame, hsame', h.actor]
    · rw [hsame, hsame']
      exact h.values
  · refine ⟨?_, ?_, hrest.trimLeft⟩
    · rw [hbind, hbind', Context.bind_actor, Context.bind_actor, h.actor]
    · intro other hother
      simp only [hbind, hbind', Context.bind, Arguments.get?_insert, h.values other hother]

/-- Behind the blanks a segment is read alike: with an error, or to walks in step. -/
theorem readSegment_alike (index index' : Nat) {segment : Segment}
    (hreads : ReadsAlike loose segment) (h : s.Alike loose names s') :
    (∃ e e' t t', readSegment segment { s with cursor := s.cursor.skipBlanks, furthest := index }
        = (.error e, t)
      ∧ readSegment segment { s' with cursor := s'.cursor.skipBlanks, furthest := index' }
        = (.error e', t'))
    ∨ ∃ t t', readSegment segment { s with cursor := s.cursor.skipBlanks, furthest := index }
        = (.ok (), t)
      ∧ readSegment segment { s' with cursor := s'.cursor.skipBlanks, furthest := index' }
        = (.ok (), t')
      ∧ t.Alike loose names t' ∧ Trails loose t.cursor.rest t'.cursor.rest := by
  cases segment with
  | word literal =>
    obtain ⟨hword, hafter⟩ := h.rest.readWord
    simp only [readSegment, hword]
    split
    · exact .inr ⟨_, _, rfl, rfl, h.moved hafter (.inl ⟨rfl, rfl⟩), hafter⟩
    · exact .inl ⟨_, _, _, _, rfl, rfl⟩
  | slot slot =>
    obtain ⟨htype, hkeeps⟩ := hreads slot rfl
    obtain ⟨hresult, hrest⟩ := Slot.parse_alike (s := slot) htype hkeeps h.actor h.rest
    simp only [readSegment]
    generalize slot.parse s.cursor.skipBlanks s.context = p at hresult hrest ⊢
    generalize slot.parse s'.cursor.skipBlanks s'.context = q at hresult hrest ⊢
    cases hq : q.result with
    | ok value =>
      have hafter := hrest value hq
      rw [(hresult value).mpr hq]
      exact .inr ⟨_, _, rfl, rfl, h.moved hafter (.inr ⟨_, _, rfl, rfl⟩), hafter⟩
    | error e' =>
      cases hp : p.result with
      | ok value =>
        have hvalue := (hresult value).mp hp
        rw [hq] at hvalue
        cases hvalue
      | error e => exact .inl ⟨_, _, _, _, rfl, rfl⟩

/-- A node is read alike by walks in step. -/
theorem readNode_alike (index index' : Nat) (hsegment : n.segment = n'.segment)
    (hreads : ReadsAlike loose n.segment) (h : s.Alike loose names s') :
    Step.Alike loose names (readNode c index n s) (readNode c' index' n' s') := by
  unfold readNode
  rw [← hsegment]
  dsimp only
  rcases readSegment_alike index index' hreads h with
    ⟨e, e', t, t', hread, hread'⟩ | ⟨t, t', hread, hread', halike, hrest⟩
  · rw [hread, hread']
    exact .fails
  · rw [hread, hread']
    dsimp only
    by_cases hsep : Separated t'.cursor.rest
    · rw [checkSeparated_of_separated hsep,
        checkSeparated_of_separated (hrest.separated_iff.mpr hsep)]
      exact .goesOn halike
    · rw [checkSeparated_of_not_separated hsep,
        checkSeparated_of_not_separated (mt hrest.separated_iff.mp hsep)]
      exact .fails

/-- All nodes that are matched by place are read alike by walks in step. -/
theorem run_alike (index index' : Nat) {nodes nodes' : List Node}
    (hplaced : ∀ n ∈ nodes, n.isPositional = true)
    (hsegments : (nodes'.filter Node.isPositional).map Node.segment = nodes.map Node.segment)
    (hreads : ∀ n ∈ nodes, ReadsAlike loose n.segment) (h : s.Alike loose names s') :
    Step.Alike loose names (run c index nodes s) (run c' index' nodes' s') := by
  induction nodes' generalizing nodes index index' s s' with
  | nil =>
    cases nodes with
    | nil => exact .goesOn h
    | cons n rest => cases hsegments
  | cons n' rest' ih =>
    rw [run]
    cases hplaced' : n'.isPositional with
    | false =>
      rw [List.filter_cons_of_neg (by simp [hplaced'])] at hsegments
      exact ih index (index' + 1) hplaced hsegments hreads h
    | true =>
      rw [List.filter_cons_of_pos hplaced', List.map_cons] at hsegments
      cases nodes with
      | nil => cases hsegments
      | cons n rest =>
        obtain ⟨hsegment, hothers⟩ := List.cons.inj hsegments
        obtain ⟨hn, hplaced⟩ := List.forall_mem_cons.mp hplaced
        obtain ⟨hfirst, hreads⟩ := List.forall_mem_cons.mp hreads
        have hnode : Step.Alike loose names (readNode c index n s) (readNode c' index' n' s') :=
          readNode_alike index index' hsegment.symm hfirst h
        rw [run, hn]
        generalize readNode c index n s = step at hnode ⊢
        generalize readNode c' index' n' s' = step' at hnode ⊢
        cases hnode with
        | fails => exact .fails
        | goesOn hafter => exact ih (index + 1) (index' + 1) hplaced hothers hreads hafter

end Walk

/-! ## Commands with more flags -/

namespace Command

variable {c c' : Command α}

/-- A command that matches what another one matches, which has no flags, and perhaps has flags.  No
flag has the name of one of the parameters. -/
structure Extends (c : Command α) (parameters : List Parameter) (c' : Command α) : Prop where
  noFlags : c.hasFlags = false
  segments : c'.positional.map Node.segment = c.nodes.map Node.segment
  types : ∀ s ∈ c.slots, s.type.Standard
  flagTypes : ∀ f ∈ c'.flags, f.type.Standard
  fresh : ∀ p ∈ parameters, ∀ f ∈ c'.flags, f.name ≠ p.name

theorem extends_of_compile {pipeline : Pipeline α} (hpipeline : pipeline.IsBuiltIn)
    {declared : Declaration α} {more : List Parameter} (hmore : AddsFlags declared.parameters more)
    {path : String} {id id' : CommandId}
    (hcompile : Compile.compile pipeline declared path id = .ok c)
    (hcompile' : Compile.compile pipeline { declared with parameters := more } path id' = .ok c') :
    c.Extends declared.parameters c' := by
  have hplaces : ∀ p ∈ declared.parameters, p.isPositional = true := by
    rw [← hmore.places]
    exact fun p hp => (List.mem_filter.mp hp).2
  have hnoFlags : c.hasFlags = false := Compile.hasFlags_eq_false hcompile hplaces
  constructor
  case noFlags => exact hnoFlags
  case segments =>
    have hpositional : c.positional = c.nodes :=
      List.filter_eq_self.mpr (by simpa [Command.hasFlags] using hnoFlags)
    rw [← hpositional]
    exact Compile.segments_positional_eq hmore hcompile hcompile'
  case types => exact fun s hs => Compile.standard_of_compile hpipeline hcompile hs
  case flagTypes =>
    exact fun f hf => Compile.standard_of_compile hpipeline hcompile' (mem_flags_iff.mp hf).1
  case fresh =>
    intro p hp f hf
    obtain ⟨hslot, hflag⟩ := mem_flags_iff.mp hf
    exact (hmore.fresh _ (Compile.parameter_mem_of_compile hcompile' hslot) hflag p hp).symm

end Command

/-! ## Trials in step -/

/-- An input trails what is left of it without the blanks around it. -/
theorem trails_trim (text : List Char) :
    Trails (endsBlank text = true) (Cursor.ofText text).skipBlanks.rest
      (Cursor.ofText (trim text)).skipBlanks.rest := by
  obtain ⟨blanks, htrim, hblanks⟩ := exists_trimLeft_eq text
  have htrimmed : trimLeft (trim text) = trim text := by
    by_cases hnil : trim text = []
    · rw [hnil]
      rfl
    · exact trimLeft_of_startsInk (inked_trim hnil).front
  have hrest : (Cursor.ofText text).skipBlanks.rest = trimLeft text := rfl
  have hrest' : (Cursor.ofText (trim text)).skipBlanks.rest = trimLeft (trim text) := rfl
  rw [hrest, hrest', htrimmed]
  refine ⟨blanks, hblanks, fun hne => ?_, htrim⟩
  rw [← leadingBlanks_append_trimLeft text, htrim, ← List.append_assoc, endsBlank_append hne]
  exact endsBlank_of_allBlank hblanks hne

/-- Two trials agree on whether the commands fit, on whether input is left over, and on the values
of some parameters. -/
structure Trial.Agree (parameters : List Parameter) (t t' : Trial α) : Prop where
  succeeded : t.succeeded = t'.succeeded
  consumedAll : t.consumedAll = t'.consumedAll
  values : ∀ p ∈ parameters,
    t.context.arguments.get? p.name = t'.context.arguments.get? p.name

namespace Reading

variable {settings : Settings} {c c' : Command α} {actor : Actor} {input : String}
  {parameters : List Parameter}

/-- Walks in step make trials that agree. -/
theorem agree_ofRest {cursor cursor' : Cursor} {context context' : Context}
    {notes notes' : List Note}
    (h : Walk.Step.Alike loose (parameters.map Parameter.name)
      (Walk.run c 0 c.nodes ⟨cursor, context, notes, 0⟩)
      (Walk.run c' 0 c'.nodes ⟨cursor', context', notes', 0⟩)) :
    (Trial.ofReading (ofRest c cursor context notes)).Agree parameters
      (.ofReading (ofRest c' cursor' context' notes')) := by
  unfold ofRest
  generalize Walk.run c 0 c.nodes ⟨cursor, context, notes, 0⟩ = step at h ⊢
  generalize Walk.run c' 0 c'.nodes ⟨cursor', context', notes', 0⟩ = step' at h ⊢
  cases h with
  | fails => exact ⟨rfl, rfl, fun _ _ => rfl⟩
  | goesOn h =>
    exact ⟨rfl, Cursor.atEnd_eq_of_trails h.rest,
      fun p hp => h.values p.name (List.mem_map_of_mem hp)⟩

/-- Without flags the whole input is read. -/
theorem ofInput_of_hasFlags_eq_false (settings : Settings) (hflags : c.hasFlags = false)
    (actor : Actor) (input : String) :
    ofInput settings c actor input
      = some (.ofRest c (.ofText input.toList) (.start actor c.info input) []) := by
  unfold ofInput
  rw [hflags]
  rfl

/-- With flags of which none occurs, the input is read without the blanks around it. -/
theorem ofInput_unflagged (hflags : c.hasFlags = true) (htypes : ∀ f ∈ c.flags, f.type.Standard)
    (hunflagged : settings.Unflagged input.toList)
    (hvalues : ∀ f ∈ c.flags, ∃ value,
      (f.absentValue (.start actor c.info input)).1 = .ok value) :
    ∃ context notes, ofInput settings c actor input
        = some (.ofRest c (.ofText (trim input.toList)) context notes)
      ∧ context.actor = actor
      ∧ ∀ name, (∀ f ∈ c.flags, f.name ≠ name) → context.arguments.get? name = none := by
  obtain ⟨context, notes, hextract, hactor, hnone⟩ :=
    FlagScan.extract_unflagged htypes hunflagged hvalues
  refine ⟨context, notes, ?_, hactor, hnone⟩
  unfold ofInput
  rw [if_pos hflags, hextract]

end Reading

namespace Dispatcher

variable {d : Dispatcher α σ} {c c' : Command α} {actor : Actor} {input : String}

/-- Without conditions a trial is what its reading makes. -/
theorem test_of_reading (hconditions : d.conditions = []) {reading : Reading α}
    (hreading : Reading.ofInput d.settings c actor input = some reading) (s : Session α σ) :
    ∃ after, d.test c actor input s = some (.ofReading reading, after) := by
  unfold test
  rw [hreading, hconditions]
  dsimp only
  unfold Trial.ofReading
  cases reading.result with
  | error e => exact ⟨_, rfl⟩
  | ok rest => exact ⟨_, rfl⟩

/-- Without flags it is made from the whole input. -/
theorem exists_test_plain (hconditions : d.conditions = []) (hflags : c.hasFlags = false)
    (actor : Actor) (input : String) (before : Session α σ) :
    ∃ after, d.test c actor input before
      = some (.ofReading (.ofRest c (.ofText input.toList) (.start actor c.info input) []),
          after) :=
  test_of_reading hconditions (Reading.ofInput_of_hasFlags_eq_false d.settings hflags actor input)
    before

/-- With flags of which none occurs, it is made from the input without the blanks around it. -/
theorem exists_test_unflagged (hconditions : d.conditions = []) (hflags : c.hasFlags = true)
    (htypes : ∀ f ∈ c.flags, f.type.Standard) (hunflagged : d.settings.Unflagged input.toList)
    (hvalues : ∀ f ∈ c.flags, ∃ value,
      (f.absentValue (.start actor c.info input)).1 = .ok value) (before : Session α σ) :
    ∃ context notes after, d.test c actor input before
        = some (.ofReading (.ofRest c (.ofText (trim input.toList)) context notes), after)
      ∧ context.actor = actor
      ∧ ∀ name, (∀ f ∈ c.flags, f.name ≠ name) → context.arguments.get? name = none := by
  obtain ⟨context, notes, hreading, hbound⟩ :=
    Reading.ofInput_unflagged hflags htypes hunflagged hvalues
  obtain ⟨after, htest⟩ := test_of_reading hconditions hreading before
  exact ⟨context, notes, after, htest, hbound⟩

variable {parameters : List Parameter}

/-- Where both read the same words, the trial of a command agrees with that of one that extends
it. -/
theorem exists_test_agree (loose : Prop) (hextends : c.Extends parameters c')
    (hloose : loose → ∀ s ∈ c.slots, s.type.keepsBlanks = false) (hconditions : d.conditions = [])
    {text : List Char} {context : Context} {notes : List Note} (hactor : context.actor = actor)
    (hunbound : ∀ p ∈ parameters, context.arguments.get? p.name = none)
    (htrails : Trails loose (Cursor.ofText input.toList).skipBlanks.rest
      (Cursor.ofText text).skipBlanks.rest) (before : Session α σ) :
    ∃ plain after, d.test c actor input before = some (plain, after)
      ∧ plain.Agree parameters (.ofReading (.ofRest c' (.ofText text) context notes)) := by
  have hplaced : ∀ n ∈ c.nodes, n.isPositional = true := by
    simpa [Command.hasFlags] using hextends.noFlags
  have hreads : ∀ n ∈ c.nodes, Walk.ReadsAlike loose n.segment := by
    intro n hn slot hslot
    have hmem : slot ∈ c.slots := List.mem_filterMap.mpr ⟨n, hn, by rw [Node.slot?, hslot]⟩
    exact ⟨hextends.types slot hmem, fun h => hloose h slot hmem⟩
  have hstart : Walk.State.Alike loose (parameters.map Parameter.name)
      ⟨.ofText input.toList, .start actor c.info input, [], 0⟩
      ⟨.ofText text, context, notes, 0⟩ := by
    refine ⟨hactor.symm, fun name hname => ?_, htrails⟩
    obtain ⟨p, hp, rfl⟩ := List.mem_map.mp hname
    exact (hunbound p hp).symm
  obtain ⟨after, htest⟩ := exists_test_plain hconditions hextends.noFlags actor input before
  exact ⟨_, after, htest,
    Reading.agree_ofRest (Walk.run_alike 0 0 hplaced hextends.segments hreads hstart)⟩

/-- A command, and the same command with more flags, of which none occurs in the input and all have
values when they are absent.  Where there are flags, the trial of the second one agrees with the
trial of the first one on the input without the blanks around it.  It agrees with the trial on the
input itself unless blanks at the end of the input could go into a value. -/
theorem test_flagsAdded {pipeline : Pipeline α} (hpipeline : pipeline.IsBuiltIn)
    {declared : Declaration α} {more : List Parameter} (hmore : AddsFlags declared.parameters more)
    {path : String} {id id' : CommandId}
    (hcompile : Compile.compile pipeline declared path id = .ok c)
    (hcompile' : Compile.compile pipeline { declared with parameters := more } path id' = .ok c')
    (hconditions : d.conditions = [])
    (hwords : ∀ word ∈ Text.words input.toList, ¬ d.settings.BeginsMarked word)
    (hglued : ∀ left, Text.Glued input.toList left →
      ¬ d.settings.BeginsMarked (Text.firstWord left))
    (hvalues : ∀ f ∈ c'.flags, ∃ value,
      (f.absentValue (.start actor c'.info input)).1 = .ok value)
    (before : Session α σ) :
    ∃ extended after', d.test c' actor input before = some (extended, after')
      ∧ (c'.hasFlags = true →
        ∃ plain after, d.test c actor (String.ofList (Text.trim input.toList)) before
            = some (plain, after)
          ∧ plain.Agree declared.parameters extended)
      ∧ (c'.hasFlags = false ∨ Text.endsBlank input.toList = false
            ∨ (∀ s ∈ c.slots, s.type.keepsBlanks = false) →
        ∃ plain after, d.test c actor input before = some (plain, after)
          ∧ plain.Agree declared.parameters extended) := by
  have hextends := Command.extends_of_compile hpipeline hmore hcompile hcompile'
  cases hflags : c'.hasFlags with
  | false =>
    obtain ⟨after', htest⟩ := exists_test_plain hconditions hflags actor input before
    refine ⟨_, after', htest, fun h => Bool.noConfusion h, fun _ => ?_⟩
    have hunbound : ∀ p ∈ declared.parameters,
        (Context.start actor c'.info input).arguments.get? p.name = none :=
      fun p _ => Arguments.get?_empty p.name
    exact exists_test_agree False hextends False.elim hconditions rfl hunbound (.refl _) before
  | true =>
    obtain ⟨context, notes, after', htest, hactor, hunbound⟩ :=
      exists_test_unflagged hconditions hflags hextends.flagTypes ⟨hwords, hglued⟩ hvalues before
    have hnone : ∀ p ∈ declared.parameters, context.arguments.get? p.name = none :=
      fun p hp => hunbound p.name (hextends.fresh p hp)
    refine ⟨_, after', htest, fun _ => ?_, fun hblanks => ?_⟩
    · refine exists_test_agree False hextends False.elim hconditions hactor hnone ?_ before
      rw [String.toList_ofList]
      exact .refl _
    · have hloose : Text.endsBlank input.toList = true →
          ∀ s ∈ c.slots, s.type.keepsBlanks = false := by
        intro hends
        exact (hblanks.resolve_left (by simp)).resolve_left (by simp [hends])
      exact exists_test_agree _ hextends hloose hconditions hactor hnone
        (trails_trim input.toList) before

/-- `say <word>`, where the rest of an input goes into the word. -/
def speaking : Declaration Unit where
  paths := ["say <word>"]
  parameters := [.required "word" .string]
  action := ()
  metadata := .none

/-- A switch. -/
def loudly : Parameter := .asSwitch (.required "loud" .bool) .byParameter

/-- What `say <word>` compiles to. -/
def speak : Command Unit :=
  ⟨⟨0⟩, [⟨.word "say", false, false⟩,
      ⟨.slot (.ofParameter (.required "word" .string) .text), true, true⟩],
    .none, ⟨(), []⟩⟩

/-- What it compiles to with the switch. -/
def speakLoudly : Command Unit :=
  ⟨⟨1⟩, [⟨.word "say", false, false⟩,
      ⟨.slot (.ofParameter (.required "word" .string) .text), false, false⟩,
      ⟨.slot (.ofParameter loudly .bool), true, true⟩],
    .none, ⟨(), []⟩⟩

theorem compile_speak :
    Compile.compile (.standard Unit) speaking "say <word>" ⟨0⟩ = .ok speak := rfl

theorem compile_speakLoudly :
    Compile.compile (.standard Unit)
      { speaking with parameters := speaking.parameters ++ [loudly] } "say <word>" ⟨1⟩
        = .ok speakLoudly := rfl

theorem addsFlags_loudly : AddsFlags speaking.parameters (speaking.parameters ++ [loudly]) :=
  ⟨rfl, by decide⟩

/-- A switch that is absent is off. -/
theorem exists_absentValue_loudly (context : Context) :
    ∀ f ∈ speakLoudly.flags, ∃ value, (f.absentValue context).1 = .ok value := by
  intro f hf
  have hflags : speakLoudly.flags = [.ofParameter loudly .bool] := rfl
  rw [hflags, List.mem_singleton] at hf
  subst hf
  exact ⟨.bool false, rfl⟩

/-- A text between quotes may look like the switch. -/
theorem test_speak_agrees :
    (∀ word ∈ words "say \"--loud\" now".toList, ¬ Settings.standard.BeginsMarked word)
      ∧ QuotesApart "say \"--loud\" now".toList
      ∧ ∃ extended after', (bare Unit Unit .standard).test speakLoudly default
            "say \"--loud\" now" (.start ⟨0⟩ ()) = some (extended, after')
        ∧ ∃ plain after, (bare Unit Unit .standard).test speak default
              "say \"--loud\" now" (.start ⟨0⟩ ()) = some (plain, after)
            ∧ plain.Agree speaking.parameters extended := by
  have hwords : ∀ word ∈ words "say \"--loud\" now".toList,
      ¬ Settings.standard.BeginsMarked word := by decide +kernel
  have hquotes : QuotesApart "say \"--loud\" now".toList := by decide +kernel
  obtain ⟨extended, after', htest, _, hagree⟩ := test_flagsAdded (d := bare Unit Unit .standard)
    Pipeline.isBuiltIn_standard addsFlags_loudly compile_speak compile_speakLoudly rfl hwords
    (fun _ hglued => absurd hglued hquotes.not_glued) (exists_absentValue_loudly _) (.start ⟨0⟩ ())
  exact ⟨hwords, hquotes, extended, after', htest, hagree (.inr (.inl (by decide)))⟩

/-- The blank behind the rest of an input is part of the word, and is gone once there is a
switch. -/
theorem loud_trims :
    AddsFlags speaking.parameters (speaking.parameters ++ [loudly])
      ∧ Compile.compile (.standard Unit) speaking "say <word>" ⟨0⟩ = .ok speak
      ∧ Compile.compile (.standard Unit)
          { speaking with parameters := speaking.parameters ++ [loudly] } "say <word>" ⟨1⟩
        = .ok speakLoudly
      ∧ (∀ word ∈ words "say hi ".toList, ¬ Settings.standard.BeginsMarked word)
      ∧ (∀ f ∈ speakLoudly.flags, ∃ value,
          (f.absentValue (.start default speakLoudly.info "say hi ")).1 = .ok value)
      ∧ ∃ plain after extended after',
        (bare Unit Unit .standard).test speak default "say hi " (.start ⟨0⟩ ())
            = some (plain, after)
          ∧ (bare Unit Unit .standard).test speakLoudly default "say hi " (.start ⟨0⟩ ())
            = some (extended, after')
          ∧ plain.context.arguments.get? "word" = some (.string "hi ")
          ∧ extended.context.arguments.get? "word" = some (.string "hi")
          ∧ ¬ plain.Agree speaking.parameters extended := by
  have hwords : ∀ word ∈ words "say hi ".toList, ¬ Settings.standard.BeginsMarked word := by
    decide +kernel
  have hquotes : QuotesApart "say hi ".toList := by decide +kernel
  have hvalues := exists_absentValue_loudly (.start default speakLoudly.info "say hi ")
  have htypes : ∀ f ∈ speakLoudly.flags, f.type.Standard := fun f hf =>
    Compile.standard_of_compile Pipeline.isBuiltIn_standard compile_speakLoudly
      (Command.mem_flags_iff.mp hf).1
  have htrim : trim "say hi ".toList = "say hi".toList := by decide
  obtain ⟨after, htest⟩ := exists_test_plain (d := bare Unit Unit .standard) (c := speak) rfl rfl
    default "say hi " (.start ⟨0⟩ ())
  obtain ⟨context, notes, after', htest', _, _⟩ :=
    exists_test_unflagged (d := bare Unit Unit .standard) rfl rfl htypes
      ⟨hwords, fun _ hglued => absurd hglued hquotes.not_glued⟩ hvalues (.start ⟨0⟩ ())
  rw [htrim] at htest'
  have hvalue : (Trial.ofReading (.ofRest speak (.ofText "say hi ".toList)
      (.start default speak.info "say hi ") [])).context.arguments.get? "word"
        = some (.string "hi ") := rfl
  have hcontext : (Trial.ofReading (.ofRest speakLoudly (.ofText "say hi".toList)
      context notes)).context = context.bind "word" (.string "hi") := rfl
  have hvalue' : (context.bind "word" (.string "hi")).arguments.get? "word"
      = some (.string "hi") := (Arguments.get?_insert _ _ _ _).trans (if_pos rfl)
  rw [← hcontext] at hvalue'
  refine ⟨addsFlags_loudly, compile_speak, compile_speakLoudly, hwords, hvalues, _, after, _,
    after', htest, htest', hvalue, hvalue', fun hagree => ?_⟩
  have hsame := hagree.values (.required "word" .string) List.mem_cons_self
  have hequal : some (Value.string "hi ") = some (Value.string "hi") :=
    hvalue.symm.trans (hsame.trans hvalue')
  simp at hequal

end Dispatcher

end CommandGrammar
