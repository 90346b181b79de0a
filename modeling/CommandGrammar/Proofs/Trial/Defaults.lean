import CommandGrammar.Proofs.Command.Types
import CommandGrammar.Proofs.Trial.Acceptance

/-!
# Behind the end of an input

Where the text has run out, the walk over the nodes reads default texts, each of them behind what is
left of the one before it.  Once a default text is left over, the next slot reads that instead of
its own.

So a slot there has the value of its absence as long as the slots before it use up their default
texts; `test_absentValues` says so of every trial that succeeds, and that the trial has then taken
everything.  `test_leftover` shows what comes of a default text that is not used up.
-/

set_option autoImplicit false

namespace CommandGrammar

variable {α σ : Type}

/-- The slots among nodes that are matched by place. -/
def placesIn (nodes : List Node) : List Slot :=
  (nodes.filter Node.isPositional).filterMap Node.slot?

theorem placesIn_cons (node : Node) (rest : List Node) :
    placesIn (node :: rest)
      = if node.isPositional then node.slot?.toList ++ placesIn rest else placesIn rest := by
  unfold placesIn
  cases hplaced : node.isPositional with
  | false => simp [hplaced]
  | true => cases hslot : node.slot? <;> simp [hplaced, hslot]

theorem isPositional_of_slot? {node : Node} {slot : Slot} (h : node.slot? = some slot) :
    node.isPositional = slot.isPositional := by
  obtain ⟨segment, _, _⟩ := node
  cases segment with
  | word text => cases h
  | slot f =>
    cases h
    rfl

theorem Slot.isSwitch_of_isPositional {s : Slot} (h : s.isPositional = true) :
    s.isSwitch = false := by
  cases hswitch : s.isSwitch with
  | false => rfl
  | true =>
    have hnot := Command.isFlag_or_isSwitch_iff.mp (.inr hswitch)
    rw [h] at hnot
    cases hnot

/-! ## Walks -/

namespace Walk

variable {c : Command α} {index : Nat} {s s' : State}

theorem atEnd_of_allBlank {cursor : Cursor} (h : Text.AllBlank cursor.rest) :
    cursor.skipBlanks.atEnd = true := List.isEmpty_iff.mpr (Text.trimLeft_eq_nil_iff.mpr h)

theorem run_append (first later : List Node) :
    run c index (first ++ later) s
      = match run c index first s with
        | (.error e, s) => (.error e, s)
        | (.ok (), s) => run c (index + first.length) later s := by
  induction first generalizing index s with
  | nil => rfl
  | cons node rest ih =>
    rw [List.cons_append, run, run, List.length_cons]
    have hindex : index + (rest.length + 1) = index + 1 + rest.length := by omega
    rw [hindex]
    split
    · exact ih
    · cases readNode c index node s with
      | mk result after =>
        cases result with
        | error e => rfl
        | ok _ => exact ih

/-- Behind the end of a text no word binds anything. -/
theorem readNode_word_of_blank {node : Node} (hslot : node.slot? = none)
    (hblank : Text.AllBlank s.cursor.rest) (h : readNode c index node s = (.ok (), s')) :
    s'.context = s.context ∧ Text.AllBlank s'.cursor.rest := by
  obtain ⟨hread, _⟩ := readNode_eq_ok_iff.mp h
  obtain ⟨segment, _, _⟩ := node
  cases segment with
  | slot f => cases hslot
  | word text =>
    have hrest : s.cursor.skipBlanks.rest = [] := List.isEmpty_iff.mp (atEnd_of_allBlank hblank)
    simp only [readSegment] at hread
    split at hread
    · cases hread
      refine ⟨rfl, ?_⟩
      simp [Cursor.readWord, Cursor.readWhile, hrest, Text.allBlank_nil]
    · cases hread

/-- Behind the end of a text a slot is bound to the value of its absence. -/
theorem readNode_slot_of_blank {node : Node} {slot : Slot} (hslot : node.slot? = some slot)
    (htype : slot.type.Standard) (hplaced : slot.isPositional = true)
    (hblank : Text.AllBlank s.cursor.rest) (h : readNode c index node s = (.ok (), s')) :
    ∃ value, s'.context = s.context.bind slot.name value
      ∧ (∀ context, (slot.absentValue context).1 = .ok value)
      ∧ (slot.DefaultWhole → Text.AllBlank s'.cursor.rest) := by
  obtain ⟨hread, _⟩ := readNode_eq_ok_iff.mp h
  obtain ⟨segment, _, _⟩ := node
  cases segment with
  | word text => cases hslot
  | slot f =>
    cases hslot
    simp only [readSegment] at hread
    split at hread
    · next value hparse =>
      cases hread
      obtain ⟨habsent, hwhole⟩ := Slot.parse_of_atEnd htype
        (Slot.isSwitch_of_isPositional hplaced) (atEnd_of_allBlank hblank) hparse
      exact ⟨value, rfl, habsent, hwhole⟩
    · cases hread

/-- A walk leaves names alone that none of its slots has. -/
theorem get?_of_run {nodes : List Node} (h : run c index nodes s = (.ok (), s')) {name : String}
    (hname : name ∉ (placesIn nodes).map Slot.name) :
    s'.context.arguments.get? name = s.context.arguments.get? name := by
  obtain ⟨⟨bindings, hbindings, hbindingNames⟩, _⟩ := run_admits h
  have hunbound : lastValue bindings name = none := by
    rw [lastValue_eq_none_iff, hbindingNames]
    exact hname
  rw [hbindings, Context.get?_bindAll, hunbound, Option.none_or]

/-- Behind the end of a text, slots are bound to the values of their absence up to the first one
that does not use up its default text. -/
theorem run_of_blank {nodes : List Node} (htypes : ∀ f ∈ placesIn nodes, f.type.Standard)
    (hnames : ((placesIn nodes).map Slot.name).Nodup) (hblank : Text.AllBlank s.cursor.rest)
    (h : run c index nodes s = (.ok (), s')) :
    (∀ before slot after, placesIn nodes = before ++ slot :: after →
        (∀ f ∈ before, f.DefaultWhole) →
        ∃ value, s'.context.arguments.get? slot.name = some value
          ∧ ∀ context, (slot.absentValue context).1 = .ok value)
      ∧ ((∀ f ∈ placesIn nodes, f.DefaultWhole) → Text.AllBlank s'.cursor.rest) := by
  induction nodes generalizing index s with
  | nil =>
    cases h
    exact ⟨fun before slot after hsplit => by simp [placesIn] at hsplit, fun _ => hblank⟩
  | cons node rest ih =>
    rw [placesIn_cons] at htypes hnames ⊢
    rw [run] at h
    split at h
    · next hflag =>
      rw [if_neg (by simpa using hflag)] at htypes hnames ⊢
      exact ih htypes hnames hblank h
    · next hplaced =>
      rw [if_pos (by simpa using hplaced)] at htypes hnames ⊢
      split at h
      · cases h
      · next after hnode =>
        cases hslot : node.slot? with
        | none =>
          rw [hslot] at htypes hnames
          exact ih htypes hnames (readNode_word_of_blank hslot hblank hnode).2 h
        | some slot =>
          rw [hslot, Option.toList_some, List.singleton_append] at htypes hnames
          rw [Option.toList_some, List.singleton_append]
          obtain ⟨htype, hlaterTypes⟩ := List.forall_mem_cons.mp htypes
          obtain ⟨hname, hlaterNames⟩ := List.nodup_cons.mp hnames
          have hpositional : slot.isPositional = true := by
            rw [← isPositional_of_slot? hslot]
            simpa using hplaced
          obtain ⟨value, hbound, habsent, hwhole⟩ :=
            readNode_slot_of_blank hslot htype hpositional hblank hnode
          constructor
          · intro before other later hsplit hbefore
            cases before with
            | nil =>
              cases hsplit
              refine ⟨value, ?_, habsent⟩
              rw [get?_of_run h hname, hbound]
              exact (Arguments.get?_insert _ _ _ _).trans (if_pos rfl)
            | cons first before =>
              obtain ⟨rfl, hrest⟩ := List.cons.inj hsplit
              obtain ⟨hfirst, hothers⟩ := List.forall_mem_cons.mp hbefore
              exact (ih hlaterTypes hlaterNames (hwhole hfirst) h).1 before other later hrest hothers
          · intro hall
            obtain ⟨hfirst, hothers⟩ := List.forall_mem_cons.mp hall
            exact (ih hlaterTypes hlaterNames (hwhole hfirst) h).2 hothers

end Walk

/-! ## Readings -/

namespace Reading

variable {settings : Settings} {c : Command α} {actor : Actor} {input : String}

/-- Where the walk over the nodes of a command begins: at the input, or at what is left of it once
the flags are out. -/
def walkStart? (settings : Settings) (c : Command α) (actor : Actor) (input : String) :
    Option Walk.State :=
  let context := Context.start actor c.info input
  if c.hasFlags then
    match FlagScan.extract settings c (.ofText input.toList) context with
    | some ⟨.ok rest, context, notes⟩ => some ⟨rest, context, notes, 0⟩
    | _ => none
  else some ⟨.ofText input.toList, context, [], 0⟩

/-- The text runs out in front of the node with index `k`: all nodes before it are read, and then
only blanks are left. -/
def RunsOutAt (settings : Settings) (c : Command α) (actor : Actor) (input : String) (k : Nat) :
    Prop :=
  ∃ s s', walkStart? settings c actor input = some s
    ∧ Walk.run c 0 (c.nodes.take k) s = (.ok (), s') ∧ Text.AllBlank s'.cursor.rest

theorem ofRest_eq_ok {cursor rest : Cursor} {context : Context} {notes : List Note}
    (hok : (ofRest c cursor context notes).result = .ok rest) :
    ∃ s', Walk.run c 0 c.nodes ⟨cursor, context, notes, 0⟩ = (.ok (), s') ∧ s'.cursor = rest
      ∧ s'.context = (ofRest c cursor context notes).context := by
  unfold ofRest at hok ⊢
  split at hok
  · cases hok
  · next s' hrun =>
    cases hok
    rw [hrun]
    exact ⟨s', rfl, rfl, rfl⟩

/-- A reading that succeeds is a walk over all nodes. -/
theorem ofInput_eq_ok {r : Reading α} (h : ofInput settings c actor input = some r) {rest : Cursor}
    (hok : r.result = .ok rest) :
    ∃ s s', walkStart? settings c actor input = some s ∧ Walk.run c 0 c.nodes s = (.ok (), s')
      ∧ s'.cursor = rest ∧ s'.context = r.context := by
  unfold ofInput at h
  unfold walkStart?
  dsimp only at h ⊢
  split at h
  · next hflags =>
    rw [if_pos hflags]
    split at h
    · cases h
    · cases h
      cases hok
    · next hextract =>
      cases h
      obtain ⟨s', hwalk⟩ := ofRest_eq_ok hok
      rw [hextract]
      exact ⟨_, s', rfl, hwalk⟩
  · next hflags =>
    cases h
    rw [if_neg hflags]
    obtain ⟨s', hwalk⟩ := ofRest_eq_ok hok
    exact ⟨_, s', rfl, hwalk⟩

end Reading

/-! ## Trials -/

namespace Dispatcher

variable {d : Dispatcher α σ} {c : Command α} {actor : Actor} {input : String}
  {before after : Session α σ} {trial : Trial α}

/-- Where the text of a trial that succeeds runs out, each slot that is matched by place has the
value of its absence, as long as the slots before it use up their default texts.  If all of them do,
the trial leaves nothing over. -/
theorem test_absentValues (hnames : (c.slots.map Slot.name).Nodup)
    (htypes : ∀ f ∈ c.slots, f.type.Standard)
    (htest : d.test c actor input before = some (trial, after)) (hsucceeded : trial.succeeded = true)
    {k : Nat} (hout : Reading.RunsOutAt d.settings c actor input k) :
    (∀ earlier slot later, placesIn (c.nodes.drop k) = earlier ++ slot :: later →
        (∀ f ∈ earlier, f.DefaultWhole) →
        ∃ value, trial.context.arguments.get? slot.name = some value
          ∧ ∀ context, (slot.absentValue context).1 = .ok value)
      ∧ ((∀ f ∈ placesIn (c.nodes.drop k), f.DefaultWhole) → trial.consumedAll = true) := by
  obtain ⟨r, rest, _, _, hreading, hresult, _, rfl⟩ := exists_reading_of_test htest hsucceeded
  obtain ⟨s, last, hstart, hrun, rfl, hcontext⟩ := Reading.ofInput_eq_ok hreading hresult
  obtain ⟨s', between, hstart', htake, hblank⟩ := hout
  rw [hstart] at hstart'
  cases hstart'
  rw [← List.take_append_drop k c.nodes, Walk.run_append, htake] at hrun
  have hsub : (placesIn (c.nodes.drop k)).Sublist c.slots :=
    (List.filter_sublist.trans (List.drop_sublist k c.nodes)).filterMap Node.slot?
  obtain ⟨hvalues, hblankAfter⟩ := Walk.run_of_blank (fun f hf => htypes f (hsub.subset hf))
    (hnames.sublist (hsub.map Slot.name)) hblank hrun
  rw [hcontext] at hvalues
  exact ⟨hvalues, fun hwhole => Walk.atEnd_of_allBlank (hblankAfter hwhole)⟩

/-- `pair [a] [b]`, where `a` that is absent is the text and `b` is one. -/
def pairing (text : String) : Declaration Unit where
  paths := ["pair [a] [b]"]
  parameters := [.withDefault (.required "a" .int) text, .withDefault (.required "b" .int) "1"]
  action := ()
  metadata := .none

/-- The second place of `pairing`. -/
def secondOfPair : Slot := .ofParameter (.withDefault (.required "b" .int) "1") .int

/-- The command of `pairing`. -/
def pair (text : String) : Command Unit :=
  ⟨⟨0⟩, [⟨.word "pair", false, false⟩,
      ⟨.slot (.ofParameter (.withDefault (.required "a" .int) text) .int), false, true⟩,
      ⟨.slot secondOfPair, true, true⟩],
    .none, ⟨(), []⟩⟩

theorem test_pair_absentValues :
    Reading.RunsOutAt .standard (pair "5") default "pair" 1
      ∧ ∃ trial after, (bare Unit Unit .standard).test (pair "5") default "pair" (.start ⟨0⟩ ())
          = some (trial, after)
        ∧ trial.succeeded = true
        ∧ trial.context.arguments.get? "b" = some (.int 1)
        ∧ trial.consumedAll = true := by
  have hcompile : Compile.compile (.standard Unit) (pairing "5") "pair [a] [b]" ⟨0⟩
      = .ok (pair "5") := rfl
  have hout : Reading.RunsOutAt .standard (pair "5") default "pair" 1 :=
    ⟨_, _, rfl, rfl, Text.allBlank_nil⟩
  have hplaces : placesIn ((pair "5").nodes.drop 1)
      = [.ofParameter (.withDefault (.required "a" .int) "5") .int, secondOfPair] := rfl
  have hfirst : Slot.DefaultWhole (.ofParameter (.withDefault (.required "a" .int) "5") .int) := by
    intro text htext context value _
    cases htext
    exact Text.allBlank_nil
  have hsecond : secondOfPair.DefaultWhole := by
    intro text htext context value _
    cases htext
    exact Text.allBlank_nil
  have hnames : ((pair "5").slots.map Slot.name).Nodup := by decide
  have htypes : ∀ f ∈ (pair "5").slots, f.type.Standard :=
    fun f hf => Compile.standard_of_compile Pipeline.isBuiltIn_standard hcompile hf
  have htest : (bare Unit Unit .standard).test (pair "5") default "pair" (.start ⟨0⟩ ())
      = some (_, _) := rfl
  refine ⟨hout, _, _, htest, rfl, ?_⟩
  obtain ⟨hvalues, hconsumed⟩ := test_absentValues hnames htypes htest rfl hout
  rw [hplaces] at hvalues hconsumed
  obtain ⟨value, hbound, habsent⟩ := hvalues [_] secondOfPair [] rfl
    (List.forall_mem_singleton.mpr hfirst)
  have hvalue : value = .int 1 := by
    have hone := habsent (.start default (pair "5").info "pair")
    cases hone
    rfl
  rw [hvalue] at hbound
  refine ⟨hbound, hconsumed ?_⟩
  exact List.forall_mem_cons.mpr ⟨hfirst, List.forall_mem_singleton.mpr hsecond⟩

/-- What is left of a default text is read by the next slot, whose own default text is not, and what
is left at the end counts as unread. -/
theorem test_leftover :
    Compile.compile (.standard Unit) (pairing "5 7 9") "pair [a] [b]" ⟨0⟩ = .ok (pair "5 7 9")
      ∧ Reading.RunsOutAt .standard (pair "5 7 9") default "pair" 1
      ∧ (∀ context, (secondOfPair.absentValue context).1 = .ok (.int 1))
      ∧ ∃ trial after, (bare Unit Unit .standard).test (pair "5 7 9") default "pair" (.start ⟨0⟩ ())
          = some (trial, after)
        ∧ trial.succeeded = true
        ∧ trial.context.arguments.get? "b" = some (.int 7)
        ∧ trial.consumedAll = false :=
  ⟨rfl, ⟨_, _, rfl, rfl, Text.allBlank_nil⟩, fun _ => rfl, _, _, rfl, rfl, rfl, rfl⟩

end Dispatcher

end CommandGrammar
