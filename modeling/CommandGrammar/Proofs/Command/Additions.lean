import CommandGrammar.Proofs.Command.Structure
import Mathlib.Data.List.Find

/-!
# More flags

A declaration may be given more parameters, all of them flags and switches with names that are new.
No placeholder mentions them, and they stand behind everything that is matched by place.  So the
places of a command are those that it had before: `segments_positional_eq`.
-/

set_option autoImplicit false

namespace CommandGrammar

/-- `more` holds the given parameters, all of them matched by place, in their order, and perhaps
flags and switches whose names they do not have. -/
structure AddsFlags (parameters more : List Parameter) : Prop where
  places : more.filter Parameter.isPositional = parameters
  fresh : ∀ p ∈ more, p.isPositional = false → ∀ q ∈ parameters, q.name ≠ p.name

namespace Compile

open Segment

variable {α : Type} {pipeline : Pipeline α} {name : String} {tokens : List Token}
  {parameters : List Parameter}

/-- Whether each parameter with a name is matched by place. -/
def PlacedUnder (name : String) (parameters : List Parameter) : Prop :=
  ∀ p ∈ parameters, named name p = true → p.isPositional = true

theorem PlacedUnder.tail {p : Parameter} (h : PlacedUnder name (p :: parameters)) :
    PlacedUnder name parameters := fun q hq => h q (List.mem_cons_of_mem _ hq)

/-- Among the places a name finds what it finds among all. -/
theorem find?_filter_isPositional (h : PlacedUnder name parameters) :
    (parameters.filter Parameter.isPositional).find? (named name)
      = parameters.find? (named name) := by
  rw [List.find?_filter]
  apply List.find?_congr
  intro p hp
  cases hnamed : named name p with
  | false => simp
  | true => simp [h p hp hnamed]

/-- Taking a place away leaves the other places. -/
theorem eraseP_filter_isPositional (h : PlacedUnder name parameters) :
    (parameters.filter Parameter.isPositional).eraseP (named name)
      = (parameters.eraseP (named name)).filter Parameter.isPositional := by
  induction parameters with
  | nil => rfl
  | cons p rest ih =>
    cases hnamed : named name p with
    | true =>
      have hplaced := h p List.mem_cons_self hnamed
      rw [List.filter_cons_of_pos hplaced, List.eraseP_cons_of_pos hnamed,
        List.eraseP_cons_of_pos hnamed]
    | false =>
      rw [List.eraseP_cons_of_neg (by simp [hnamed]), List.filter_cons, List.filter_cons]
      split
      · rw [List.eraseP_cons_of_neg (by simp [hnamed]), ih h.tail]
      · exact ih h.tail

/-- The places among what no placeholder mentions. -/
theorem unmentioned_filter_isPositional
    (h : ∀ name ∈ mentions tokens, PlacedUnder name parameters) :
    unmentioned tokens (parameters.filter Parameter.isPositional)
      = (unmentioned tokens parameters).filter Parameter.isPositional := by
  unfold unmentioned
  generalize mentions tokens = names at h
  induction names generalizing parameters with
  | nil => rfl
  | cons name rest ih =>
    obtain ⟨hname, hrest⟩ := List.forall_mem_cons.mp h
    have hleft : ∀ other ∈ rest, PlacedUnder other (parameters.eraseP (named name)) :=
      fun other hother p hp => hrest other hother p (List.mem_of_mem_eraseP hp)
    rw [List.foldl_cons, List.foldl_cons, eraseP_filter_isPositional hname, ih hleft]

theorem pathRow_filter_isPositional
    (h : ∀ name ∈ mentions tokens, PlacedUnder name parameters) :
    pathRow pipeline (parameters.filter Parameter.isPositional) tokens
      = pathRow pipeline parameters tokens := by
  apply List.filterMap_congr
  intro token htoken
  cases token with
  | word text => rfl
  | placeholder name bracketed =>
    have hmentioned : name ∈ mentions tokens := List.mem_filterMap.mpr ⟨_, htoken, rfl⟩
    simp only [segmentOf?, find?_filter_isPositional (h name hmentioned)]

theorem parameter_of_slotOf? {bracketed : Bool} {p : Parameter} {s : Slot}
    (h : slotOf? pipeline bracketed p = some s) : s.parameter = p := by
  unfold slotOf? at h
  split at h
  · cases h
    rfl
  · cases h

/-- What parameters place is matched by place if they are. -/
theorem placesOf_restRow (parameters : List Parameter) :
    placesOf (restRow pipeline parameters)
      = restRow pipeline (parameters.filter Parameter.isPositional) := by
  unfold placesOf restRow
  rw [List.filter_filterMap, List.filterMap_filter]
  apply List.filterMap_congr
  intro p _
  cases hslot : slotOf? pipeline false p with
  | none => simp
  | some s =>
    have hparameter : s.parameter = p := parameter_of_slotOf? hslot
    simp [Segment.isPositional, Slot.isPositional, hparameter, Option.filter_some]

/-- The places of a row are the places of the row without flags. -/
theorem placesOf_row (h : ∀ name ∈ mentions tokens, PlacedUnder name parameters) :
    placesOf (row pipeline parameters tokens)
      = placesOf (row pipeline (parameters.filter Parameter.isPositional) tokens) := by
  unfold row
  rw [placesOf_append, placesOf_append, pathRow_filter_isPositional h,
    unmentioned_filter_isPositional h, placesOf_restRow, placesOf_restRow, List.filter_filter]
  simp

variable {d : Declaration α} {path : String} {id : CommandId} {c : Command α}

/-- What is added to a declaration does not change what its command matches by place. -/
theorem segments_positional_eq {more : List Parameter} (hmore : AddsFlags d.parameters more)
    {other : CommandId} {c' : Command α} (hcompile : compile pipeline d path id = .ok c)
    (hcompile' : compile pipeline { d with parameters := more } path other = .ok c') :
    c'.positional.map Node.segment = c.positional.map Node.segment := by
  obtain ⟨tokens, htokens, hplaceable, hrow, _⟩ := row_of_compile hcompile
  obtain ⟨tokens', htokens', _, hrow', _⟩ := row_of_compile hcompile'
  rw [htokens] at htokens'
  cases htokens'
  have hplaced : ∀ name ∈ mentions tokens, PlacedUnder name more := by
    intro name hname p hp hnamed
    obtain ⟨q, _, hfind, _⟩ := hplaceable.mentionsRead name hname
    have hfound : named name q = true := List.find?_some hfind
    have hsame : q.name = p.name :=
      (of_decide_eq_true hfound).trans (of_decide_eq_true hnamed).symm
    rw [← Bool.not_eq_false]
    exact fun hflag => hmore.fresh p hp hflag q (List.mem_of_find?_eq_some hfind) hsame
  rw [hrow.positional, hrow'.positional, placesOf_row hplaced, hmore.places]

/-- Where all parameters are matched by place, there are no flags. -/
theorem hasFlags_eq_false (h : compile pipeline d path id = .ok c)
    (hplaces : ∀ p ∈ d.parameters, p.isPositional = true) : c.hasFlags = false := by
  rw [← Bool.not_eq_true, Command.hasFlags_iff_exists]
  rintro ⟨s, hs, hflag⟩
  have hplaced : s.isPositional = true := hplaces _ (parameter_mem_of_compile h hs)
  rw [Command.isFlag_or_isSwitch_iff.mp hflag] at hplaced
  cases hplaced

end Compile

end CommandGrammar
