import CommandGrammar.Value

/-!
# Resolved arguments

A finite map from parameter names to values.  Names are pairwise distinct by construction, and a
second value for a name replaces the first one in its place.  Two maps are equal when they bind
the same names to equal values; the order in which names were bound does not count.
-/

set_option autoImplicit false

namespace CommandGrammar

/-- Replaces the value of a name in an association list, or adds the name at the end. -/
def bindName (name : String) (value : Value) : List (String × Value) → List (String × Value)
  | [] => [(name, value)]
  | (n, v) :: rest => if n = name then (name, value) :: rest else (n, v) :: bindName name value rest

theorem map_fst_bindName (name : String) (value : Value) (entries : List (String × Value)) :
    (bindName name value entries).map Prod.fst
      = if name ∈ entries.map Prod.fst then entries.map Prod.fst
        else entries.map Prod.fst ++ [name] := by
  induction entries with
  | nil => simp [bindName]
  | cons entry rest ih =>
    obtain ⟨n, v⟩ := entry
    by_cases h : n = name
    · simp [bindName, h]
    · by_cases hr : name ∈ rest.map Prod.fst
      · simp only [bindName, if_neg h, List.map_cons, ih, if_pos hr]
        rw [if_pos (List.mem_cons_of_mem _ hr)]
      · have hnot : name ∉ n :: rest.map Prod.fst := by
          intro hm
          rcases List.mem_cons.mp hm with hm | hm
          · exact h hm.symm
          · exact hr hm
        simp only [bindName, if_neg h, List.map_cons, ih, if_neg hr]
        rw [if_neg hnot]
        rfl

theorem nodup_bindName (name : String) (value : Value) {entries : List (String × Value)}
    (h : (entries.map Prod.fst).Nodup) : ((bindName name value entries).map Prod.fst).Nodup := by
  rw [map_fst_bindName]
  split
  · exact h
  · next hn =>
    refine List.nodup_append.mpr ⟨h, by simp, ?_⟩
    intro a ha b hb hab
    exact hn (by simpa [hab, List.mem_singleton.mp hb] using ha)

/-- The arguments resolved so far. -/
structure Arguments where
  entries : List (String × Value)
  nodup : (entries.map Prod.fst).Nodup

namespace Arguments

/-- No arguments. -/
def empty : Arguments := ⟨[], List.nodup_nil⟩

instance : Inhabited Arguments := ⟨empty⟩

/-- Binds a name. -/
def insert (a : Arguments) (name : String) (value : Value) : Arguments :=
  ⟨bindName name value a.entries, nodup_bindName name value a.nodup⟩

/-- The value of a name. -/
def get? (a : Arguments) (name : String) : Option Value := a.entries.lookup name

/-- The bound names. -/
def names (a : Arguments) : List String := a.entries.map Prod.fst

/-- Whether a name is bound. -/
def contains (a : Arguments) (name : String) : Bool := (a.get? name).isSome

/-- How many names are bound. -/
def size (a : Arguments) : Nat := a.entries.length

/-- Whether no name is bound. -/
def isEmpty (a : Arguments) : Bool := a.entries.isEmpty

/-- The arguments of a list of bindings; the last binding of a name counts. -/
def ofList (bindings : List (String × Value)) : Arguments :=
  bindings.foldl (fun a b => a.insert b.1 b.2) empty

/-- Whether two maps bind the same names to equal values. -/
def same (a b : Arguments) : Bool :=
  decide (a.size = b.size)
    && a.entries.all fun entry =>
      match b.get? entry.1 with
      | some value => entry.2.same value
      | none => false

/-- One line that shows all arguments: each name with its value's text, in the order of the whole
texts by code point. -/
def summary (a : Arguments) : String :=
  let parts := a.entries.map fun entry => entry.1 ++ "=" ++ String.ofList entry.2.display
  let sorted := parts.mergeSort fun x y => decide (x ≤ y)
  String.ofList (Text.joinWith [','] (sorted.map String.toList))

theorem lookup_bindName (name other : String) (value : Value) (entries : List (String × Value)) :
    (bindName name value entries).lookup other
      = if other = name then some value else entries.lookup other := by
  induction entries with
  | nil =>
    by_cases h : other = name
    · subst h; simp [bindName]
    · have : (other == name) = false := by simpa using h
      simp [bindName, List.lookup_cons, h, this]
  | cons entry rest ih =>
    obtain ⟨n, v⟩ := entry
    by_cases h : n = name
    · subst h
      by_cases ho : other = n
      · subst ho; simp [bindName]
      · have : (other == n) = false := by simpa using ho
        simp [bindName, List.lookup_cons, ho, this]
    · by_cases ho : other = n
      · subst ho; simp [bindName, h]
      · have : (other == n) = false := by simpa using ho
        simp [bindName, List.lookup_cons, h, this, ih]

/-- The value bound last is the one that is read back, and other names keep theirs. -/
theorem get?_insert (a : Arguments) (name other : String) (value : Value) :
    (a.insert name value).get? other = if other = name then some value else a.get? other :=
  lookup_bindName name other value a.entries

@[simp] theorem get?_empty (name : String) : empty.get? name = none := rfl

theorem mem_names_insert (a : Arguments) (name other : String) (value : Value) :
    other ∈ (a.insert name value).names ↔ other = name ∨ other ∈ a.names := by
  unfold names insert
  simp only [map_fst_bindName]
  split
  · next h =>
    constructor
    · exact Or.inr
    · rintro (rfl | h')
      · exact h
      · exact h'
  · simp [or_comm]

end Arguments

end CommandGrammar
