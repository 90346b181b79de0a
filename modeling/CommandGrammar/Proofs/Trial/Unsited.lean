import CommandGrammar.Node
import CommandGrammar.Session.Condition

/-!
# Errors without a site

What reads or checks a value does not know where the value stands, and a condition does not know of
which command it is asked; so they leave the site of an error open, for the trial to name.  What is
built in does so, and a type that is put together does if its parts do.  Only what a host adds has
to be asked for it: its types (`ValueType.Unsited`), its validators and its conditions.
-/

set_option autoImplicit false

namespace CommandGrammar

variable {β γ σ : Type}

/-- A result whose error, if it is one, has no site. -/
def Unsited (result : Except CommandError β) : Prop := ∀ e, result = .error e → e.site = none

theorem unsited_ok (b : β) : Unsited (.ok b) := fun _ h => nomatch h

theorem unsited_error_iff {e : CommandError} :
    Unsited (.error e : Except CommandError β) ↔ e.site = none :=
  ⟨fun h => h e rfl, fun h _ he => Except.error.inj he ▸ h⟩

theorem unsited_ofFault (fault : Fault) :
    Unsited (.error (.ofFault fault) : Except CommandError β) := unsited_error_iff.mpr rfl

theorem Unsited.map {result : Except CommandError β} (h : Unsited result) (f : β → γ) :
    Unsited (result.map f) := by
  cases result with
  | ok b => exact unsited_ok (f b)
  | error e => exact unsited_error_iff.mpr (h e rfl)

/-! ## Validators -/

namespace Validator

/-- A validator whose errors have no site, which is to be asked only of those of a host. -/
def Unsited : Validator → Prop
  | .host check => ∀ value p context, CommandGrammar.Unsited (check value p context).verdict
  | _ => True

theorem unsited_checkLength (bounds : Nat × Nat) (text : String) :
    CommandGrammar.Unsited (checkLength bounds text).verdict := by
  unfold checkLength
  dsimp only
  split
  · exact unsited_ok ()
  · exact unsited_ofFault _

theorem unsited_checkSize (bounds : Nat × Nat) (items : List Value) :
    CommandGrammar.Unsited (checkSize bounds items).verdict := by
  unfold checkSize
  dsimp only
  split
  · exact unsited_ok ()
  · exact unsited_ofFault _

theorem Unsited.check {v : Validator} (h : v.Unsited) (value : Value) (p : Parameter)
    (context : Context) : CommandGrammar.Unsited (v.check value p context).verdict := by
  cases v with
  | host check => exact h value p context
  | length =>
    simp only [Validator.check]
    split
    · exact unsited_checkLength _ _
    · exact unsited_ok ()
  | size =>
    simp only [Validator.check]
    split
    · exact unsited_checkSize _ _
    · exact unsited_ok ()

theorem unsited_checkAll {validators : List Validator} (h : ∀ v ∈ validators, v.Unsited)
    (value : Value) (p : Parameter) (context : Context) :
    CommandGrammar.Unsited (checkAll value p context validators).verdict := by
  induction validators with
  | nil => exact unsited_ok ()
  | cons v rest ih =>
    obtain ⟨hfirst, hrest⟩ := List.forall_mem_cons.mp h
    have hcheck := hfirst.check value p context
    rw [checkAll]
    split
    · next e notes heq =>
      rw [heq] at hcheck
      exact hcheck
    · exact ih hrest

end Validator

/-! ## Types -/

namespace ValueType

/-- A type whose errors have no site, which is to be asked only of what a host adds to it. -/
def Unsited : ValueType → Prop
  | .list inner => inner.Unsited
  | .ranged inner _ _ => inner.Unsited
  | .validated inner _ validators => inner.Unsited ∧ ∀ v ∈ validators, v.Unsited
  | .host type => ∀ c context, CommandGrammar.Unsited (type.read c context).result
  | .promotable type _ => ∀ c context, CommandGrammar.Unsited (type.read c context).result
  | _ => True

theorem unsited_readInt (c : Cursor) : CommandGrammar.Unsited c.readInt.1 := by
  unfold Cursor.readInt
  dsimp only
  split
  · exact unsited_ok _
  · exact unsited_ofFault _

theorem unsited_readFloat (c : Cursor) : CommandGrammar.Unsited c.readFloat.1 := by
  unfold Cursor.readFloat
  dsimp only
  split
  · dsimp only
    split
    · exact unsited_ok _
    · exact unsited_ofFault _
  · exact unsited_ofFault _

theorem unsited_readBool (c : Cursor) : CommandGrammar.Unsited c.readBool.1 := by
  unfold Cursor.readBool
  split
  · exact unsited_ofFault _
  · split
    · exact unsited_ok _
    · exact unsited_ofFault _

theorem unsited_readChar (c : Cursor) : CommandGrammar.Unsited (readChar c).result := by
  unfold readChar
  dsimp only
  split
  · exact unsited_ok _
  · exact unsited_ofFault _

theorem unsited_readString (c : Cursor) : CommandGrammar.Unsited (readString c).result := by
  unfold readString
  split
  · exact unsited_ok _
  · exact unsited_ofFault _

theorem unsited_readVariant (spec : Enumeration) (caseSensitive : Bool) (c : Cursor) :
    CommandGrammar.Unsited (readVariant spec caseSensitive c).result := by
  unfold readVariant
  dsimp only
  split
  · exact unsited_ok _
  · exact unsited_ofFault _

theorem unsited_readEntries {readOne : Cursor → Parsed}
    (hone : ∀ c, CommandGrammar.Unsited (readOne c).result) (fuel : Nat) (c : Cursor) :
    CommandGrammar.Unsited (readEntries readOne fuel c).1 := by
  induction fuel generalizing c with
  | zero =>
    rw [readEntries_zero]
    exact unsited_ofFault _
  | succ fuel ih =>
    have hentry := hone c.skipBlanks
    rw [readEntries]
    dsimp only
    split
    · exact unsited_ok _
    · split
      · next heq =>
        rw [heq] at hentry
        exact unsited_error_iff.mpr (hentry _ rfl)
      · split
        · exact unsited_ofFault _
        · exact (ih _).map _

theorem unsited_boundValue (min max : Option Numeric.Binary64) (value : Value) :
    CommandGrammar.Unsited (boundValue min max value) := by
  unfold boundValue
  split
  · exact unsited_ok _
  · split
    · exact unsited_ofFault _
    · exact unsited_ok _

/-- Reading a value leaves the site of an error open. -/
theorem Unsited.parse {t : ValueType} (h : t.Unsited) (c : Cursor) (context : Context) :
    CommandGrammar.Unsited (t.parse c context).result := by
  induction t generalizing c with
  | int => exact (unsited_readInt c).map _
  | float => exact (unsited_readFloat c).map _
  | bool => exact (unsited_readBool c).map _
  | char => exact unsited_readChar c
  | string => exact unsited_readString c
  | text => exact unsited_ok _
  | list inner ih =>
    rw [ValueType.parse]
    exact (unsited_readEntries (fun c => ih h c) (c.rest.length + 1) c).map _
  | enumeration spec caseSensitive => exact unsited_readVariant spec caseSensitive c
  | ranged inner min max ih =>
    have hinner := ih h c
    rw [ValueType.parse]
    split
    · exact unsited_boundValue min max _
    · exact hinner
  | validated inner p validators ih =>
    have hinner := ih h.1 c
    rw [ValueType.parse]
    split
    · exact (Validator.unsited_checkAll h.2 _ p context).map _
    · exact hinner
  | host type => exact h c context
  | promotable type variant => exact h c context

end ValueType

namespace Slot

variable {s : Slot}

theorem unsited_parse (h : s.type.Unsited) (c : Cursor) (context : Context) :
    Unsited (s.parse c context).result := by
  unfold parse
  split
  · exact unsited_ofFault _
  · split
    · split
      · exact unsited_ofFault _
      · split
        · exact h.parse _ context
        · exact unsited_ok _
    · exact h.parse c context

theorem unsited_absentValue (h : s.type.Unsited) (context : Context) :
    Unsited (s.absentValue context).1 := by
  unfold absentValue
  split
  · exact unsited_ok _
  · split
    · exact h.parse _ context
    · split
      · exact unsited_ok _
      · exact unsited_ofFault _

end Slot

/-! ## Conditions -/

namespace Condition

/-- A condition whose test fails without a site, which is to be asked only of those of a host. -/
def Unsited : Condition σ → Prop
  | .host h => ∀ context host, CommandGrammar.Unsited (h.test context host).1
  | _ => True

theorem Unsited.test {condition : Condition σ} (h : condition.Unsited) (context : Context)
    (s : Standing σ) : CommandGrammar.Unsited (condition.test context s).1 := by
  cases condition with
  | permission =>
    unfold Condition.test testPermission
    dsimp only
    split
    · exact unsited_ok _
    · exact unsited_ofFault _
  | cooldown ledger =>
    unfold Condition.test testCooldown
    dsimp only
    split
    · exact unsited_ok _
    · split
      · exact unsited_ofFault _
      · exact unsited_ok _
  | host condition => exact h context s.host

theorem unsited_testAll {conditions : List (Condition σ)} (h : ∀ x ∈ conditions, x.Unsited)
    (context : Context) (s : Standing σ) :
    CommandGrammar.Unsited (testAll context conditions s).1 := by
  induction conditions generalizing s with
  | nil => exact unsited_ok ()
  | cons condition rest ih =>
    obtain ⟨hfirst, hrest⟩ := List.forall_mem_cons.mp h
    have htest := hfirst.test context s
    rw [testAll]
    split
    · next heq =>
      rw [heq] at htest
      exact htest
    · exact ih hrest _

end Condition

end CommandGrammar
