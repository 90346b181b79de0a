/-!
# Spans of time

Cooldowns and the time left of one are whole microseconds.  A user is shown milliseconds,
rounded down.
-/

set_option autoImplicit false

namespace CommandGrammar

/-- A span of time in microseconds. -/
structure Duration where
  micros : Nat
  deriving DecidableEq, Repr, Inhabited

namespace Duration

/-- The span of a number of milliseconds. -/
def ofMillis (n : Nat) : Duration := ⟨1000 * n⟩

/-- The whole milliseconds in a span. -/
def millis (d : Duration) : Nat := d.micros / 1000

@[simp] theorem millis_ofMillis (n : Nat) : (ofMillis n).millis = n := by
  simp [ofMillis, millis]

end Duration

end CommandGrammar
