import MachineScript.Number.Dyadic

/-!
Contract: spans of time in whole nanoseconds.

Owns: the greatest span, sums that stop there, differences that stop at zero,
and the conversions from and to seconds as a float.
-/

namespace MachineScript

/-- The greatest span: `2 ^ 64` seconds less one nanosecond. -/
def maxNanos : Nat := 18446744073709551615999999999

/-- A span of time. -/
structure Duration where
  nanos : Nat
  inRange : nanos ≤ maxNanos
deriving DecidableEq, Repr

namespace Duration

/-- The span of a number of nanoseconds, or the greatest span if there are more. -/
def ofNanos (nanos : Nat) : Duration :=
  ⟨min nanos maxNanos, Nat.min_le_right nanos maxNanos⟩

def zero : Duration := ofNanos 0

def ofMillis (millis : Nat) : Duration :=
  ofNanos (millis * 1000000)

/-- The sum, or the greatest span if it is more. -/
def add (left right : Duration) : Duration :=
  ofNanos (left.nanos + right.nanos)

/-- The difference, or zero if the second span is longer. -/
def sub (left right : Duration) : Duration :=
  ofNanos (left.nanos - right.nanos)

/-- Seconds as a float: the whole seconds and the rest are converted, then added. -/
def toSeconds (span : Duration) : Float :=
  Float.ofNat (span.nanos / 1000000000) + Float.ofNat (span.nanos % 1000000000) / 1e9

def toMillis (span : Duration) : Nat :=
  span.nanos / 1000000

/-- The span nearest to a positive number of seconds, a tie going to the even nanosecond; what is
too long is the greatest span, and what is not positive is no span. -/
def ofSeconds? (seconds : Float) : Option Duration :=
  match Number.floatShape seconds with
  | .notANumber => none
  | .infinite negative => if negative then none else some (ofNanos maxNanos)
  | .finite negative magnitude =>
      if negative ∨ magnitude.mantissa = 0 then none
      else some (ofNanos (magnitude.nearestMultiple .toEven 1000000000))

/-- A span has the nanoseconds it was made from, up to the greatest span. -/
@[simp] theorem nanos_ofNanos (nanos : Nat) : (ofNanos nanos).nanos = min nanos maxNanos := rfl

@[simp] theorem nanos_add (left right : Duration) :
    (left.add right).nanos = min (left.nanos + right.nanos) maxNanos := rfl

/-- A difference of spans is exact or zero: it is never cut at the greatest span. -/
@[simp] theorem nanos_sub (left right : Duration) :
    (left.sub right).nanos = left.nanos - right.nanos := by
  have bound := left.inRange
  simp only [sub, nanos_ofNanos]
  omega

end Duration

end MachineScript
