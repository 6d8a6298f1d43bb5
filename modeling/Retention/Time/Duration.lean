/-
# Retention.Time.Duration -- lengths of time to the nanosecond

A duration is a whole number of nanoseconds below a fixed limit: as many whole seconds as fit into
64 bits, and a part of a second. Adding two durations is exact or fails.
-/
import Retention.Text.Layout

namespace Retention

/-! ## Failures -/

/-- Why a clock cannot do what it is asked. -/
inductive ClockError where
  /-- The sum of two durations is no duration. -/
  | durationTooLong
  /-- No instant lies that far from the origin. -/
  | instantTooLate
deriving DecidableEq, Repr

/-- The wording of the failure. -/
def ClockError.message : ClockError → String
  | durationTooLong => "overflow when adding durations"
  | instantTooLate => "overflow when adding duration to instant"

/-! ## Durations -/

/-- The number of nanoseconds in a second. -/
def nanosPerSecond : Nat := 1000000000

/-- A length of time to the nanosecond. -/
structure Duration where
  /-- The length in nanoseconds. -/
  nanos : Nat
  /-- The whole seconds fit into 64 bits. -/
  inRange : nanos < Nat.pow 2 64 * nanosPerSecond
deriving DecidableEq, Repr

namespace Duration

/-- No time at all. -/
def zero : Duration := ⟨0, by decide⟩

/-- The duration of so many nanoseconds, if they are not too many. -/
def ofNanos? (nanos : Nat) : Option Duration :=
  if h : nanos < Nat.pow 2 64 * nanosPerSecond then some ⟨nanos, h⟩ else none

/-- The duration of so many seconds and nanoseconds, if it is not too long. -/
def ofParts? (seconds nanos : Nat) : Option Duration :=
  ofNanos? (seconds * nanosPerSecond + nanos)

/-- The whole seconds. -/
def seconds (d : Duration) : Nat := d.nanos / nanosPerSecond

/-- The nanoseconds beyond the whole seconds. -/
def subsecond (d : Duration) : Nat := d.nanos % nanosPerSecond

/-- The sum of two durations, if it is one. -/
def add? (d e : Duration) : Except ClockError Duration :=
  match ofNanos? (d.nanos + e.nanos) with
  | some sum => .ok sum
  | none => .error .durationTooLong

/-! ## Text -/

/-- The digits of `n` in a field of `width` places, without the zeros at their end. -/
def fraction (width n : Nat) : List Char :=
  let digits := Nat.toDigits 10 n
  let padded := List.replicate (width - digits.length) '0' ++ digits
  (padded.reverse.dropWhile (· == '0')).reverse

/-- An amount in units of `10 ^ places` nanoseconds, exact, with a point only if it is needed. -/
def amount (places nanos : Nat) : String :=
  let unit := Nat.pow 10 places
  match fraction places (nanos % unit) with
  | [] => toString (nanos / unit)
  | digits => toString (nanos / unit) ++ "." ++ String.ofList digits

/-- The length in the largest unit of which it has at least one. -/
def text (d : Duration) : String :=
  if Nat.pow 10 9 ≤ d.nanos then amount 9 d.nanos ++ "s"
  else if Nat.pow 10 6 ≤ d.nanos then amount 6 d.nanos ++ "ms"
  else if Nat.pow 10 3 ≤ d.nanos then amount 3 d.nanos ++ "µs"
  else amount 0 d.nanos ++ "ns"

instance : Inspect Duration := ⟨text⟩

end Duration

end Retention
