import MountSpace.Time.Binary64

/-!
# Instants and their stored form

An instant is a whole number of nanoseconds before or after the epoch whose seconds fit 64 signed
bits. Records store it as a floating-point number of milliseconds.

- `Instant`: the nanoseconds and their bounds.
- `Instant.toMillis`: the stored form; seconds and nanoseconds are scaled apart, each step rounded.
- `Instant.ofMillis`: the instant a stored number names; the epoch for one that names none.
-/

namespace MountSpace

/-- The number of nanoseconds in a second. -/
def nanosPerSecond : Nat := 1000000000

/-- A point in time in nanoseconds from the epoch. -/
structure Instant where
  nanos : Int
  lower : -(0x8000000000000000 * 1000000000) ≤ nanos := by decide
  upper : nanos < 0x8000000000000000 * 1000000000 := by decide
  deriving DecidableEq

namespace Instant

def epoch : Instant := ⟨0, by decide, by decide⟩

instance : Inhabited Instant := ⟨epoch⟩

/-- The instant of a number of nanoseconds, if its seconds fit. -/
def ofNanos? (nanos : Int) : Option Instant :=
  if h : -(0x8000000000000000 * 1000000000) ≤ nanos ∧ nanos < 0x8000000000000000 * 1000000000 then
    some ⟨nanos, h.1, h.2⟩
  else none

/-- Whole seconds since the epoch, rounded down. -/
def seconds (t : Instant) : Int := t.nanos / 1000000000

/-- Nanoseconds since the last whole second. -/
def subsecond (t : Instant) : Nat := (t.nanos % 1000000000).toNat

/-- The number of milliseconds in a span of nanoseconds: whole seconds times a thousand plus the
remaining nanoseconds over a million, rounded at each step. -/
def millisOf (negative : Bool) (nanos : Nat) : Binary64 :=
  let seconds := Binary64.rounded (nanos / nanosPerSecond * Binary64.one) 1
  let whole := Binary64.rounded (seconds * 1000) 1
  let part := Binary64.rounded (nanos % nanosPerSecond * Binary64.one) 1000000
  Binary64.ofQuotient negative (whole + part) 1

/-- The stored form of an instant: milliseconds from the epoch. -/
def toMillis (t : Instant) : Binary64 := millisOf (decide (t.nanos < 0)) t.nanos.natAbs

/-- The nearest whole number to a number of units, a half going away from zero; zero below zero. -/
def wholeOf (units : Int) : Nat := ((units + (Binary64.one / 2 : Nat)) / (Binary64.one : Nat)).toNat

/-- The instant that a number of milliseconds names. Whole milliseconds are split into seconds and a
rest, the rest and the fraction become nanoseconds, rounded at each step. What is not finite, or
lies beyond all instants, is the epoch. -/
def ofMillis (ms : Binary64) : Instant :=
  if !ms.isFinite then epoch
  else
    let millis := ms.magnitude / Binary64.one
    let fraction := ms.magnitude % Binary64.one
    let seconds := Binary64.rounded (millis * Binary64.one) 1000 / Binary64.one
    if UInt64.size ≤ seconds then epoch
    else
      let rest := Binary64.roundedInt
        ((millis * Binary64.one : Nat) - (Binary64.rounded (seconds * 1000 * Binary64.one) 1 : Nat))
        1
      let nanos := wholeOf <| Binary64.roundedInt
        (Binary64.roundedInt (rest * 1000000) 1 + Binary64.rounded (fraction * 1000000) 1) 1
      let span : Int := (seconds * nanosPerSecond + nanos : Nat)
      (ofNanos? (if ms.isNegative && ms.unsigned ≠ 0 then -span else span)).getD epoch

end Instant

end MountSpace
