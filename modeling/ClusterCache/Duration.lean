/-
# Spans of time

A span of time is a whole number of nanoseconds, fewer than `2 ^ 64` seconds.  A point in time has to
come before `endOfTime`, which lies only `2 ^ 63` seconds ahead of the first one.  So not every span
has a deadline: a span is `endless` if it reaches beyond the end of time whenever it begins, and the
longest one, `Duration.max`, is so.
-/

namespace ClusterCache

/-- The nanoseconds in a second. -/
def nanosPerSecond : Nat := 1000000000

/-- The first point in time that a clock cannot tell, in nanoseconds: its seconds fit 63 bits. -/
def endOfTime : Nat := 9223372036854775808 * nanosPerSecond

/-- A span of time. -/
structure Duration where
  /-- How many nanoseconds it lasts. -/
  nanos : Nat
  /-- The seconds in it fit 64 bits. -/
  nanos_lt : nanos < UInt64.size * nanosPerSecond

namespace Duration

instance : DecidableEq Duration := fun a b =>
  if h : a.nanos = b.nanos then .isTrue (by cases a; cases b; cases h; rfl)
  else .isFalse fun e => h (e ▸ rfl)

/-- No time at all. -/
def zero : Duration := ⟨0, by decide⟩

/-- The longest span. -/
def max : Duration := ⟨UInt64.size * nanosPerSecond - 1, by decide⟩

instance : Inhabited Duration := ⟨zero⟩

/-- Seconds and further nanoseconds, if the seconds fit. -/
def ofParts? (seconds nanos : Nat) : Option Duration :=
  let n := seconds * nanosPerSecond + nanos
  if h : n < UInt64.size * nanosPerSecond then some ⟨n, h⟩ else none

/-- Milliseconds. -/
def ofMillis (n : UInt64) : Duration :=
  ⟨n.toNat * 1000000, by have := n.toNat_lt; unfold UInt64.size nanosPerSecond; omega⟩

/-- Seconds. -/
def ofSeconds (n : UInt64) : Duration :=
  ⟨n.toNat * nanosPerSecond, by have := n.toNat_lt; unfold UInt64.size nanosPerSecond; omega⟩

/-- Whether it is no time at all. -/
def isZero (d : Duration) : Bool := d.nanos = 0

/-- The whole seconds. -/
def seconds (d : Duration) : Nat := d.nanos / nanosPerSecond

/-- The nanoseconds beyond the whole seconds. -/
def subsecondNanos (d : Duration) : Nat := d.nanos % nanosPerSecond

/-- The whole milliseconds. -/
def millis (d : Duration) : Nat := d.nanos / 1000000

/-- When the span is over that begins now, unless that is beyond the end of time. -/
def deadline? (d : Duration) (now : Nat) : Option Nat :=
  if now + d.nanos < endOfTime then some (now + d.nanos) else none

/-- Whether the span is never over, whenever it begins. -/
def endless (d : Duration) : Bool := endOfTime ≤ d.nanos

/-- A span is endless exactly if it has no deadline, whenever it begins. -/
theorem endless_iff {d : Duration} : d.endless = true ↔ ∀ now, d.deadline? now = none := by
  have hdeadline : ∀ now, d.deadline? now = none ↔ endOfTime ≤ now + d.nanos := fun now => by
    simp only [deadline?, ite_eq_right_iff, reduceCtorEq, imp_false, Nat.not_lt]
  simp only [endless, decide_eq_true_eq, hdeadline]
  constructor
  · intro h now
    exact Nat.le_add_left_of_le h
  · intro h
    exact (Nat.zero_add d.nanos) ▸ h 0

/-- An endless span is not no time at all. -/
theorem isZero_of_endless {d : Duration} (h : d.endless = true) : d.isZero = false := by
  have hpos : 0 < endOfTime := by decide
  simp only [endless, decide_eq_true_eq] at h
  simp only [isZero, decide_eq_false_iff_not]
  omega

/-- The longest span is endless. -/
theorem endless_max : max.endless = true := by decide

end Duration
end ClusterCache
