/-
  Lengths of time as seconds and nanoseconds. The largest one has the most seconds that fit
  into 64 bits.
-/

namespace Workforce

/-- A length of time. -/
structure Duration where
  secs : Nat
  nanos : Nat := 0
  deriving Repr, DecidableEq

namespace Duration

def zero : Duration := ⟨0, 0⟩

/-- The largest length of time. -/
def longest : Duration := ⟨18446744073709551615, 999999999⟩

/-- The length of some seconds and nanoseconds; whole seconds among the latter are carried over. -/
def ofParts (secs nanos : Nat) : Duration := ⟨secs + nanos / 1000000000, nanos % 1000000000⟩

def ofMillis (ms : Nat) : Duration := ⟨ms / 1000, ms % 1000 * 1000000⟩

/-- The length in nanoseconds. -/
def toNanos (d : Duration) : Nat := d.secs * 1000000000 + d.nanos

def isZero (d : Duration) : Bool := d.toNanos == 0

theorem toNanos_ofMillis (ms : Nat) : (ofMillis ms).toNanos = ms * 1000000 := by
  simp only [ofMillis, toNanos]; omega

theorem toNanos_ofParts (secs nanos : Nat) :
    (ofParts secs nanos).toNanos = secs * 1000000000 + nanos := by
  simp only [ofParts, toNanos]; omega

theorem isZero_iff (d : Duration) : d.isZero = true ↔ d.toNanos = 0 := by
  simp [isZero]

end Duration

end Workforce
