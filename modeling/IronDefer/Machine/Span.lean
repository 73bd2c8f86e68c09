import Mathlib.Algebra.Ring.Nat

/-!
# Arithmetic of fixed width

Numbers of 32 and 64 bits and spans of time, with the operations that stop at the bounds of their
type instead of going over them. A span counts nanoseconds, and its whole seconds are 64 bits wide.
One lemma says what an operation computes in the natural numbers, where its definition does not.

## Main definitions

* `saturatingPow`, `saturatingAdd`, `saturatingSub`: arithmetic of 32 bits
* `Span`: a span of time
* `Span.checkedAdd`, `Span.checkedMul`: the result, where a span can hold it
* `Span.saturatingAdd`, `Span.saturatingMul`, `Span.saturatingSub`: the result or the bound next to
  it
* `Span.asMillis`, `Span.fromMillis`: whole milliseconds, of 128 and of 64 bits
* `toU64`: the conversion from 128 to 64 bits, where it fits

## Main results

* `toNat_saturatingPow`, `toNat_saturatingAdd`, `toNat_saturatingSub`: what the numbers are
* `Span.nanos_saturatingAdd`, `Span.nanos_saturatingMul`: **a span saturates at the longest one**
-/

namespace Machine

/-! ## Numbers -/

/-- The largest number of 32 bits. -/
def maxU32 : UInt32 := 4294967295

/-- The largest number of 64 bits. -/
def maxU64 : UInt64 := 18446744073709551615

/-- A number, or the largest of 32 bits where it is larger. -/
def clampU32 (n : ℕ) : UInt32 := UInt32.ofNat (min n 4294967295)

/-- `u32::saturating_pow`. A base above one has saturated at the exponent 32 already. -/
def saturatingPow (base exponent : UInt32) : UInt32 :=
  clampU32 (base.toNat ^ min exponent.toNat 32)

/-- `u32::saturating_add`. -/
def saturatingAdd (a b : UInt32) : UInt32 := clampU32 (a.toNat + b.toNat)

/-- `u32::saturating_sub`. -/
def saturatingSub (a b : UInt32) : UInt32 := UInt32.ofNat (a.toNat - b.toNat)

theorem toNat_clampU32 (n : ℕ) : (clampU32 n).toNat = min n 4294967295 := by
  have hlt : min n 4294967295 < 4294967296 := by omega
  exact UInt32.toNat_ofNat_of_lt' hlt

theorem toNat_saturatingAdd (a b : UInt32) :
    (saturatingAdd a b).toNat = min (a.toNat + b.toNat) 4294967295 :=
  toNat_clampU32 _

theorem toNat_saturatingSub (a b : UInt32) : (saturatingSub a b).toNat = a.toNat - b.toNat := by
  have hlt : a.toNat - b.toNat < 4294967296 := Nat.lt_of_le_of_lt (Nat.sub_le _ _) a.toNat_lt
  exact UInt32.toNat_ofNat_of_lt' hlt

/-- An exponent above 32 changes nothing: a base of zero or one stays, and a larger one has
saturated. -/
theorem toNat_saturatingPow (base exponent : UInt32) :
    (saturatingPow base exponent).toNat = min (base.toNat ^ exponent.toNat) 4294967295 := by
  rw [saturatingPow, toNat_clampU32]
  generalize base.toNat = b
  generalize exponent.toNat = e
  rcases Nat.le_total e 32 with he | he
  · rw [Nat.min_eq_left he]
  rw [Nat.min_eq_right he]
  by_cases hb : 2 ≤ b
  · have h32 : 2 ^ 32 ≤ b ^ 32 := Nat.pow_le_pow_left hb 32
    have hle : b ^ 32 ≤ b ^ e := Nat.pow_le_pow_right (by omega) he
    omega
  · -- a base of zero or one has the same power at every exponent from one on
    have hb' : b = 0 ∨ b = 1 := by omega
    rcases hb' with rfl | rfl
    · rw [Nat.zero_pow (by omega), Nat.zero_pow (by omega)]
    · rw [Nat.one_pow, Nat.one_pow]

/-- The conversion from 128 to 64 bits, where the number fits. -/
def toU64 (n : Fin (2 ^ 128)) : Option UInt64 :=
  if n.val < 2 ^ 64 then some (UInt64.ofNat n.val) else none

/-- A conversion that does not fit gives the default. -/
theorem toNat_getD_toU64 (n : Fin (2 ^ 128)) (d : UInt64) :
    ((toU64 n).getD d).toNat = if n.val < 2 ^ 64 then n.val else d.toNat := by
  by_cases hlt : n.val < 2 ^ 64
  · rw [toU64, if_pos hlt, if_pos hlt]
    exact UInt64.toNat_ofNat_of_lt' hlt
  · rw [toU64, if_neg hlt, if_neg hlt]
    rfl

/-! ## Spans -/

/-- A span of time: `std::time::Duration`. -/
@[ext] structure Span where
  nanos : ℕ
  nanos_lt : nanos < 2 ^ 64 * 1000000000
  deriving DecidableEq

namespace Span

/-- The longest span. -/
def max : Span := ⟨2 ^ 64 * 1000000000 - 1, by decide⟩

theorem nanos_le_max (d : Span) : d.nanos ≤ max.nanos := Nat.le_sub_one_of_lt d.nanos_lt

instance : LE Span := ⟨fun d d' => d.nanos ≤ d'.nanos⟩

instance : Min Span := ⟨fun d d' => if d.nanos ≤ d'.nanos then d else d'⟩

theorem le_iff_nanos_le {d d' : Span} : d ≤ d' ↔ d.nanos ≤ d'.nanos := Iff.rfl

theorem nanos_min (d d' : Span) : (min d d').nanos = min d.nanos d'.nanos := by
  show (if d.nanos ≤ d'.nanos then d else d').nanos = min d.nanos d'.nanos
  split
  next h => rw [Nat.min_eq_left h]
  next h => rw [Nat.min_eq_right (Nat.le_of_not_le h)]

/-- A number of nanoseconds, where a span can hold it. -/
def ofNanos (n : ℕ) : Option Span :=
  if h : n < 2 ^ 64 * 1000000000 then some ⟨n, h⟩ else none

def checkedAdd (d d' : Span) : Option Span := ofNanos (d.nanos + d'.nanos)

def checkedMul (d : Span) (factor : UInt32) : Option Span := ofNanos (d.nanos * factor.toNat)

def saturatingAdd (d d' : Span) : Span := (d.checkedAdd d').getD max

def saturatingMul (d : Span) (factor : UInt32) : Span := (d.checkedMul factor).getD max

def saturatingSub (d d' : Span) : Span :=
  ⟨d.nanos - d'.nanos, Nat.lt_of_le_of_lt (Nat.sub_le _ _) d.nanos_lt⟩

/-- The whole milliseconds. -/
def asMillis (d : Span) : Fin (2 ^ 128) :=
  ⟨d.nanos / 1000000, Nat.lt_of_le_of_lt (Nat.div_le_self _ _)
    (Nat.lt_of_lt_of_le d.nanos_lt (by decide))⟩

def fromMillis (ms : UInt64) : Span :=
  ⟨ms.toNat * 1000000, by
    have hms := ms.toNat_lt
    omega⟩

/-- A number of nanoseconds that is cut at the longest span. -/
theorem nanos_getD_ofNanos (n : ℕ) : ((ofNanos n).getD max).nanos = min n max.nanos := by
  have hmax : max.nanos = 2 ^ 64 * 1000000000 - 1 := rfl
  unfold ofNanos
  split
  next h =>
    show n = min n max.nanos
    omega
  next h =>
    show max.nanos = min n max.nanos
    omega

theorem nanos_saturatingAdd (d d' : Span) :
    (d.saturatingAdd d').nanos = min (d.nanos + d'.nanos) max.nanos :=
  nanos_getD_ofNanos _

theorem nanos_saturatingMul (d : Span) (factor : UInt32) :
    (d.saturatingMul factor).nanos = min (d.nanos * factor.toNat) max.nanos :=
  nanos_getD_ofNanos _

theorem val_asMillis (d : Span) : d.asMillis.val = d.nanos / 1000000 := rfl

theorem nanos_fromMillis (ms : UInt64) : (fromMillis ms).nanos = ms.toNat * 1000000 := rfl

end Span

end Machine
