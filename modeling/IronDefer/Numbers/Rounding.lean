import Mathlib.Algebra.Order.Archimedean.Basic
import Mathlib.Algebra.Order.Field.Power
import Mathlib.Algebra.Order.Field.Rat
import Mathlib.Data.Int.Log
import Mathlib.Data.Rat.Floor
import Mathlib.Tactic.FieldSimp
import Mathlib.Tactic.Linarith
import Mathlib.Tactic.Positivity
import Mathlib.Tactic.Ring

/-!
# Rounding to the nearest, ties to even

Rational numbers rounded to integers and to the numbers of a binary floating point format. A format
has a precision and a least exponent; it has no greatest one, so that overflow is left to its user.

## Main definitions

* `rint`: the nearest integer, ties to even
* `Format`, `binary64`: binary floating point formats, and the one of double precision
* `Format.Represents`: the numbers of a format
* `Format.round`: the nearest number of a format, ties to even

## Main results

* `rint_mono`: rounding to integers is monotone
* `Format.round_eq_self`: a number of the format is not moved
* `Format.round_le`, `Format.le_round`: rounding does not cross a number of the format
* `Format.round_mono`: rounding is monotone on the numbers that are not negative
* `Format.represents_round`: what is rounded to is a number of the format
-/

namespace Rounding

/-! ## To integers -/

/-- Round to the nearest integer, ties to even. -/
def rint (x : ℚ) : Int :=
  let f := ⌊x⌋
  if x - f < 1 / 2 then f else if 1 / 2 < x - f then f + 1 else if f % 2 = 0 then f else f + 1

theorem rint_le_of_lt {x : ℚ} {n : Int} (h : x < n + 1 / 2) : rint x ≤ n := by
  have hlo := Int.floor_le x
  have hfloor : ⌊x⌋ ≤ n := by
    rw [← Int.lt_add_one_iff]
    have hlt : (⌊x⌋ : ℚ) < n + 1 := by linarith
    exact_mod_cast hlt
  have hnext : ¬ x - ⌊x⌋ < 1 / 2 → ⌊x⌋ + 1 ≤ n := by
    intro hge
    have hlt : (⌊x⌋ : ℚ) < n := by linarith
    exact_mod_cast hlt
  unfold rint
  dsimp only
  split_ifs with hlt
  · exact hfloor
  · exact hnext hlt
  · exact hfloor
  · exact hnext hlt

theorem le_rint_of_lt {x : ℚ} {n : Int} (h : n - 1 / 2 < x) : n ≤ rint x := by
  have hhi := Int.lt_floor_add_one x
  have hfloor : n ≤ ⌊x⌋ + 1 := by
    rw [← Int.lt_add_one_iff]
    have hlt : (n : ℚ) < ⌊x⌋ + 1 + 1 := by linarith
    exact_mod_cast hlt
  have hsame : ¬ 1 / 2 < x - ⌊x⌋ → n ≤ ⌊x⌋ := by
    intro hle
    have hlt : (n : ℚ) < ⌊x⌋ + 1 := by linarith
    exact Int.lt_add_one_iff.mp (by exact_mod_cast hlt)
  unfold rint
  dsimp only
  split_ifs with hlt hgt heven
  · exact hsame (by linarith)
  · exact hfloor
  · exact hsame hgt
  · exact hfloor

@[simp] theorem rint_intCast (n : Int) : rint (n : ℚ) = n := by
  have hzero : ((n : ℚ) - (⌊(n : ℚ)⌋ : Int)) < 1 / 2 := by
    rw [Int.floor_intCast, sub_self]
    norm_num
  rw [rint, if_pos hzero, Int.floor_intCast]

theorem rint_mono {x y : ℚ} (h : x ≤ y) : rint x ≤ rint y := by
  by_contra hlt
  have hy : y ≤ rint x - 1 / 2 := by
    by_contra hgt
    exact hlt (le_rint_of_lt (not_le.mp hgt))
  -- what rounds up to an integer from below lies at its half, and so does `y`
  have hx : rint x - 1 / 2 ≤ x := by
    by_contra hgt
    have hlow : x < ((rint x - 1 : Int) : ℚ) + 1 / 2 := by
      push_cast
      linarith [not_le.mp hgt]
    have hbelow := rint_le_of_lt hlow
    omega
  have heq : x = y := by linarith
  rw [heq] at hlt
  exact hlt le_rfl

theorem rint_le {x : ℚ} {n : Int} (h : x ≤ n) : rint x ≤ n :=
  (rint_mono h).trans_eq (rint_intCast n)

theorem le_rint {x : ℚ} {n : Int} (h : n ≤ x) : n ≤ rint x :=
  (rint_intCast n).symm.trans_le (rint_mono h)

/-! ## Formats -/

/-- A binary floating point format: the bits of its significands and its least exponent. -/
structure Format where
  prec : ℕ
  emin : ℤ
  prec_pos : 0 < prec

/-- Double precision. -/
def binary64 : Format := ⟨53, -1074, by decide⟩

namespace Format

/-- The exponent of the last bit of a number of the size of `x`. -/
def exponent (F : Format) (x : ℚ) : ℤ := max (Int.log 2 |x| - (F.prec - 1)) F.emin

/-- The distance of the numbers of the format around `x`. -/
def ulp (F : Format) (x : ℚ) : ℚ := 2 ^ F.exponent x

/-- Round to the nearest number of the format, ties to even. -/
def round (F : Format) (x : ℚ) : ℚ := rint (x / F.ulp x) * F.ulp x

/-- The number is one of the format. -/
def Represents (F : Format) (x : ℚ) : Prop :=
  ∃ m e : ℤ, |m| < 2 ^ F.prec ∧ F.emin ≤ e ∧ x = m * 2 ^ e

variable {F : Format} {x y : ℚ}

theorem ulp_pos : 0 < F.ulp x := by
  unfold ulp
  positivity

@[simp] theorem round_zero : F.round 0 = 0 := by
  have hzero : rint 0 = 0 := rint_intCast 0
  rw [round, zero_div, hzero, Int.cast_zero, zero_mul]

theorem round_nonneg (hx : 0 ≤ x) : 0 ≤ F.round x := by
  refine mul_nonneg ?_ ulp_pos.le
  have hquotient : ((0 : Int) : ℚ) ≤ x / F.ulp x := by
    rw [Int.cast_zero]
    exact div_nonneg hx ulp_pos.le
  exact_mod_cast le_rint hquotient

theorem exponent_mono (hx : 0 < x) (h : x ≤ y) : F.exponent x ≤ F.exponent y := by
  rw [exponent, exponent, abs_of_pos hx, abs_of_pos (hx.trans_le h)]
  exact max_le_max_right _ (sub_le_sub_right (Int.log_mono_right hx h) _)

/-- A power of two of the format. -/
theorem represents_two_zpow {k : ℤ} (h : F.emin ≤ k) : F.Represents (2 ^ k) := by
  refine ⟨1, k, ?_, h, by rw [Int.cast_one, one_mul]⟩
  rw [abs_one]
  exact one_lt_pow₀ (by norm_num) F.prec_pos.ne'

/-- The last bit of a number is not below the last bit of its size. -/
theorem exponent_le {m e : ℤ} (hm : |m| < 2 ^ F.prec) (he : F.emin ≤ e) (hx : 0 < (m : ℚ) * 2 ^ e) :
    F.exponent (m * 2 ^ e) ≤ e := by
  refine max_le ?_ he
  rw [abs_of_pos hx]
  have hlt : (m : ℚ) * 2 ^ e < 2 ^ (F.prec + e : ℤ) := by
    have hm' : (m : ℚ) < 2 ^ F.prec := by exact_mod_cast (le_abs_self m).trans_lt hm
    rw [zpow_add₀ (by norm_num), zpow_natCast]
    exact mul_lt_mul_of_pos_right hm' (by positivity)
  have hlog := (Int.lt_zpow_iff_log_lt (R := ℚ) (b := 2) (by norm_num) hx).mp
    (by exact_mod_cast hlt)
  omega

/-- A number of the format is a whole number of units of any finer exponent. -/
theorem exists_eq_mul_of_le {m e k : ℤ} (h : k ≤ e) :
    ∃ n : ℤ, (m : ℚ) * 2 ^ e / 2 ^ k = n := by
  refine ⟨m * 2 ^ (e - k).toNat, ?_⟩
  have hpow : (2 : ℚ) ^ e = 2 ^ (e - k).toNat * 2 ^ k := by
    rw [← zpow_natCast, ← zpow_add₀ (by norm_num)]
    congr 1
    omega
  rw [hpow]
  push_cast
  field_simp

/-- **Rounding does not pass a number of the format from below.** -/
theorem round_le (hx : 0 ≤ x) (h : x ≤ y) (hy : F.Represents y) : F.round x ≤ y := by
  rcases hx.eq_or_lt with rfl | hx
  · rwa [round_zero]
  obtain ⟨m, e, hm, he, rfl⟩ := hy
  have hexp : F.exponent x ≤ e := (exponent_mono hx h).trans (exponent_le hm he (hx.trans_le h))
  obtain ⟨n, hn⟩ := exists_eq_mul_of_le (m := m) hexp
  have hle : rint (x / F.ulp x) ≤ n := rint_le (hn ▸ div_le_div_of_nonneg_right h ulp_pos.le)
  rw [round, ← le_div_iff₀ ulp_pos]
  exact (Int.cast_le.mpr hle).trans_eq hn.symm

/-- **Rounding does not pass a number of the format from above.** -/
theorem le_round (hy : F.Represents y) (hy₀ : 0 ≤ y) (h : y ≤ x) : y ≤ F.round x := by
  rcases (hy₀.trans h).eq_or_lt with rfl | hx
  · rwa [round_zero]
  obtain ⟨m, e, hm, he, rfl⟩ := hy
  by_cases hexp : F.exponent x ≤ e
  · obtain ⟨n, hn⟩ := exists_eq_mul_of_le (m := m) hexp
    have hle : n ≤ rint (x / F.ulp x) := le_rint (hn ▸ div_le_div_of_nonneg_right h ulp_pos.le)
    rw [round, ← div_le_iff₀ ulp_pos]
    exact hn.trans_le (Int.cast_le.mpr hle)
  -- `x` is in a binade above `y`, and does not fall out of it
  · have hlog : F.exponent x = Int.log 2 x - (F.prec - 1) := by
      rw [exponent, abs_of_pos hx] at hexp ⊢
      exact max_eq_left (by omega)
    have hle : (2 : ℚ) ^ Int.log 2 x ≤ x := by
      exact_mod_cast Int.zpow_log_le_self (b := 2) (by norm_num) hx
    obtain ⟨n, hn⟩ := exists_eq_mul_of_le (m := 1) (e := Int.log 2 x) (k := F.exponent x)
      (by have := F.prec_pos; omega)
    rw [Int.cast_one, one_mul] at hn
    have hrint : n ≤ rint (x / F.ulp x) :=
      le_rint (hn ▸ div_le_div_of_nonneg_right hle ulp_pos.le)
    have hbelow : (m : ℚ) * 2 ^ e ≤ 2 ^ Int.log 2 x := by
      have hm' : (m : ℚ) ≤ 2 ^ F.prec := by exact_mod_cast ((le_abs_self m).trans_lt hm).le
      calc (m : ℚ) * 2 ^ e ≤ 2 ^ F.prec * 2 ^ e := mul_le_mul_of_nonneg_right hm' (by positivity)
        _ = 2 ^ (F.prec + e : ℤ) := by rw [zpow_add₀ (by norm_num), zpow_natCast]
        _ ≤ 2 ^ Int.log 2 x := zpow_le_zpow_right₀ (by norm_num) (by omega)
    refine hbelow.trans ?_
    rw [round, ← div_le_iff₀ ulp_pos]
    exact hn.trans_le (Int.cast_le.mpr hrint)

/-- What is not below the least number of the format is not rounded to zero. -/
theorem round_pos (h : 2 ^ F.emin ≤ x) : 0 < F.round x :=
  lt_of_lt_of_le (by positivity) (le_round (represents_two_zpow le_rfl) (by positivity) h)

/-- A number of the format is not moved. -/
theorem round_eq_self (hx : F.Represents x) (hx₀ : 0 ≤ x) : F.round x = x :=
  le_antisymm (round_le hx₀ le_rfl hx) (le_round hx hx₀ le_rfl)

/-- **Rounding is monotone.** -/
theorem round_mono (hx : 0 ≤ x) (h : x ≤ y) : F.round x ≤ F.round y := by
  rcases hx.eq_or_lt with rfl | hx
  · rw [round_zero]
    exact round_nonneg h
  by_cases hexp : F.exponent y ≤ F.exponent x
  · have heq : F.ulp x = F.ulp y := by
      rw [ulp, ulp, le_antisymm (exponent_mono hx h) hexp]
    rw [round, round, heq]
    refine mul_le_mul_of_nonneg_right (Int.cast_le.mpr ?_) ulp_pos.le
    exact rint_mono (div_le_div_of_nonneg_right h ulp_pos.le)
  -- there is a power of two between them
  · have hy := hx.trans_le h
    have hmin : F.emin ≤ F.exponent x := le_max_right _ _
    have hlog : F.exponent y = Int.log 2 y - (F.prec - 1) := by
      rw [exponent, abs_of_pos hy] at hexp ⊢
      exact max_eq_left (by omega)
    have hlt : Int.log 2 x < Int.log 2 y := by
      have hle : Int.log 2 x - (F.prec - 1) ≤ F.exponent x := by
        rw [exponent, abs_of_pos hx]
        exact le_max_left _ _
      omega
    have hrep : F.Represents (2 ^ Int.log 2 y) :=
      represents_two_zpow (by have := F.prec_pos; omega)
    have hbelow : x ≤ 2 ^ Int.log 2 y :=
      (by exact_mod_cast (Int.lt_zpow_iff_log_lt (b := 2) (by norm_num) hx).mpr hlt :
        x < 2 ^ Int.log 2 y).le
    have habove : (2 : ℚ) ^ Int.log 2 y ≤ y := by
      exact_mod_cast Int.zpow_log_le_self (b := 2) (by norm_num) hy
    exact (round_le hx.le hbelow hrep).trans (le_round hrep (by positivity) habove)

/-- **What is rounded to is a number of the format.** -/
theorem represents_round (hx : 0 ≤ x) : F.Represents (F.round x) := by
  rcases hx.eq_or_lt with rfl | hx
  · rw [round_zero]
    exact ⟨0, F.emin, by rw [abs_zero]; positivity, le_rfl, by rw [Int.cast_zero, zero_mul]⟩
  have hlt : x < 2 ^ (F.prec + F.exponent x : ℤ) := by
    refine lt_of_lt_of_le (Int.lt_zpow_succ_log_self (b := 2) (by norm_num) x) ?_
    rw [Nat.cast_ofNat]
    refine zpow_le_zpow_right₀ (by norm_num) ?_
    have hle : Int.log 2 x - (F.prec - 1) ≤ F.exponent x := by
      rw [exponent, abs_of_pos hx]
      exact le_max_left _ _
    omega
  have hquotient : x / F.ulp x ≤ ((2 ^ F.prec : Int) : ℚ) := by
    rw [div_le_iff₀ ulp_pos, ulp]
    push_cast
    rw [← zpow_natCast, ← zpow_add₀ (by norm_num)]
    exact hlt.le
  have hle : rint (x / F.ulp x) ≤ 2 ^ F.prec := rint_le hquotient
  have hnonneg : 0 ≤ rint (x / F.ulp x) := by
    refine le_rint ?_
    rw [Int.cast_zero]
    exact div_nonneg hx.le ulp_pos.le
  rcases hle.eq_or_lt with heq | hlt
  -- the significand is full, and the result is the first number of the next binade
  · rw [round, heq, ulp]
    push_cast
    rw [← zpow_natCast, ← zpow_add₀ (by norm_num)]
    refine represents_two_zpow ?_
    have hmin : F.emin ≤ F.exponent x := le_max_right _ _
    omega
  · exact ⟨_, _, by rwa [abs_of_nonneg hnonneg], le_max_right _ _, rfl⟩

/-- A whole number within the precision. -/
theorem represents_natCast {n : ℕ} (h : n < 2 ^ F.prec) (hmin : F.emin ≤ 0) :
    F.Represents (n : ℚ) := by
  refine ⟨n, 0, ?_, hmin, by rw [zpow_zero, mul_one, Int.cast_natCast]⟩
  rw [Nat.abs_cast]
  exact_mod_cast h

/-- A number of the format, doubled `k` times. -/
theorem Represents.mul_two_pow (h : F.Represents x) (k : ℕ) : F.Represents (x * 2 ^ k) := by
  obtain ⟨m, e, hm, he, rfl⟩ := h
  refine ⟨m, e + k, hm, by omega, ?_⟩
  rw [zpow_add₀ (by norm_num), zpow_natCast, mul_assoc]

end Format

end Rounding
