import Mathlib.Algebra.Ring.Nat
import Mathlib.Data.Nat.Find

/-!
# Cutting strings

A string is cut at a number of bytes where one of its characters ends. A number of bytes in the
middle of a character is rounded down to the end of the character before it, and a string is cut
there without an error.

## Main definitions

* `IsCharBoundary`: a character of a string ends after a number of bytes
* `floorCharBoundary`: a number of bytes, rounded down to a boundary
* `truncate`: a string without the bytes that follow a number of them

## Main results

* `le_floorCharBoundary_iff`: the rounded number is the last boundary that is not beyond the number
* `truncate_append`: a string is cut to its front, where the front ends
-/

namespace Text

variable {s : String} {n : ℕ}

/-- `str::is_char_boundary`: the first `n` bytes of `s` are whole characters. -/
abbrev IsCharBoundary (s : String) (n : ℕ) : Prop := (String.Pos.Raw.mk n).IsValid s

theorem isCharBoundary_iff : IsCharBoundary s n ↔ ∃ u v, s = u ++ v ∧ u.utf8ByteSize = n := by
  rw [IsCharBoundary, String.Pos.Raw.isValid_iff_exists_append]
  constructor
  · rintro ⟨u, v, rfl, h⟩
    exact ⟨u, v, rfl, (congrArg String.Pos.Raw.byteIdx h).symm⟩
  · rintro ⟨u, v, rfl, rfl⟩
    exact ⟨u, v, rfl, rfl⟩

theorem isCharBoundary_zero : IsCharBoundary s 0 := String.Pos.Raw.isValid_zero

/-! ## Rounding -/

/-- `str::floor_char_boundary`: the last boundary at or before `index`, looked for from `index`
downwards. -/
def floorCharBoundary (s : String) (index : ℕ) : ℕ := Nat.findGreatest (IsCharBoundary s) index

theorem floorCharBoundary_le : floorCharBoundary s n ≤ n := Nat.findGreatest_le n

theorem isCharBoundary_floorCharBoundary : IsCharBoundary s (floorCharBoundary s n) :=
  Nat.findGreatest_spec (Nat.zero_le n) isCharBoundary_zero

/-- **No boundary is between the rounded number and the number.** -/
theorem le_floorCharBoundary_iff {m : ℕ} (h : IsCharBoundary s m) :
    m ≤ floorCharBoundary s n ↔ m ≤ n := by
  constructor
  · intro hle
    exact Nat.le_trans hle floorCharBoundary_le
  · intro hle
    exact Nat.le_findGreatest hle h

example : (floorCharBoundary "aéz" 1, floorCharBoundary "aéz" 2, floorCharBoundary "aéz" 9) =
    (1, 1, 4) := by decide +kernel

/-! ## Truncating -/

/-- `String::truncate`: drop the bytes beyond `newLen`, where there are any. None where there is no
boundary, and the assertion panics. -/
def truncate (s : String) (newLen : ℕ) : Option String :=
  if newLen ≤ s.utf8ByteSize then
    if h : IsCharBoundary s newLen then
      some (String.ofByteArray (s.toByteArray.extract 0 newLen) h.isValidUTF8_extract_zero)
    else none
  else some s

/-- **A string is cut to its front.** -/
theorem truncate_append (u v : String) : truncate (u ++ v) u.utf8ByteSize = some u := by
  have hle : u.utf8ByteSize ≤ (u ++ v).utf8ByteSize := by
    rw [String.utf8ByteSize_append]
    exact Nat.le_add_right _ _
  have hend : IsCharBoundary (u ++ v) u.utf8ByteSize := isCharBoundary_iff.mpr ⟨u, v, rfl, rfl⟩
  rw [truncate, if_pos hle, dif_pos hend, Option.some.injEq]
  apply String.toByteArray_inj.mp
  change (u ++ v).toByteArray.extract 0 u.utf8ByteSize = u.toByteArray
  rw [String.toByteArray_append]
  exact ByteArray.extract_append_eq_left rfl

example : truncate "aéz" 3 = some "aé" ∧ truncate "aéz" 2 = none := by decide +kernel

end Text
