import IronDefer.Domain.Values
import IronDefer.Numbers.Rounding

/-!
# Arithmetic of the database

What the statements of the adapter compute with. Integers, intervals, timestamps and double
precision numbers out of range are errors, every double precision operation rounds to the nearest
double, and an interval is rounded to microseconds.

## Main definitions

* `SqlError`: what the database refuses a statement for
* `Duration.asSecsF64`: a span of time as a double
* `float8`, `power2`: double precision numbers
* `micros`, `makeInterval`, `timestamp`: intervals and timestamps

## Main results

* `float8_eq_ok_iff`, `makeInterval_eq_ok_iff`, `timestamp_eq_ok_iff`: what each of them gives, and
  when
* `micros_mono`, `Duration.asSecsF64_mono`: rounding keeps the order
-/

namespace IronDefer

open Rounding

/-! ## Errors -/

/-- What a statement fails for: a violated constraint, a value out of range, a text the database
cannot store, or a column the client cannot decode. -/
inductive SqlError where
  | primaryKey
  | idempotencyIndex
  | claimFieldsCheck
  | foreignKey
  | integerOutOfRange
  | floatOutOfRange
  | intervalOutOfRange
  | timestampOutOfRange
  | untranslatableText
  | columnDecode
  deriving DecidableEq, Repr

theorem exists_of_bind_ok {ε α β : Type} {x : Except ε α} {f : α → Except ε β} {c : β}
    (h : x >>= f = .ok c) : ∃ a, x = .ok a ∧ f a = .ok c := by
  cases x with
  | error e => cases h
  | ok a => exact ⟨a, rfl, h⟩

/-- The errors of values: those that are no violation of a constraint. -/
def SqlError.ofValue : SqlError → Bool
  | .integerOutOfRange | .floatOutOfRange | .intervalOutOfRange | .timestampOutOfRange => true
  | .untranslatableText | .columnDecode => true
  | .primaryKey | .idempotencyIndex | .claimFieldsCheck | .foreignKey => false

/-- A computation that fails only on its values. -/
def FailsOnValues {α : Type} (x : Except SqlError α) : Prop :=
  ∀ err, x = .error err → err.ofValue = true

theorem failsOnValues_ok {α : Type} (a : α) : FailsOnValues (.ok a) := fun _ h => by cases h

theorem FailsOnValues.bind {α β : Type} {x : Except SqlError α} {f : α → Except SqlError β}
    (hx : FailsOnValues x) (hf : ∀ a, FailsOnValues (f a)) : FailsOnValues (x >>= f) := by
  cases x with
  | error e => exact fun err h => hx err (by cases h; rfl)
  | ok a => exact hf a

theorem failsOnValues_ite {α : Type} {p : Prop} [Decidable p] {x y : Except SqlError α}
    (hx : FailsOnValues x) (hy : FailsOnValues y) : FailsOnValues (if p then x else y) := by
  split
  · exact hx
  · exact hy

theorem failsOnValues_error {α : Type} {err : SqlError} (h : err.ofValue = true) :
    FailsOnValues (.error err : Except SqlError α) := by
  rintro _ ⟨⟩
  exact h

/-! ## Arithmetic of the database -/

/-- `as_secs_f64`: the whole seconds and the part below a second are converted one by one, and their
sum is rounded again. -/
def Duration.asSecsF64 (d : Duration) : ℚ :=
  binary64.round (binary64.round (d / 1000000000 : ℕ) +
    binary64.round ((d % 1000000000 : ℕ) / 1000000000))

def int4Add (a : I32) (n : Int) : Except SqlError I32 :=
  match I32.ofInt? (a.val + n) with
  | some b => .ok b
  | none => .error .integerOutOfRange

/-- The result of a double precision operation: the nearest double, or an error where that
overflows, or underflows to zero. -/
def float8 (x : ℚ) : Except SqlError ℚ :=
  let y := binary64.round x
  if 2 ^ 1024 ≤ |y| then .error .floatOutOfRange
  else if x ≠ 0 ∧ y = 0 then .error .floatOutOfRange
  else .ok y

/-- `power(2, n)`. -/
def power2 (n : Int) : Except SqlError ℚ :=
  if 1024 ≤ n ∨ n ≤ -1075 then .error .floatOutOfRange else .ok ((2 : ℚ) ^ n)

/-- The microseconds of a number of seconds. -/
def micros (s : ℚ) : Int := rint (binary64.round (s * 1000000))

/-- `make_interval(secs => s)`, in microseconds. -/
def makeInterval (s : ℚ) : Except SqlError Int := do
  let us ← float8 (s * 1000000)
  if -9223372036854775808 ≤ rint us ∧ rint us ≤ 9223372036854775807 then .ok (rint us)
  else .error .intervalOutOfRange

/-- The range of `TIMESTAMPTZ`, from 4713 BC to 294276 AD. -/
def timestamp (t : Int) : Except SqlError Timestamp :=
  if -211813488000000000 ≤ t ∧ t < 9223371331200000000 then .ok t
  else .error .timestampOutOfRange

/-- A text the database can store: without NUL. -/
def storableText (s : String) : Bool := s.toList.all fun c => c.val ≠ 0

/-- A JSON value the database can store: without an escaped NUL. -/
def storableJson (j : Json) : Bool := !Json.hasNul j.text.toList

/-- A bound parameter the database accepts. -/
def require (ok : Bool) : Except SqlError Unit := if ok then .ok () else .error .untranslatableText

theorem failsOnValues_int4Add (a : I32) (n : Int) : FailsOnValues (int4Add a n) := by
  unfold int4Add
  split
  · exact failsOnValues_ok _
  · exact failsOnValues_error rfl

theorem failsOnValues_float8 (x : ℚ) : FailsOnValues (float8 x) :=
  failsOnValues_ite (failsOnValues_error rfl)
    (failsOnValues_ite (failsOnValues_error rfl) (failsOnValues_ok _))

theorem failsOnValues_makeInterval (x : ℚ) : FailsOnValues (makeInterval x) :=
  (failsOnValues_float8 _).bind fun _ =>
    failsOnValues_ite (failsOnValues_ok _) (failsOnValues_error rfl)

theorem failsOnValues_timestamp (t : Int) : FailsOnValues (timestamp t) :=
  failsOnValues_ite (failsOnValues_ok _) (failsOnValues_error rfl)

theorem failsOnValues_require (p : Bool) : FailsOnValues (require p) :=
  failsOnValues_ite (failsOnValues_ok _) (failsOnValues_error rfl)

theorem val_of_int4Add {a c : I32} {n : Int} (h : int4Add a n = .ok c) : c.val = a.val + n := by
  unfold int4Add at h
  split at h
  next b hb => cases h; exact I32.val_of_ofInt? hb
  next => cases h

/-! ## Durations as doubles -/

namespace Duration

variable {d d' : Duration}

theorem asSecsF64_nonneg : 0 ≤ d.asSecsF64 :=
  Format.round_nonneg (add_nonneg (Format.round_nonneg (by positivity))
    (Format.round_nonneg (by positivity)))

theorem represents_asSecsF64 : binary64.Represents d.asSecsF64 :=
  Format.represents_round (add_nonneg (Format.round_nonneg (by positivity))
    (Format.round_nonneg (by positivity)))

/-- What is below a second is at most one as a double. -/
theorem round_subsec_le : binary64.round ((d % 1000000000 : ℕ) / 1000000000) ≤ 1 := by
  have hone : binary64.Represents 1 := Format.represents_two_zpow (k := 0) (by decide)
  refine Format.round_le (by positivity) ?_ hone
  rw [div_le_one (by norm_num)]
  exact_mod_cast (Nat.mod_lt d (by norm_num)).le

/-- A nanosecond is at least `2 ^ -30` seconds, as a double. -/
theorem le_asSecsF64 (h : 1 ≤ d) : 2 ^ (-30 : ℤ) ≤ d.asSecsF64 := by
  have hrep : binary64.Represents (2 ^ (-30 : ℤ)) := Format.represents_two_zpow (by decide)
  have hnano : (2 : ℚ) ^ (-30 : ℤ) ≤ 1 / 1000000000 := by norm_num
  refine Format.le_round hrep (by positivity) ?_
  -- of the two parts, one is at least a nanosecond, and rounding keeps it above the power of two
  rcases Nat.eq_zero_or_pos (d / 1000000000) with hzero | hpos
  · have hsub : (1 : ℚ) ≤ (d % 1000000000 : ℕ) := by
      have hlt := Nat.lt_of_div_eq_zero (by norm_num) hzero
      rw [Nat.mod_eq_of_lt hlt]
      exact_mod_cast h
    refine le_add_of_nonneg_of_le (Format.round_nonneg (by positivity)) ?_
    refine Format.le_round hrep (by positivity) (hnano.trans ?_)
    exact div_le_div_of_nonneg_right hsub (by norm_num)
  · have hone : (1 : ℚ) ≤ (d / 1000000000 : ℕ) := by exact_mod_cast hpos
    refine le_add_of_le_of_nonneg ?_ (Format.round_nonneg (by positivity))
    exact Format.le_round hrep (by positivity) (hnano.trans (le_trans (by norm_num) hone))

/-- **Rounding keeps the order of durations** of which the shorter has less than `2 ^ 53`
seconds. -/
theorem asSecsF64_mono (h : d ≤ d') (hd : d < 9007199254740992000000000) :
    d.asSecsF64 ≤ d'.asSecsF64 := by
  have hsecs : d / 1000000000 ≤ d' / 1000000000 := Nat.div_le_div_right h
  refine Format.round_mono (add_nonneg (Format.round_nonneg (by positivity))
    (Format.round_nonneg (by positivity))) ?_
  rcases hsecs.eq_or_lt with heq | hlt
  -- within one second the parts below it decide
  · have hsub : d % 1000000000 ≤ d' % 1000000000 := by
      have hdiv := Nat.div_add_mod d 1000000000
      have hdiv' := Nat.div_add_mod d' 1000000000
      rw [← heq] at hdiv'
      exact Nat.le_of_add_le_add_left (hdiv.trans_le (h.trans_eq hdiv'.symm))
    rw [heq]
    refine add_le_add_right (Format.round_mono (by positivity) ?_) _
    exact div_le_div_of_nonneg_right (by exact_mod_cast hsub) (by norm_num)
  -- the next whole second is a double, which rounding does not cross
  · have hbelow : d / 1000000000 < 2 ^ 53 := Nat.div_lt_of_lt_mul hd
    have hrep : binary64.Represents ((d / 1000000000 + 1 : ℕ) : ℚ) := by
      rcases (Nat.succ_le_of_lt hbelow).lt_or_eq with htop | heq
      · exact Format.represents_natCast htop (by decide)
      · rw [Nat.succ_eq_add_one] at heq
        rw [heq]
        push_cast
        exact_mod_cast Format.represents_two_zpow (F := binary64) (k := 53) (by decide)
    have hwhole : binary64.round (d / 1000000000 : ℕ) = (d / 1000000000 : ℕ) :=
      Format.round_eq_self (Format.represents_natCast hbelow (by decide)) (by positivity)
    have hnext : ((d / 1000000000 + 1 : ℕ) : ℚ) ≤ (d' / 1000000000 : ℕ) := by exact_mod_cast hlt
    calc binary64.round (d / 1000000000 : ℕ) + binary64.round ((d % 1000000000 : ℕ) / 1000000000)
        ≤ (d / 1000000000 : ℕ) + 1 := add_le_add hwhole.le round_subsec_le
      _ = ((d / 1000000000 + 1 : ℕ) : ℚ) := by push_cast; rfl
      _ ≤ binary64.round (d' / 1000000000 : ℕ) := Format.le_round hrep (by positivity) hnext
      _ ≤ _ := le_add_of_nonneg_right (Format.round_nonneg (by positivity))

/-- Whole seconds are doubles. -/
theorem asSecsF64_of_whole {secs : ℕ} (h : secs < 2 ^ 53) :
    asSecsF64 (secs * 1000000000) = secs := by
  have hrep : binary64.Represents (secs : ℚ) := Format.represents_natCast h (by decide)
  unfold asSecsF64
  rw [Nat.mul_div_cancel _ (by norm_num), Nat.mul_mod_left, Nat.cast_zero, zero_div,
    Format.round_zero, add_zero, Format.round_eq_self hrep (by positivity),
    Format.round_eq_self hrep (by positivity)]

end Duration

/-! ## Ranges -/

section Ranges

variable {x y s s' : ℚ}

/-- A double precision operation whose result is no underflow. -/
theorem float8_eq_ok_iff (hx : 0 ≤ x) (hpos : x ≠ 0 → 0 < binary64.round x) :
    float8 x = .ok y ↔ y = binary64.round x ∧ binary64.round x < 2 ^ 1024 := by
  have hround : 0 ≤ binary64.round x := Format.round_nonneg hx
  unfold float8
  dsimp only
  rw [abs_of_nonneg hround, if_neg fun h : x ≠ 0 ∧ _ => (hpos h.1).ne' h.2]
  split
  next hover => simp [not_lt.mpr hover]
  next hlt => simp [not_le.mp hlt, eq_comm]

theorem micros_nonneg (hs : 0 ≤ s) : 0 ≤ micros s := by
  have hround : ((0 : Int) : ℚ) ≤ binary64.round (s * 1000000) := by
    rw [Int.cast_zero]
    exact Format.round_nonneg (by positivity)
  exact le_rint hround

theorem micros_mono (hs : 0 ≤ s) (h : s ≤ s') : micros s ≤ micros s' :=
  rint_mono (Format.round_mono (by positivity) (mul_le_mul_of_nonneg_right h (by norm_num)))

/-- What is no more microseconds than an interval has is far from an overflow. -/
theorem lt_of_micros_le (h : micros s ≤ 9223372036854775807) : s < 2 ^ 63 := by
  by_contra hge
  have hrep : binary64.Represents ((2 : ℚ) ^ 63) :=
    Format.represents_two_zpow (k := 63) (by decide)
  have hround : ((9223372036854775808 : Int) : ℚ) ≤ binary64.round (s * 1000000) := by
    refine le_trans (by norm_num) (Format.le_round hrep (by positivity) ?_)
    linarith [not_lt.mp hge]
  have hbeyond : 9223372036854775808 ≤ micros s := le_rint hround
  omega

/-- An interval of seconds that are a double. -/
theorem makeInterval_eq_ok_iff {us : Int} (hs : binary64.Represents s) (hs₀ : 0 ≤ s) :
    makeInterval s = .ok us ↔ us = micros s ∧ us ≤ 9223372036854775807 := by
  -- a double times a million is no underflow, since the double itself is below it
  have hpos : s * 1000000 ≠ 0 → 0 < binary64.round (s * 1000000) := by
    intro hne
    have hlt : 0 < s := lt_of_le_of_ne hs₀ fun heq => hne (by rw [← heq, zero_mul])
    exact hlt.trans_le (Format.le_round hs hs₀ (by linarith))
  have hfloat := fun y => float8_eq_ok_iff (y := y) (by positivity : 0 ≤ s * 1000000) hpos
  have hnonneg := micros_nonneg hs₀
  constructor
  · intro h
    obtain ⟨y, hy, h⟩ := exists_of_bind_ok h
    obtain ⟨rfl, -⟩ := (hfloat y).mp hy
    -- the lower bound of the interval is met by a number of seconds that is not negative
    split at h
    next hrange =>
      cases h
      exact ⟨rfl, hrange.2⟩
    · cases h
  · rintro ⟨rfl, hle⟩
    have hlt : binary64.round (s * 1000000) < 2 ^ 1024 := by
      have hrep : binary64.Represents ((2 : ℚ) ^ 83) :=
        Format.represents_two_zpow (k := 83) (by decide)
      have hsmall := lt_of_micros_le hle
      refine lt_of_le_of_lt (Format.round_le (by positivity) ?_ hrep) ?_
      · linarith
      · exact pow_lt_pow_right₀ (by norm_num) (by norm_num)
    unfold makeInterval
    rw [(hfloat _).mpr ⟨rfl, hlt⟩]
    exact if_pos ⟨by change _ ≤ micros s; omega, hle⟩

theorem timestamp_eq_ok_iff {t u : Int} : timestamp t = .ok u ↔
    u = t ∧ -211813488000000000 ≤ t ∧ t < 9223371331200000000 := by
  unfold timestamp
  split
  next h => simp [h, eq_comm]
  next h => simp [h]

end Ranges

end IronDefer
