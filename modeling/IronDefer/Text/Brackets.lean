import IronDefer.Text.Search

/-!
# Counting brackets

The brackets of one kind are counted in a text, from behind an opening one on. Those in quotes do
not count, and neither does a character behind a backslash. Where the count comes down to zero, the
first bracket is closed.

## Main definitions

* `Bracket`: the two kinds of brackets
* `Count`, `Count.step`, `Count.run`: a count that is not zero, over a character and over a text
* `Within`: the count stays within a bound
* `Keeps`: a text behind which the count is as it was
* `Closes`, `Unterminated`: texts that close a bracket at their end, and that do not close it

## Main results

* `Keeps.append`, `keeps_wrap`: texts that keep the count, one behind the other or in brackets
* `keeps_of_neutral`: a text without brackets, quotes and backslashes keeps the count
-/

namespace Text

/-- The kinds of brackets. -/
inductive Bracket where
  | curly
  | square
  deriving DecidableEq

namespace Bracket

def opening : Bracket → Char
  | curly => '\x7b'
  | square => '['

def closing : Bracket → Char
  | curly => '\x7d'
  | square => ']'

end Bracket

/-- How many brackets are open, and where the text stands in a quoted part. -/
structure Count where
  depth : ℕ
  inString : Bool
  escaped : Bool
  deriving DecidableEq

/-- A character that is no bracket, no quote and no backslash. -/
def Neutral (x : Char) : Prop := x ∉ ['\\', '"', '\x7b', '\x7d', '[', ']']

instance (x : Char) : Decidable (Neutral x) := inferInstanceAs (Decidable (¬ _))

theorem Neutral.bracket {x : Char} (hx : Neutral x) (q : Bracket) :
    x ≠ q.opening ∧ x ≠ q.closing := by
  cases q with
  | curly => exact ⟨fun h => hx (by simp [h, Bracket.opening]),
      fun h => hx (by simp [h, Bracket.closing])⟩
  | square => exact ⟨fun h => hx (by simp [h, Bracket.opening]),
      fun h => hx (by simp [h, Bracket.closing])⟩

namespace Count

/-- Behind the first opening bracket. -/
def start : Count := ⟨1, false, false⟩

/-- The count behind a character; none where it closes the first bracket. -/
def step (q : Bracket) (s : Count) (x : Char) : Option Count :=
  if s.escaped then some { s with escaped := false }
  else if x = '\\' then some { s with escaped := true }
  else if x = '"' then some { s with inString := !s.inString }
  else if s.inString then some s
  else if x = q.opening then some { s with depth := s.depth + 1 }
  else if x = q.closing then
    if s.depth = 1 then none else some { s with depth := s.depth - 1 }
  else some s

/-- The count behind a text; none where the first bracket is closed in it. -/
def run (q : Bracket) (s : Count) (w : List Char) : Option Count := w.foldlM (step q) s

/-- The text stands behind a character that is not quoted. -/
def Outside (s : Count) : Prop := s.inString = false ∧ s.escaped = false

end Count

section Runs

variable {q : Bracket} {s t : Count} {u w : List Char} {n : ℕ}

@[simp] theorem run_nil : s.run q [] = some s := rfl

@[simp] theorem run_cons (x : Char) : s.run q (x :: w) = (s.step q x).bind (·.run q w) :=
  List.foldlM_cons

theorem run_append : s.run q (u ++ w) = (s.run q u).bind (·.run q w) := List.foldlM_append

/-- A bracket is open as long as the first one is. -/
theorem depth_pos_of_step {x : Char} (hs : 0 < s.depth) (h : s.step q x = some t) :
    0 < t.depth := by
  unfold Count.step at h
  split at h
  · cases h
    exact hs
  split at h
  · cases h
    exact hs
  split at h
  · cases h
    exact hs
  split at h
  · cases h
    exact hs
  split at h
  · cases h
    exact Nat.succ_pos _
  split at h
  · split at h
    · cases h
    next hne =>
      cases h
      -- a closing bracket that does not close the first one
      show 0 < s.depth - 1
      omega
  · cases h
    exact hs

theorem depth_pos_of_run (hs : 0 < s.depth) (h : s.run q w = some t) : 0 < t.depth := by
  induction w generalizing s with
  | nil =>
    cases h
    exact hs
  | cons x w ih =>
    obtain ⟨v, hv, hrun⟩ := Option.bind_eq_some_iff.mp h
    exact ih (depth_pos_of_step hs hv) hrun

variable (q n) in
/-- On every front of the text the count is within the bound. -/
def Within (s : Count) (w : List Char) : Prop := ∀ u t, u <+: w → s.run q u = some t → t.depth ≤ n

theorem within_nil (h : s.depth ≤ n) : Within q n s [] := by
  intro u t hu hrun
  rw [List.prefix_nil.mp hu] at hrun
  cases hrun
  exact h

theorem within_cons {x : Char} : Within q n s (x :: w) ↔
    s.depth ≤ n ∧ ∀ t, s.step q x = some t → Within q n t w := by
  constructor
  · intro h
    refine ⟨h [] s List.nil_prefix rfl, fun t ht u v hu hrun => ?_⟩
    apply h (x :: u) v (List.cons_prefix_cons.mpr ⟨rfl, hu⟩)
    rw [run_cons, ht]
    exact hrun
  · rintro ⟨hle, h⟩ u v hu hrun
    cases u with
    | nil =>
      cases hrun
      exact hle
    | cons y u =>
      obtain ⟨rfl, htail⟩ := List.cons_prefix_cons.mp hu
      rw [run_cons] at hrun
      obtain ⟨t, ht, hrun⟩ := Option.bind_eq_some_iff.mp hrun
      exact h t ht u v htail hrun

theorem Within.mono {m : ℕ} (h : Within q n s w) (hnm : n ≤ m) : Within q m s w :=
  fun u t hu hrun => Nat.le_trans (h u t hu hrun) hnm

theorem within_append (hu : Within q n s u) (hw : ∀ t, s.run q u = some t → Within q n t w) :
    Within q n s (u ++ w) := by
  induction u generalizing s with
  | nil => exact hw s rfl
  | cons x u ih =>
    obtain ⟨hle, hstep⟩ := within_cons.mp hu
    refine within_cons.mpr ⟨hle, fun t ht => ih (hstep t ht) fun v hv => hw v ?_⟩
    rw [run_cons, ht]
    exact hv

variable (q n) in
/-- Behind the text the count is as it was, and it is within the bound in the text. -/
structure Keeps (s : Count) (w : List Char) : Prop where
  run : s.run q w = some s
  within : Within q n s w

theorem Keeps.append (hu : Keeps q n s u) (hw : Keeps q n s w) : Keeps q n s (u ++ w) where
  run := by
    rw [run_append, hu.run]
    exact hw.run
  within := by
    apply within_append hu.within
    intro t ht
    rw [hu.run] at ht
    cases ht
    exact hw.within

theorem keeps_nil (h : s.depth ≤ n) : Keeps q n s [] := ⟨rfl, within_nil h⟩

theorem keeps_cons {x : Char} (hle : s.depth ≤ n) (hx : s.step q x = some s)
    (hw : Keeps q n s w) : Keeps q n s (x :: w) where
  run := by
    rw [run_cons, hx]
    exact hw.run
  within := by
    refine within_cons.mpr ⟨hle, fun t ht => ?_⟩
    rw [hx] at ht
    cases ht
    exact hw.within

theorem Keeps.mono {m : ℕ} (h : Keeps q n s w) (hnm : n ≤ m) : Keeps q m s w :=
  ⟨h.run, h.within.mono hnm⟩

/-- Two characters of which the second takes back what the first does. -/
theorem keeps_wrap {x y : Char} (hle : s.depth ≤ n) (hx : s.step q x = some t)
    (hw : Keeps q n t w) (hy : t.step q y = some s) : Keeps q n s (x :: (w ++ [y])) where
  run := by
    rw [run_cons, hx, Option.bind_some, run_append, hw.run, Option.bind_some, run_cons, hy]
    rfl
  within := by
    refine within_cons.mpr ⟨hle, fun v hv => ?_⟩
    rw [hx] at hv
    cases hv
    apply within_append hw.within
    intro v hv
    rw [hw.run] at hv
    cases hv
    have ht : t.depth ≤ n := hw.within [] t List.nil_prefix rfl
    refine within_cons.mpr ⟨ht, fun v hv => ?_⟩
    rw [hy] at hv
    cases hv
    exact within_nil hle

theorem step_of_neutral {x : Char} (hs : s.escaped = false) (hx : Neutral x) :
    s.step q x = some s := by
  have hbackslash : x ≠ '\\' := fun h => hx (by simp [h])
  have hquote : x ≠ '"' := fun h => hx (by simp [h])
  obtain ⟨hopening, hclosing⟩ := hx.bracket q
  unfold Count.step
  rw [if_neg (by rw [hs]; exact Bool.false_ne_true), if_neg hbackslash, if_neg hquote,
    if_neg hopening, if_neg hclosing, ite_self]

theorem keeps_of_neutral (hs : s.escaped = false) (hle : s.depth ≤ n)
    (hw : ∀ x ∈ w, Neutral x) : Keeps q n s w := by
  induction w with
  | nil => exact keeps_nil hle
  | cons x w ih =>
    exact keeps_cons hle (step_of_neutral hs (hw x List.mem_cons_self))
      (ih fun y hy => hw y (List.mem_cons_of_mem x hy))

/-! ## Quotes -/

/-- A character behind a backslash does not count. -/
theorem keeps_escape (hs : s.escaped = false) (hle : s.depth ≤ n) (x : Char) :
    Keeps q n s ['\\', x] := by
  have hbackslash : s.step q '\\' = some { s with escaped := true } := by
    unfold Count.step
    rw [if_neg (by rw [hs]; exact Bool.false_ne_true), if_pos rfl]
  have hback : Count.step q { s with escaped := true } x = some s := by
    unfold Count.step
    rw [if_pos rfl, ← hs]
  exact keeps_wrap hle hbackslash (keeps_nil hle) hback

theorem step_quoted {x : Char} (hs : s.escaped = false) (hstring : s.inString = true)
    (hquote : x ≠ '"') (hbackslash : x ≠ '\\') : s.step q x = some s := by
  unfold Count.step
  rw [if_neg (by rw [hs]; exact Bool.false_ne_true), if_neg hbackslash, if_neg hquote,
    if_pos hstring]

theorem step_quote (hs : s.escaped = false) :
    s.step q '"' = some { s with inString := !s.inString } := by
  unfold Count.step
  rw [if_neg (by rw [hs]; exact Bool.false_ne_true), if_neg (by decide), if_pos rfl]

/-! ## Brackets -/

theorem step_opening (hs : s.Outside) :
    s.step q q.opening = some { s with depth := s.depth + 1 } := by
  unfold Count.step
  rw [hs.1, hs.2]
  cases q with
  | curly => rfl
  | square => rfl

theorem step_closing (hs : s.Outside) : s.step q q.closing =
    if s.depth = 1 then none else some { s with depth := s.depth - 1 } := by
  unfold Count.step
  rw [hs.1, hs.2]
  cases q with
  | curly => rfl
  | square => rfl

/-- The brackets of the other kind do not count. -/
theorem step_other {r : Bracket} (hs : s.Outside) (hr : r ≠ q) :
    s.step q r.opening = some s ∧ s.step q r.closing = some s := by
  unfold Count.step
  rw [hs.1, hs.2]
  cases q with
  | curly =>
    cases r with
    | curly => exact absurd rfl hr
    | square => exact ⟨rfl, rfl⟩
  | square =>
    cases r with
    | curly => exact ⟨rfl, rfl⟩
    | square => exact absurd rfl hr

variable (q n) in
/-- The text closes the first bracket at its end. -/
def Closes (w : List Char) : Prop :=
  ∃ u s, w = u ++ [q.closing] ∧ Within q n .start u ∧ Count.start.run q u = some s ∧
    s.step q q.closing = none

variable (q n) in
/-- The text does not close the first bracket. -/
def Unterminated (w : List Char) : Prop :=
  Within q n .start w ∧ (Count.start.run q w).isSome

end Runs

end Text
