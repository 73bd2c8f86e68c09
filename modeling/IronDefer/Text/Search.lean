import Mathlib.Data.List.Infix
import Mathlib.Data.Nat.Notation

/-!
# Searching in texts

A text is a list of characters that knows its length in bytes. It is searched for a pattern, which
gives the text before the first place where the pattern stands and the text after it, and it is
sliced at a number of bytes, which is only possible where a character ends.

## Main definitions

* `stripPrefix`, `find`: a pattern at the front of a text, and at its first place
* `size`: the length of a text in bytes
* `sliceTo`, `sliceFrom`: the text before and from a number of bytes, where it is a boundary
* `IsBoundary`: a character of the text ends after a number of bytes

## Main results

* `find_eq_some_iff`, `find_eq_none_iff`: **a search finds the first place**
* `find_append`: a search that finds nothing in a front goes on behind it
* `sliceTo_eq_some_iff`, `sliceFrom_eq_some_iff`: a slice is the part with the right length
-/

namespace Text

/-- What holds of every character of a text is decided along the text. A decision over all the
characters there are, where one is known, is not tried before. -/
scoped instance (priority := 2000) decidableForallMem (p : Char → Prop) [DecidablePred p]
    (s : List Char) : Decidable (∀ c ∈ s, p c) :=
  List.decidableBAll p s

/-! ## Patterns -/

section Find

variable {α : Type} [DecidableEq α] {pat s : List α}

/-- What follows a pattern that stands at the front. -/
def stripPrefix : List α → List α → Option (List α)
  | [], s => some s
  | _ :: _, [] => none
  | p :: ps, c :: cs => if p = c then stripPrefix ps cs else none

theorem stripPrefix_eq_some_iff {rest : List α} :
    stripPrefix pat s = some rest ↔ s = pat ++ rest := by
  induction pat generalizing s with
  | nil => simp [stripPrefix, eq_comm]
  | cons p ps ih =>
    cases s with
    | nil => simp [stripPrefix]
    | cons c cs =>
      rw [stripPrefix]
      split
      next h => rw [ih, h, List.cons_append, List.cons_inj_right]
      next h =>
        refine iff_of_false (fun h' => nomatch h') fun h' => h ?_
        exact (List.cons.inj h').1.symm

/-- The text before the first place where the pattern stands, and the text after it. -/
def find (pat : List α) : List α → Option (List α × List α)
  | [] => (stripPrefix pat []).map fun after => ([], after)
  | c :: cs =>
    match stripPrefix pat (c :: cs) with
    | some after => some ([], after)
    | none => (find pat cs).map fun r => (c :: r.1, r.2)

theorem eq_of_find {before after : List α} (h : find pat s = some (before, after)) :
    s = before ++ (pat ++ after) := by
  induction s generalizing before with
  | nil =>
    obtain ⟨rest, hrest, heq⟩ := Option.map_eq_some_iff.mp h
    cases heq
    have hs : [] = pat ++ after := stripPrefix_eq_some_iff.mp hrest
    exact hs
  | cons c cs ih =>
    rw [find] at h
    split at h
    next rest hrest =>
      cases h
      have hs : c :: cs = pat ++ after := stripPrefix_eq_some_iff.mp hrest
      exact hs
    · obtain ⟨⟨b, a⟩, hr, heq⟩ := Option.map_eq_some_iff.mp h
      cases heq
      rw [List.cons_append, ← ih hr]

/-- No place is before the one that is found. -/
theorem length_le_of_find {before after b a : List α} (h : find pat s = some (before, after))
    (hs : s = b ++ (pat ++ a)) : before.length ≤ b.length := by
  induction s generalizing before b with
  | nil =>
    obtain ⟨rest, -, heq⟩ := Option.map_eq_some_iff.mp h
    cases heq
    exact Nat.zero_le _
  | cons c cs ih =>
    rw [find] at h
    split at h
    · cases h
      exact Nat.zero_le _
    next hnone =>
      obtain ⟨⟨b', a'⟩, hr, heq⟩ := Option.map_eq_some_iff.mp h
      cases heq
      cases b with
      | nil =>
        have hstrip : stripPrefix pat (c :: cs) = some a := stripPrefix_eq_some_iff.mpr hs
        rw [hstrip] at hnone
        cases hnone
      | cons d ds =>
        exact Nat.succ_le_succ (ih hr (List.cons.inj hs).2)

theorem find_isSome {b a : List α} (hs : s = b ++ (pat ++ a)) : (find pat s).isSome := by
  induction s generalizing b with
  | nil =>
    obtain ⟨hb, hpa⟩ := List.append_eq_nil_iff.mp hs.symm
    obtain ⟨hp, ha⟩ := List.append_eq_nil_iff.mp hpa
    rw [hp]
    rfl
  | cons c cs ih =>
    rw [find]
    split
    · rfl
    next hnone =>
      cases b with
      | nil =>
        have hstrip : stripPrefix pat (c :: cs) = some a := stripPrefix_eq_some_iff.mpr hs
        rw [hstrip] at hnone
        cases hnone
      | cons d ds =>
        rw [Option.isSome_map]
        exact ih (List.cons.inj hs).2

theorem find_eq_none_iff : find pat s = none ↔ ¬ pat <:+: s := by
  rw [← not_iff_not, not_not, ← Ne, ← Option.isSome_iff_ne_none]
  constructor
  · intro h
    obtain ⟨⟨b, a⟩, hr⟩ := Option.isSome_iff_exists.mp h
    exact ⟨b, a, by rw [eq_of_find hr, List.append_assoc]⟩
  · rintro ⟨b, a, h⟩
    exact find_isSome (h.symm.trans (List.append_assoc _ _ _))

/-- **A search finds the first place.** -/
theorem find_eq_some_iff {before after : List α} :
    find pat s = some (before, after) ↔ s = before ++ (pat ++ after) ∧
      ∀ b a, s = b ++ (pat ++ a) → before.length ≤ b.length := by
  constructor
  · exact fun h => ⟨eq_of_find h, fun _ _ => length_le_of_find h⟩
  · rintro ⟨hs, hfirst⟩
    obtain ⟨⟨b, a⟩, hr⟩ := Option.isSome_iff_exists.mp (find_isSome hs)
    have hs' := eq_of_find hr
    -- both places are first, so that they are the same
    have hlen : b.length = before.length :=
      Nat.le_antisymm (length_le_of_find hr hs) (hfirst b a hs')
    obtain ⟨rfl, hrest⟩ := List.append_inj (hs'.symm.trans hs) hlen
    rw [hr, List.append_cancel_left hrest]

/-- A pattern that starts nowhere in a front is searched for behind it. -/
theorem find_append {front rest : List α}
    (h : ∀ b a, front ++ rest = b ++ (pat ++ a) → front.length ≤ b.length) :
    find pat (front ++ rest) = (find pat rest).map fun r => (front ++ r.1, r.2) := by
  -- a place of the pattern is behind the front
  have hcut : ∀ b a, front ++ rest = b ++ (pat ++ a) → ∃ c, b = front ++ c := by
    intro b a hs
    have hprefix : front <+: b ++ (pat ++ a) := ⟨rest, hs⟩
    obtain ⟨c, hc⟩ :=
      List.prefix_of_prefix_length_le hprefix (List.prefix_append b _) (h b a hs)
    exact ⟨c, hc.symm⟩
  cases hrest : find pat rest with
  | none =>
    rw [find_eq_none_iff] at hrest
    rw [Option.map_none, find_eq_none_iff]
    rintro ⟨b, a, hs⟩
    rw [List.append_assoc] at hs
    obtain ⟨c, rfl⟩ := hcut b a hs.symm
    rw [List.append_assoc] at hs
    exact hrest ⟨c, a, by rw [← List.append_cancel_left hs, List.append_assoc]⟩
  | some r =>
    obtain ⟨b, a⟩ := r
    rw [Option.map_some, find_eq_some_iff]
    refine ⟨by rw [eq_of_find hrest, List.append_assoc], fun b' a' hs => ?_⟩
    obtain ⟨c, rfl⟩ := hcut b' a' hs
    rw [List.append_assoc] at hs
    have hfirst : b.length ≤ c.length := length_le_of_find hrest (List.append_cancel_left hs)
    rw [List.length_append, List.length_append]
    exact Nat.add_le_add_left hfirst _

/-- The first place of a single character. -/
theorem find_singleton {c : α} {b a : List α} (h : c ∉ b) : find [c] (b ++ c :: a) = some (b, a) := by
  rw [find_eq_some_iff]
  refine ⟨rfl, fun b' a' hs => ?_⟩
  by_contra hlt
  have hlt' : b'.length < b.length := Nat.lt_of_not_le hlt
  -- a place before would be in the text without the character
  have hget : b[b'.length]? = some c := by
    have hleft : (b ++ c :: a)[b'.length]? = b[b'.length]? := List.getElem?_append_left hlt'
    rw [hs, List.getElem?_append_right (Nat.le_refl _)] at hleft
    rw [← hleft, Nat.sub_self]
    rfl
  exact h (List.mem_of_getElem? hget)

theorem find_singleton_eq_none_iff {c : α} : find [c] s = none ↔ c ∉ s := by
  rw [find_eq_none_iff, List.singleton_infix_iff]

theorem not_mem_of_find_singleton {c : α} {b a : List α} (h : find [c] s = some (b, a)) :
    c ∉ b := by
  intro hmem
  obtain ⟨b', b'', rfl⟩ := List.append_of_mem hmem
  have hs : s = b' ++ ([c] ++ (b'' ++ c :: a)) := by simpa using eq_of_find h
  have hle := length_le_of_find h hs
  rw [List.length_append, List.length_cons] at hle
  omega

/-- A place in a front is found also where more text follows. -/
theorem find_append_right {b a : List α} (h : find pat s = some (b, a)) (t : List α) :
    find pat (s ++ t) = some (b, a ++ t) := by
  have hs := eq_of_find h
  rw [find_eq_some_iff]
  refine ⟨by rw [hs]; simp only [List.append_assoc], fun b' a' heq => ?_⟩
  by_contra hlt
  have hlen := congrArg List.length hs
  rw [List.length_append, List.length_append] at hlen
  -- a place before it would end in the front, too
  have hprefix : b' ++ pat <+: s ++ t := ⟨a', by rw [heq, List.append_assoc]⟩
  have hshort : (b' ++ pat).length ≤ s.length := by
    rw [List.length_append]
    omega
  obtain ⟨a'', ha''⟩ := List.prefix_of_prefix_length_le hprefix (List.prefix_append s t) hshort
  exact hlt (length_le_of_find h (by rw [← ha'', List.append_assoc]))

/-! A pattern that ends with a character which it has nowhere else. -/

variable {c : α} {u w : List α}

omit [DecidableEq α] in
theorem infix_append_of_not_mem (hw : c ∉ w) (h : pat ++ [c] <:+: u ++ w) : pat ++ [c] <:+: u := by
  obtain ⟨b, a, heq⟩ := h
  have heq' : (b ++ pat) ++ c :: a = u ++ w := by simpa using heq
  rcases List.append_eq_append_iff.mp heq' with ⟨v, rfl, hca⟩ | ⟨v, hb, rfl⟩
  · -- the character is in `w` unless `v` starts with it
    cases v with
    | nil =>
      rw [List.nil_append] at hca
      exact absurd (by rw [← hca]; exact List.mem_cons_self) hw
    | cons d v =>
      obtain ⟨rfl, rfl⟩ := List.cons.inj hca
      exact ⟨b, v, by simp⟩
  · exact absurd (List.mem_append_right _ List.mem_cons_self) hw

omit [DecidableEq α] in
/-- No place of the pattern goes beyond the character. -/
theorem length_le_of_behind (hc : c ∉ pat) (h : ¬ pat ++ [c] <:+: u ++ [c]) {b a : List α}
    (heq : (u ++ [c]) ++ w = b ++ ((pat ++ [c]) ++ a)) : (u ++ [c]).length ≤ b.length := by
  have heq' : (u ++ [c]) ++ w = (b ++ pat) ++ c :: a := by simpa using heq
  rcases List.append_eq_append_iff.mp heq' with ⟨v, hv, -⟩ | ⟨v, hv, hca⟩
  · rcases List.append_eq_append_iff.mp hv with ⟨t, ht, hpat⟩ | ⟨t, hb, -⟩
    · -- the character ends `b`, or it is one of the pattern
      rcases List.eq_nil_or_concat t with rfl | ⟨t, d, rfl⟩
      · rw [ht, List.append_nil]
      · rw [List.concat_eq_append, ← List.append_assoc] at ht
        obtain ⟨-, hd⟩ := List.append_inj' ht rfl
        cases hd
        exact absurd (by rw [hpat]; simp) hc
    · rw [hb]
      exact (List.prefix_append _ t).length_le
  · cases v with
    | nil =>
      rw [List.append_nil] at hv
      rcases List.eq_nil_or_concat pat with rfl | ⟨t, d, rfl⟩
      · rw [hv, List.append_nil]
      · rw [List.concat_eq_append, ← List.append_assoc] at hv
        obtain ⟨-, hd⟩ := List.append_inj' hv rfl
        cases hd
        exact absurd (by simp) hc
    | cons d v =>
      obtain ⟨rfl, -⟩ := List.cons.inj hca
      exact absurd ⟨b, v, by rw [hv]; simp⟩ h

theorem find_behind (hc : c ∉ pat) (h : ¬ pat ++ [c] <:+: u ++ [c]) :
    find (pat ++ [c]) ((u ++ [c]) ++ w) =
      (find (pat ++ [c]) w).map fun r => (u ++ [c] ++ r.1, r.2) :=
  find_append fun _ _ heq => length_le_of_behind hc h heq

theorem find_before (hw : c ∉ w) :
    find (pat ++ [c]) (u ++ w) = (find (pat ++ [c]) u).map fun r => (r.1, r.2 ++ w) := by
  cases hfind : find (pat ++ [c]) u with
  | none =>
    rw [find_eq_none_iff] at hfind
    rw [Option.map_none, find_eq_none_iff]
    exact fun h => hfind (infix_append_of_not_mem hw h)
  | some r => exact find_append_right hfind w

/-- The first place of the character ends the first place of the pattern. -/
theorem find_first (hc : c ∉ pat) (hu : c ∉ u) :
    find (pat ++ [c]) (u ++ ((pat ++ [c]) ++ w)) = some (u, w) := by
  rw [find_eq_some_iff]
  refine ⟨rfl, fun b a heq => ?_⟩
  by_contra hlt
  have heq' : (u ++ pat) ++ c :: w = (b ++ pat) ++ c :: a := by simpa using heq
  rcases List.append_eq_append_iff.mp heq' with ⟨v, hv, -⟩ | ⟨v, hv, hca⟩
  · have hlen := congrArg List.length hv
    simp only [List.length_append] at hlen
    omega
  · cases v with
    | nil =>
      have hlen := congrArg List.length hv
      simp only [List.length_append, List.length_nil] at hlen
      omega
    | cons d v =>
      obtain ⟨rfl, -⟩ := List.cons.inj hca
      have hmem : c ∈ u ++ pat := by
        rw [hv]
        simp
      rcases List.mem_append.mp hmem with h | h
      · exact hu h
      · exact hc h

end Find

/-! ## Bytes -/

/-- The length of a text in bytes. -/
def size : List Char → ℕ
  | [] => 0
  | c :: cs => c.utf8Size + size cs

@[simp] theorem size_nil : size [] = 0 := rfl

@[simp] theorem size_cons (c : Char) (cs : List Char) :
    size (c :: cs) = c.utf8Size + size cs := rfl

@[simp] theorem size_append (s t : List Char) : size (s ++ t) = size s + size t := by
  induction s with
  | nil => simp
  | cons c cs ih => rw [List.cons_append, size_cons, ih, size_cons, Nat.add_assoc]

theorem size_replicate (n : ℕ) (c : Char) : size (List.replicate n c) = n * c.utf8Size := by
  induction n with
  | zero => simp
  | succ n ih => rw [List.replicate_succ, size_cons, ih, Nat.succ_mul, Nat.add_comm]

theorem length_le_size (s : List Char) : s.length ≤ size s := by
  induction s with
  | nil => exact Nat.le_refl 0
  | cons c cs ih =>
    have hpos := c.utf8Size_pos
    rw [List.length_cons, size_cons]
    omega

theorem size_eq_zero {s : List Char} : size s = 0 ↔ s = [] := by
  constructor
  · intro h
    have hle := length_le_size s
    exact List.eq_nil_of_length_eq_zero (by omega)
  · rintro rfl
    rfl

/-- Two fronts of a text with the same number of bytes are the same. -/
theorem append_inj_of_size {p q p' q' : List Char} (h : p ++ q = p' ++ q')
    (hsize : size p = size p') : p = p' ∧ q = q' := by
  have hshort : ∀ {p p' : List Char}, p <+: p' → size p = size p' → p = p' := by
    rintro p _ ⟨r, rfl⟩ hsize
    rw [size_append] at hsize
    rw [size_eq_zero.mp (by omega : size r = 0), List.append_nil]
  have hprefix : p <+: p' ++ q' := ⟨q, h⟩
  have hp : p = p' := by
    rcases Nat.le_total p.length p'.length with hle | hle
    · exact hshort (List.prefix_of_prefix_length_le hprefix (List.prefix_append p' q') hle) hsize
    · exact (hshort (List.prefix_of_prefix_length_le (List.prefix_append p' q') hprefix hle)
        hsize.symm).symm
  subst hp
  exact ⟨rfl, List.append_cancel_left h⟩

/-- Of two fronts of a text, the one with fewer bytes is a front of the other. -/
theorem prefix_of_size_le {p q s : List Char} (hp : p <+: s) (hq : q <+: s) (h : size p ≤ size q) :
    p <+: q := by
  rcases List.prefix_or_prefix_of_prefix hp hq with hpq | hqp
  · exact hpq
  · obtain ⟨r, rfl⟩ := hqp
    rw [size_append] at h
    have hr : r = [] := size_eq_zero.mp (by omega)
    rw [hr, List.append_nil]

/-- A character of the text ends after `n` bytes, or it starts there. -/
def IsBoundary (s : List Char) (n : ℕ) : Prop := ∃ p q, s = p ++ q ∧ size p = n

/-- `&s[..n]`: none where `n` is not a boundary of `s`, and the slice panics. -/
def sliceTo : List Char → ℕ → Option (List Char)
  | [], n => if n = 0 then some [] else none
  | c :: cs, n =>
    if n = 0 then some []
    else if c.utf8Size ≤ n then (sliceTo cs (n - c.utf8Size)).map (c :: ·)
    else none

/-- `&s[n..]`: none where `n` is not a boundary of `s`, and the slice panics. -/
def sliceFrom : List Char → ℕ → Option (List Char)
  | [], n => if n = 0 then some [] else none
  | c :: cs, n =>
    if n = 0 then some (c :: cs)
    else if c.utf8Size ≤ n then sliceFrom cs (n - c.utf8Size)
    else none

theorem sliceTo_append (p q : List Char) : sliceTo (p ++ q) (size p) = some p := by
  induction p with
  | nil =>
    cases q with
    | nil => rfl
    | cons c cs => exact if_pos rfl
  | cons c cs ih =>
    have hpos := c.utf8Size_pos
    have hne : size (c :: cs) ≠ 0 := by
      rw [size_cons]
      omega
    rw [List.cons_append, sliceTo, if_neg hne, size_cons, if_pos (Nat.le_add_right _ _),
      Nat.add_sub_cancel_left, ih]
    rfl

theorem sliceFrom_append (p q : List Char) : sliceFrom (p ++ q) (size p) = some q := by
  induction p with
  | nil =>
    cases q with
    | nil => rfl
    | cons c cs => exact if_pos rfl
  | cons c cs ih =>
    have hpos := c.utf8Size_pos
    have hne : size (c :: cs) ≠ 0 := by
      rw [size_cons]
      omega
    rw [List.cons_append, sliceFrom, if_neg hne, size_cons, if_pos (Nat.le_add_right _ _),
      Nat.add_sub_cancel_left, ih]

theorem sliceFrom_append_add (p q : List Char) (n : ℕ) :
    sliceFrom (p ++ q) (size p + n) = sliceFrom q n := by
  induction p with
  | nil => rw [size_nil, Nat.zero_add, List.nil_append]
  | cons c cs ih =>
    have hpos := c.utf8Size_pos
    have hne : size (c :: cs) + n ≠ 0 := by
      rw [size_cons]
      omega
    have hsub : size (c :: cs) + n - c.utf8Size = size cs + n := by
      rw [size_cons]
      omega
    rw [List.cons_append, sliceFrom, if_neg hne, hsub, ih, if_pos]
    rw [size_cons, Nat.add_assoc]
    exact Nat.le_add_right _ _

theorem sliceTo_isSome {s p : List Char} {n : ℕ} (h : sliceTo s n = some p) :
    ∃ q, s = p ++ q ∧ size p = n := by
  induction s generalizing n p with
  | nil =>
    simp only [sliceTo, Option.ite_none_right_eq_some] at h
    obtain ⟨rfl, h⟩ := h
    cases h
    exact ⟨[], rfl, rfl⟩
  | cons c cs ih =>
    rw [sliceTo] at h
    split at h
    next hn =>
      cases h
      exact ⟨c :: cs, rfl, hn.symm⟩
    next hn =>
      simp only [Option.ite_none_right_eq_some, Option.map_eq_some_iff] at h
      obtain ⟨hle, p', hp, rfl⟩ := h
      obtain ⟨q, rfl, hsize⟩ := ih hp
      exact ⟨q, rfl, by rw [size_cons, hsize]; omega⟩

/-- **The slice before `n` is the front with `n` bytes.** -/
theorem sliceTo_eq_some_iff {s p : List Char} {n : ℕ} :
    sliceTo s n = some p ↔ ∃ q, s = p ++ q ∧ size p = n := by
  constructor
  · exact sliceTo_isSome
  · rintro ⟨q, rfl, rfl⟩
    exact sliceTo_append p q

theorem sliceTo_isSome_iff {s : List Char} {n : ℕ} : (sliceTo s n).isSome ↔ IsBoundary s n := by
  rw [Option.isSome_iff_exists]
  exact exists_congr fun p => sliceTo_eq_some_iff

theorem sliceFrom_isSome_iff {s : List Char} {n : ℕ} : (sliceFrom s n).isSome ↔ IsBoundary s n := by
  -- both slices take the same steps
  rw [← sliceTo_isSome_iff]
  induction s generalizing n with
  | nil => rfl
  | cons c cs ih =>
    rw [sliceTo, sliceFrom]
    split
    · rfl
    · split
      · rw [Option.isSome_map]
        exact ih
      · rfl

/-- **The slice from `n` is the text behind the front with `n` bytes.** -/
theorem sliceFrom_eq_some_iff {s q : List Char} {n : ℕ} :
    sliceFrom s n = some q ↔ ∃ p, s = p ++ q ∧ size p = n := by
  constructor
  · intro h
    have hsome : (sliceFrom s n).isSome := by
      rw [h]
      rfl
    obtain ⟨p, q', rfl, rfl⟩ := sliceFrom_isSome_iff.mp hsome
    rw [sliceFrom_append] at h
    cases h
    exact ⟨p, rfl, rfl⟩
  · rintro ⟨p, rfl, rfl⟩
    exact sliceFrom_append p q

end Text
