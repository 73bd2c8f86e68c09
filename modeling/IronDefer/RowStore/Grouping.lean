import Mathlib.Data.List.Dedup
import Mathlib.Data.List.Perm.Subperm
import Mathlib.Algebra.BigOperators.Group.List.Lemmas
import Mathlib.Algebra.Ring.Nat

/-!
# Grouping rows

`GROUP BY` makes one group of the rows that have the same key. A count over all rows is the sum of
the counts of the groups, provided that no row that counts is in a group which is left out. A count
of distinct values is not: it is at most the sum, and at least the count of each group.

## Main definitions

* `groupBy`: the groups, each with its key
* `distinct`: the number of distinct values of the rows that have one

## Main results

* `mem_groupBy`: the groups, by their keys
* `countP_balance`: what balances for every key balances altogether
* `sum_countP_filter`: **the counts of some groups sum up to the count of their rows**
* `distinct_mono`, `distinct_le_sum_filter`: **distinct values, between the groups and their sum**
-/

namespace RowStore

variable {α β κ : Type} [DecidableEq β] [DecidableEq κ]

/-- `GROUP BY f`: a group for each key of the rows. -/
def groupBy (f : α → κ) (xs : List α) : List (κ × List α) :=
  (xs.map f).dedup.map fun k => (k, xs.filter fun x => decide (f x = k))

/-- `COUNT(DISTINCT g)`: rows without a value do not count. -/
def distinct (g : α → Option β) (xs : List α) : ℕ := (xs.filterMap g).dedup.length

section Groups

variable {f : α → κ} {xs : List α} {k : κ} {g : List α}

theorem mem_groupBy :
    (k, g) ∈ groupBy f xs ↔ (∃ x ∈ xs, f x = k) ∧ g = xs.filter fun x => decide (f x = k) := by
  unfold groupBy
  rw [List.mem_map]
  constructor
  · rintro ⟨k', hk, heq⟩
    cases heq
    exact ⟨List.mem_map.mp (List.mem_dedup.mp hk), rfl⟩
  · rintro ⟨hk, rfl⟩
    exact ⟨k, List.mem_dedup.mpr (List.mem_map.mpr hk), rfl⟩

theorem keys_groupBy (f : α → κ) (xs : List α) :
    (groupBy f xs).map Prod.fst = (xs.map f).dedup := by
  unfold groupBy
  rw [List.map_map]
  exact List.map_id _

/-- No key has two groups. -/
theorem nodup_keys_groupBy (f : α → κ) (xs : List α) : ((groupBy f xs).map Prod.fst).Nodup := by
  rw [keys_groupBy]
  exact List.nodup_dedup _

/-- A group of a key has the rows of the key. -/
theorem group_eq (h : (k, g) ∈ groupBy f xs) : g = xs.filter fun x => decide (f x = k) :=
  (mem_groupBy.mp h).2

/-- Keys that are written in another way make the same groups. -/
theorem groupBy_comp {κ' : Type} [DecidableEq κ'] {φ : κ → κ'} (hφ : Function.Injective φ)
    (f : α → κ) (xs : List α) :
    groupBy (fun x => φ (f x)) xs = (groupBy f xs).map fun g => (φ g.1, g.2) := by
  have hkeys : xs.map (fun x => φ (f x)) = (xs.map f).map φ := by
    rw [List.map_map]
    rfl
  unfold groupBy
  rw [hkeys, List.dedup_map_of_injective hφ, List.map_map, List.map_map]
  apply List.map_congr_left
  intro k _
  simp only [Function.comp_apply, hφ.eq_iff]

end Groups

/-! ## Counts -/

section Counts

variable {f : α → κ} {p : α → Bool} {ks : List κ} {xs : List α}

/-- Among distinct keys, one is the key of a row, if any is. -/
theorem sum_ite_key (hks : ks.Nodup) {k : κ} (hk : k ∈ ks) :
    (ks.map fun k' => if k = k' then 1 else 0).sum = 1 := by
  rw [List.sum_map_eq_nsmul_single k _ fun k' hne _ => if_neg (Ne.symm hne),
    List.count_eq_one_of_mem hks hk, if_pos rfl]
  rfl

/-- **The counts of the groups sum up to the count of the rows**, by induction on the rows. -/
theorem sum_countP_keys (hks : ks.Nodup) (hcover : ∀ x ∈ xs, p x = true → f x ∈ ks) :
    (ks.map fun k => (xs.filter fun x => decide (f x = k)).countP p).sum = xs.countP p := by
  induction xs with
  | nil => simp
  | cons x xs ih =>
    have hrest := ih fun y hy => hcover y (List.mem_cons_of_mem x hy)
    -- a row that counts is in one of the groups
    have hrow : (ks.map fun k => if (p x && decide (f x = k)) = true then 1 else 0).sum =
        if p x = true then 1 else 0 := by
      cases hp : p x with
      | true =>
        rw [if_pos rfl]
        simp only [Bool.true_and, decide_eq_true_eq]
        exact sum_ite_key hks (hcover x List.mem_cons_self hp)
      | false => simp
    have hgroup : ∀ k, ((x :: xs).filter fun y => decide (f y = k)).countP p =
        (xs.filter fun y => decide (f y = k)).countP p +
          if (p x && decide (f x = k)) = true then 1 else 0 := by
      intro k
      rw [List.countP_filter, List.countP_filter, List.countP_cons]
    simp only [hgroup]
    rw [List.sum_map_add, hrest, hrow, List.countP_cons]

/-- The weights of the elements that count. -/
theorem sum_weights (n : ℕ) (p : α → Bool) (xs : List α) :
    (xs.map fun x => if p x = true then n else 0).sum = n * xs.countP p := by
  induction xs with
  | nil => rfl
  | cons x xs ih =>
    rw [List.map_cons, List.sum_cons, ih, List.countP_cons, Nat.mul_add, Nat.add_comm]
    split <;> simp

omit [DecidableEq β] in
/-- **What balances for every key balances altogether**: entries that are counted twice, as they
come in and as they go out, differ by the rows that are there. -/
theorem countP_balance {key : β → κ} {f : α → κ} {rows : List β} {xs : List α}
    {entering leaving : α → Bool} {there : β → Bool} (hkeys : (rows.map key).Nodup)
    (hcover : ∀ x ∈ xs, f x ∈ rows.map key)
    (h : ∀ r ∈ rows, (xs.filter fun x => decide (f x = key r)).countP entering =
      (xs.filter fun x => decide (f x = key r)).countP leaving + if there r = true then 1 else 0) :
    xs.countP entering = xs.countP leaving + rows.countP there := by
  rw [← sum_countP_keys hkeys fun x hx _ => hcover x hx,
    ← sum_countP_keys hkeys fun x hx _ => hcover x hx,
    ← Nat.one_mul (rows.countP there), ← sum_weights, List.map_map, List.map_map, ← List.sum_map_add]
  exact congrArg List.sum (List.map_congr_left h)

/-- The group of a row. -/
def groupOf (f : α → κ) (xs : List α) (x : α) : κ × List α :=
  (f x, xs.filter fun y => decide (f y = f x))

theorem groupOf_mem {x : α} (hx : x ∈ xs) : groupOf f xs x ∈ groupBy f xs :=
  mem_groupBy.mpr ⟨⟨x, hx, rfl⟩, rfl⟩

theorem eq_groupOf {g : κ × List α} (hg : g ∈ groupBy f xs) {x : α} (hx : f x = g.1) :
    g = groupOf f xs x := by
  rw [groupOf, hx, ← group_eq hg]

theorem nodup_keys_filter (P : κ × List α → Bool) :
    (((groupBy f xs).filter P).map Prod.fst).Nodup :=
  (nodup_keys_groupBy f xs).sublist (List.filter_sublist.map _)

/-- **The counts of some groups sum up to the count of the rows that are in these groups.** -/
theorem sum_countP_filter (P : κ × List α → Bool) (p : α → Bool) :
    (((groupBy f xs).filter P).map fun g => g.2.countP p).sum =
      xs.countP fun x => p x && P (groupOf f xs x) := by
  rw [← sum_countP_keys (nodup_keys_filter P) (f := f), List.map_map]
  · congr 1
    apply List.map_congr_left
    intro g hg
    obtain ⟨hg, hP⟩ := List.mem_filter.mp hg
    rw [Function.comp_apply, ← group_eq hg]
    -- every row of the group is in a group that has been chosen
    apply List.countP_congr
    intro x hx
    have hkey : f x = g.1 := by
      rw [group_eq hg] at hx
      exact of_decide_eq_true (List.mem_filter.mp hx).2
    rw [← eq_groupOf hg hkey, hP, Bool.and_true]
  · intro x hx hp
    refine List.mem_map.mpr ⟨groupOf f xs x, List.mem_filter.mpr ⟨groupOf_mem hx, ?_⟩, rfl⟩
    exact (Bool.and_eq_true_iff.mp hp).2

end Counts

/-! ## Distinct values -/

section Distinct

variable {f : α → κ} {v : α → Option β} {ks : List κ} {xs ys : List α}

/-- There are as many distinct values, or more, where the rows that have a value are among the
others. -/
theorem distinct_mono (h : ∀ x ∈ xs, (v x).isSome = true → x ∈ ys) :
    distinct v xs ≤ distinct v ys := by
  have hsub : (xs.filterMap v).dedup ⊆ (ys.filterMap v).dedup := by
    intro b hb
    obtain ⟨x, hx, hv⟩ := List.mem_filterMap.mp (List.mem_dedup.mp hb)
    have hy : x ∈ ys := h x hx (by rw [hv]; rfl)
    exact List.mem_dedup.mpr (List.mem_filterMap.mpr ⟨x, hy, hv⟩)
  exact ((List.nodup_dedup _).subperm hsub).length_le

/-- **Distinct values are at most those of the groups together.** -/
theorem distinct_le_sum_keys (hcover : ∀ x ∈ xs, (v x).isSome = true → f x ∈ ks) :
    distinct v xs ≤ (ks.map fun k => distinct v (xs.filter fun x => decide (f x = k))).sum := by
  -- the values of the groups, one group after the other
  have hsub : (xs.filterMap v).dedup ⊆
      ks.flatMap fun k => ((xs.filter fun x => decide (f x = k)).filterMap v).dedup := by
    intro b hb
    obtain ⟨x, hx, hv⟩ := List.mem_filterMap.mp (List.mem_dedup.mp hb)
    have hk : f x ∈ ks := hcover x hx (by rw [hv]; rfl)
    refine List.mem_flatMap.mpr ⟨f x, hk, List.mem_dedup.mpr (List.mem_filterMap.mpr ⟨x, ?_, hv⟩)⟩
    exact List.mem_filter.mpr ⟨hx, decide_eq_true rfl⟩
  have hle := ((List.nodup_dedup _).subperm hsub).length_le
  rw [List.length_flatMap] at hle
  exact hle

/-- **Distinct values of the rows in some groups are at most those of the groups together.** -/
theorem distinct_le_sum_filter (P : κ × List α → Bool) :
    distinct v (xs.filter fun x => P (groupOf f xs x)) ≤
      (((groupBy f xs).filter P).map fun g => distinct v g.2).sum := by
  have hcover : ∀ x ∈ xs.filter fun x => P (groupOf f xs x), (v x).isSome = true →
      f x ∈ ((groupBy f xs).filter P).map Prod.fst := by
    intro x hx _
    obtain ⟨hx, hP⟩ := List.mem_filter.mp hx
    exact List.mem_map.mpr ⟨groupOf f xs x, List.mem_filter.mpr ⟨groupOf_mem hx, hP⟩, rfl⟩
  refine (distinct_le_sum_keys hcover).trans (Nat.le_of_eq ?_)
  rw [List.map_map]
  congr 1
  apply List.map_congr_left
  intro g hg
  obtain ⟨hg, hP⟩ := List.mem_filter.mp hg
  rw [Function.comp_apply, List.filter_filter]
  congr 1
  rw [group_eq hg]
  apply List.filter_congr
  intro x hx
  by_cases hkey : f x = g.1
  · rw [← eq_groupOf hg hkey, hP, Bool.and_true]
  · rw [decide_eq_false hkey, Bool.false_and]

end Distinct

end RowStore
