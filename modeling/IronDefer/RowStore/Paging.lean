import Mathlib.Data.List.Sort

/-!
# Reading a list page by page

A client asks for a page at an offset, and goes on where the page it has got ends, until the total
that the page reports is reached. It gets the list once, provided that each page is the part of the
list it says it is.

## Main definitions

* `Page`: a part of a list, as it is reported
* `Page.Of`: the page is the part of the list that it reports
* `Reads`: the pages a client gets
* `PagesOf`: the replies are pages of a list
* `ReadsOn`, `PagesAt`: a client reads a list that goes on growing, and what a page tells of it

## Main results

* `Reads.covers`: **the client gets the rest of the list, once**
* `PagesOf.reads_all`: it comes to an end, with the whole list
* `ReadsOn.sees`: **a list that grows between the pages hides nothing from the client**
-/

namespace RowStore

variable {α E : Type}

/-- A page: some items, how many there are in all, and the limit and the offset it has been read
with. -/
structure Page (α : Type) where
  items : List α
  total : ℕ
  limit : ℕ
  offset : ℕ

/-- The page is the part of the list that it reports. -/
structure Page.Of (xs : List α) (page : Page α) : Prop where
  items : page.items = (xs.drop page.offset).take page.limit
  total : page.total = xs.length

/-- The pages a client gets from an offset on. -/
inductive Reads (get : ℕ → Except E (Page α)) : ℕ → List (Page α) → Prop
  | last {offset page} : get offset = .ok page → page.total ≤ page.offset + page.limit →
      Reads get offset [page]
  | more {offset page pages} : get offset = .ok page → page.offset + page.limit < page.total →
      Reads get (page.offset + page.limit) pages → Reads get offset (page :: pages)

/-- Within the list, the pages are the parts that have been asked for, and none of them is empty. -/
def PagesOf (xs : List α) (get : ℕ → Except E (Page α)) : Prop :=
  ∀ offset, offset = 0 ∨ offset < xs.length →
    ∃ page, get offset = .ok page ∧ page.Of xs ∧ page.offset = offset ∧ 0 < page.limit

variable {get : ℕ → Except E (Page α)} {offset : ℕ} {pages : List (Page α)} {xs : List α}

theorem Reads.exists_first (h : Reads get offset pages) :
    ∃ page ∈ pages, get offset = .ok page := by
  cases h with
  | last hget => exact ⟨_, List.mem_cons_self, hget⟩
  | more hget => exact ⟨_, List.mem_cons_self, hget⟩

/-- **The client gets the rest of the list, once**, by induction on the pages. -/
theorem Reads.covers (hget : PagesOf xs get) (h : Reads get offset pages)
    (hoffset : offset = 0 ∨ offset < xs.length) :
    pages.flatMap Page.items = xs.drop offset ∧ ∀ page ∈ pages, page.total = xs.length := by
  induction h with
  | @last offset page hok hend =>
    obtain ⟨page', hok', hpage, rfl, -⟩ := hget _ hoffset
    obtain rfl := Except.ok.inj (hok'.symm.trans hok)
    -- the page reaches the end of the list
    have hshort : (xs.drop page'.offset).length ≤ page'.limit := by
      rw [List.length_drop, ← hpage.total]
      omega
    constructor
    · rw [List.flatMap_singleton, hpage.items, List.take_of_length_le hshort]
    · intro p hp
      rw [List.mem_singleton.mp hp]
      exact hpage.total
  | @more offset page pages hok hmore _ ih =>
    obtain ⟨page', hok', hpage, rfl, -⟩ := hget _ hoffset
    obtain rfl := Except.ok.inj (hok'.symm.trans hok)
    obtain ⟨hitems, htotal⟩ := ih (.inr (hpage.total ▸ hmore))
    constructor
    -- the next page starts where this one ends
    · rw [List.flatMap_cons, hpage.items, hitems, ← List.drop_drop, List.take_append_drop]
    · intro p hp
      rcases List.mem_cons.mp hp with rfl | hp
      · exact hpage.total
      · exact htotal p hp

/-- The client comes to an end, by induction on what is left. -/
theorem PagesOf.exists_reads (hget : PagesOf xs get) :
    ∀ offset, offset = 0 ∨ offset < xs.length → ∃ pages, Reads get offset pages := by
  intro offset hoffset
  induction hleft : xs.length - offset using Nat.strongRecOn generalizing offset with
  | _ left ih =>
    obtain ⟨page, hok, hpage, rfl, hlimit⟩ := hget offset hoffset
    by_cases hmore : page.offset + page.limit < page.total
    · have hnext : page.offset + page.limit < xs.length := hpage.total ▸ hmore
      obtain ⟨pages, hpages⟩ := ih (xs.length - (page.offset + page.limit)) (by omega)
        (page.offset + page.limit) (.inr hnext) rfl
      exact ⟨page :: pages, .more hok hmore hpages⟩
    · exact ⟨[page], .last hok (Nat.not_lt.mp hmore)⟩

/-- **A client that starts at the beginning gets the whole list, once, and the same total on each
page.** -/
theorem PagesOf.reads_all (hget : PagesOf xs get) :
    ∃ pages, Reads get 0 pages ∧ pages.flatMap Page.items = xs ∧
      ∀ page ∈ pages, page.total = xs.length := by
  obtain ⟨pages, hreads⟩ := hget.exists_reads 0 (.inl rfl)
  exact ⟨pages, hreads, hreads.covers hget (.inl rfl)⟩

/-! ## A list that grows

Items may come in anywhere between two pages, before the place that has been reached or after it. An
item that is there already is moved back by them, never forward, so that the pages meet it. -/

section Growing

variable {σ κ : Type} {later : σ → σ → Prop} {read : σ → ℕ → Except E (Page α)} {key : α → κ}
  {keys : σ → List κ} {s s' : σ}

/-- The pages a client gets from an offset on, each of them read later than the one before. -/
inductive ReadsOn (later : σ → σ → Prop) (read : σ → ℕ → Except E (Page α)) :
    σ → ℕ → List (Page α) → Prop
  | last {s s' offset page} : later s s' → read s' offset = .ok page →
      page.total ≤ page.offset + page.limit → ReadsOn later read s offset [page]
  | more {s s' offset page pages} : later s s' → read s' offset = .ok page →
      page.offset + page.limit < page.total →
      ReadsOn later read s' (page.offset + page.limit) pages →
      ReadsOn later read s offset (page :: pages)

/-- A page read at `s` is a part of the list there, from an offset that is not beyond the one asked
for, and where it tells that it is the last, it is. -/
structure PagesAt (read : σ → ℕ → Except E (Page α)) (key : α → κ) (keys : σ → List κ) (s : σ) :
    Prop where
  offset_le : ∀ {offset page}, read s offset = .ok page → page.offset ≤ offset
  items : ∀ {offset page}, read s offset = .ok page →
    page.items.map key = ((keys s).drop page.offset).take page.limit
  ends : ∀ {offset page}, read s offset = .ok page → page.total ≤ page.offset + page.limit →
    (keys s).length ≤ page.offset + page.limit

variable [DecidableEq κ]

/-- Nothing in a list is moved forward by what comes in. -/
theorem idxOf_le_of_sublist {xs ys : List κ} (h : xs.Sublist ys) (hn : ys.Nodup) {k : κ}
    (hk : k ∈ xs) : xs.idxOf k ≤ ys.idxOf k := by
  induction h with
  | slnil => cases hk
  | @cons xs ys y h ih =>
    obtain ⟨hy, hn⟩ := List.nodup_cons.mp hn
    have hne : y ≠ k := fun heq => hy (heq ▸ h.subset hk)
    rw [List.idxOf_cons_ne _ hne]
    exact Nat.le_succ_of_le (ih hn hk)
  | @cons_cons xs ys y h ih =>
    obtain ⟨-, hn⟩ := List.nodup_cons.mp hn
    by_cases heq : y = k
    · rw [List.idxOf_cons_eq _ heq]
      exact Nat.zero_le _
    · rw [List.idxOf_cons_ne _ heq, List.idxOf_cons_ne _ heq]
      exact Nat.succ_le_succ (ih hn ((List.mem_cons.mp hk).resolve_left (Ne.symm heq)))

/-- What is sorted by its keys, which are different, stays in its order where more comes in. -/
theorem sublist_map_insertionSort {α κ : Type} [LinearOrder κ] {f : α → κ} {r : α → α → Prop}
    [DecidableRel r] (hr : ∀ x y, r x y ↔ f x ≤ f y) {xs ys : List α} (hn : (xs.map f).Nodup)
    (hsub : xs.map f ⊆ ys.map f) :
    ((xs.insertionSort r).map f).Sublist ((ys.insertionSort r).map f) := by
  have hmap : ∀ zs : List α, (zs.insertionSort r).map f = (zs.map f).insertionSort (· ≤ ·) :=
    fun zs => List.map_insertionSort _ _ f zs fun x _ y _ => hr x y
  rw [hmap, hmap]
  apply List.sublist_insertionSort' (List.pairwise_insertionSort _ _)
  exact (List.perm_insertionSort _ _).subperm.trans (List.subperm_of_subset hn hsub)

/-- An item is on the page that covers its place. -/
theorem mem_take_drop {xs : List κ} {k : κ} (hk : k ∈ xs) {offset limit : ℕ}
    (hle : offset ≤ xs.idxOf k) (hlt : xs.idxOf k < offset + limit) :
    k ∈ (xs.drop offset).take limit := by
  have hlen : xs.idxOf k < xs.length := List.idxOf_lt_length_of_mem hk
  refine List.mem_iff_getElem?.mpr ⟨xs.idxOf k - offset, ?_⟩
  rw [List.getElem?_take_of_lt (by omega), List.getElem?_drop, Nat.add_sub_cancel' hle,
    List.getElem?_eq_getElem hlen, List.getElem_idxOf]

/-- **A list that grows between the pages hides nothing from the client**: all that is there when it
begins, from its offset on, is on one of its pages when it has come to an end. By induction on the
pages: what it has not got yet is at its offset or beyond. -/
theorem ReadsOn.sees {I : σ → Prop} {offset : ℕ} {pages : List (Page α)}
    (h : ReadsOn later read s offset pages)
    (hlater : ∀ {s s'}, I s → later s s' →
      I s' ∧ (keys s).Sublist (keys s') ∧ (keys s').Nodup ∧ PagesAt read key keys s')
    (hs : I s) {k : κ} (hk : k ∈ keys s) (hoffset : offset ≤ (keys s).idxOf k) :
    ∃ page ∈ pages, k ∈ page.items.map key ∧ ∃ s' offset, I s' ∧ read s' offset = .ok page := by
  induction h with
  | @last s s' offset page hl hok hend =>
    obtain ⟨hs', hsub, hn, hpages⟩ := hlater hs hl
    have hle := idxOf_le_of_sublist hsub hn hk
    have hlt : (keys s').idxOf k < (keys s').length :=
      List.idxOf_lt_length_of_mem (hsub.subset hk)
    refine ⟨page, List.mem_cons_self, ?_, s', offset, hs', hok⟩
    rw [hpages.items hok]
    exact mem_take_drop (hsub.subset hk)
      (Nat.le_trans (hpages.offset_le hok) (Nat.le_trans hoffset hle))
      (Nat.lt_of_lt_of_le hlt (hpages.ends hok hend))
  | @more s s' offset page pages hl hok _ _ ih =>
    obtain ⟨hs', hsub, hn, hpages⟩ := hlater hs hl
    have hle := idxOf_le_of_sublist hsub hn hk
    by_cases hlt : (keys s').idxOf k < page.offset + page.limit
    · refine ⟨page, List.mem_cons_self, ?_, s', offset, hs', hok⟩
      rw [hpages.items hok]
      exact mem_take_drop (hsub.subset hk)
        (Nat.le_trans (hpages.offset_le hok) (Nat.le_trans hoffset hle)) hlt
    · obtain ⟨p, hp, hkp⟩ := ih hs' (hsub.subset hk) (Nat.not_lt.mp hlt)
      exact ⟨p, List.mem_cons_of_mem _ hp, hkp⟩

end Growing

end RowStore
