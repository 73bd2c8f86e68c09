import Mathlib.Data.List.Nodup

/-!
# Tables with a primary key

A table is a list of rows in which no two rows share a key. Writing a row replaces the row of
its key, or adds it; a list of row versions is written one after the other, so the last version
of a key wins. The changes recorded along such a list remember, for each version written, the
version it replaced.

## Main definitions

* `Table key`: the rows of a table with primary key `key`
* `Table.get`, `Table.put`, `Table.erase`, `Table.putAll`: look up, write and delete rows
* `Change`, `Table.record`: a row version with the version it replaces, and the changes made by
  writing a list of versions

## Main results

* `Table.get_put`: a write is seen at its own key only
* `Table.record_putAll_of_disjoint`: writes at other keys leave the recorded changes as they are
* `Table.record_of_sublist`: writing a new version for each of some stored rows replaces these rows
* `Table.get_of_mem_record`: when no key is written twice, a change starts at the stored version
  and ends at the version stored afterwards
-/

namespace RowStore

variable {K V : Type} [DecidableEq K] {key : V → K}

/-- The rows of a table; the primary key is unique. -/
structure Table (key : V → K) where
  rows : List V
  nodup : (rows.map key).Nodup

/-- One row version written, with the version it replaces (`none` for a new row). -/
structure Change (V : Type) where
  old : Option V
  new : V
  deriving DecidableEq, Repr

/-- The versions written by a list of changes. -/
def news (cs : List (Change V)) : List V := cs.map Change.new

@[simp] theorem news_nil : news ([] : List (Change V)) = [] := rfl

@[simp] theorem news_cons (c : Change V) (cs : List (Change V)) :
    news (c :: cs) = c.new :: news cs := rfl

@[simp] theorem news_append (cs ds : List (Change V)) : news (cs ++ ds) = news cs ++ news ds :=
  List.map_append

theorem mem_news {cs : List (Change V)} {v : V} : v ∈ news cs ↔ ∃ c ∈ cs, c.new = v :=
  List.mem_map

/-- Replace the row with the key of `v`, or add `v` at the end. -/
def writeRow (key : V → K) (v : V) : List V → List V
  | [] => [v]
  | w :: ws => if key w = key v then v :: ws else w :: writeRow key v ws

theorem mem_writeRow {v w : V} {ws : List V} (h : w ∈ writeRow key v ws) : w = v ∨ w ∈ ws := by
  induction ws with
  | nil => exact .inl (by simpa [writeRow] using h)
  | cons a ws ih =>
    simp only [writeRow] at h
    split at h
    · rcases List.mem_cons.mp h with h | h
      · exact .inl h
      · exact .inr (List.mem_cons_of_mem _ h)
    · rcases List.mem_cons.mp h with h | h
      · exact .inr (h ▸ List.mem_cons_self)
      · exact (ih h).imp_right (List.mem_cons_of_mem _)

theorem nodup_writeRow (v : V) {ws : List V} (h : (ws.map key).Nodup) :
    ((writeRow key v ws).map key).Nodup := by
  induction ws with
  | nil => simp [writeRow]
  | cons a ws ih =>
    simp only [List.map_cons, List.nodup_cons] at h
    simp only [writeRow]
    split
    next he => simpa [← he] using h
    next he =>
      refine List.nodup_cons.mpr ⟨fun hm => ?_, ih h.2⟩
      obtain ⟨w, hw, hk⟩ := List.mem_map.mp hm
      rcases mem_writeRow hw with rfl | hw
      · exact he hk.symm
      · exact h.1 (List.mem_map.mpr ⟨w, hw, hk⟩)

theorem find?_writeRow (v : V) (ws : List V) (k : K) :
    (writeRow key v ws).find? (fun w => decide (key w = k)) =
      if key v = k then some v else ws.find? fun w => decide (key w = k) := by
  induction ws with
  | nil => by_cases hk : key v = k <;> simp [writeRow, hk]
  | cons a ws ih =>
    simp only [writeRow]
    by_cases ha : key a = key v
    · rw [if_pos ha]
      by_cases hk : key v = k
      · simp [hk]
      · have hak : key a ≠ k := fun h => hk (ha ▸ h)
        simp [hak, hk]
    · rw [if_neg ha]
      by_cases hak : key a = k
      · have hk : key v ≠ k := fun h => ha (hak.trans h.symm)
        simp [hak, hk]
      · simp [hak, ih]

theorem writeRow_append_of_notMem {v : V} {us : List V} (ws : List V)
    (h : ∀ u ∈ us, key u ≠ key v) : writeRow key v (us ++ ws) = us ++ writeRow key v ws := by
  induction us with
  | nil => rfl
  | cons u us ih =>
    rw [List.cons_append, writeRow, if_neg (h u List.mem_cons_self),
      ih fun x hx => h x (List.mem_cons_of_mem _ hx), List.cons_append]

/-- Writing a new version of every row that satisfies `p` changes these rows in place. -/
theorem foldl_writeRow_filter {p : V → Bool} {f : V → V} (hf : ∀ v, key (f v) = key v)
    (us ws : List V) (hn : ((us ++ ws).map key).Nodup) :
    ((ws.filter p).map f).foldl (fun ws v => writeRow key v ws) (us ++ ws) =
      us ++ ws.map fun v => if p v then f v else v := by
  induction ws generalizing us with
  | nil => rfl
  | cons w ws ih =>
    have hnext : ∀ w', key w' = key w → (((us ++ [w']) ++ ws).map key).Nodup := by
      intro w' hw'
      simpa [hw'] using hn
    by_cases hp : p w = true
    · have hnot : ∀ u ∈ us, key u ≠ key (f w) := by
        intro u hu heq
        rw [List.map_append, List.nodup_append] at hn
        exact hn.2.2 _ (List.mem_map_of_mem hu) _ (List.mem_map_of_mem List.mem_cons_self)
          (heq.trans (hf w))
      rw [List.filter_cons_of_pos hp, List.map_cons, List.foldl_cons,
        writeRow_append_of_notMem _ hnot, writeRow, if_pos (hf w).symm, List.append_cons,
        ih _ (hnext _ (hf w)), List.map_cons, if_pos hp, ← List.append_cons]
    · rw [List.filter_cons_of_neg hp, List.append_cons, ih _ (hnext w rfl), List.map_cons, if_neg hp,
        ← List.append_cons]

/-- A row that no longer satisfies `p` is missing from the rows that do. -/
theorem perm_filter_writeRow {v w : V} {ws : List V} {p : V → Bool} (hn : (ws.map key).Nodup)
    (hv : v ∈ ws) (hk : key w = key v) (hpv : p v = true) (hpw : p w = false) :
    (v :: (writeRow key w ws).filter p).Perm (ws.filter p) := by
  induction ws with
  | nil => cases hv
  | cons a ws ih =>
    simp only [List.map_cons, List.nodup_cons] at hn
    by_cases ha : key a = key w
    · obtain rfl : v = a := by
        rcases List.mem_cons.mp hv with rfl | hv
        · rfl
        · exact absurd (List.mem_map.mpr ⟨v, hv, hk.symm.trans ha.symm⟩) hn.1
      rw [writeRow, if_pos ha, List.filter_cons_of_neg (by simp [hpw]), List.filter_cons_of_pos hpv]
    · have hv' : v ∈ ws := by
        rcases List.mem_cons.mp hv with rfl | hv
        · exact absurd hk.symm ha
        · exact hv
      rw [writeRow, if_neg ha, List.filter_cons, List.filter_cons]
      split
      · exact (List.Perm.swap _ _ _).trans ((ih hn.2 hv').cons a)
      · exact ih hn.2 hv'

namespace Table

instance : EmptyCollection (Table key) := ⟨⟨[], List.nodup_nil⟩⟩

/-- The row stored at `k`. -/
def get (t : Table key) (k : K) : Option V := t.rows.find? fun v => decide (key v = k)

/-- Write the row version `v` at its key. -/
def put (t : Table key) (v : V) : Table key := ⟨writeRow key v t.rows, nodup_writeRow v t.nodup⟩

/-- Delete the row at `k`. -/
def erase (t : Table key) (k : K) : Table key :=
  ⟨t.rows.filter fun v => decide (key v ≠ k),
    List.Nodup.sublist (List.Sublist.map key List.filter_sublist) t.nodup⟩

/-- Keep the rows that satisfy `p`. -/
def filter (t : Table key) (p : V → Bool) : Table key :=
  ⟨t.rows.filter p, List.Nodup.sublist (List.Sublist.map key List.filter_sublist) t.nodup⟩

/-- Write row versions one after the other. -/
def putAll (t : Table key) (vs : List V) : Table key := vs.foldl put t

/-- The changes made by writing `vs` one after the other. -/
def record (t : Table key) : List V → List (Change V)
  | [] => []
  | v :: vs => ⟨t.get (key v), v⟩ :: record (t.put v) vs

omit [DecidableEq K] in
@[simp] theorem rows_empty : (∅ : Table key).rows = [] := rfl

@[simp] theorem get_empty (k : K) : (∅ : Table key).get k = none := rfl

@[simp] theorem putAll_nil (t : Table key) : t.putAll [] = t := rfl

@[simp] theorem putAll_cons (t : Table key) (v : V) (vs : List V) :
    t.putAll (v :: vs) = (t.put v).putAll vs := rfl

theorem putAll_append (t : Table key) (vs ws : List V) :
    t.putAll (vs ++ ws) = (t.putAll vs).putAll ws := List.foldl_append

@[simp] theorem record_nil (t : Table key) : t.record [] = [] := rfl

@[simp] theorem record_cons (t : Table key) (v : V) (vs : List V) :
    t.record (v :: vs) = ⟨t.get (key v), v⟩ :: (t.put v).record vs := rfl

theorem record_append (t : Table key) (vs ws : List V) :
    t.record (vs ++ ws) = t.record vs ++ (t.putAll vs).record ws := by
  induction vs generalizing t with
  | nil => rfl
  | cons v vs ih => simp [ih]

@[simp] theorem news_record (t : Table key) (vs : List V) : news (t.record vs) = vs := by
  induction vs generalizing t with
  | nil => rfl
  | cons v vs ih => simp [ih]

theorem rows_putAll (t : Table key) (vs : List V) :
    (t.putAll vs).rows = vs.foldl (fun ws v => writeRow key v ws) t.rows := by
  induction vs generalizing t with
  | nil => rfl
  | cons v vs ih => exact ih (t.put v)

/-- Writing a new version of every row that satisfies `p` changes these rows in place. -/
theorem rows_putAll_filter (t : Table key) {p : V → Bool} {f : V → V}
    (hf : ∀ v, key (f v) = key v) :
    (t.putAll ((t.rows.filter p).map f)).rows = t.rows.map fun v => if p v then f v else v := by
  rw [rows_putAll]
  exact foldl_writeRow_filter hf [] t.rows t.nodup

/-! ## Looking up -/

theorem get_eq_some {t : Table key} {k : K} {v : V} (h : t.get k = some v) :
    v ∈ t.rows ∧ key v = k :=
  ⟨List.mem_of_find?_eq_some h, by simpa using List.find?_some h⟩

omit [DecidableEq K] in
/-- A row is known by its key. -/
theorem eq_of_key_eq {t : Table key} {v w : V} (hv : v ∈ t.rows) (hw : w ∈ t.rows)
    (h : key v = key w) : v = w :=
  List.inj_on_of_nodup_map t.nodup hv hw h

omit [DecidableEq K] in
/-- Of elements with distinct keys, a condition that only one can meet selects this one. -/
theorem filter_eq_singleton {vs : List V} (hn : (vs.map key).Nodup) {v : V} {p : V → Bool}
    (hv : v ∈ vs) (hp : p v = true) (hone : ∀ w ∈ vs, p w = true → key w = key v) :
    vs.filter p = [v] := by
  have hall : ∀ w ∈ vs.filter p, w = v := fun w hw =>
    List.inj_on_of_nodup_map hn (List.mem_filter.mp hw).1 hv
      (hone w (List.mem_filter.mp hw).1 (List.mem_filter.mp hw).2)
  have hmem : v ∈ vs.filter p := List.mem_filter.mpr ⟨hv, hp⟩
  have hnodup : (vs.filter p).Nodup := (List.Nodup.of_map key hn).filter p
  generalize vs.filter p = ws at hall hmem hnodup
  match ws with
  | [w] => rw [hall w List.mem_cons_self]
  | w :: w' :: ws =>
    have hw := hall w List.mem_cons_self
    have hw' := hall w' (List.mem_cons_of_mem _ List.mem_cons_self)
    rw [hw, hw'] at hnodup
    exact absurd List.mem_cons_self (List.nodup_cons.mp hnodup).1

omit [DecidableEq K] in
/-- A condition only one row can meet selects this row. -/
theorem filter_rows_eq_singleton {t : Table key} {v : V} {p : V → Bool} (hv : v ∈ t.rows)
    (hp : p v = true) (hone : ∀ w ∈ t.rows, p w = true → key w = key v) : t.rows.filter p = [v] :=
  filter_eq_singleton t.nodup hv hp hone

/-- A table whose rows are those of `t`, each in a new version. -/
theorem get_of_rows_map {t u : Table key} {f : V → V} (hf : ∀ v, key (f v) = key v)
    (h : u.rows = t.rows.map f) (k : K) : u.get k = (t.get k).map f := by
  rw [get, get, h, List.find?_map]
  congr 2
  ext v
  exact congrArg (fun k' => decide (k' = k)) (hf v)

theorem get_key_of_mem {t : Table key} {v : V} (h : v ∈ t.rows) : t.get (key v) = some v := by
  obtain ⟨w, hw⟩ : ∃ w, t.get (key v) = some w := by
    rw [← Option.isSome_iff_exists, get, List.find?_isSome]
    exact ⟨v, h, by simp⟩
  obtain ⟨hm, hk⟩ := get_eq_some hw
  rw [hw, eq_of_key_eq hm h hk]

theorem mem_rows_iff {t : Table key} {v : V} : v ∈ t.rows ↔ t.get (key v) = some v :=
  ⟨get_key_of_mem, fun h => (get_eq_some h).1⟩

theorem get_eq_none_iff {t : Table key} {k : K} : t.get k = none ↔ ∀ v ∈ t.rows, key v ≠ k := by
  simp [get]

theorem get_put (t : Table key) (v : V) (k : K) :
    (t.put v).get k = if key v = k then some v else t.get k := find?_writeRow v t.rows k

@[simp] theorem get_put_self (t : Table key) (v : V) : (t.put v).get (key v) = some v := by
  simp [get_put]

theorem get_put_ne (t : Table key) {v : V} {k : K} (h : key v ≠ k) : (t.put v).get k = t.get k := by
  simp [get_put, h]

theorem mem_erase {t : Table key} {k : K} {v : V} :
    v ∈ (t.erase k).rows ↔ v ∈ t.rows ∧ key v ≠ k := by
  simp [erase]

omit [DecidableEq K] in
theorem rows_filter (t : Table key) (p : V → Bool) : (t.filter p).rows = t.rows.filter p := rfl

omit [DecidableEq K] in
theorem mem_filter {t : Table key} {p : V → Bool} {v : V} :
    v ∈ (t.filter p).rows ↔ v ∈ t.rows ∧ p v = true := List.mem_filter

theorem mem_put {t : Table key} {v w : V} :
    w ∈ (t.put v).rows ↔ w = v ∨ w ∈ t.rows ∧ key v ≠ key w := by
  rw [mem_rows_iff, get_put]
  split
  next h =>
    constructor
    · intro hs
      exact .inl (Option.some.inj hs).symm
    · rintro (rfl | ⟨-, hne⟩)
      · rfl
      · exact absurd h hne
  next h =>
    rw [← mem_rows_iff]
    constructor
    · exact fun hw => .inr ⟨hw, h⟩
    · rintro (rfl | ⟨hw, -⟩)
      · exact absurd rfl h
      · exact hw

theorem mem_putAll {t : Table key} {vs : List V} {w : V} (h : w ∈ (t.putAll vs).rows) :
    w ∈ vs ∨ w ∈ t.rows ∧ ∀ v ∈ vs, key v ≠ key w := by
  induction vs generalizing t with
  | nil => exact .inr ⟨h, by simp⟩
  | cons v vs ih =>
    rcases ih h with hw | ⟨hw, hne⟩
    · exact .inl (List.mem_cons_of_mem _ hw)
    · rcases mem_put.mp hw with rfl | ⟨hw, hv⟩
      · exact .inl List.mem_cons_self
      · exact .inr ⟨hw, List.forall_mem_cons.mpr ⟨hv, hne⟩⟩

theorem get_putAll_of_notMem (t : Table key) {vs : List V} {k : K} (h : ∀ v ∈ vs, key v ≠ k) :
    (t.putAll vs).get k = t.get k := by
  induction vs generalizing t with
  | nil => rfl
  | cons v vs ih =>
    rw [putAll_cons, ih _ fun w hw => h w (List.mem_cons_of_mem _ hw),
      get_put_ne t (h v List.mem_cons_self)]

theorem mem_putAll_of_notMem {t : Table key} {vs : List V} {w : V} (hw : w ∈ t.rows)
    (h : ∀ v ∈ vs, key v ≠ key w) : w ∈ (t.putAll vs).rows := by
  rw [mem_rows_iff, get_putAll_of_notMem t h]
  exact get_key_of_mem hw

theorem get_putAll_isSome (t : Table key) (vs : List V) {k : K} (h : (t.get k).isSome) :
    ((t.putAll vs).get k).isSome := by
  induction vs generalizing t with
  | nil => exact h
  | cons v vs ih =>
    apply ih _
    rw [get_put]
    split
    · rfl
    · exact h

/-- Two tables that agree at the keys written agree there after writing as well. -/
theorem get_putAll_congr {t u : Table key} (vs : List V) {k : K} (h : t.get k = u.get k) :
    (t.putAll vs).get k = (u.putAll vs).get k := by
  induction vs generalizing t u with
  | nil => exact h
  | cons v vs ih => exact ih (by rw [get_put, get_put, h])

theorem get_putAll_of_mem (t u : Table key) {vs : List V} {k : K} (h : ∃ v ∈ vs, key v = k) :
    (t.putAll vs).get k = (u.putAll vs).get k := by
  induction vs generalizing t u with
  | nil => obtain ⟨v, hv, -⟩ := h; cases hv
  | cons v vs ih =>
    by_cases hv : key v = k
    · exact get_putAll_congr vs (by rw [get_put, get_put, if_pos hv, if_pos hv])
    · obtain ⟨w, hw, hk⟩ := h
      rcases List.mem_cons.mp hw with rfl | hw
      · exact absurd hk hv
      · exact ih _ _ ⟨w, hw, hk⟩

/-- A row written stays in the table, in its last version. -/
theorem exists_mem_putAll (t : Table key) {vs : List V} {v : V} (h : v ∈ vs) :
    ∃ w ∈ (t.putAll vs).rows, key w = key v := by
  have hs : ((t.putAll vs).get (key v)).isSome := by
    obtain ⟨us, ws, rfl⟩ := List.append_of_mem h
    rw [putAll_append, putAll_cons]
    exact get_putAll_isSome _ _ (by simp)
  obtain ⟨w, hw⟩ := Option.isSome_iff_exists.mp hs
  obtain ⟨hm, hk⟩ := get_eq_some hw
  exact ⟨w, hm, hk⟩

/-! ## Recorded changes -/

theorem mem_record_key {t : Table key} {vs : List V} {c : Change V} (h : c ∈ t.record vs) :
    c.new ∈ vs := by
  have hm := mem_news.mpr ⟨c, h, rfl⟩
  rwa [news_record] at hm

theorem record_congr {t u : Table key} {vs : List V} (h : ∀ v ∈ vs, t.get (key v) = u.get (key v)) :
    t.record vs = u.record vs := by
  induction vs generalizing t u with
  | nil => rfl
  | cons v vs ih =>
    rw [record_cons, record_cons, h v List.mem_cons_self]
    congr 1
    exact ih fun w hw => by
      rw [get_put, get_put, h w (List.mem_cons_of_mem _ hw)]

/-- Writes at other keys leave the recorded changes as they are. -/
theorem record_putAll_of_disjoint (t : Table key) {vs ws : List V}
    (h : ∀ v ∈ vs, ∀ w ∈ ws, key w ≠ key v) : (t.putAll ws).record vs = t.record vs :=
  record_congr fun v hv => get_putAll_of_notMem t (h v hv)

/-- When no key is written twice, a change starts at the stored version of its row and ends at
the version stored afterwards. -/
theorem get_of_mem_record {t : Table key} {vs : List V} (hn : (vs.map key).Nodup) {c : Change V}
    (h : c ∈ t.record vs) :
    t.get (key c.new) = c.old ∧ (t.putAll vs).get (key c.new) = some c.new := by
  induction vs generalizing t with
  | nil => cases h
  | cons v vs ih =>
    simp only [List.map_cons, List.nodup_cons] at hn
    have hv : ∀ w ∈ vs, key w ≠ key v := fun w hw he =>
      hn.1 (List.mem_map.mpr ⟨w, hw, he⟩)
    rcases List.mem_cons.mp h with rfl | h
    · exact ⟨rfl, by rw [putAll_cons, get_putAll_of_notMem _ hv, get_put_self]⟩
    · obtain ⟨h₁, h₂⟩ := ih hn.2 h
      refine ⟨?_, h₂⟩
      rwa [get_put_ne _ (hv _ (mem_record_key h)).symm] at h₁

/-- Writing one new version for each of some stored rows replaces exactly these rows. -/
theorem record_of_sublist (t : Table key) {rs vs : List V} (hs : rs.Sublist t.rows)
    (h : List.Forall₂ (fun r v => key v = key r) rs vs) :
    t.record vs = List.zipWith (fun r v => ⟨some r, v⟩) rs vs := by
  have hn : (rs.map key).Nodup := t.nodup.sublist (hs.map key)
  have hm : ∀ r ∈ rs, t.get (key r) = some r := fun r hr => get_key_of_mem (hs.subset hr)
  clear hs
  induction h generalizing t with
  | nil => rfl
  | @cons r v rs vs hk h ih =>
    simp only [List.map_cons, List.nodup_cons] at hn
    rw [record_cons, List.zipWith_cons_cons, hk, hm r List.mem_cons_self]
    congr 1
    apply ih (t.put v) hn.2
    intro w hw
    rw [get_put_ne]
    · exact hm w (List.mem_cons_of_mem _ hw)
    · intro he
      exact hn.1 (hk ▸ he ▸ List.mem_map_of_mem hw)

end Table

end RowStore
