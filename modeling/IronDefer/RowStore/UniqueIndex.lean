import IronDefer.RowStore.Sessions

/-!
# Unique indexes

A unique index gives some rows a value, and no two rows may share one. A statement may not write
two clashing rows, but it sees the committed rows and its own only, so transactions that write
different rows could still publish clashing ones. They cannot when a new row is checked against
the versions other transactions have not committed yet, and every other write keeps the index
value of the row it replaces, or gives it up.

## Main definitions

* `Clash`, `Unique`: rows sharing an index value, and rows free of clashes
* `Fits`: versions a statement may write under a unique index
* `Db.Indexed`: the committed rows, and the rows every transaction sees, are free of clashes

## Main results

* `Reaches.indexed`: along every run whose statements write fitting versions, no rows clash
-/

namespace RowStore

variable {K V I A S B E Err O R : Type} [DecidableEq K] {Res : S → Type} {key : V → K}

/-- Two rows share an index value. -/
def Clash (idx : V → Option I) (v w : V) : Prop := idx v = idx w ∧ idx v ≠ none

theorem Clash.symm {idx : V → Option I} {v w : V} (h : Clash idx v w) : Clash idx w v :=
  ⟨h.1.symm, h.1 ▸ h.2⟩

theorem Clash.congr {idx : V → Option I} {v w v' w' : V} (h : Clash idx v w) (hv : idx v' = idx v)
    (hw : idx w' = idx w) : Clash idx v' w' :=
  ⟨by rw [hv, hw, h.1], by rw [hv]; exact h.2⟩

/-- No two rows with different keys share an index value. -/
def Unique (key : V → K) (idx : V → Option I) (rows : List V) : Prop :=
  ∀ v ∈ rows, ∀ w ∈ rows, Clash idx v w → key v = key w

/-- Versions that may be written over `rows` while others hold the versions `held`: each replaces
a row of the same index value or gives the value up, or there is one and it clashes with none. -/
inductive Fits (key : V → K) (idx : V → Option I) (rows held : List V) : List V → Prop
  | replace {vs} : (∀ v ∈ vs, idx v = none ∨ ∃ w ∈ rows, key w = key v ∧ idx w = idx v) →
      Fits key idx rows held vs
  | insert {v vs} : vs = [v] → (∀ w ∈ rows, Clash idx v w → key v = key w) →
      (∀ w ∈ held, ¬ Clash idx v w) → Fits key idx rows held vs

namespace Db

variable {sem : Semantics key A S Res B E Err} {code : O → Program S Res (Finish R)}
  {db db' : Db key A S Res O B R} {ev : Event O B E} {o : Output O B V A R Err}
  {idx : V → Option I}

theorem own_subset_view {s : Session S Res O B V A R} {v : V} (hv : v ∈ (s.own key).rows) :
    v ∈ (db.view s).rows := by
  rw [Table.mem_rows_iff, get_view, Table.get_key_of_mem hv]
  rfl

theorem mem_putAll_news (t : Table key) {s : Session S Res O B V A R} {v : V}
    (hv : v ∈ (t.putAll s.news).rows) :
    v ∈ (s.own key).rows ∨ v ∈ t.rows ∧ ∀ w ∈ s.news, key w ≠ key v := by
  by_cases h : ∃ w ∈ s.news, key w = key v
  · rw [Table.mem_rows_iff, Table.get_putAll_of_mem t ∅ h] at hv
    exact .inl (Table.mem_rows_iff.mpr hv)
  · have hn : ∀ w ∈ s.news, key w ≠ key v := by simpa using h
    rw [Table.mem_rows_iff, Table.get_putAll_of_notMem _ hn] at hv
    exact .inr ⟨Table.mem_rows_iff.mpr hv, hn⟩

theorem mem_view {s : Session S Res O B V A R} {v : V} (hv : v ∈ (db.view s).rows) :
    v ∈ (s.own key).rows ∨ v ∈ db.table.rows ∧ ∀ w ∈ s.news, key w ≠ key v :=
  mem_putAll_news db.table hv

/-- No clash in the committed rows, in the rows a transaction sees, or between the rows held by
two transactions. -/
structure Indexed (idx : V → Option I) (db : Db key A S Res O B R) : Prop where
  table : Unique key idx db.table.rows
  view : ∀ s ∈ db.sessions.rows, Unique key idx (db.view s).rows
  own : ∀ s ∈ db.sessions.rows, ∀ s' ∈ db.sessions.rows, s.id ≠ s'.id →
    ∀ v ∈ (s.own key).rows, ∀ w ∈ (s'.own key).rows, ¬ Clash idx v w

theorem Indexed.drop (h : db.Indexed idx) (sid : ℕ) : (db.drop sid).Indexed idx where
  table := h.table
  view s hs := h.view s (mem_sessions_drop.mp hs).1
  own s hs s' hs' := h.own s (mem_sessions_drop.mp hs).1 s' (mem_sessions_drop.mp hs').1

theorem Indexed.start (h : db.Indexed idx) (s : Session S Res O B V A R) (hs : s.news = []) :
    Indexed idx { db with sessions := db.sessions.put s } where
  table := h.table
  view s' hs' := by
    rcases Table.mem_put.mp hs' with rfl | ⟨hs', -⟩
    · simpa [Db.view, hs] using h.table
    · exact h.view s' hs'
  own s₁ h₁ s₂ h₂ hne v hv w hw := by
    have hnone : ∀ u : V, u ∉ (s.own key).rows := fun u hu => by
      simpa [hs] using mem_news_of_own hu
    rcases Table.mem_put.mp h₁ with rfl | ⟨h₁, -⟩
    · exact absurd hv (hnone v)
    rcases Table.mem_put.mp h₂ with rfl | ⟨h₂, -⟩
    · exact absurd hw (hnone w)
    exact h.own s₁ h₁ s₂ h₂ hne v hv w hw

/-- A row `s` sees shares no index value with a row another transaction holds, unless that
transaction has written it as well. -/
theorem Indexed.not_clash_of_view (h : db.Indexed idx) {s s' : Session S Res O B V A R}
    (hs : s ∈ db.sessions.rows) (hs' : s' ∈ db.sessions.rows) (hne : s.id ≠ s'.id) {v w : V}
    (hv : v ∈ (db.view s).rows) (hfree : ∀ u ∈ s'.news, key u ≠ key v)
    (hw : w ∈ (s'.own key).rows) : ¬ Clash idx v w := by
  intro hc
  rcases mem_view hv with hv | ⟨hv, -⟩
  · exact h.own s hs s' hs' hne v hv w hw hc
  · have hv' : v ∈ (db.view s').rows := Table.mem_putAll_of_notMem hv hfree
    have hk := h.view s' hs' v hv' w (own_subset_view hw) hc
    exact hfree w (mem_news_of_own hw) hk.symm

theorem Indexed.advance (h : db.Indexed idx) {s : Session S Res O B V A R}
    (hs : s ∈ db.sessions.rows) {q : S} (k : Res q → Program S Res (Finish R))
    {eff : Effect V A (Res q)} (hfree : ∀ v ∈ eff.news, db.free s.id (key v) = true)
    (hfits : Fits key idx (db.view s).rows (db.held s.id) eff.news) :
    (db.advance s k eff).Indexed idx := by
  have hview : Unique key idx ((db.view s).putAll eff.news).rows := by
    cases hfits with
    | replace hr =>
      -- each version stands for a row seen before, with the same key and index value
      have hold : ∀ v ∈ ((db.view s).putAll eff.news).rows, idx v ≠ none →
          ∃ w ∈ (db.view s).rows, key w = key v ∧ idx w = idx v := by
        intro v hv hn
        rcases Table.mem_putAll hv with hv | ⟨hv, -⟩
        · exact (hr v hv).resolve_left hn
        · exact ⟨v, hv, rfl, rfl⟩
      intro v hv w hw hc
      obtain ⟨v₀, hv₀, hkv, hiv⟩ := hold v hv hc.2
      obtain ⟨w₀, hw₀, hkw, hiw⟩ := hold w hw hc.symm.2
      rw [← hkv, ← hkw]
      exact h.view s hs v₀ hv₀ w₀ hw₀ (hc.congr hiv hiw)
    | @insert u vs hu hrows hheld =>
      rw [hu, Table.putAll_cons, Table.putAll_nil]
      intro v hv w hw hc
      rcases Table.mem_put.mp hv with rfl | ⟨hv₀, -⟩
      · rcases Table.mem_put.mp hw with rfl | ⟨hw₀, -⟩
        · rfl
        · exact hrows w hw₀ hc
      · rcases Table.mem_put.mp hw with rfl | ⟨hw₀, -⟩
        · exact (hrows v hv₀ hc.symm).symm
        · exact h.view s hs v hv₀ w hw₀ hc
  have hown : ∀ s' ∈ db.sessions.rows, s'.id ≠ s.id →
      ∀ v ∈ ((s.own key).putAll eff.news).rows, ∀ w ∈ (s'.own key).rows, ¬ Clash idx v w := by
    intro s' hs' hne v hv w hw hc
    rcases Table.mem_putAll hv with hv | ⟨hv, -⟩
    · have hnot : ∀ u ∈ s'.news, key u ≠ key v := fun u hu => key_ne_of_free (hfree v hv) hs' hne hu
      cases hfits with
      | replace hr =>
        obtain ⟨v₀, hv₀, hk, hi⟩ := (hr v hv).resolve_left hc.2
        exact h.not_clash_of_view hs hs' hne.symm hv₀ (hk ▸ hnot) hw (hc.congr hi rfl)
      | insert hu hrows hheld =>
        rw [hu] at hv
        obtain rfl := List.mem_singleton.mp hv
        exact hheld w (mem_held.mpr ⟨s', hs', hne, hw⟩) hc
    · exact h.own s hs s' hs' hne.symm v hv w hw hc
  have hnews : ∀ t : Table key, t.putAll (s.news ++ eff.news) = (t.putAll s.news).putAll eff.news :=
    fun t => Table.putAll_append t _ _
  refine ⟨h.table, fun s' hs' => ?_, fun s₁ h₁ s₂ h₂ hne => ?_⟩
  · rcases Table.mem_put.mp hs' with rfl | ⟨hs', -⟩
    · simpa [Db.view, Db.advance, hnews] using hview
    · exact h.view s' hs'
  · rcases Table.mem_put.mp h₁ with rfl | ⟨h₁, hne₁⟩
    · rcases Table.mem_put.mp h₂ with rfl | ⟨h₂, hne₂⟩
      · exact absurd rfl hne
      · simpa [Session.own, hnews] using hown s₂ h₂ (Ne.symm hne₂)
    · rcases Table.mem_put.mp h₂ with rfl | ⟨h₂, hne₂⟩
      · intro v hv w hw hc
        exact hown s₁ h₁ (Ne.symm hne₁) w (by simpa [Session.own, hnews] using hw) v hv hc.symm
      · exact h.own s₁ h₁ s₂ h₂ hne

theorem Indexed.publish (h : db.Indexed idx) {s : Session S Res O B V A R}
    (hs : s ∈ db.sessions.rows) : (db.publish s).Indexed idx where
  table := h.view s hs
  view s' hs' := by
    obtain ⟨hm, hne⟩ := mem_sessions_publish.mp hs'
    -- a row the other transaction sees is its own, or one it has not written that `s` sees
    have hsplit : ∀ v ∈ ((db.view s).putAll s'.news).rows, v ∈ (s'.own key).rows ∨
        v ∈ (db.view s).rows ∧ ∀ u ∈ s'.news, key u ≠ key v :=
      fun v hv => mem_putAll_news (db.view s) hv
    intro v hv w hw hc
    rcases hsplit v hv with hv | ⟨hv, hnv⟩
    · rcases hsplit w hw with hw | ⟨hw, hnw⟩
      · exact h.view s' hm v (own_subset_view hv) w (own_subset_view hw) hc
      · exact absurd hc.symm (h.not_clash_of_view hs hm hne.symm hw hnw hv)
    · rcases hsplit w hw with hw | ⟨hw, hnw⟩
      · exact absurd hc (h.not_clash_of_view hs hm hne.symm hv hnv hw)
      · exact h.view s hs v hv w hw hc
  own s₁ h₁ s₂ h₂ := h.own s₁ (mem_sessions_publish.mp h₁).1 s₂ (mem_sessions_publish.mp h₂).1

theorem Indexed.step (h : db.Indexed idx)
    (hstmt : ∀ q b e rows free held eff, sem.waits q b e rows free held = false →
      sem.exec q b e rows free = .ok eff → Unique key idx rows → Fits key idx rows held eff.news)
    (hs : db.Step sem code ev db' o) : db'.Indexed idx := by
  cases hs with
  | start => exact h.start _ rfl
  | exec hm hr hw he hf => exact h.advance hm _ hf (hstmt _ _ _ _ _ _ _ hw he (h.view _ hm))
  | reject => exact h.drop _
  | fault => exact h.drop _
  | commit hm hr => exact h.publish hm
  | rollback => exact h.drop _
  | unwind => exact h.drop _

theorem indexed_idle {t : Table key} (h : Unique key idx t.rows) (log : List (ℕ × A)) (n : ℕ) :
    (idle t log n : Db key A S Res O B R).Indexed idx :=
  ⟨h, fun s hs => by simp [idle] at hs, fun s hs => by simp [idle] at hs⟩

end Db

/-- **Unique indexes hold along every run** whose statements write fitting versions: in the
committed rows, and in the rows every open transaction sees. -/
theorem Reaches.indexed {sem : Semantics key A S Res B E Err} {code : O → Program S Res (Finish R)}
    {ok : List (Output O B V A R Err) → Db key A S Res O B R → Event O B E → Prop}
    {db₀ db : Db key A S Res O B R} {os : List (Output O B V A R Err)} {idx : V → Option I}
    (hstmt : ∀ q b e rows free held eff, sem.waits q b e rows free held = false →
      sem.exec q b e rows free = .ok eff → Unique key idx rows → Fits key idx rows held eff.news)
    (h₀ : db₀.Indexed idx)
    (h : Reaches (Db.step sem code) ok db₀ os db) : db.Indexed idx :=
  h.induct (P := fun _ db => db.Indexed idx) h₀ fun _ _ _ _ _ _ ih _ hs =>
    ih.step hstmt (Db.step_iff.mp hs)

end RowStore
