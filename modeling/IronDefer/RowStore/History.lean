import IronDefer.RowStore.Sessions
import Mathlib.Algebra.BigOperators.Group.List.Lemmas
import Mathlib.Algebra.Ring.Nat

/-!
# Row histories and the order of the log

The committed changes of one row, taken in commit order, are linked: each starts at the version
the one before it has left, the first at the initial row and the last leads to the current one.
The log rows of a run are those of its commits.

Ids of log rows are drawn when a row is appended, so the ids of the committed log need not
increase. They do for log rows about one and the same row, as long as a transaction logs only
about rows it has written: it holds the row from then on, and the next transaction to log about
it draws its ids later.

## Main definitions

* `Linked`: a list of changes leads from one version of a row to another
* `movesOf`: the changes a projection of the rows shows
* `changesAt`: the changes a list of outputs publishes for one row
* `Db.LogsHeld`: log rows are about rows written by the same transaction
* `Db.Ordered`: ids of log rows about one row increase in the order they are published

## Main results

* `Linked.keeps`: what every change of a row keeps holds of its versions
* `Linked.relates`: a relation that every change keeps to holds from the first version to the last
* `Linked.movesOf`: a projection of linked changes is linked
* `Linked.balance`: what has been entered and what has been left balance
* `Linked.amortized`: what linked changes cost is covered by a potential
* `Reaches.linked`: the changes of a row are linked along every run
* `Reaches.log_eq`: the log of a run is what its commits have logged
* `Reaches.ordered`: along every run, the log rows about one row are in the order of their ids
-/

namespace RowStore

variable {K V A S B E Err O R : Type} [DecidableEq K] {Res : S → Type} {key : V → K}

/-! ## Linked changes -/

/-- The changes lead from the version `o` to the version `o'` of a row, each from where the one
before it has ended. -/
def Linked : Option V → List (Change V) → Option V → Prop
  | o, [], o' => o = o'
  | o, c :: cs, o' => c.old = o ∧ Linked (some c.new) cs o'

@[simp] theorem linked_nil {o o' : Option V} : Linked o [] o' ↔ o = o' := Iff.rfl

@[simp] theorem linked_cons {o o' : Option V} {c : Change V} {cs : List (Change V)} :
    Linked o (c :: cs) o' ↔ c.old = o ∧ Linked (some c.new) cs o' := Iff.rfl

theorem linked_append {o o' : Option V} {cs ds : List (Change V)} :
    Linked o (cs ++ ds) o' ↔ ∃ m, Linked o cs m ∧ Linked m ds o' := by
  induction cs generalizing o with
  | nil => simp
  | cons c cs ih => simp [ih, and_assoc]

/-- What holds of the first version and survives every change holds before and after each
change. -/
theorem Linked.keeps {P : Option V → Prop} {o o' : Option V} {cs : List (Change V)}
    (h : Linked o cs o') (init : P o) (next : ∀ c ∈ cs, P c.old → P (some c.new)) :
    P o' ∧ ∀ c ∈ cs, P c.old := by
  induction cs generalizing o with
  | nil =>
    obtain rfl := linked_nil.mp h
    exact ⟨init, by simp⟩
  | cons c cs ih =>
    obtain ⟨rfl, h⟩ := h
    have hnew := next c List.mem_cons_self init
    obtain ⟨hlast, hall⟩ := ih h hnew fun d hd => next d (List.mem_cons_of_mem _ hd)
    exact ⟨hlast, List.forall_mem_cons.mpr ⟨init, hall⟩⟩

/-- Changes that keep to a relation lead from a version to a related one. -/
theorem Linked.relates {R : V → V → Prop} (hrefl : ∀ v, R v v)
    (htrans : ∀ {u v w}, R u v → R v w → R u w) {v : V} {o : Option V} {cs : List (Change V)}
    (h : Linked (some v) cs o) (hstep : ∀ c ∈ cs, ∀ w, c.old = some w → R w c.new) :
    ∃ w, o = some w ∧ R v w := by
  induction cs generalizing v with
  | nil => exact ⟨v, (linked_nil.mp h).symm, hrefl v⟩
  | cons c cs ih =>
    obtain ⟨hold, hrest⟩ := h
    obtain ⟨w, ho, hw⟩ := ih hrest fun d hd => hstep d (List.mem_cons_of_mem _ hd)
    exact ⟨w, ho, htrans (hstep c List.mem_cons_self v hold) hw⟩

/-- Where changes lead to is determined by where they start. -/
theorem Linked.unique {o p q : Option V} {cs : List (Change V)} (h : Linked o cs p)
    (h' : Linked o cs q) : p = q := by
  induction cs generalizing o with
  | nil => exact (linked_nil.mp h).symm.trans (linked_nil.mp h')
  | cons c cs ih => exact ih h.2 h'.2

/-- What a projection of the rows shows of a change. -/
def Change.map {W : Type} (f : V → W) (c : Change V) : Change W := ⟨c.old.map f, f c.new⟩

/-- The changes a projection shows, without those that leave its value as it is. -/
def movesOf {W : Type} [DecidableEq W] (f : V → W) (cs : List (Change V)) : List (Change W) :=
  (cs.map (Change.map f)).filter fun c => decide (c.old ≠ some c.new)

@[simp] theorem movesOf_nil {W : Type} [DecidableEq W] (f : V → W) : movesOf f [] = [] := rfl

theorem movesOf_append {W : Type} [DecidableEq W] (f : V → W) (cs ds : List (Change V)) :
    movesOf f (cs ++ ds) = movesOf f cs ++ movesOf f ds := by
  simp only [movesOf, List.map_append, List.filter_append]

/-- A key is inserted once at most. -/
theorem Linked.inserts_le_one {o o' : Option V} {cs : List (Change V)} (h : Linked o cs o') :
    (cs.filter fun c => c.old.isNone).length ≤ 1 := by
  cases cs with
  | nil => exact Nat.zero_le 1
  | cons c cs =>
    -- what follows a change finds a version
    have hrest : (cs.filter fun c => c.old.isNone) = [] := by
      obtain ⟨-, hold⟩ := h.2.keeps (P := fun o => o.isSome) rfl fun _ _ _ => rfl
      exact List.filter_eq_nil_iff.mpr fun d hd => by simp [Option.isSome_iff_ne_none.mp (hold d hd)]
    rw [List.filter_cons, hrest]
    split <;> simp

/-- **A projection of linked changes is linked**, also without the changes it does not show. -/
theorem Linked.movesOf {W : Type} [DecidableEq W] (f : V → W) {o o' : Option V}
    {cs : List (Change V)} (h : Linked o cs o') : Linked (o.map f) (movesOf f cs) (o'.map f) := by
  induction cs generalizing o with
  | nil =>
    obtain rfl := linked_nil.mp h
    rfl
  | cons c cs ih =>
    obtain ⟨rfl, h⟩ := h
    by_cases hc : c.old.map f = some (f c.new)
    · have hskip : RowStore.movesOf f (c :: cs) = RowStore.movesOf f cs := by
        simp [RowStore.movesOf, Change.map, hc]
      rw [hskip, hc]
      exact ih h
    · have hkeep : RowStore.movesOf f (c :: cs) = c.map f :: RowStore.movesOf f cs := by
        simp [RowStore.movesOf, Change.map, hc]
      rw [hkeep]
      exact ⟨rfl, ih h⟩

/-- **What has been entered and what has been left balance**: a value is entered once more than it is
left where it is the last one, and once less where it is the first one. -/
theorem Linked.balance [DecidableEq V] {o o' : Option V} {cs : List (Change V)} (h : Linked o cs o')
    (v : V) : cs.countP (fun c => decide (c.new = v)) + (if o = some v then 1 else 0) =
      cs.countP (fun c => decide (c.old = some v)) + if o' = some v then 1 else 0 := by
  induction cs generalizing o with
  | nil =>
    obtain rfl := linked_nil.mp h
    rfl
  | cons c cs ih =>
    obtain ⟨rfl, hrest⟩ := h
    have hrest := ih hrest
    simp only [Option.some.injEq] at hrest
    simp only [List.countP_cons, decide_eq_true_eq]
    omega

/-- A row is there where it has been inserted, which is once. -/
theorem Linked.countP_insert {o' : Option V} {cs : List (Change V)} (h : Linked none cs o') :
    cs.countP (fun c => c.old.isNone) = if o'.isSome then 1 else 0 := by
  cases cs with
  | nil =>
    obtain rfl := linked_nil.mp h
    rfl
  | cons c cs =>
    obtain ⟨hc, hrest⟩ := h
    -- what follows the insert finds a version, and leaves one
    obtain ⟨hlast, hold⟩ := hrest.keeps (P := fun o => o.isSome) rfl fun _ _ _ => rfl
    have hnone : cs.countP (fun c => c.old.isNone) = 0 := by
      rw [List.countP_eq_zero]
      intro d hd
      simp [Option.isSome_iff_ne_none.mp (hold d hd)]
    rw [List.countP_cons, hnone, hc, if_pos hlast]
    rfl

/-- **What changes cost is covered** by a potential of the first version and by what is charged to the
changes, where each covers its own cost. -/
theorem Linked.amortized {ι : Type} {f : ι → Change V} {o o' : Option V} {xs : List ι}
    (h : Linked o (xs.map f) o') (Φ : Option V → ℕ) (cost charge : ι → ℕ)
    (hstep : ∀ x ∈ xs, Φ (some (f x).new) + cost x ≤ Φ (f x).old + charge x) :
    Φ o' + (xs.map cost).sum ≤ Φ o + (xs.map charge).sum := by
  induction xs generalizing o with
  | nil =>
    obtain rfl := linked_nil.mp h
    exact Nat.le_refl _
  | cons x xs ih =>
    obtain ⟨rfl, hrest⟩ := h
    have hrest := ih hrest fun y hy => hstep y (List.mem_cons_of_mem _ hy)
    have hx := hstep x List.mem_cons_self
    simp only [List.map_cons, List.sum_cons]
    omega

/-- The changes a list of outputs publishes for the row at `k`. -/
def changesAt (key : V → K) (k : K) (os : List (Output O B V A R Err)) : List (Change V) :=
  (os.flatMap Output.changes).filter fun c => decide (key c.new = k)

@[simp] theorem changesAt_nil (k : K) :
    changesAt key k ([] : List (Output O B V A R Err)) = [] := rfl

theorem changesAt_append (k : K) (os ps : List (Output O B V A R Err)) :
    changesAt key k (os ++ ps) = changesAt key k os ++ changesAt key k ps := by
  simp [changesAt]

theorem Table.linked_record (t : Table key) (vs : List V) (k : K) :
    Linked (t.get k) ((t.record vs).filter fun c => decide (key c.new = k))
      ((t.putAll vs).get k) := by
  induction vs generalizing t with
  | nil => rfl
  | cons v vs ih =>
    by_cases hv : key v = k
    · -- the first version of the key is the one the others follow
      have hrest := ih (t.put v)
      rw [Table.get_put, if_pos hv] at hrest
      simpa [hv] using hrest
    · have hrest := ih (t.put v)
      rw [Table.get_put_ne t hv] at hrest
      simpa [hv] using hrest

variable {sem : Semantics key A S Res B E Err} {code : O → Program S Res (Finish R)}

namespace Db

variable {db db' : Db key A S Res O B R} {ev : Event O B E} {o : Output O B V A R Err}

/-- A step changes the committed table by the changes it publishes, row by row. -/
theorem Step.linked (h : db.Step sem code ev db' o) (k : K) :
    Linked (db.table.get k) (changesAt key k [o]) (db'.table.get k) := by
  cases h with
  | commit hm hr => simpa [changesAt, publish, view] using db.table.linked_record _ k
  | start => rfl
  | exec => rfl
  | reject => rfl
  | fault => rfl
  | rollback => rfl
  | unwind => rfl

/-- A step appends what it publishes to the log. -/
theorem Step.log_eq (h : db.Step sem code ev db' o) : db'.log = db.log ++ o.logs := by
  cases h with
  | commit => rfl
  | start => exact (List.append_nil _).symm
  | exec => exact (List.append_nil _).symm
  | reject => exact (List.append_nil _).symm
  | fault => exact (List.append_nil _).symm
  | rollback => exact (List.append_nil _).symm
  | unwind => exact (List.append_nil _).symm

/-! ## The order of the log -/

variable (subject : A → K)

/-- Every log row is about a row of the changes made so far. -/
def LogsHeld (key : V → K) (cs : List (Change V)) (ls : List A) : Prop :=
  ∀ a ∈ ls, ∃ c ∈ cs, key c.new = subject a

/-- Log rows about one row have increasing ids: within a transaction, in the committed log, and
from the committed log to an open transaction. -/
structure Ordered (db : Db key A S Res O B R) : Prop where
  log_lt : ∀ x ∈ db.log, x.1 < db.nextId
  own_lt : ∀ s ∈ db.sessions.rows, ∀ x ∈ s.logs, x.1 < db.nextId
  log : db.log.Pairwise fun x y => subject x.2 = subject y.2 → x.1 < y.1
  own : ∀ s ∈ db.sessions.rows, s.logs.Pairwise fun x y => x.1 < y.1
  log_own : ∀ s ∈ db.sessions.rows, ∀ x ∈ db.log, ∀ y ∈ s.logs,
    subject x.2 = subject y.2 → x.1 < y.1

variable {subject}

/-- Two open transactions log about different rows. -/
theorem Exclusive.subject_ne (hx : db.Exclusive)
    (hl : ∀ s ∈ db.sessions.rows, LogsHeld subject key (db.table.record s.news) (s.logs.map Prod.snd))
    {s s' : Session S Res O B V A R} (hs : s ∈ db.sessions.rows) (hs' : s' ∈ db.sessions.rows)
    (hne : s.id ≠ s'.id) {x y : ℕ × A} (hxs : x ∈ s.logs) (hy : y ∈ s'.logs) :
    subject x.2 ≠ subject y.2 := by
  obtain ⟨c, hc, hcx⟩ := hl s hs x.2 (List.mem_map_of_mem hxs)
  obtain ⟨d, hd, hdy⟩ := hl s' hs' y.2 (List.mem_map_of_mem hy)
  rw [← hcx, ← hdy]
  exact hx s hs s' hs' hne _ (Table.mem_record_key hc) _ (Table.mem_record_key hd)

omit [DecidableEq K] in
theorem Ordered.drop (h : db.Ordered subject) (sid : ℕ) : (db.drop sid).Ordered subject where
  log_lt := h.log_lt
  own_lt s hs := h.own_lt s (mem_sessions_drop.mp hs).1
  log := h.log
  own s hs := h.own s (mem_sessions_drop.mp hs).1
  log_own s hs := h.log_own s (mem_sessions_drop.mp hs).1

omit [DecidableEq K] in
theorem Ordered.start (h : db.Ordered subject) (s : Session S Res O B V A R) (hs : s.logs = []) :
    Ordered subject { db with sessions := db.sessions.put s } where
  log_lt := h.log_lt
  own_lt s' hs' := by
    rcases Table.mem_put.mp hs' with rfl | ⟨hs', -⟩
    · simp [hs]
    · exact h.own_lt s' hs'
  log := h.log
  own s' hs' := by
    rcases Table.mem_put.mp hs' with rfl | ⟨hs', -⟩
    · simp [hs]
    · exact h.own s' hs'
  log_own s' hs' := by
    rcases Table.mem_put.mp hs' with rfl | ⟨hs', -⟩
    · simp [hs]
    · exact h.log_own s' hs'

omit [DecidableEq K] in
/-- New log rows take the next ids, above all ids drawn so far. -/
theorem Ordered.advance (h : db.Ordered subject) {s : Session S Res O B V A R}
    (hs : s ∈ db.sessions.rows) {q : S} (k : Res q → Program S Res (Finish R))
    (eff : Effect V A (Res q)) : (db.advance s k eff).Ordered subject where
  log_lt x hx := Nat.lt_add_right _ (h.log_lt x hx)
  own_lt s' hs' x hx := by
    rcases Table.mem_put.mp hs' with rfl | ⟨hs', -⟩
    · rcases List.mem_append.mp hx with hx | hx
      · exact Nat.lt_add_right _ (h.own_lt s hs x hx)
      · exact (le_of_mem_numbered hx).2
    · exact Nat.lt_add_right _ (h.own_lt s' hs' x hx)
  log := h.log
  own s' hs' := by
    rcases Table.mem_put.mp hs' with rfl | ⟨hs', -⟩
    · refine List.pairwise_append.mpr ⟨h.own s hs, pairwise_numbered _ _, fun x hx y hy => ?_⟩
      exact Nat.lt_of_lt_of_le (h.own_lt s hs x hx) (le_of_mem_numbered hy).1
    · exact h.own s' hs'
  log_own s' hs' x hx y hy hxy := by
    rcases Table.mem_put.mp hs' with rfl | ⟨hs', -⟩
    · rcases List.mem_append.mp hy with hy | hy
      · exact h.log_own s hs x hx y hy hxy
      · exact Nat.lt_of_lt_of_le (h.log_lt x hx) (le_of_mem_numbered hy).1
    · exact h.log_own s' hs' x hx y hy hxy

/-- The log rows of a commit come after the committed ones about the same row, and no other open
transaction has any about that row. -/
theorem Ordered.publish (h : db.Ordered subject) (hx : db.Exclusive)
    (hl : ∀ s ∈ db.sessions.rows, LogsHeld subject key (db.table.record s.news) (s.logs.map Prod.snd))
    {s : Session S Res O B V A R} (hs : s ∈ db.sessions.rows) :
    (db.publish s).Ordered subject where
  log_lt x hx := by
    rcases List.mem_append.mp hx with hx | hx
    · exact h.log_lt x hx
    · exact h.own_lt s hs x hx
  own_lt s' hs' := h.own_lt s' (mem_sessions_publish.mp hs').1
  log := by
    refine List.pairwise_append.mpr ⟨h.log, ?_, h.log_own s hs⟩
    exact (h.own s hs).imp fun {x y} hxy (_ : subject x.2 = subject y.2) => hxy
  own s' hs' := h.own s' (mem_sessions_publish.mp hs').1
  log_own s' hs' x hxm y hy hxy := by
    obtain ⟨hm, hne⟩ := mem_sessions_publish.mp hs'
    rcases List.mem_append.mp hxm with hxm | hxm
    · exact h.log_own s' hm x hxm y hy hxy
    · exact absurd hxy (hx.subject_ne hl hs hm hne.symm hxm hy)

end Db

namespace Reaches

variable {ok : List (Output O B V A R Err) → Db key A S Res O B R → Event O B E → Prop}
  {db₀ : Db key A S Res O B R} {os : List (Output O B V A R Err)} {db : Db key A S Res O B R}

/-- **The committed changes of a row are linked** along every run. -/
theorem linked (h : Reaches (Db.step sem code) ok db₀ os db) (k : K) :
    Linked (db₀.table.get k) (changesAt key k os) (db.table.get k) :=
  h.induct (P := fun os db => Linked (db₀.table.get k) (changesAt key k os) (db.table.get k))
    (by rfl) fun os db _ _ o _ ih _ hs => by
      rw [changesAt_append]
      exact linked_append.mpr ⟨_, ih, (Db.step_iff.mp hs).linked k⟩

/-- A row no commit of the run changes stays as it is. -/
theorem get_of_quiet (h : Reaches (Db.step sem code) ok db₀ os db) {k : K}
    (hquiet : ∀ o ∈ os, ∀ c ∈ o.changes, key c.new ≠ k) : db.table.get k = db₀.table.get k := by
  have hnone : changesAt key k os = [] := by
    apply List.filter_eq_nil_iff.mpr
    intro c hc
    obtain ⟨o, ho, hc⟩ := List.mem_flatMap.mp hc
    simpa using hquiet o ho c hc
  have hlinked := h.linked k
  rw [hnone] at hlinked
  exact hlinked.symm

/-- The log of a run is what its commits have logged. -/
theorem log_eq (h : Reaches (Db.step sem code) ok db₀ os db) :
    db.log = db₀.log ++ os.flatMap Output.logs :=
  h.induct (P := fun os db => db.log = db₀.log ++ os.flatMap Output.logs) (by simp)
    fun os db _ _ o _ ih _ hs => by simp [(Db.step_iff.mp hs).log_eq, ih]

/-- No row vanishes. -/
theorem get_isSome (h : Reaches (Db.step sem code) ok db₀ os db) {k : K}
    (hk : (db₀.table.get k).isSome) : (db.table.get k).isSome :=
  ((h.linked k).keeps (P := fun o => o.isSome) hk fun _ _ _ => rfl).1

/-- **Log rows about one row are in the order of their ids**, along every run whose transactions
log only about rows they have written. -/
theorem ordered {subject : A → K} {rely : Table key → (K → Bool) → E → Prop}
    {J : List (Change V) → List A → Prop}
    {Q : O → B → List (Change V) → List A → Finish R → Prop}
    (hp : Proved sem code ok db₀ rely J Q fun _ => True)
    (hheld : ∀ cs ls, J cs ls → Db.LogsHeld subject key cs ls) (h₀ : db₀.Ordered subject)
    (h : Reaches (Db.step sem code) ok db₀ os db) : db.Ordered subject := by
  apply h.induct (P := fun _ db => db.Ordered subject) h₀
  intro os db ev db' o hr ih _ hs
  cases Db.step_iff.mp hs with
  | start => exact ih.start _ rfl
  | exec hm => exact ih.advance hm _ _
  | reject => exact ih.drop _
  | fault => exact ih.drop _
  | commit hm =>
    exact ih.publish (hr.exclusive hp.exclusive)
      (fun s hs => hheld _ _ (hr.sound hp s hs trivial).1) hm
  | rollback => exact ih.drop _
  | unwind => exact ih.drop _

end Reaches

end RowStore
