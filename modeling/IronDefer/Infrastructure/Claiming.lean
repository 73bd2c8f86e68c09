import IronDefer.Infrastructure.Serving

/-!
# Which task a claim takes

A claim that is served while nobody else calls takes an eligible row of the highest priority, and
among these one that has been due the longest. Both statements of the source, for a worker with a
region and for one without, select by one rule. Claims repeated at one clock value take the eligible
rows one after the other until none is left.

## Main definitions

* `TaskRow.Eligible`, `eligibleRows`: the rows a claim may take
* `TakesRow`: a table with a row claimed
* `ServedAgain`, `claimedRows`: a call served several times, and the rows it has claimed
* `TakesNext`, `DrainsInOrder`: the selection rule, for one claim and for repeated ones
* `Claimable`: the values a claim writes are in range, and its audit write does not panic

## Main results

* `selects_claimNext_iff`: the two statements select the eligible rows
* `served_claimNext`: the ways a claim can end
* `claim_selection_iff`: **which rows a claim takes, and when it takes one at all**
-/

namespace IronDefer

open RowStore

/-! ## Eligible rows -/

/-- A worker of the region may take the row from `queue` at `now`; without a region, it may take
only rows without one. -/
structure TaskRow.Eligible (queue : QueueName) (region : Option String) (now : Timestamp)
    (r : TaskRow) : Prop where
  queue : r.queue = queue.asStr
  pending : r.status = .pending
  due : r.scheduledAt ≤ now
  region : r.region = none ∨ r.region = region

theorem regionMatches_iff {region : Option String} {r : TaskRow} :
    Update.regionMatches region r = true ↔ r.region = none ∨ r.region = region := by
  cases region with
  | none => simp [Update.regionMatches]
  | some region => simp [Update.regionMatches]

/-- **The two statements of the claim select the eligible rows.** -/
theorem selects_claimNext_iff {b : Began} {r : TaskRow} {queue : QueueName} {w : WorkerId}
    {lease : Duration} {region : Option String} :
    (Update.claimNext queue w lease region).selects b r = true ↔ r.Eligible queue region b.now := by
  simp only [Update.selects, Bool.and_eq_true, decide_eq_true_eq, regionMatches_iff]
  constructor
  · rintro ⟨⟨⟨hq, hp⟩, hd⟩, hr⟩
    exact ⟨hq, hp, hd, hr⟩
  · intro h
    exact ⟨⟨⟨h.queue, h.pending⟩, h.due⟩, h.region⟩

/-- The rows a claim may take. -/
def eligibleRows (queue : QueueName) (region : Option String) (now : Timestamp)
    (t : Table TaskRow.id) : List TaskRow :=
  t.rows.filter fun r => r.queue = queue.asStr && r.status = .pending && decide (r.scheduledAt ≤ now) &&
    Update.regionMatches region r

theorem mem_eligibleRows {queue : QueueName} {region : Option String} {now : Timestamp}
    {t : Table TaskRow.id} {r : TaskRow} :
    r ∈ eligibleRows queue region now t ↔ r ∈ t.rows ∧ r.Eligible queue region now := by
  rw [eligibleRows, List.mem_filter]
  apply and_congr_right
  intro _
  exact @selects_claimNext_iff ⟨now⟩ r queue ⟨0⟩ 0 region

/-! ## One claim -/

/-- `t'` is the table `t` with the eligible row `r` claimed: no eligible row of `t` comes before
`r`, no other row has changed, and of `r` only what a claim is about. -/
structure TakesRow (queue : QueueName) (region : Option String) (b : Began) (w : WorkerId)
    (t t' : Table TaskRow.id) (r : TaskRow) : Prop where
  mem : r ∈ t.rows
  eligible : r.Eligible queue region b.now
  priority : ∀ x ∈ t.rows, x.Eligible queue region b.now → x.priority ≤ r.priority
  earliest : ∀ x ∈ t.rows, x.Eligible queue region b.now → x.priority = r.priority →
    r.scheduledAt ≤ x.scheduledAt
  claimed : ∃ claimedUntil attempts, attempts.val = r.attempts.val + 1 ∧
    t'.get r.id = some { r with
      status := .running
      claimedBy := some w
      claimedUntil := some claimedUntil
      attempts
      updatedAt := b.now }
  frame : ∀ id, id ≠ r.id → t'.get id = t.get id

/-- The end of a lease is a timestamp, and one that the client can decode. -/
def LeaseFits (b : Began) (lease : Duration) : Prop :=
  ∃ us until_, makeInterval lease.asSecsF64 = .ok us ∧ timestamp (b.now + us) = .ok until_ ∧
    until_ ≤ maxTimestamp

/-- The values a claim of the row writes are in range, the row can be returned, and its audit write
does not panic. -/
structure Claimable (a : Bool) (b : Began) (lease : Duration) (r : TaskRow) : Prop where
  lease : LeaseFits b lease
  attempts : r.attempts.val < 2147483647
  readable : r.Readable
  loggable : Loggable a r.traceId

theorem int4Add_one_isOk {x : I32} : (∃ y, int4Add x 1 = .ok y) ↔ x.val < 2147483647 := by
  have hlower := x.lower
  unfold int4Add
  cases h : I32.ofInt? (x.val + 1) with
  | none =>
    have hrange := I32.ofInt?_isSome (n := x.val + 1)
    simp only [h, Option.isSome_none, Bool.false_eq_true, false_iff] at hrange
    simp only [reduceCtorEq, exists_false, false_iff]
    omega
  | some y =>
    have hrange := I32.ofInt?_isSome (n := x.val + 1)
    simp only [h, Option.isSome_some, true_iff] at hrange
    simp only [Except.ok.injEq, exists_eq', true_iff]
    omega

/-- The version a claim writes of a due row exists where its values are in range. -/
theorem set_claimNext_isOk {b : Began} {e : Env} {r : TaskRow} {queue : QueueName} {w : WorkerId}
    {lease : Duration} {region : Option String} (hdue : r.scheduledAt ≤ b.now) :
    (∃ r', (Update.claimNext queue w lease region).set b e r = .ok r') ↔
      LeaseFits b lease ∧ r.attempts.val < 2147483647 ∧ r.Readable := by
  rw [← int4Add_one_isOk]
  constructor
  · rintro ⟨r', h⟩
    obtain ⟨us, hus, h⟩ := exists_of_bind_ok h
    obtain ⟨until_, hu, h⟩ := exists_of_bind_ok h
    obtain ⟨attempts, ha, h⟩ := exists_of_bind_ok h
    obtain ⟨-, htimes⟩ := returned_eq_ok_iff.mp h
    obtain ⟨-, -, huntil, hlasting⟩ := TaskRow.forall_times_iff.mp htimes
    exact ⟨⟨us, until_, hus, hu, huntil _ rfl⟩, ⟨attempts, ha⟩, hlasting⟩
  · rintro ⟨⟨us, until_, hus, hu, hmax⟩, ⟨attempts, ha⟩, hreadable⟩
    -- the row is scheduled before the clock, and the clock is before the end of the lease
    have hnonneg : 0 ≤ us := by
      obtain ⟨rfl, -⟩ := (makeInterval_eq_ok_iff Duration.represents_asSecsF64
        Duration.asSecsF64_nonneg).mp hus
      exact micros_nonneg Duration.asSecsF64_nonneg
    have hnow : b.now ≤ maxTimestamp := by
      obtain ⟨rfl, -⟩ := timestamp_eq_ok_iff.mp hu
      exact (Int.le_add_of_nonneg_right hnonneg).trans hmax
    simp only [Update.set, hus, hu, ha, bind, Except.bind]
    refine ⟨_, returned_eq_ok_iff.mpr ⟨rfl, TaskRow.forall_times_iff.mpr
      ⟨hdue.trans hnow, hnow, ?_, hreadable⟩⟩⟩
    rintro _ ⟨⟩
    exact hmax

/-- What a claim writes for an eligible row. -/
structure ClaimedVersion (b : Began) (w : WorkerId) (r r' : TaskRow) : Prop where
  rewrites : ∃ queue lease region, Update.Rewrites b (.claimNext queue w lease region) r r'
  version : ∃ claimedUntil attempts, attempts.val = r.attempts.val + 1 ∧ r' = { r with
    status := .running
    claimedBy := some w
    claimedUntil := some claimedUntil
    attempts
    updatedAt := b.now }

/-- No eligible row of the table comes before `r`. -/
structure ComesFirst (queue : QueueName) (region : Option String) (now : Timestamp)
    (t : Table TaskRow.id) (r : TaskRow) : Prop where
  mem : r ∈ eligibleRows queue region now t
  first : ∀ x ∈ eligibleRows queue region now t, precedes x r = false

/-- The call of a claim. -/
def claimOf (a : Bool) (queue : QueueName) (w : WorkerId) (lease : Duration)
    (region : Option String) : Call := ⟨a, .claimNext queue w lease region, none⟩

section Served

variable {a : Bool} {queue : QueueName} {w : WorkerId} {lease : Duration} {region : Option String}
  {b : Began} {t : Table TaskRow.id} {log : List (ℕ × AuditRow)} {n sid : ℕ} {o : Outcome}
  {db : System}

/-- The ways a claim can end. -/
inductive ClaimEnds (a : Bool) (queue : QueueName) (w : WorkerId) (lease : Duration)
    (region : Option String) (b : Began) (t : Table TaskRow.id) (log : List (ℕ × AuditRow))
    (n sid : ℕ) : Outcome → System → Prop
  /-- The region cannot be sent, or the first row cannot be claimed. -/
  | failed {err} : (region.all storableText = false ∨
        ∃ r, ComesFirst queue region b.now t r ∧ ¬ Claimable a b lease r) →
      ClaimEnds a queue w lease region b t log n sid
        (.failed sid (claimOf a queue w lease region) err) (.idle t log n)
  | unclaimed : region.all storableText = true → eligibleRows queue region b.now t = [] →
      ClaimEnds a queue w lease region b t log n sid
        (.committed sid (claimOf a queue w lease region) b [] [] (.ok (.claimed none)))
        (.idle t log n)
  | claimed {r r' ls} : region.all storableText = true → ComesFirst queue region b.now t r →
      Claimable a b lease r → ClaimedVersion b w r r' →
      ClaimEnds a queue w lease region b t log n sid
        (.committed sid (claimOf a queue w lease region) b [⟨some r, r'⟩] (numbered n ls)
          ((TaskRecord.tryFrom r').map fun record => .claimed (some record)))
        (.idle (t.put r') (log ++ numbered n ls) (n + ls.length))

/-- Nobody holds a row and the scan finds every one: the claim takes the first of the eligible
rows. -/
theorem targets_claimNext {e : Env} (he : ScansAll t e) :
    targets b e t.rows allFree (.claimNext queue w lease region) =
      (pickNext (eligibleRows queue region b.now t)).toList := by
  simp only [targets, eligibleRows]
  congr 2
  apply List.filter_congr
  intro r hr
  rw [he r hr, allFree, Bool.and_true, Bool.and_true]
  rfl

theorem comesFirst_of_pickNext {r : TaskRow}
    (h : pickNext (eligibleRows queue region b.now t) = some r) :
    ComesFirst queue region b.now t r where
  mem := mem_of_pickNext h
  first x hx := by
    obtain ⟨r', hr', hle⟩ := pickNext_of_mem hx
    cases h.symm.trans hr'
    exact hle

/-- **The ways a claim can end** that is served undisturbed. -/
theorem served_claimNext (ht : Constrained t)
    (h : Served t log n sid (claimOf a queue w lease region) b o db) :
    ClaimEnds a queue w lease region b t log n sid o db := by
  obtain ⟨vs, ls, fin, hx, rfl, rfl⟩ := served_iff.mp h
  obtain ⟨e, he, hx⟩ := executes_update.mp hx
  simp only [Table.putAll_nil, List.nil_append, execUpdate] at hx
  have hparams : (Update.claimNext queue w lease region).checkParams b =
      require (region.all storableText) := rfl
  by_cases hreg : region.all storableText = true
  · rw [hparams, hreg, targets_claimNext he] at hx
    have hreq : require true = .ok () := rfl
    rw [hreq] at hx
    cases hpick : pickNext (eligibleRows queue region b.now t) with
    | none =>
      have hnil : eligibleRows queue region b.now t = [] := by
        apply List.eq_nil_iff_forall_not_mem.mpr
        intro r hr
        obtain ⟨r', hr', -⟩ := pickNext_of_mem hr
        rw [hpick] at hr'
        cases hr'
      rw [hpick, Option.toList_none, List.mapM_nil] at hx
      rcases hx with ⟨err, hx, -⟩ | ⟨rs, hrs, hx⟩
      · cases hx
      · cases hrs
        cases hx
        rw [Ending.leaves, numbered_nil, List.append_nil]
        exact .unclaimed hreg hnil
    | some r =>
      have hfirst := comesFirst_of_pickNext hpick
      obtain ⟨hmem, hel⟩ := mem_eligibleRows.mp hfirst.mem
      have hdue : r.scheduledAt ≤ b.now := hel.due
      have hsel := (@selects_claimNext_iff b r queue w lease region).mpr hel
      rw [hpick, Option.toList_some, List.mapM_cons, List.mapM_nil, ht.rewrite_eq hmem hsel] at hx
      -- the version of the first row is refused, or its audit write panics, or it is claimed
      cases hset : (Update.claimNext queue w lease region).set b e r with
      | error err =>
        have hnot : ¬ Claimable a b lease r := fun hc => by
          obtain ⟨r', hr'⟩ := (@set_claimNext_isOk b e r queue w lease region hdue).mpr
            ⟨hc.lease, hc.attempts, hc.readable⟩
          rw [hset] at hr'
          cases hr'
        rw [hset] at hx
        rcases hx with ⟨err', hx, rfl, rfl, rfl⟩ | ⟨rs, hrs, -⟩
        · exact .failed (.inr ⟨r, hfirst, hnot⟩)
        · cases hrs
      | ok r' =>
        have hrw := Update.rewrites_of_set hsel hset
        obtain ⟨hlease, hatt, hreadable⟩ := (set_claimNext_isOk hdue).mp ⟨r', hset⟩
        rw [hset] at hx
        rcases hx with ⟨err', hx, -⟩ | ⟨rs, hrs, hx⟩
        · cases hx
        · cases hrs
          have hstored : ∃ x ∈ (t.putAll [r']).rows, x.id = (claimedEntry w r').taskId :=
            ⟨r', Table.mem_put.mpr (.inl rfl), rfl⟩
          have hversion : ClaimedVersion b w r r' := by
            refine ⟨⟨_, _, _, hrw⟩, ?_⟩
            cases hrw with
            | claimNext _ _ _ _ ha => exact ⟨_, _, ha, rfl⟩
          have hlogs : Loggable a (claimedEntry w r').traceId ↔ Loggable a r.traceId := by
            rw [← hrw.sameTask.traceId]
            rfl
          rcases (executes_insertAuditRow (x := claimedEntry w r') hstored).mp hx with
            ⟨hlog, hx⟩ | ⟨hlog, rfl, rfl, rfl⟩
          · cases hx
            have hrec : t.record [r'] = [⟨some r, r'⟩] := by
              rw [Table.record_cons, Table.record_nil, hrw.sameTask.id, Table.get_key_of_mem hmem]
            rw [Ending.shows, hrec]
            exact .claimed hreg hfirst ⟨hlease, hatt, hreadable, hlogs.mp hlog⟩ hversion
          · exact .failed (.inr ⟨r, hfirst, fun hc => hlog (hlogs.mpr hc.loggable)⟩)
  · have hreq : require (region.all storableText) = .error .untranslatableText := if_neg hreg
    rw [hparams, hreq] at hx
    rcases hx with ⟨err, hx, rfl, rfl, rfl⟩ | ⟨rs, hrs, -⟩
    · exact .failed (.inl (Bool.eq_false_iff.mpr hreg))
    · cases hrs

/-- What a claim leaves is a table with the row claimed. -/
theorem ClaimedVersion.takesRow {r r' : TaskRow} (h : ClaimedVersion b w r r')
    (hr : ComesFirst queue region b.now t r) : TakesRow queue region b w t (t.put r') r := by
  obtain ⟨hmem, hel⟩ := mem_eligibleRows.mp hr.mem
  have hid : r'.id = r.id := by
    obtain ⟨_, _, _, hrw⟩ := h.rewrites
    exact hrw.sameTask.id
  have hnot : ∀ x ∈ t.rows, x.Eligible queue region b.now → ¬ precedes x r = true := by
    intro x hx hxel
    rw [hr.first x (mem_eligibleRows.mpr ⟨hx, hxel⟩)]
    simp
  refine ⟨hmem, hel, fun x hx hxel => ?_, fun x hx hxel heq => ?_, ?_, fun id hne => ?_⟩
  · by_contra hlt
    exact hnot x hx hxel (precedes_iff.mpr (.inl (Int.not_le.mp hlt)))
  · by_contra hlt
    exact hnot x hx hxel (precedes_iff.mpr (.inr ⟨heq, Int.not_le.mp hlt⟩))
  · obtain ⟨claimedUntil, attempts, ha, hr'⟩ := h.version
    exact ⟨claimedUntil, attempts, ha, by rw [← hr', ← hid, Table.get_put_self]⟩
  · exact Table.get_put_ne t (by rw [hid]; exact hne.symm)

end Served

/-! ## Repeated claims -/

/-- The same call is served several times, at one clock value. -/
inductive ServedAgain (call : Call) (b : Began) : Table TaskRow.id → List (ℕ × AuditRow) → ℕ →
    List Outcome → Table TaskRow.id → Prop
  | done {t log n} : ServedAgain call b t log n [] t
  | again {t log n sid o t₁ log₁ n₁ os t₂} : Served t log n sid call b o (.idle t₁ log₁ n₁) →
      ServedAgain call b t₁ log₁ n₁ os t₂ → ServedAgain call b t log n (o :: os) t₂

/-- The rows claims have taken, as they were before. -/
def claimedRows (os : List Outcome) : List TaskRow :=
  os.flatMap fun o => o.changes.filterMap Change.old

@[simp] theorem claimedRows_nil : claimedRows [] = [] := rfl

@[simp] theorem claimedRows_cons (o : Outcome) (os : List Outcome) :
    claimedRows (o :: os) = o.changes.filterMap Change.old ++ claimedRows os := List.flatMap_cons

section Again

variable {a : Bool} {queue : QueueName} {w : WorkerId} {lease : Duration} {region : Option String}
  {b : Began} {t t' : Table TaskRow.id} {log : List (ℕ × AuditRow)} {n : ℕ} {os : List Outcome}

theorem exists_servedAgain (call : Call) (b : Began) (k : ℕ) (t : Table TaskRow.id)
    (log : List (ℕ × AuditRow)) (n : ℕ) :
    ∃ os t', os.length = k ∧ ServedAgain call b t log n os t' := by
  induction k generalizing t log n with
  | zero => exact ⟨[], t, rfl, .done⟩
  | succ k ih =>
    obtain ⟨o, db, h⟩ := exists_served t log n 0 call b
    obtain ⟨t₁, log₁, n₁, rfl⟩ : ∃ t₁ log₁ n₁, db = .idle t₁ log₁ n₁ := by
      obtain ⟨vs, ls, fin, -, -, rfl⟩ := served_iff.mp h
      rcases fin with (_ | _) | _ | _ <;> exact ⟨_, _, _, rfl⟩
    obtain ⟨os, t', hlen, hos⟩ := ih t₁ log₁ n₁
    exact ⟨o :: os, t', by rw [List.length_cons, hlen], .again h hos⟩

/-- A claimed row is eligible no longer, and the other rows are as they were. -/
theorem perm_eligibleRows {r r' : TaskRow} (h : ClaimedVersion b w r r')
    (hr : r ∈ eligibleRows queue region b.now t) :
    (r :: eligibleRows queue region b.now (t.put r')).Perm (eligibleRows queue region b.now t) := by
  obtain ⟨_, _, _, hrw⟩ := h.rewrites
  refine perm_filter_writeRow t.nodup (mem_eligibleRows.mp hr).1 hrw.sameTask.id
    (List.mem_filter.mp hr).2 ?_
  obtain ⟨_, _, -, hr'⟩ := h.version
  simp [hr']

/-- The rows claimed one after the other were eligible at the start, and claimable. -/
theorem ServedAgain.claimed (h : ServedAgain (claimOf a queue w lease region) b t log n os t')
    (ht : Constrained t) :
    ∀ r ∈ claimedRows os, r ∈ eligibleRows queue region b.now t ∧ Claimable a b lease r := by
  generalize hcall : claimOf a queue w lease region = call at h
  induction h with
  | done => exact fun _ hr => nomatch hr
  | again hs _ ih =>
    subst hcall
    generalize hdb : Db.idle _ _ _ = db at hs
    intro r hr
    rw [claimedRows_cons] at hr
    cases served_claimNext ht hs with
    | failed =>
      cases hdb
      exact ih ht r hr
    | unclaimed =>
      cases hdb
      exact ih ht r hr
    | claimed _ hfirst hc hv =>
      cases hdb
      rcases List.mem_append.mp hr with hr | hr
      · obtain rfl : r = _ := by simpa using hr
        exact ⟨hfirst.mem, hc⟩
      -- what is eligible after a claim was eligible before
      · obtain ⟨_, _, _, hrw⟩ := hv.rewrites
        obtain ⟨hlater, hc⟩ := ih (ht.put (mem_eligibleRows.mp hfirst.mem).1 hrw) r hr
        exact ⟨(perm_eligibleRows hv hfirst.mem).mem_iff.mp (List.mem_cons_of_mem _ hlater), hc⟩

/-- **Repeated claims take the eligible rows in order.** Where every eligible row is claimable, the
rows claimed and those left over are the eligible rows; the claimed ones stand in the order of the
claim, before those left over, and as long as one is left every claim has taken a row. -/
theorem ServedAgain.drains (h : ServedAgain (claimOf a queue w lease region) b t log n os t')
    (ht : Constrained t) (hreg : region.all storableText = true)
    (hall : ∀ r ∈ eligibleRows queue region b.now t, Claimable a b lease r) :
    ∃ left, (claimedRows os ++ left).Perm (eligibleRows queue region b.now t) ∧
      (claimedRows os).Pairwise (fun x y => precedes y x = false) ∧
      (left ≠ [] → (claimedRows os).length = os.length) := by
  generalize hcall : claimOf a queue w lease region = call at h
  induction h with
  | done => exact ⟨_, List.Perm.refl _, .nil, fun _ => rfl⟩
  | @again t log n sid o t₁ log₁ n₁ os t₂ hs _ ih =>
    subst hcall
    generalize hdb : Db.idle t₁ log₁ n₁ = db at hs
    cases served_claimNext ht hs with
    | failed hfail =>
      rcases hfail with hfail | ⟨r, hfirst, hnot⟩
      · rw [hfail] at hreg
        cases hreg
      · exact absurd (hall r hfirst.mem) hnot
    | unclaimed _ hnil =>
      cases hdb
      obtain ⟨left, hperm, hpair, -⟩ := ih ht hall
      have hempty : claimedRows os ++ left = [] := by
        rw [hnil] at hperm
        exact hperm.eq_nil
      obtain ⟨hclaimed, rfl⟩ := List.append_eq_nil_iff.mp hempty
      exact ⟨[], by simpa using hperm, by simpa using hpair, fun hne => absurd rfl hne⟩
    | @claimed r r' ls _ hfirst _ hv =>
      cases hdb
      obtain ⟨_, _, _, hrw⟩ := hv.rewrites
      -- the claim takes one row off the eligible ones, and the rest is drained by induction
      have hperm₁ := perm_eligibleRows hv hfirst.mem
      have hsub : ∀ x ∈ eligibleRows queue region b.now (t.put r'),
          x ∈ eligibleRows queue region b.now t :=
        fun x hx => hperm₁.mem_iff.mp (List.mem_cons_of_mem _ hx)
      obtain ⟨left, hperm, hpair, hleft⟩ := ih
        (ht.put (mem_eligibleRows.mp hfirst.mem).1 hrw) (fun x hx => hall x (hsub x hx))
      refine ⟨left, (hperm.cons r).trans hperm₁, ?_, fun hne => ?_⟩
      · -- the rows claimed later were eligible now
        refine List.pairwise_cons.mpr ⟨fun x hx => hfirst.first x (hsub x ?_), hpair⟩
        exact hperm.mem_iff.mp (List.mem_append_left _ hx)
      · rw [claimedRows_cons, List.length_append, hleft hne]
        exact Nat.add_comm 1 _

end Again

/-! ## The selection rule -/

/-- The order of the claim: by priority, descending, and then by schedule, ascending. -/
def ClaimOrder (x y : TaskRow) : Prop :=
  y.priority < x.priority ∨ x.priority = y.priority ∧ x.scheduledAt ≤ y.scheduledAt

theorem claimOrder_of_not_precedes {x y : TaskRow} (h : precedes y x = false) : ClaimOrder x y := by
  have hnot : ¬ (x.priority < y.priority ∨
      y.priority = x.priority ∧ y.scheduledAt < x.scheduledAt) := by
    rw [← precedes_iff, h]
    simp
  by_cases hlt : y.priority < x.priority
  · exact .inl hlt
  · have heq : x.priority = y.priority :=
      Int.le_antisymm (Int.not_lt.mp hlt) (Int.not_lt.mp fun h => hnot (.inl h))
    exact .inr ⟨heq, Int.not_lt.mp fun h => hnot (.inr ⟨heq.symm, h⟩)⟩

section Selection

variable (a : Bool) (queue : QueueName) (w : WorkerId) (lease : Duration) (region : Option String)
  (b : Began) (s : Store)

/-- A claim served on the store commits and takes an eligible row, if there is one; else it commits
without a change and returns none. -/
def TakesNext : Prop :=
  ∀ log n sid o db, Served s.table log n sid (claimOf a queue w lease region) b o db →
    ∃ changes rows reply,
      o = .committed sid (claimOf a queue w lease region) b changes rows reply ∧
        (reply = .ok (.claimed none) ↔ ∀ r ∈ s.table.rows, ¬ r.Eligible queue region b.now) ∧
        ((∃ r, TakesRow queue region b w s.table db.table r) ∨
          reply = .ok (.claimed none) ∧ db.table = s.table)

/-- Claims served one after the other take the eligible rows in the order of the claim, each once,
until none is left, and no pinned row but those of the region. -/
def DrainsInOrder : Prop :=
  ∀ log n os t', ServedAgain (claimOf a queue w lease region) b s.table log n os t' →
    (claimedRows os).Pairwise ClaimOrder ∧
      (∀ r ∈ claimedRows os, r.region = none ∨ r.region = region) ∧
      ∃ left, (claimedRows os ++ left).Perm (eligibleRows queue region b.now s.table) ∧
        (left ≠ [] → (claimedRows os).length = os.length)

variable {a queue w lease region b s}

theorem takesNext_of_claimable (hreg : region.all storableText = true)
    (hall : ∀ r ∈ s.table.rows, r.Eligible queue region b.now → Claimable a b lease r) :
    TakesNext a queue w lease region b s := by
  intro log n sid o db h
  cases served_claimNext s.constrained h with
  | failed hfail =>
    rcases hfail with hfail | ⟨r, hfirst, hnot⟩
    · rw [hfail] at hreg
      cases hreg
    · obtain ⟨hmem, hel⟩ := mem_eligibleRows.mp hfirst.mem
      exact absurd (hall r hmem hel) hnot
  | unclaimed _ hnil =>
    refine ⟨[], [], _, rfl, iff_of_true rfl fun r hr hel => ?_, .inr ⟨rfl, rfl⟩⟩
    have hmem := mem_eligibleRows.mpr ⟨hr, hel⟩
    rw [hnil] at hmem
    cases hmem
  | @claimed r r' ls _ hfirst _ hv =>
    obtain ⟨hmem, hel⟩ := mem_eligibleRows.mp hfirst.mem
    refine ⟨_, _, _, rfl, iff_of_false ?_ fun hnone => hnone r hmem hel, .inl ⟨r, hv.takesRow hfirst⟩⟩
    cases TaskRecord.tryFrom r' <;> simp [Except.map]

theorem drainsInOrder_of_claimable (hreg : region.all storableText = true)
    (hall : ∀ r ∈ s.table.rows, r.Eligible queue region b.now → Claimable a b lease r) :
    DrainsInOrder a queue w lease region b s := by
  intro log n os t' h
  obtain ⟨left, hperm, hpair, hleft⟩ := h.drains s.constrained hreg fun r hr =>
    hall r (mem_eligibleRows.mp hr).1 (mem_eligibleRows.mp hr).2
  refine ⟨hpair.imp claimOrder_of_not_precedes, fun r hr => ?_, left, hperm, hleft⟩
  exact (mem_eligibleRows.mp (h.claimed s.constrained r hr).1).2.region

/-- **Which rows a claim takes, and when it takes one at all.** A claim takes an eligible row of the
highest priority and, among these, of the earliest schedule, returns none exactly where no row is
eligible, and repeated claims take the eligible rows in that order, each once, if and only if the
region can be sent and every eligible row can be claimed. -/
theorem claim_selection_iff (a : Bool) (queue : QueueName) (w : WorkerId) (lease : Duration)
    (region : Option String) (b : Began) (s : Store) :
    TakesNext a queue w lease region b s ∧ DrainsInOrder a queue w lease region b s ↔
      region.all storableText = true ∧
        ∀ r ∈ s.table.rows, r.Eligible queue region b.now → Claimable a b lease r := by
  constructor
  · rintro ⟨htakes, hdrains⟩
    constructor
    · -- a region that cannot be sent fails the call
      obtain ⟨o, db, h⟩ := exists_served s.table [] 0 0 (claimOf a queue w lease region) b
      obtain ⟨_, _, _, rfl, -⟩ := htakes [] 0 0 o db h
      cases served_claimNext s.constrained h with
      | unclaimed hreg => exact hreg
      | claimed hreg => exact hreg
    · -- as many claims as there are eligible rows take every one of them
      intro r hr hel
      have hmem := mem_eligibleRows.mpr ⟨hr, hel⟩
      obtain ⟨os, t', hlen, h⟩ := exists_servedAgain (claimOf a queue w lease region) b
        (eligibleRows queue region b.now s.table).length s.table [] 0
      obtain ⟨-, -, left, hperm, hleft⟩ := hdrains [] 0 os t' h
      have hnil : left = [] := by
        by_contra hne
        have hsum := hperm.length_eq
        rw [List.length_append, hleft hne, hlen] at hsum
        exact hne (List.length_eq_zero_iff.mp (by omega))
      rw [hnil, List.append_nil] at hperm
      exact (h.claimed s.constrained r (hperm.mem_iff.mpr hmem)).2
  · rintro ⟨hreg, hall⟩
    exact ⟨takesNext_of_claimable hreg hall, drainsInOrder_of_claimable hreg hall⟩

end Selection

/-- A submitted row with a trace id that cannot be cut. -/
def longTraced : TaskRow :=
  { insertedRow ⟨0⟩ (sampleTask .default) none with traceId := some longTraceId }

def longTracedStore : Store := .single longTraced rfl rfl

/-- With the audit log on, no claim takes the row: cutting its trace id panics. -/
theorem longTraced_not_taken :
    ¬ (TakesNext true sampleQueue sampleWorker 1000000000 none ⟨0⟩ longTracedStore ∧
      DrainsInOrder true sampleQueue sampleWorker 1000000000 none ⟨0⟩ longTracedStore) := by
  intro h
  have hmem : longTraced ∈ longTracedStore.table.rows := Store.mem_single.mpr rfl
  have hel : longTraced.Eligible sampleQueue none 0 := ⟨rfl, rfl, by decide, .inl rfl⟩
  obtain ⟨o, db, hs⟩ := exists_served longTracedStore.table [] 0 0
    (claimOf true sampleQueue sampleWorker 1000000000 none) ⟨0⟩
  obtain ⟨_, _, _, rfl, -⟩ := h.1 [] 0 0 o db hs
  cases served_claimNext longTracedStore.constrained hs with
  | unclaimed _ hnil =>
    have hrow := mem_eligibleRows.mpr ⟨hmem, hel⟩
    rw [hnil] at hrow
    cases hrow
  | claimed _ hfirst hc =>
    obtain rfl := Store.mem_single.mp (mem_eligibleRows.mp hfirst.mem).1
    exact not_loggable_longTraceId hc.loggable

end IronDefer
