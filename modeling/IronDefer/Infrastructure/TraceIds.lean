import IronDefer.Infrastructure.AuditEntries

/-!
# The cap on trace ids

A trace id is cut to 255 bytes before it is written to the audit log. The cut is a slice at the
255th byte, which panics where a character goes on beyond it; the cut of an error message, at 4096
bytes, goes back to the boundary before. An engine accepts any trace id, and the panic comes with
every operation that writes an audit row of the task.

## Main definitions

* `LongestPrefix`: the longest front of a text that fits into a number of bytes
* `IsCharBoundary`: a character of the text ends at a number of bytes
* `CapTotal`: no audit write panics, and each has the longest front of its trace id

## Main results

* `longestPrefix_truncateLastError`: an error message is cut to its longest front
* `capTraceId_eq_some_iff`: a trace id is cut to its longest front, where it can be cut
* `trace_id_cap_iff`: **the cap is total exactly for the trace ids that can be cut**
-/

namespace IronDefer

open RowStore

/-! ## Fronts -/

/-- `u` is the longest front of `t` that ends on a character boundary and has at most `n` bytes. -/
structure LongestPrefix (n : ℕ) (u t : String) : Prop where
  front : u.toList <+: t.toList
  fits : u.utf8ByteSize ≤ n
  longest : ∀ v : String, v.toList <+: t.toList → v.utf8ByteSize ≤ n → v.toList <+: u.toList

/-- A character of the text ends after `n` bytes. -/
def IsCharBoundary (n : ℕ) (t : String) : Prop :=
  ∃ v : String, v.toList <+: t.toList ∧ v.utf8ByteSize = n

/-- The length of some characters, in bytes. -/
def byteSize (cs : List Char) : ℕ := (cs.map Char.utf8Size).sum

theorem utf8ByteSize_eq (s : String) : s.utf8ByteSize = byteSize s.toList := by
  rw [byteSize, ← utf8ByteSize_ofList, String.ofList_toList]

theorem byteSize_cons (c : Char) (cs : List Char) :
    byteSize (c :: cs) = c.utf8Size + byteSize cs := by
  rw [byteSize, List.map_cons, List.sum_cons, ← byteSize]

theorem utf8ByteSize_le_of_prefix {s t : String} (h : s.toList <+: t.toList) :
    s.utf8ByteSize ≤ t.utf8ByteSize := by
  obtain ⟨rest, hrest⟩ := h
  rw [utf8ByteSize_eq, utf8ByteSize_eq, ← hrest, byteSize, byteSize, List.map_append,
    List.sum_append]
  exact Nat.le_add_right _ _

theorem takeBytes_prefix (n : ℕ) (cs : List Char) : takeBytes n cs <+: cs := by
  induction cs generalizing n with
  | nil => exact List.nil_prefix
  | cons c cs ih =>
    rw [takeBytes]
    split
    · exact List.cons_prefix_cons.mpr ⟨rfl, ih _⟩
    · exact List.nil_prefix

theorem byteSize_takeBytes_le (n : ℕ) (cs : List Char) : byteSize (takeBytes n cs) ≤ n := by
  induction cs generalizing n with
  | nil => exact Nat.zero_le n
  | cons c cs ih =>
    rw [takeBytes]
    split
    next hc =>
      have hrest := ih (n - c.utf8Size)
      rw [byteSize_cons]
      omega
    · exact Nat.zero_le n

/-- Every front that fits is a front of the one that is taken. -/
theorem prefix_takeBytes {n : ℕ} {ds cs : List Char} (h : ds <+: cs) (hsize : byteSize ds ≤ n) :
    ds <+: takeBytes n cs := by
  -- on the front: a character of it that fits is taken
  induction ds generalizing n cs with
  | nil => exact List.nil_prefix
  | cons d ds ih =>
    obtain ⟨rest, rfl⟩ := h
    rw [byteSize_cons] at hsize
    rw [List.cons_append, takeBytes, if_pos (by omega)]
    refine List.cons_prefix_cons.mpr ⟨rfl, ih ⟨rest, rfl⟩ ?_⟩
    omega

/-- What is taken is the longest front. -/
theorem longestPrefix_takeBytes (n : ℕ) (t : String) :
    LongestPrefix n (String.ofList (takeBytes n t.toList)) t where
  front := by
    rw [String.toList_ofList]
    exact takeBytes_prefix n t.toList
  fits := by
    rw [utf8ByteSize_eq, String.toList_ofList]
    exact byteSize_takeBytes_le n t.toList
  longest v hv hsize := by
    rw [String.toList_ofList]
    rw [utf8ByteSize_eq] at hsize
    exact prefix_takeBytes hv hsize

/-- A text that fits is its own longest front. -/
theorem longestPrefix_self {n : ℕ} {t : String} (h : t.utf8ByteSize ≤ n) : LongestPrefix n t t :=
  ⟨List.prefix_rfl, h, fun _ hv _ => hv⟩

theorem LongestPrefix.unique {n : ℕ} {u v t : String} (hu : LongestPrefix n u t)
    (hv : LongestPrefix n v t) : u = v := by
  -- each is a front of the other
  have hlist : u.toList = v.toList :=
    (hv.longest u hu.front hu.fits).eq_of_length_le (hu.longest v hv.front hv.fits).length_le
  exact String.toList_inj.mp hlist

/-- **An error message is cut to its longest front**, whatever it is. -/
theorem longestPrefix_truncateLastError (s : String) :
    LongestPrefix lastErrorMaxBytes (truncateLastError s) s := by
  unfold truncateLastError
  split
  next h => exact longestPrefix_self h
  · exact longestPrefix_takeBytes lastErrorMaxBytes s

/-! ## Trace ids -/

/-- A slice is the longest front, where there is a boundary at its end. -/
theorem sliceTo_eq_some_iff {t u : String} {n : ℕ} :
    sliceTo t n = some u ↔ IsCharBoundary n t ∧ LongestPrefix n u t := by
  have hlongest := longestPrefix_takeBytes n t
  unfold sliceTo
  simp only [Option.ite_none_right_eq_some, Option.some.injEq]
  constructor
  · rintro ⟨hsize, rfl⟩
    exact ⟨⟨_, hlongest.front, hsize⟩, hlongest⟩
  · rintro ⟨⟨v, hv, hsize⟩, hu⟩
    refine ⟨?_, hlongest.unique hu⟩
    -- the front that ends at the boundary is a front of what is taken, and as long
    have hle := utf8ByteSize_le_of_prefix (hlongest.longest v hv (Nat.le_of_eq hsize))
    have hfits := hlongest.fits
    omega

/-- A trace id can be cut: it is short enough, or one of its characters ends at the 255th byte. -/
def Cuttable (t : String) : Prop := t.utf8ByteSize ≤ 255 ∨ IsCharBoundary 255 t

/-- **A trace id is cut to its longest front, where it can be cut.** -/
theorem capTraceId_eq_some_iff {t u : String} :
    capTraceId t = some u ↔ Cuttable t ∧ LongestPrefix 255 u t := by
  unfold capTraceId
  by_cases hlong : 255 < t.utf8ByteSize
  · rw [if_pos hlong, sliceTo_eq_some_iff]
    have hiff : Cuttable t ↔ IsCharBoundary 255 t := or_iff_right (Nat.not_le.mpr hlong)
    rw [hiff]
  · rw [if_neg hlong, Option.some.injEq]
    have hshort := longestPrefix_self (Nat.not_lt.mp hlong)
    constructor
    · rintro rfl
      exact ⟨.inl (Nat.not_lt.mp hlong), hshort⟩
    · rintro ⟨-, hu⟩
      exact hshort.unique hu

theorem cuttable_iff {t : String} : Cuttable t ↔ capTraceId t ≠ none := by
  rw [Option.ne_none_iff_exists']
  constructor
  · intro h
    by_cases hlong : 255 < t.utf8ByteSize
    · exact ⟨_, capTraceId_eq_some_iff.mpr ⟨h, longestPrefix_takeBytes 255 t⟩⟩
    · exact ⟨t, capTraceId_eq_some_iff.mpr ⟨h, longestPrefix_self (Nat.not_lt.mp hlong)⟩⟩
  · rintro ⟨u, hu⟩
    exact (capTraceId_eq_some_iff.mp hu).1

theorem loggable_iff {traceId : Option String} :
    Loggable true traceId ↔ ∀ t, traceId = some t → Cuttable t := by
  unfold Loggable
  cases traceId with
  | none => simp
  | some t => simp [cuttable_iff]

/-! ## Runs -/

/-- The call submits what the scheduler has built, with trace ids of `T`. -/
def Call.TracedIn (T : String → Prop) (c : Call) : Prop :=
  c.op.Enqueues ∧ ∀ task ∈ c.op.tasks, ∀ t, task.traceId = some t → T t

/-- In the runs that submit tasks with trace ids of `T`, no transaction panics, and every audit row
has the longest front of the trace id of its task that fits. -/
structure CapTotal (T : String → Prop) : Prop where
  calm : ∀ {os db}, Runs (Calls (Call.TracedIn T)) .empty os db →
    ∀ s ∈ db.sessions.rows, s.rest ≠ .unwind
  longest : ∀ {os db}, Runs (Calls (Call.TracedIn T)) .empty os db → ∀ x ∈ db.log,
    ∃ r, db.table.get x.2.taskId = some r ∧ Option.Rel (LongestPrefix 255) x.2.traceId r.traceId

section Runs

variable {T : String → Prop} {os : List Outcome} {db : System}

/-- The database has accepted the trace id of an inserted row. -/
theorem storable_of_checkInsert {r : TaskRow} (h : checkInsert r = .ok ()) {t : String}
    (ht : r.traceId = some t) : storableText t = true := by
  obtain ⟨-, -, h⟩ := exists_of_bind_ok h
  obtain ⟨⟨⟩, htexts, -⟩ := exists_of_bind_ok h
  by_contra hbad
  have hrefused : ([r.lastError, r.idempotencyKey, r.traceId, r.region].all
      fun s => s.all storableText) = false := by
    simp [ht, hbad]
  rw [hrefused] at htexts
  cases htexts

/-- The trace ids of a run are those of its submissions that the database has accepted. -/
theorem Runs.traceIds (h : Runs (Calls (Call.TracedIn T)) .empty os db) :
    db.AllVersions fun r => ∀ t, r.traceId = some t → T t ∧ storableText t = true := by
  refine (Reaches.allVersions (P := fun call _ q => call.op.Sends q ∧
    ∀ task ∈ call.op.tasks, ∀ t, task.traceId = some t → T t) ?_
    (fun _ _ _ call _ hok => (call.op.program_all call.auditLog).mono fun q hq => ⟨hq, hok.2⟩)
    ⟨by simp [System.empty, Db.idle], fun s hs => by simp [System.empty, Db.idle] at hs⟩
    (fun s hs => by simp [System.empty, Db.idle] at hs) h).1
  intro call b q e rows free eff hq hrows he v hv t ht
  -- only an insert gives a row its trace id
  cases q with
  | insertTask task lastError d =>
    obtain ⟨r, hr, heff⟩ := exists_of_bind_ok he
    cases heff
    obtain rfl : r = some v := Option.mem_toList.mp hv
    obtain ⟨rfl, -, -⟩ := execInsert_eq_some hr
    obtain ⟨⟨⟩, hcheck, -⟩ := exists_of_bind_ok hr
    exact ⟨hq.2 task hq.1 t ht, storable_of_checkInsert hcheck ht⟩
  | update u =>
    obtain ⟨o, hc, hold⟩ := written_of_exec he v hv
    cases hc with
    | update hrw => exact hrows _ (hold _ rfl) t (hrw.sameTask.traceId ▸ ht)
  | selectById | selectActive | insertAudit =>
    obtain ⟨o, hc, -⟩ := written_of_exec he v hv
    cases hc

/-- Every audit row has the trace id of its task, cut. -/
theorem Runs.cut {ok : List Outcome → System → Move → Prop} (h : Runs ok .empty os db)
    {x : ℕ × AuditRow} (hx : x ∈ db.log) :
    ∃ r, db.table.get x.2.taskId = some r ∧ Option.Rel (LongestPrefix 255) x.2.traceId r.traceId := by
  obtain ⟨sid, call, b, cs, ls, reply, f, ho, hxls, ha, hf, c, hc, hrow⟩ := Runs.mem_log h hx
  obtain ⟨r, hr, hsame⟩ := Runs.sameTask h ho hc
  obtain ⟨hid, htrace⟩ := Op.entry?_task hf c.new
  have hlog := Runs.loggable rfl h ho (Option.isSome_of_eq_some hf) c.new
    (mem_news.mpr ⟨c, hc, rfl⟩)
  rw [ha] at hlog
  have hcut : x.2.traceId = c.new.traceId.bind capTraceId := by
    rw [hrow, ← htrace]
    rfl
  refine ⟨r, ?_, ?_⟩
  · rw [hrow]
    show db.table.get (f c.new).taskId = some r
    rw [hid]
    exact hr
  · rw [hcut, hsame.traceId]
    cases ht : c.new.traceId with
    | none => exact .none
    | some t =>
      obtain ⟨u, hu⟩ := Option.ne_none_iff_exists'.mp (cuttable_iff.mp (loggable_iff.mp hlog t ht))
      rw [Option.bind_some, hu]
      exact .some (capTraceId_eq_some_iff.mp hu).2

end Runs

/-- A submission with a trace id. -/
def submittedWith (t : String) : TaskRecord :=
  newTask ⟨1⟩ 0 sampleQueue sampleKind sampleJson .default .default 0 none (some t) none

theorem enqueued_submittedWith (t : String) : Enqueued (submittedWith t) := by
  have h : enqueueRaw ⟨1⟩ 0 sampleQueue "email" sampleJson none none none (some t) none =
      .ok (submittedWith t) := rfl
  exact ⟨0, 0, .raw h⟩

/-- The submission with the audit log enabled. -/
def submission (t : String) : Call := ⟨true, .save (submittedWith t), none⟩

/-- **A submission panics** whose trace id is stored and cannot be cut. -/
theorem submission_unwinds {t : String} (hstore : storableText t = true) (hcut : ¬ Cuttable t)
    {T : String → Prop} (ht : T t) :
    ∃ os db, Runs (Calls (Call.TracedIn T)) .empty os db ∧ ∃ s ∈ db.sessions.rows, s.rest = .unwind := by
  let row := insertedRow ⟨0⟩ (submittedWith t) none
  have hcall : Call.TracedIn T (submission t) := by
    constructor
    · intro task htask
      obtain rfl := List.mem_singleton.mp htask
      exact enqueued_submittedWith t
    · intro task htask t' heq
      obtain rfl := List.mem_singleton.mp htask
      cases heq
      exact ht
  -- the transaction starts
  let s : Session Stmt Stmt.Res Call Began TaskRow AuditRow Reply :=
    ⟨0, submission t, ⟨0⟩, (submission t).program, [], []⟩
  let db₁ : System := { System.empty with sessions := System.empty.sessions.put s }
  have hstart : Db.step postgres Call.program System.empty (.start 0 (submission t) ⟨0⟩) =
      some (db₁, .silent) := rfl
  -- and inserts its row
  have hs : s ∈ db₁.sessions.rows := Table.mem_put.mpr (.inl rfl)
  have hexec : postgres.exec (.insertTask (submittedWith t) none false) ⟨0⟩ .all (db₁.view s).rows
      (db₁.free s.id) = .ok ⟨[row], [], some row⟩ := by
    have htexts : ([row.lastError, row.idempotencyKey, row.traceId, row.region].all
        fun s => s.all storableText) = true := by
      show (true && (true && (storableText t && (true && true)))) = true
      rw [hstore]
      rfl
    have hkind : storableText row.kind = true := by
      show storableText "email" = true
      decide +kernel
    have hjson : (storableJson row.payload &&
        [row.checkpoint, row.signalPayload].all fun j => j.all storableJson) = true := by
      show (storableJson sampleJson && (true && (true && true))) = true
      decide +kernel
    have hcheck : checkInsert row = .ok () := by
      rw [checkInsert, hkind, htexts, hjson]
      rfl
    have hinsert : execInsert ⟨0⟩ (submittedWith t) none false [] = .ok (some row) := by
      show (checkInsert row >>= fun _ => _) = _
      rw [hcheck]
      rfl
    show (execInsert ⟨0⟩ (submittedWith t) none false [] >>= fun _ => _) = _
    rw [hinsert]
    rfl
  have hmove : Db.Step postgres Call.program _ (.exec 0 .all) _ _ :=
    Db.Step.exec hs rfl rfl hexec fun v _ => rfl
  have hstep := Db.step_iff.mpr hmove
  -- the audit write of the row panics
  have hcap : capTraceId t = none := by
    by_contra hne
    exact hcut (cuttable_iff.mpr hne)
  have hadmit : Calls (Call.TracedIn T) [.silent] db₁ (.exec 0 .all) := trivial
  refine ⟨_, _, ((Reaches.init.next hcall hstart).next hadmit hstep), _,
    Table.mem_put.mpr (.inl rfl), ?_⟩
  show (auditCreated true row >>= fun _ => _) = Program.unwind
  have hmap : row.traceId.map capTraceId = some none := congrArg some hcap
  rw [auditCreated, insertAuditRow, if_pos rfl, hmap]
  rfl

/-- **The cap is total exactly for the trace ids that can be cut**, of those the database
accepts. -/
theorem trace_id_cap_iff (T : String → Prop) :
    CapTotal T ↔ ∀ t, T t → storableText t = true → Cuttable t := by
  constructor
  · intro h t ht hstore
    by_contra hcut
    obtain ⟨os, db, hr, s, hs, hunwind⟩ := submission_unwinds hstore hcut ht
    exact h.calm hr s hs hunwind
  · intro h
    -- a panic names a version whose trace id cannot be cut, and the run has admitted none
    refine ⟨fun hr s hs hunwind => ?_, fun hr x hx => Runs.cut hr hx⟩
    obtain ⟨v, hv, hbad⟩ := Runs.unwound rfl hr s hs hunwind
    apply hbad
    intro ha
    have hlog := loggable_iff.mpr fun t ht => by
      obtain ⟨hT, hstore⟩ := (Runs.traceIds hr).2 s hs v hv t ht
      exact h t hT hstore
    exact hlog rfl

/-- The submission of a task with a trace id of 256 bytes, whose last character has two of them,
panics. -/
theorem long_submission_panics : ¬ CapTotal (fun t => t = longTraceId) ∧
    ∃ os db, Runs (Calls (Call.TracedIn fun t => t = longTraceId)) .empty os db ∧
      ∃ s ∈ db.sessions.rows, s.rest = .unwind := by
  have hstore : storableText longTraceId = true := by
    unfold storableText longTraceId
    rw [String.toList_ofList, List.all_append, List.all_replicate]
    decide
  have hcut : ¬ Cuttable longTraceId := fun h => cuttable_iff.mp h capTraceId_longTraceId
  obtain ⟨os, db, hr, s, hs, hunwind⟩ :=
    submission_unwinds (T := fun t => t = longTraceId) hstore hcut (Eq.refl longTraceId)
  exact ⟨fun h => h.calm hr s hs hunwind, os, db, hr, s, hs, hunwind⟩

end IronDefer
