import IronDefer.Api.Cancellation

/-!
# The decisive instant of a call

A call that changes one task looks for it in one state: running, suspended, or running and claimed by
one worker. It does so in its first statement, at an instant of the call that others do not choose
and do not see. Whether the call is refused is decided there: it is refused where the task is not
in the state looked for then, and only there, whatever others do before and afterwards. The status
codes that the HTTP layer makes of the errors are true of the task at an instant of the call.

## Main definitions

* `Guard`, `Op.guard`: the task and the state that an operation looks for
* `Guard.Met`: the task is in that state in a state of the database
* `Outcome.IsRefusal`: the answer tells that the task is not there, or not in the state looked for
* `Decided`, `TrueStatus`: an instant of the call decides, and the status code of an error is true

## Main results

* `result_of_named`: an update that names its row finds it exactly where it selects it
* `Op.looksFor`: what an operation goes on with, where its update has found the row or not
* `refusal_decided`: **a call is refused exactly where its guard is not met at its decisive instant**
-/

namespace IronDefer

open RowStore

/-! ## Guards -/

/-- The task an operation is about, and the versions of it that it looks for. -/
structure Guard where
  task : TaskId
  meets : TaskRow → Bool

/-- What an operation about one task looks for. -/
def Op.guard : Op → Option Guard
  | complete taskId | fail taskId .. | suspend taskId | releaseLeaseForTask taskId =>
    some ⟨taskId, fun r => r.status = .running⟩
  | signal taskId _ => some ⟨taskId, fun r => r.status = .suspended⟩
  | writeCheckpoint taskId workerId _ =>
    some ⟨taskId, fun r => r.claimedBy = some workerId && r.status = .running⟩
  | _ => none

/-- A signal payload over the limit is refused before any statement. -/
def Op.checkPayload : Op → Except RepoError Unit
  | signal _ payload => checkSignalPayload payload
  | _ => .ok ()

/-- The task is stored in a version that is looked for. -/
def Guard.Met (g : Guard) (db : System) : Prop :=
  ∃ r, db.table.get g.task = some r ∧ g.meets r = true

/-- The reply tells that the task is not there, or not in the state looked for. -/
def Guard.Refuses (g : Guard) (reply : Reply) : Prop :=
  ∃ e, reply = .error e ∧
    (e = .notFound g.task ∨ ∃ expected, e = .notInExpectedState g.task expected)

/-- The reply tells of no error but one of the storage. -/
def Accepts (reply : Reply) : Prop := ∀ e, reply = .error e → ∃ source, e = .storage source

/-- The call is answered with a refusal. -/
def Outcome.IsRefusal (o : Outcome) (g : Guard) : Prop := ∃ reply, o.reply = some reply ∧ g.Refuses reply

/-! ## Looking for a row -/

/-- An update that names its row looks for a version of it. -/
structure Update.Names (u : Update) (g : Guard) : Prop where
  named : u.scans = false
  selects : ∀ b r, u.selects b r = (decide (r.id = g.task) && g.meets r)

/-- **An update that names its row finds it exactly where it selects it.** -/
theorem result_of_named {u : Update} {g : Guard} (hu : u.Names g) {b : Began} {e : Env}
    {t : Table TaskRow.id} {free : TaskId → Bool} {eff : Effect TaskRow AuditRow (List TaskRow)}
    (h : postgres.exec (.update u) b e t.rows free = .ok eff) :
    eff.result ≠ [] ↔ ∃ r, t.get g.task = some r ∧ g.meets r = true := by
  obtain ⟨rs, hrs, h⟩ := exists_of_bind_ok h
  cases h
  have hlen := (rewrites_of_execUpdate hrs).length_eq
  -- the targets are the rows selected
  have htargets : targets b e t.rows free u = t.rows.filter fun r => u.selects b r := by
    have hscans := hu.named
    cases u with
    | claimNext => cases hscans
    | _ => simp [targets, hscans]
  have hfound : rs ≠ [] ↔ targets b e t.rows free u ≠ [] := by
    rw [← List.length_pos_iff, ← List.length_pos_iff, hlen]
  refine hfound.trans ?_
  rw [htargets]
  constructor
  · intro hne
    obtain ⟨r, hr⟩ := List.exists_mem_of_ne_nil _ hne
    obtain ⟨hmem, hsel⟩ := List.mem_filter.mp hr
    rw [hu.selects, Bool.and_eq_true, decide_eq_true_eq] at hsel
    exact ⟨r, hsel.1 ▸ Table.get_key_of_mem hmem, hsel.2⟩
  · rintro ⟨r, hget, hmeets⟩ hnil
    obtain ⟨hmem, hid⟩ := Table.get_eq_some hget
    have hr : r ∈ t.rows.filter fun r => u.selects b r := by
      refine List.mem_filter.mpr ⟨hmem, ?_⟩
      rw [hu.selects, decide_eq_true hid, hmeets]
      rfl
    rw [hnil] at hr
    cases hr

/-- What an operation goes on with: it does not refuse a row that it has found, and where it has
found none it refuses, perhaps after a second look at the task. -/
structure LooksFor (p : Tx (Finish Reply)) (g : Guard) (u : Update)
    (k : List TaskRow → Tx (Finish Reply)) : Prop where
  names : u.Names g
  program : p = .stmt (.update u) k
  found : ∀ row rows, (k (row :: rows)).EndsIn (fun _ _ => True) fun fin => Accepts fin.reply
  missed : (∃ fin, k [] = .pure fin ∧ g.Refuses fin.reply ∧ fin.reply ≠ .error (.notFound g.task)) ∨
    ∃ fin : Option TaskRow → Finish Reply,
      k [] = .stmt (.selectById g.task) (fun r => .pure (fin r)) ∧
        (∀ r, g.Refuses (fin r).reply) ∧
          ∀ r, (fin r).reply = .error (.notFound g.task) → r = none

theorem accepts_ok {x : Response} : Accepts (.ok x) := by rintro e ⟨⟩

/-- A row that cannot be decoded is no refusal. -/
theorem accepts_of_tryFrom {r : TaskRow} {f : TaskRecord → Response} :
    Accepts ((TaskRecord.tryFrom r).map f) := by
  intro e he
  by_cases hd : r.Decodes
  · rw [tryFrom_of_decodes hd] at he
    cases he
  · obtain ⟨reason, hreason⟩ := tryFrom_of_not_decodes hd
    rw [hreason] at he
    cases he
    exact ⟨_, rfl⟩

theorem Accepts.not_refuses {reply : Reply} (h : Accepts reply) (g : Guard) : ¬ g.Refuses reply := by
  rintro ⟨e, he, hrefuses⟩
  obtain ⟨source, rfl⟩ := h e he
  rcases hrefuses with h | ⟨_, h⟩
  · cases h
  · cases h

theorem refuses_expected {g : Guard} {expected : String} :
    g.Refuses (.error (.notInExpectedState g.task expected)) := ⟨_, rfl, .inr ⟨_, rfl⟩⟩

/-- A transition looks for a row. -/
theorem looksFor_transition {a : Bool} {g : Guard} {u : Update} {fromStatus : String}
    {toStatus : TaskRow → String} {workerId : TaskRow → Option WorkerId} {metadata : Option Json}
    {otherwise : Tx (Finish Reply)} (hu : u.Names g)
    (hmissed : (∃ fin, otherwise = .pure fin ∧ g.Refuses fin.reply ∧
        fin.reply ≠ .error (.notFound g.task)) ∨
      ∃ fin : Option TaskRow → Finish Reply,
        otherwise = .stmt (.selectById g.task) (fun r => .pure (fin r)) ∧
          (∀ r, g.Refuses (fin r).reply) ∧
            ∀ r, (fin r).reply = .error (.notFound g.task) → r = none) :
    ∃ k, LooksFor (transition a u fromStatus toStatus workerId metadata otherwise) g u k := by
  refine ⟨_, hu, rfl, fun row rows => ?_, hmissed⟩
  change Program.EndsIn _ _ (insertAuditRow .. >>= _)
  exact Program.endsIn_bind_of_forall fun _ => accepts_of_tryFrom

/-- What a signal is refused with, by the row that a second look has found. -/
def signalRefusal (taskId : TaskId) : Option TaskRow → Finish Reply
  | none => .rollback (.error (.notFound taskId))
  | some _ => .rollback (.error (.notInExpectedState taskId "Suspended"))

theorem signal_eq (a : Bool) (id : TaskId) {payload : Option Json}
    (hp : checkSignalPayload payload = .ok ()) : Op.program a (.signal id payload) =
      IronDefer.transition a (.signal id payload) "suspended" (fun _ => "pending") (fun _ => none)
        none (.stmt (.selectById id) fun r => .pure (signalRefusal id r)) := by
  change IronDefer.signal a id payload = _
  rw [IronDefer.signal, hp]
  refine congrArg (IronDefer.transition a _ _ _ _ _) ?_
  refine congrArg (Program.stmt (Stmt.selectById id)) (funext fun r => ?_)
  cases r <;> rfl

/-- **What an operation about one task does**: it looks for it in one state. -/
theorem Op.looksFor {op : Op} {g : Guard} (hg : op.guard = some g) (hp : op.checkPayload = .ok ())
    (a : Bool) : ∃ u k, LooksFor (op.program a) g u k := by
  cases op with
  | complete id | fail id | suspend id =>
    cases hg
    exact ⟨_, looksFor_transition ⟨rfl, fun _ _ => rfl⟩
      (.inl ⟨_, rfl, refuses_expected, by rintro ⟨⟩⟩)⟩
  | signal id payload =>
    cases hg
    rw [signal_eq a id hp]
    refine ⟨_, looksFor_transition ⟨rfl, fun _ _ => rfl⟩ (.inr ⟨signalRefusal id, rfl, ?_, ?_⟩)⟩
    · intro r
      cases r with
      | none => exact ⟨_, rfl, .inl rfl⟩
      | some row => exact refuses_expected
    · intro r hr
      cases r with
      | none => rfl
      | some row => cases hr
  | releaseLeaseForTask id =>
    cases hg
    refine ⟨_, _, ⟨rfl, fun _ _ => rfl⟩, rfl, fun row rows => ?_,
      .inl ⟨_, rfl, refuses_expected, by rintro ⟨⟩⟩⟩
    change Program.EndsIn _ _ (insertAuditRow .. >>= _)
    exact Program.endsIn_bind_of_forall fun _ => accepts_ok
  | writeCheckpoint id w data =>
    cases hg
    have hnames : (Update.writeCheckpoint id w data).Names
        ⟨id, fun r => r.claimedBy = some w && r.status = .running⟩ :=
      ⟨rfl, fun b r => Bool.and_assoc ..⟩
    exact ⟨_, _, hnames, rfl, fun _ _ => accepts_ok,
      .inl ⟨_, rfl, refuses_expected, by rintro ⟨⟩⟩⟩
  | _ => cases hg

/-! ## Calls -/

theorem news_of_update {u : Update} {b : Began} {e : Env} {rows : List TaskRow}
    {free : TaskId → Bool} {eff : Effect TaskRow AuditRow (List TaskRow)}
    (h : postgres.exec (.update u) b e rows free = .ok eff) : eff.news = eff.result := by
  obtain ⟨rs, -, h⟩ := exists_of_bind_ok h
  cases h
  rfl

section Call

variable {db d₀ d db' : System} {evs : List Move} {o : Outcome} {sid : ℕ} {a : Bool} {op : Op}
  {g : Guard} {onBehalf : Option Execution} {b : Began}

/-- An instant of a call decides whether it is refused. -/
def Decided (g : Guard) (sid : ℕ) (db : System) (evs : List Move) (o : Outcome) : Prop :=
  ∃ xs e ys d os, evs = xs ++ .exec sid e :: ys ∧ (∀ ev ∈ xs, ev.sid ≠ sid) ∧
    run System.step db xs = some (d, os) ∧ (o.IsRefusal g ↔ ¬ g.Met d)

/-- The status code of an error is true of the task at an instant of the call. -/
structure TrueStatus (g : Guard) (db : System) (evs : List Move) (e : AppError) : Prop where
  missing : e.status = 404 → Passes System.step db evs fun d => d.table.get g.task = none
  conflict : e.status = 409 → Passes System.step db evs fun d => ¬ g.Met d

/-- What a call that was not refused at its decisive instant answers. -/
theorem TrueStatus.of_accepts {evs : List Move} {db : System} {reply : Reply} (h : Accepts reply)
    {e : RepoError} (he : reply = .error e) (display : RepoError → String) :
    TrueStatus g db evs (.ofTaskError display e) := by
  obtain ⟨source, rfl⟩ := h e he
  exact ⟨fun hstatus => absurd hstatus (show ¬ (500 : ℕ) = 404 by decide),
    fun hstatus => absurd hstatus (show ¬ (500 : ℕ) = 409 by decide)⟩

/-- What a refused call answers. -/
theorem TrueStatus.of_refuses {evs : List Move} {db : System} {reply : Reply}
    (h : g.Refuses reply) {e : RepoError} (he : reply = .error e) (display : RepoError → String)
    (hmissing : reply = .error (.notFound g.task) →
      Passes System.step db evs fun d => d.table.get g.task = none)
    (hconflict : Passes System.step db evs fun d => ¬ g.Met d) :
    TrueStatus g db evs (.ofTaskError display e) := by
  obtain ⟨e', he', hrefuses⟩ := h
  obtain rfl : e = e' := Except.error.inj (he.symm.trans he')
  rcases hrefuses with rfl | ⟨expected, rfl⟩
  · exact ⟨fun _ => hmissing he, fun _ => hconflict⟩
  · exact ⟨fun hstatus => absurd hstatus (show ¬ (409 : ℕ) = 404 by decide), fun _ => hconflict⟩

/-- The first statement of a call that looks for a row is its decisive one. -/
theorem answered_of_looksFor
    (hstart : System.step db (.start sid ⟨a, op, onBehalf⟩ b) = some (d₀, .silent))
    (h : Db.Spans postgres Call.program sid d₀ evs d db' o) {u : Update}
    {k : List TaskRow → Tx (Finish Reply)} (hlooks : LooksFor (op.program a) g u k)
    (display : RepoError → String) : Decided g sid d₀ evs o ∧
      ∀ e, o.reply = some (.error e) → TrueStatus g d₀ evs (.ofTaskError display e) := by
  have hs := Db.get_of_start hstart
  obtain ⟨xs, e, ys, d₁, os, eff, rfl, hxs, hrun, hrun₁, -, hexec, hs₁, hspan⟩ :=
    h.of_stmt hs hlooks.program
  have hfound : eff.result ≠ [] ↔ g.Met d₁ := result_of_named hlooks.names hexec
  cases hresult : eff.result with
  | cons row rows =>
    -- the row has been found, and what follows does not refuse it
    rw [hresult] at hs₁
    have hmet : g.Met d₁ := hfound.mp (by simp [hresult])
    have hreply := hspan.of_endsIn hs₁ rfl (hlooks.found row rows)
    refine ⟨⟨xs, e, ys, d₁, os, rfl, hxs, hrun, ?_⟩, fun err herr => ?_⟩
    · refine ⟨?_, fun hnot => absurd hmet hnot⟩
      rintro ⟨reply, ho, hrefuses⟩
      rcases hreply with hnone | ⟨fin, hfin, haccepts⟩
      · rw [hnone] at ho
        cases ho
      · rw [hfin] at ho
        obtain rfl := Option.some.inj ho
        exact absurd hrefuses (haccepts.not_refuses g)
    · rcases hreply with hnone | ⟨fin, hfin, haccepts⟩
      · rw [hnone] at herr
        cases herr
      · rw [hfin] at herr
        exact .of_accepts haccepts (Option.some.inj herr) display
  | nil =>
    rw [hresult] at hs₁
    have hnot : ¬ g.Met d₁ := fun hmet => hfound.mpr hmet hresult
    have hpasses : Passes System.step d₀ (xs ++ .exec sid e :: ys) fun d => ¬ g.Met d :=
      Passes.of_run hrun hnot
    have hdecided : ∀ {reply}, o.reply = some reply → g.Refuses reply →
        Decided g sid d₀ (xs ++ .exec sid e :: ys) o := fun ho hrefuses =>
      ⟨xs, e, ys, d₁, os, rfl, hxs, hrun, fun _ => hnot, fun _ => ⟨_, ho, hrefuses⟩⟩
    rcases hlooks.missed with ⟨fin, hk, hrefuses, hthere⟩ | ⟨fin, hk, hrefuses, hgone⟩
    · obtain ⟨-, hreply⟩ := hspan.of_pure hs₁ hk
      refine ⟨hdecided hreply hrefuses, fun err herr => ?_⟩
      rw [hreply] at herr
      exact .of_refuses hrefuses (Option.some.inj herr) display (fun hnone => absurd hnone hthere)
        hpasses
    · -- the second look is at another instant
      obtain ⟨ys', e', zs, d₂, os', eff', rfl, -, hrun', -, -, hexec', hs₂, hspan'⟩ :=
        hspan.of_stmt hs₁ hk
      obtain ⟨-, hreply⟩ := hspan'.of_pure hs₂ rfl
      refine ⟨hdecided hreply (hrefuses _), fun err herr => ?_⟩
      rw [hreply] at herr
      refine .of_refuses (hrefuses _) (Option.some.inj herr) display (fun hnone => ?_) hpasses
      have hnews : eff.news = [] := (news_of_update hexec).trans hresult
      have hget : d₂.table.get g.task = none := by
        have hlook : eff'.result = d₂.table.get g.task := by
          have hexec₂ : postgres.exec (.selectById g.task) b e' d₂.table.rows (d₂.free sid) =
              .ok eff' := by simpa [Db.view, hnews] using hexec'
          exact (result_of_selectById hexec₂).1
        rw [← hlook]
        exact hgone _ hnone
      have hrun₂ : run System.step d₀ ((xs ++ [.exec sid e]) ++ ys') =
          some (d₂, (os ++ [.silent]) ++ os') := by
        rw [run_append hrun₁, hrun']
        rfl
      have hall : Passes System.step d₀ (((xs ++ [.exec sid e]) ++ ys') ++ .exec sid e' :: zs)
          fun d => d.table.get g.task = none := Passes.of_run hrun₂ hget
      simpa using hall

end Call

/-- **A call is refused exactly where its guard is not met at its decisive instant**, which is that
of its first statement: whatever others do before it, after it and while the call goes on. The
status codes of the errors it is answered with are true of the task at an instant of the call. -/
theorem refusal_decided {db d₀ d db' : System} {evs : List Move} {o : Outcome} {sid : ℕ} {a : Bool}
    {op : Op} {g : Guard} {onBehalf : Option Execution} {b : Began} (hg : op.guard = some g)
    (hp : op.checkPayload = .ok ())
    (hstart : System.step db (.start sid ⟨a, op, onBehalf⟩ b) = some (d₀, .silent))
    (h : Db.Spans postgres Call.program sid d₀ evs d db' o) (display : RepoError → String) :
    Decided g sid d₀ evs o ∧
      ∀ e, o.reply = some (.error e) → TrueStatus g d₀ evs (.ofTaskError display e) := by
  obtain ⟨u, k, hlooks⟩ := Op.looksFor hg hp a
  exact answered_of_looksFor hstart h hlooks display

/-- The sample task has been submitted, and a signal to it has begun. -/
def signalBegun : System :=
  System.after (serve 1 (callOf (.save (sampleTask .default))) 0 [.all] ++
    [.start 2 (callOf (.signal ⟨1⟩ none)) ⟨10⟩])

/-- The task is claimed and suspended before the first statement of the signal, or after it. -/
def suspendBetween : List Move := claimBetween ++ serve 4 (callOf (.suspend ⟨1⟩)) 30 [.all]

theorem signalBegun_spans {evs : List Move} {db' : System} {o : Outcome}
    (hown : evs.all (goesOn 2) = true) (hrun : (run System.step signalBegun evs).isSome)
    (hdone : System.step (signalBegun.resume evs).1 (.finish 2) = some (db', o)) :
    Db.Spans postgres Call.program 2 signalBegun evs (signalBegun.resume evs).1 db' o where
  own ev hev hsid := by
    have hgoes := List.all_eq_true.mp hown ev hev
    cases ev with
    | exec sid e => exact ⟨e, by cases hsid; rfl⟩
    | start => simp [goesOn, hsid] at hgoes
    | fault => simp [goesOn, hsid] at hgoes
    | finish => simp [goesOn, hsid] at hgoes
  ran := by
    obtain ⟨⟨d, os⟩, he⟩ := Option.isSome_iff_exists.mp hrun
    exact ⟨os, by simp [System.resume, he]⟩
  ended := hdone

/-- The moves of a signal whose task is suspended between its two statements. -/
def earlySignal : List Move := [.exec 2 .all] ++ suspendBetween ++ [.exec 2 .all]

/-- The error a call is answered with. -/
def Outcome.error? (o : Outcome) : Option RepoError :=
  match o.reply with
  | some (.error e) => some e
  | _ => none

theorem reply_of_error? {o : Outcome} {e : RepoError} (h : o.error? = some e) :
    o.reply = some (.error e) := by
  unfold Outcome.error? at h
  split at h
  next heq => cases h; exact heq
  · cases h

/-- A signal that comes too early is refused for what was true at its first statement, though the
task is suspended when it looks again. -/
theorem early_signal_refused : ∃ db' o,
    System.step (signalBegun.resume earlySignal).1 (.finish 2) = some (db', o) ∧
    statusAt db' ⟨1⟩ = some .suspended ∧
    o.error? = some (.notInExpectedState ⟨1⟩ "Suspended") ∧
    Decided ⟨⟨1⟩, fun r => r.status = .suspended⟩ 2 signalBegun earlySignal o ∧
    Passes System.step signalBegun earlySignal
      fun d => ¬ Guard.Met ⟨⟨1⟩, fun r => r.status = .suspended⟩ d := by
  obtain ⟨⟨db', o⟩, hdone⟩ :
      ∃ x, System.step (signalBegun.resume earlySignal).1 (.finish 2) = some x :=
    Option.isSome_iff_exists.mp (by decide +kernel)
  have hstatus : (System.step (signalBegun.resume earlySignal).1 (.finish 2)).bind
      (fun x => statusAt x.1 ⟨1⟩) = some .suspended := by decide +kernel
  have herror : (System.step (signalBegun.resume earlySignal).1 (.finish 2)).bind
      (fun x => x.2.error?) = some (.notInExpectedState ⟨1⟩ "Suspended") := by decide +kernel
  rw [hdone] at hstatus herror
  have hspan := signalBegun_spans (by decide) (by decide +kernel) hdone
  have hstart : System.step (System.after (serve 1 (callOf (.save (sampleTask .default))) 0 [.all]))
      (.start 2 (callOf (.signal ⟨1⟩ none)) ⟨10⟩) = some (signalBegun, .silent) := rfl
  obtain ⟨hdecided, htrue⟩ := refusal_decided rfl rfl hstart hspan fun _ => ""
  exact ⟨db', o, hdone, hstatus, herror, hdecided, (htrue _ (reply_of_error? herror)).conflict rfl⟩

end IronDefer
