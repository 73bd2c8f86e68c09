import IronDefer.Infrastructure.Retries
import IronDefer.Infrastructure.RoundTrip
import IronDefer.Text.Boundaries

/-!
# Error messages

The adapter cuts an error message to 4096 bytes before it writes it, and again when it decodes a
row. The cut exists twice, for a message that is owned and for one that is borrowed. Neither panics,
both keep the longest front that fits, and what they keep is not cut again. So a failed task has the
same message in the reply to the failure, in the table, and wherever it is looked up, until it fails
again.

## Main definitions

* `truncateLastErrorOwned`, `truncateLastErrorBorrow`: the cut of an owned and of a borrowed message
* `TruncatesTo`: what both cuts make of a message
* `Entry.Fails`: the change of a task is a failure
* `KeepsMessage`: the reply to a failure, the table and the lookups after it agree on its message

## Main results

* `truncateLastErrorOwned_eq`, `truncateLastErrorBorrow_eq`: no cut panics, and both make the same
* `Update.Rewrites.lastError_eq`: only failures write the message of a task
* `Runs.keepsMessage`: the message of a failure is kept, in every run
* `last_error_kept`: **a message is cut once, and kept until the next failure**
-/

namespace IronDefer

open RowStore

/-! ## The two cuts -/

/-- `truncate_last_error`, which shortens the string it owns. None where the cut panics. -/
def truncateLastErrorOwned (s : String) : Option String :=
  if s.utf8ByteSize ≤ lastErrorMaxBytes then some s
  else
    let cutoff := Text.floorCharBoundary s lastErrorMaxBytes
    Text.truncate s cutoff

/-- `truncate_last_error_borrow`, which returns a slice of the string. None where the slice
panics. -/
def truncateLastErrorBorrow (s : String) : Option String :=
  if s.utf8ByteSize ≤ lastErrorMaxBytes then some s
  else
    let cutoff := Text.floorCharBoundary s lastErrorMaxBytes
    sliceTo s cutoff

/-- `u` is what both cuts make of `s`: its longest front that fits, which they do not cut again, and
`s` itself where that fits. -/
structure TruncatesTo (s u : String) : Prop where
  owned : truncateLastErrorOwned s = some u
  borrowed : truncateLastErrorBorrow s = some u
  longest : LongestPrefix lastErrorMaxBytes u s
  owned_again : truncateLastErrorOwned u = some u
  borrowed_again : truncateLastErrorBorrow u = some u
  unaltered : s.utf8ByteSize ≤ lastErrorMaxBytes → u = s

theorem takeBytes_zero (cs : List Char) : takeBytes 0 cs = [] := by
  cases cs with
  | nil => rfl
  | cons c cs => exact if_neg (Nat.not_le.mpr c.utf8Size_pos)

/-- What a front leaves of the bytes is taken from what follows it. -/
theorem takeBytes_append (ds rest : List Char) (n : ℕ) :
    takeBytes (byteSize ds + n) (ds ++ rest) = ds ++ takeBytes n rest := by
  induction ds with
  | nil => rw [List.nil_append, List.nil_append, byteSize, List.map_nil, List.sum_nil, Nat.zero_add]
  | cons d ds ih =>
    have hfits : d.utf8Size ≤ d.utf8Size + byteSize ds + n := by omega
    have hleft : d.utf8Size + byteSize ds + n - d.utf8Size = byteSize ds + n := by omega
    rw [List.cons_append, byteSize_cons, takeBytes, if_pos hfits, hleft, ih, List.cons_append]

/-- A slice up to the end of a front is the front. -/
theorem sliceTo_append (u v : String) : sliceTo (u ++ v) u.utf8ByteSize = some u := by
  have htake : takeBytes u.utf8ByteSize (u ++ v).toList = u.toList := by
    have hall := takeBytes_append u.toList v.toList 0
    rwa [Nat.add_zero, takeBytes_zero, List.append_nil, ← utf8ByteSize_eq,
      ← String.toList_append] at hall
  simp only [sliceTo, htake, String.ofList_toList, if_true]

/-- The front up to the last boundary is the longest front. -/
theorem longestPrefix_of_floorCharBoundary {u v : String} {n : ℕ}
    (h : u.utf8ByteSize = Text.floorCharBoundary (u ++ v) n) : LongestPrefix n u (u ++ v) := by
  obtain ⟨-, hfront, hfits, hlongest⟩ := sliceTo_eq_some_iff.mp (sliceTo_append u v)
  refine ⟨hfront, ?_, fun w hw hsize => hlongest w hw ?_⟩
  · rw [h]
    exact Text.floorCharBoundary_le
  · -- the end of every front is a boundary, and none is between the last one and `n`
    obtain ⟨rest, hrest⟩ := hw
    have hend : Text.IsCharBoundary (u ++ v) w.utf8ByteSize := by
      have hsplit : u ++ v = w ++ String.ofList rest := by
        apply String.toList_inj.mp
        rw [← hrest, String.toList_append, String.toList_ofList]
      exact Text.isCharBoundary_iff.mpr ⟨w, _, hsplit, rfl⟩
    rw [h]
    exact (Text.le_floorCharBoundary_iff hend).mpr hsize

/-- What is kept of a message is its front up to the last boundary. -/
theorem exists_front_truncateLastError (s : String) :
    ∃ v, s = truncateLastError s ++ v ∧
      (truncateLastError s).utf8ByteSize = Text.floorCharBoundary s lastErrorMaxBytes := by
  obtain ⟨u, v, hs, hsize⟩ := Text.isCharBoundary_iff.mp
    (Text.isCharBoundary_floorCharBoundary (s := s) (n := lastErrorMaxBytes))
  have hlongest : LongestPrefix lastErrorMaxBytes u s := by
    rw [hs]
    apply longestPrefix_of_floorCharBoundary
    rw [← hs, hsize]
  obtain rfl := hlongest.unique (longestPrefix_truncateLastError s)
  exact ⟨v, hs, hsize⟩

/-- **The cut of an owned message does not panic.** -/
theorem truncateLastErrorOwned_eq (s : String) :
    truncateLastErrorOwned s = some (truncateLastError s) := by
  unfold truncateLastErrorOwned
  by_cases h : s.utf8ByteSize ≤ lastErrorMaxBytes
  · rw [if_pos h, truncateLastError, if_pos h]
  · obtain ⟨v, hs, hsize⟩ := exists_front_truncateLastError s
    rw [if_neg h, ← hsize]
    have hcut := Text.truncate_append (truncateLastError s) v
    rwa [← hs] at hcut

/-- **The cut of a borrowed message makes the same**, and does not panic. -/
theorem truncateLastErrorBorrow_eq (s : String) :
    truncateLastErrorBorrow s = some (truncateLastError s) := by
  unfold truncateLastErrorBorrow
  by_cases h : s.utf8ByteSize ≤ lastErrorMaxBytes
  · rw [if_pos h, truncateLastError, if_pos h]
  · obtain ⟨v, hs, hsize⟩ := exists_front_truncateLastError s
    rw [if_neg h, ← hsize]
    have hcut := sliceTo_append (truncateLastError s) v
    rwa [← hs] at hcut

theorem truncatesTo_truncateLastError (s : String) : TruncatesTo s (truncateLastError s) where
  owned := truncateLastErrorOwned_eq s
  borrowed := truncateLastErrorBorrow_eq s
  longest := longestPrefix_truncateLastError s
  owned_again := by rw [truncateLastErrorOwned_eq, truncateLastError_truncateLastError]
  borrowed_again := by rw [truncateLastErrorBorrow_eq, truncateLastError_truncateLastError]
  unaltered h := if_pos h

/-! ## Failures -/

/-- The task fails by this change: its worker reports an error, or the change leaves it failed. -/
def Entry.Fails (x : Entry) : Prop :=
  (∃ id message base max, x.call.op = .fail id message base max) ∨ x.change.new.status = .failed

/-- **The message of a task is written by failures only.** -/
theorem Update.Rewrites.lastError_eq {op : Op} {b : Began} {u : Update} {r r' : TaskRow}
    (h : Rewrites b u r r') (hu : u ∈ op.updates)
    (hfail : ∀ id message base max, op ≠ .fail id message base max) (hstatus : r'.status ≠ .failed) :
    r'.lastError = r.lastError := by
  cases op with
  | fail id message base max => exact absurd rfl (hfail id message base max)
  | recoverZombieTasks =>
    -- the second update writes a message of its own, into rows it leaves failed
    rcases List.mem_cons.mp hu with rfl | hu
    · cases h
      rfl
    · obtain rfl := List.mem_singleton.mp hu
      cases h
      exact absurd rfl hstatus
  | expireSuspendedTasks timeout =>
    obtain rfl := List.mem_singleton.mp hu
    cases h
    exact absurd rfl hstatus
  | save | saveIdempotent | inTx | findById => cases hu
  | _ =>
    obtain rfl := List.mem_singleton.mp hu
    cases h
    rfl

/-- A failure that commits has written the cut message, and replies with the row. -/
theorem Op.Spec.of_fail {rely : Table TaskRow.id → (TaskId → Bool) → Env → Prop} {a : Bool}
    {b : Began} {id : TaskId} {message : String} {base max : ℚ} {cs : List (Change TaskRow)}
    {ls : List AuditRow} {reply : Reply}
    (h : Op.Spec rely a b (.fail id message base max) cs ls (.commit reply)) :
    ∃ c, cs = [c] ∧ c.new.id = id ∧ c.new.lastError = some (truncateLastError message) ∧
      reply = taskReply c.new := by
  cases h with
  | @transition _ tr c htr hc =>
    cases htr
    obtain ⟨r, -, hrw⟩ := hc.rewrites c List.mem_cons_self
    generalize hnew : c.new = r' at hrw
    -- the task is left pending, or failed where its attempts are exhausted
    cases hrw with
    | retry => exact ⟨c, rfl, by rw [hnew], by rw [hnew], by rw [hnew]⟩
    | exhaust => exact ⟨c, rfl, by rw [hnew], by rw [hnew], by rw [hnew]⟩

/-! ## What is read back -/

/-- The reply to a failure of the task, the table after it, and whoever looks the task up before its
next failure have the message `u`. While nobody changes the task, the lookup finds the record of the
reply. -/
structure KeepsMessage (id : TaskId) (u : String) (reply : Reply) (db : System) : Prop where
  stored : ∃ row, db.table.get id = some row ∧ row.lastError = some u ∧ reply = taskReply row
  returned : ∀ record, reply = .ok (.task record) → record.lastError = some u
  found : ∀ ps o result, LooksUp id db ps o → (∀ x ∈ history id ps, ¬ x.Fails) →
    o.reply = some (.ok (.found result)) → ∃ record, result = some record ∧
      record.lastError = some u
  found_again : ∀ record, reply = .ok (.task record) → ∀ o, ReadsBack id db o →
    o.reply = some (.ok (.found (some record)))

section Runs

variable {ok : List Outcome → System → Move → Prop} {t : Table TaskRow.id}
  {log : List (ℕ × AuditRow)} {n : ℕ} {os ps : List Outcome} {db d : System} {id : TaskId}

/-- A record has the message of its row, cut. -/
theorem lastError_of_tryFrom {row : TaskRow} {record : TaskRecord}
    (h : TaskRecord.tryFrom row = .ok record) :
    record.lastError = row.lastError.map truncateLastError := by
  obtain ⟨hd, rfl⟩ := tryFrom_eq_ok_iff.mp h
  rfl

/-- **The message of a task stays until it fails.** -/
theorem Runs.lastError_eq (h : Runs ok (.idle t log n) os db) {evs : List Move}
    (hrun : run System.step db evs = some (d, ps)) (hkeep : ∀ x ∈ history id ps, ¬ x.Fails)
    {r : TaskRow} (hr : db.table.get id = some r) :
    ∃ r', d.table.get id = some r' ∧ r'.lastError = r.lastError := by
  -- the changes of the whole run have causes, and those of its end are linked
  have hmono : Runs (fun _ _ _ => True) (.idle t log n) os db := h.mono fun _ _ _ _ => trivial
  have hall : Runs (fun _ _ _ => True) (.idle t log n) (os ++ ps) d :=
    Reaches.of_run hmono (Admitted.of_forall (fun _ _ _ => trivial) _ _ _) hrun
  have hend : Runs (fun _ _ _ => True) db ([] ++ ps) d :=
    Reaches.of_run .init (Admitted.of_forall (fun _ _ _ => trivial) _ _ _) hrun
  have hlinked := Reaches.linked hend id
  rw [List.nil_append, ← map_change_history] at hlinked
  refine (hlinked.keeps (P := fun o => ∃ r', o = some r' ∧ r'.lastError = r.lastError)
    ⟨r, hr, rfl⟩ ?_).1
  rintro c hc ⟨r₀, hold, hsame⟩
  obtain ⟨x, hx, rfl⟩ := List.mem_map.mp hc
  have hxm : x ∈ history id (os ++ ps) := by
    rw [history_append]
    exact List.mem_append_right _ hx
  obtain ⟨u, hu, hrw⟩ := (hall.caused id x hxm).of_some hold
  refine ⟨_, rfl, ?_⟩
  rw [← hsame]
  apply hrw.lastError_eq hu
  · intro id' message base max hop
    exact hkeep x hx (.inl ⟨id', message, base, max, hop⟩)
  · intro hstatus
    exact hkeep x hx (.inr hstatus)

variable {sid : ℕ} {a : Bool} {message : String} {base max : ℚ} {onBehalf : Option Execution}
  {b : Began} {cs : List (Change TaskRow)} {ls : List (ℕ × AuditRow)} {reply : Reply}

/-- A failure that has committed has written its row. -/
theorem Runs.failed
    (h : Runs ok (.idle t log n)
      (os ++ [.committed sid ⟨a, .fail id message base max, onBehalf⟩ b cs ls reply]) db) :
    ∃ row, db.table.get id = some row ∧ row.lastError = some (truncateLastError message) ∧
      reply = taskReply row := by
  obtain ⟨c, rfl, hid, herror, hreply⟩ := (h.spec_committed (List.mem_concat_self ..)).of_fail
  have hget := h.get_of_last (c := c) List.mem_cons_self
  rw [hid] at hget
  exact ⟨c.new, hget, herror, hreply⟩

/-- **Whatever other transactions do, the message of a failure is kept.** -/
theorem Runs.keepsMessage
    (h : Runs ok (.idle t log n)
      (os ++ [.committed sid ⟨a, .fail id message base max, onBehalf⟩ b cs ls reply]) db) :
    KeepsMessage id (truncateLastError message) reply db := by
  obtain ⟨row, hget, herror, hreply⟩ := h.failed
  have hdecoded : ∀ {row' : TaskRow} {record : TaskRecord}, row'.lastError = row.lastError →
      TaskRecord.tryFrom row' = .ok record → record.lastError = some (truncateLastError message) := by
    intro row' record hsame hrecord
    rw [lastError_of_tryFrom hrecord, hsame, herror, Option.map_some,
      truncateLastError_truncateLastError]
  refine ⟨⟨row, hget, herror, hreply⟩, ?_, ?_, ?_⟩
  · rintro record rfl
    exact hdecoded rfl (tryFrom_of_taskReply hreply.symm)
  · intro ps o result hlook hkeep hresult
    obtain ⟨evs, d, qs, hrun, hqs, ho⟩ := hlook.reply_eq
    obtain ⟨row', hget', hsame⟩ := h.lastError_eq hrun
      (fun x hx => hkeep x (history_subset id hqs hx)) hget
    rw [ho, hget', Option.some.injEq] at hresult
    obtain ⟨record, hrecord, heq⟩ := eq_of_map_eq_ok hresult
    cases heq
    exact ⟨record, rfl, hdecoded hsame hrecord⟩
  · rintro record rfl o hread
    rw [hread.reply_eq hget, foundReply, tryFrom_of_taskReply hreply.symm]
    rfl

end Runs

/-- **An error message is cut once, and kept until the next failure.** Both cuts of every message
are its longest front of at most 4096 bytes; and whatever other transactions do, the reply to a
failure, the table after it and the lookups before the next failure have the message of the failure,
cut. -/
theorem last_error_kept :
    (∀ s, ∃ u, TruncatesTo s u) ∧
    ∀ {ok : List Outcome → System → Move → Prop} {t : Table TaskRow.id} {log : List (ℕ × AuditRow)}
      {n : ℕ} {os : List Outcome} {db : System} {sid : ℕ} {a : Bool} {id : TaskId} {message : String}
      {base max : ℚ} {onBehalf : Option Execution} {b : Began} {cs : List (Change TaskRow)}
      {ls : List (ℕ × AuditRow)} {reply : Reply},
      Runs ok (.idle t log n)
        (os ++ [.committed sid ⟨a, .fail id message base max, onBehalf⟩ b cs ls reply]) db →
      ∃ u, TruncatesTo message u ∧ KeepsMessage id u reply db := by
  constructor
  · intro s
    exact ⟨_, truncatesTo_truncateLastError s⟩
  · intro ok t log n os db sid a id message base max onBehalf b cs ls reply h
    exact ⟨_, truncatesTo_truncateLastError message, h.keepsMessage⟩

/-! ## A sample -/

/-- A message is cut before the character that goes on beyond the cap. -/
theorem truncateLastError_of_crosses {front rest : List Char} {c : Char}
    (hfront : byteSize front ≤ lastErrorMaxBytes)
    (hcross : lastErrorMaxBytes < byteSize front + c.utf8Size) :
    truncateLastError (String.ofList (front ++ c :: rest)) = String.ofList front := by
  have hlong : ¬ (String.ofList (front ++ c :: rest)).utf8ByteSize ≤ lastErrorMaxBytes := by
    rw [utf8ByteSize_eq, String.toList_ofList, byteSize, List.map_append, List.sum_append,
      List.map_cons, List.sum_cons]
    change ¬ byteSize front + (c.utf8Size + byteSize rest) ≤ lastErrorMaxBytes
    omega
  have hnone : takeBytes (lastErrorMaxBytes - byteSize front) (c :: rest) = [] :=
    if_neg (by omega)
  have htake := takeBytes_append front (c :: rest) (lastErrorMaxBytes - byteSize front)
  rw [Nat.add_sub_cancel' hfront, hnone, List.append_nil] at htake
  rw [truncateLastError, if_neg hlong, String.toList_ofList, htake]

/-- A message whose 4096th and 4097th bytes are one character. -/
def longMessage : String :=
  String.ofList (List.replicate 4095 'a' ++ 'é' :: List.replicate 100 'z')

theorem truncateLastError_longMessage :
    truncateLastError longMessage = String.ofList (List.replicate 4095 'a') := by
  have hfront : byteSize (List.replicate 4095 'a') = 4095 := by
    have hone : 'a'.utf8Size = 1 := rfl
    rw [byteSize, List.map_replicate, List.sum_replicate_nat, hone, Nat.mul_one]
  apply truncateLastError_of_crosses
  · rw [hfront]
    decide
  · rw [hfront]
    decide

/-- The row of a task at its last attempt, and the version a failure with the message leaves. -/
def lastAttempt : TaskRow :=
  { attempted singleAttempt.get with maxAttempts := singleAttempt.get }

def lastAttemptStore : Store := .single lastAttempt rfl rfl

def failedLastAttempt (message : String) : TaskRow :=
  { lastAttempt with status := .failed, lastError := some (truncateLastError message) }

/-- The last attempt of a task fails, with any message that can be stored. -/
theorem exists_failed_run {message : String}
    (h : storableText (truncateLastError message) = true) :
    ∃ ps rows n, Runs (fun _ _ _ => True) (.idle lastAttemptStore.table [] 0)
      (ps ++ [.committed 0 (failure false .default message lastAttempt) ⟨0⟩
        [⟨some lastAttempt, failedLastAttempt message⟩] rows (taskReply (failedLastAttempt message))])
      (.idle (lastAttemptStore.table.put (failedLastAttempt message)) rows n) := by
  have hreq : require (storableText (truncateLastError message)) = .ok () := by
    rw [h]
    rfl
  have hversion : failVersion ⟨0⟩ .default message lastAttempt .all =
      .ok (failedLastAttempt message) := by
    rw [failVersion, hreq]
    rfl
  have hmem : lastAttempt ∈ lastAttemptStore.table.rows := Store.mem_single.mpr rfl
  obtain ⟨o, db, ⟨-, ps, -, hruns⟩, hends⟩ := exists_served_fail false ⟨0⟩ .default message
    lastAttemptStore.constrained hmem rfl [] 0 0 scansAll_all
  rw [hversion] at hends
  cases hends with
  | refused herr => cases herr
  | panicked _ hlog =>
    apply (hlog _).elim
    intro htrue
    cases htrue
  | @failed r' rows n hok =>
    cases hok
    exact ⟨ps, rows, n, hruns.mono fun _ _ _ _ => trivial⟩

/-- And it is looked up. -/
theorem lastAttempt_readsBack (message : String) (rows : List (ℕ × AuditRow)) (n : ℕ) :
    ∃ o, ReadsBack lastAttempt.id
      (.idle (lastAttemptStore.table.put (failedLastAttempt message)) rows n) o := by
  refine ⟨_, 1, false, none, ⟨5⟩, [], [.exec 1 .all], _, _, [.silent, .silent], rfl, ?_, rfl, ?_⟩
  · intro ev hev _
    exact ⟨.all, List.mem_singleton.mp hev⟩
  · intro p hp c hc
    obtain rfl : p = .silent := by simpa using hp
    cases hc

/-- The first 4095 bytes of the long message are returned and found again. -/
theorem longMessage_kept : ∃ u reply db record o, KeepsMessage lastAttempt.id u reply db ∧
    reply = .ok (.task record) ∧ ReadsBack lastAttempt.id db o ∧
    o.reply = some (.ok (.found (some record))) ∧
    record.lastError = some (String.ofList (List.replicate 4095 'a')) := by
  have hstore : storableText (truncateLastError longMessage) = true := by
    rw [truncateLastError_longMessage, storableText, String.toList_ofList, List.all_replicate]
    decide
  obtain ⟨ps, rows, n, hr⟩ := exists_failed_run hstore
  obtain ⟨u, hcut, hkeeps⟩ := last_error_kept.2 hr
  have hd : (failedLastAttempt longMessage).Decodes :=
    ⟨rfl, rfl, by decide, by decide, by decide⟩
  have hreply : taskReply (failedLastAttempt longMessage) = .ok (.task (TaskRow.record _ hd)) := by
    rw [taskReply, tryFrom_of_decodes hd]
    rfl
  obtain ⟨o, hread⟩ := lastAttempt_readsBack longMessage rows n
  refine ⟨u, _, _, _, o, hkeeps, hreply, hread, hkeeps.found_again _ hreply o hread, ?_⟩
  rw [hkeeps.returned _ hreply]
  have hsame := hcut.owned.symm.trans (truncateLastErrorOwned_eq longMessage)
  rw [hsame, truncateLastError_longMessage]

end IronDefer
