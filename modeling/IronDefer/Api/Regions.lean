import IronDefer.Api.Engine
import IronDefer.Infrastructure.RowInvariant

/-!
# The region policy

A task is pinned to no region, or to one that is well formed and, where the engine has a list of
allowed regions, on that list. Three entry points do not check a region against the list; two of
these do not check its form either.

## Main definitions

* `ValidRegion`, `RegionPolicy`: the regions a task may have
* `Submission.region`, `Submission.authorizes`: the region a submission asks for, and whether its
  entry point authorizes it
* `Engine.Issues`: the calls an engine makes for its submissions

## Main results

* `region_policy_iff`: **a persisted task obeys the policy where the entry point authorizes regions
  or the region would have been authorized**
* `region_unchecked`: three submissions that pin a task to a region that is not allowed
-/

namespace IronDefer

open RowStore

/-- A region label: 1 to 63 bytes of lowercase letters, digits and hyphens. -/
structure ValidRegion (r : String) : Prop where
  nonempty : 1 ≤ r.utf8ByteSize
  length : r.utf8ByteSize ≤ 63
  chars : ∀ c ∈ r.toList, ('a' ≤ c ∧ c ≤ 'z') ∨ ('0' ≤ c ∧ c ≤ '9') ∨ c = '-'

/-- A task has no region, or a valid one that is allowed. -/
def RegionPolicy (e : Engine) (region : Option String) : Prop :=
  ∀ r, region = some r → ValidRegion r ∧
    (e.producerConfig.allowedRegions ≠ [] → r ∈ e.producerConfig.allowedRegions)

namespace Submission

/-- The region a submission asks for. -/
def region : Submission → Option String
  | enqueue .. | enqueueAt .. | enqueueIdempotent .. => none
  | enqueueWithRegion _ _ region | enqueueIdempotentWithRegion _ _ _ region => some region
  | enqueueInTx _ _ region | enqueueInTxIdempotent _ _ _ region => region
  | enqueueRaw _ _ _ _ _ _ _ region | enqueueRawIdempotent _ _ _ _ _ _ _ _ region => region

/-- The entry point takes no region, or authorizes it. -/
def authorizes : Submission → Bool
  | enqueueIdempotentWithRegion .. | enqueueInTx .. | enqueueInTxIdempotent .. => false
  | _ => true

end Submission

/-- The engine makes the call for submissions that satisfy `P`. -/
def Engine.Issues (e : Engine) (P : Submission → Prop) (c : Call) : Prop :=
  ∀ task ∈ c.op.tasks, ∃ s id now, e.submit id now s = .ok task ∧ s.Saves task c.op ∧ P s

/-! ## The checks -/

theorem validateRegion_eq_ok_iff {r : String} : validateRegion r = .ok () ↔ ValidRegion r := by
  have hchar : ∀ c : Char, isRegionChar c = true ↔
      ('a' ≤ c ∧ c ≤ 'z') ∨ ('0' ≤ c ∧ c ≤ '9') ∨ c = '-' := by
    intro c
    have hlower : c.isLower = (decide ('a' ≤ c) && decide (c ≤ 'z')) := rfl
    have hdigit : c.isDigit = (decide ('0' ≤ c) && decide (c ≤ '9')) := rfl
    simp [isRegionChar, hlower, hdigit, or_assoc]
  have hempty : r.isEmpty = true ↔ r.utf8ByteSize = 0 := by
    rw [String.isEmpty_iff, String.utf8ByteSize_eq_zero_iff]
  -- each check refuses what one of the conditions excludes
  unfold validateRegion
  constructor
  · intro h
    split at h
    · cases h
    next hne =>
      split at h
      · cases h
      next hlen =>
        split at h
        next hall =>
          rw [hempty] at hne
          refine ⟨Nat.one_le_iff_ne_zero.mpr hne, Nat.le_of_not_lt hlen, fun c hc => ?_⟩
          exact (hchar c).mp (List.all_eq_true.mp hall c hc)
        · cases h
  · rintro ⟨hpos, hlen, hchars⟩
    have hne : ¬ r.isEmpty = true := by
      rw [hempty]
      exact Nat.one_le_iff_ne_zero.mp hpos
    have hfits : ¬ regionMaxLen < r.utf8ByteSize := Nat.not_lt.mpr hlen
    rw [if_neg hne, if_neg hfits,
      if_pos (List.all_eq_true.mpr fun c hc => (hchar c).mpr (hchars c hc))]

namespace Engine

variable {e : Engine}

/-- **A region is authorized exactly where the policy allows it.** -/
theorem validateRegionAuthorization_eq_ok_iff {region : Option String} :
    e.validateRegionAuthorization region = .ok () ↔ RegionPolicy e region := by
  cases region with
  | none => exact ⟨fun _ _ h => (by cases h), fun _ => rfl⟩
  | some r =>
    constructor
    · intro h
      obtain ⟨_, hvalid, h⟩ := exists_of_bind_ok h
      rintro _ ⟨⟩
      refine ⟨validateRegion_eq_ok_iff.mp hvalid, fun hne => ?_⟩
      by_contra hmem
      rw [if_pos ⟨hne, hmem⟩] at h
      cases h
    · intro h
      obtain ⟨hvalid, hmem⟩ := h r rfl
      rw [validateRegionAuthorization, validateRegion_eq_ok_iff.mpr hvalid]
      have hneg : ¬ (e.producerConfig.allowedRegions ≠ [] ∧ r ∉ e.producerConfig.allowedRegions) :=
        fun ⟨hne, hnot⟩ => hnot (hmem hne)
      simp only [bind, Except.bind, if_neg hneg]

/-- What a submission asks for is what its record has, and what an authorizing entry point has
checked. -/
theorem submit_region {id : TaskId} {now : DateTime} {s : Submission} {record : TaskRecord}
    (h : e.submit id now s = .ok record) : record.region = s.region ∧
      (s.authorizes = true → e.validateRegionAuthorization s.region = .ok ()) := by
  cases submitted_of_submit h with
  | enqueue hraw | enqueueAt hraw => exact ⟨enqueueRaw_region hraw, fun _ => rfl⟩
  | enqueueWithRegion hauth hraw | enqueueRaw hauth hraw =>
    exact ⟨enqueueRaw_region hraw, fun _ => hauth⟩
  | enqueueRawIdempotent hauth hraw => exact ⟨enqueueRawIdempotent_region hraw, fun _ => hauth⟩
  | enqueueIdempotent hraw => exact ⟨enqueueRawIdempotent_region hraw, fun _ => rfl⟩
  | enqueueIdempotentWithRegion hraw => exact ⟨enqueueRawIdempotent_region hraw, nofun⟩
  | enqueueInTx htx => exact ⟨enqueueInTx_region htx, nofun⟩
  | enqueueInTxIdempotent htx => exact ⟨enqueueInTxIdempotent_region htx, nofun⟩

end Engine

/-! ## The policy -/

/-- The region of a submission is checked, or would pass the check. -/
def Submission.Authorized (e : Engine) (s : Submission) : Prop :=
  s.authorizes = true ∨ e.validateRegionAuthorization s.region = .ok ()

/-- **A persisted task obeys the policy exactly where the entry point authorizes regions or the
region would have been authorized.** For every engine configuration: the row that is inserted for
the record of a submission has a region the policy allows if and only if the entry point authorizes
its region or the region it was given passes the check; and in every run in which the engine
submits only such tasks, every row in the table obeys the policy. -/
theorem region_policy_iff (e : Engine) :
    (∀ s id now record, e.submit id now s = .ok record → ∀ b lastError,
      (RegionPolicy e (insertedRow b record lastError).region ↔ s.Authorized e)) ∧
    ∀ os db, Runs (Calls (e.Issues (Submission.Authorized e))) .empty os db →
      ∀ row ∈ db.table.rows, RegionPolicy e row.region := by
  have hiff : ∀ s id now record, e.submit id now s = .ok record → ∀ b lastError,
      (RegionPolicy e (insertedRow b record lastError).region ↔ s.Authorized e) := by
    intro s id now record h b lastError
    obtain ⟨hregion, hauth⟩ := Engine.submit_region h
    change RegionPolicy e record.region ↔ _
    rw [hregion, ← Engine.validateRegionAuthorization_eq_ok_iff]
    exact ⟨.inr, fun hor => hor.elim hauth fun hpass => hpass⟩
  refine ⟨hiff, fun os db h => ?_⟩
  have hall := Runs.allRows (I := fun row => RegionPolicy e row.region) h (by simp) ?_ ?_
  · exact hall.1.1
  · intro os db sid call b hok task ht b' lastError
    obtain ⟨s, id, now, hsubmit, -, hs⟩ := hok task ht
    exact (hiff s id now task hsubmit b' lastError).mpr hs
  · intro b u r r' hrw hr
    rw [hrw.sameTask.region]
    exact hr

/-! ## A sample -/

/-- An engine that handles emails and allows one region. -/
def sampleEngine : Engine where
  registry := ["email"]
  producerConfig := ⟨["eu-west-1"]⟩
  idempotencyKeyRetention := 3600000000000

def sampleTyped : TypedTask := ⟨"email", "Email", .ok sampleJson⟩

/-- A record of the sample task with a region, and a key where one is given. -/
def pinnedTask (uuid : ℕ) (key : Option String) (region : String) : TaskRecord :=
  newTask ⟨uuid⟩ 0 sampleQueue sampleKind sampleJson .default .default 0
    (key.map fun k => (k, 3600000000000)) none (some region)

/-- A submission with an allowed region. -/
def allowedCall : Call := callOf (.save (pinnedTask 1 none "eu-west-1"))

/-- In the sample, a task with an allowed region is submitted and obeys the policy. -/
theorem region_allowed :
    RegionPolicy sampleEngine (insertedRow ⟨0⟩ (pinnedTask 1 none "eu-west-1") none).region ∧
      ∀ row ∈ (System.after (serve 1 allowedCall 0 [.all])).table.rows,
        RegionPolicy sampleEngine row.region := by
  have hsubmit : sampleEngine.submit ⟨1⟩ 0 (.enqueueWithRegion "default" sampleTyped "eu-west-1") =
      .ok (pinnedTask 1 none "eu-west-1") := rfl
  have hruns : Runs (Calls fun c => c = allowedCall) .empty
      (System.shown (serve 1 allowedCall 0 [.all])) (System.after (serve 1 allowedCall 0 [.all])) :=
    Runs.of_moves _ (by decide +kernel) (by decide +kernel)
  refine ⟨((region_policy_iff sampleEngine).1 _ _ _ _ hsubmit ⟨0⟩ none).mpr (.inl rfl), ?_⟩
  refine (region_policy_iff sampleEngine).2 _ _ (hruns.calls_mono ?_)
  rintro _ rfl task ht
  obtain rfl := List.mem_singleton.mp ht
  exact ⟨_, _, _, hsubmit, .enqueueWithRegion, .inl rfl⟩

/-- A submission of its own, and two inside a transaction of the caller. -/
def uncheckedCalls : List Call :=
  [callOf (.saveIdempotent (pinnedTask 1 (some "first") "us-east-1")),
    callOf (.inTx [.saveInTx (pinnedTask 2 none "Nowhere!"),
      .saveIdempotentInTx (pinnedTask 3 (some "third") "Nowhere!")] true)]

def uncheckedMoves : List Move :=
  serve 1 (callOf (.saveIdempotent (pinnedTask 1 (some "first") "us-east-1"))) 0 [.all] ++
  serve 2 (callOf (.inTx [.saveInTx (pinnedTask 2 none "Nowhere!"),
    .saveIdempotentInTx (pinnedTask 3 (some "third") "Nowhere!")] true)) 10 [.all, .all]

/-- **Tasks are pinned to regions that are not allowed**: three entry points accept them, and their
rows are stored. -/
theorem region_unchecked :
    Runs (Calls (sampleEngine.Issues fun _ => True)) .empty (System.shown uncheckedMoves)
      (System.after uncheckedMoves) ∧
    (System.after uncheckedMoves).table.rows.map TaskRow.region =
      [some "us-east-1", some "Nowhere!", some "Nowhere!"] ∧
    ¬ RegionPolicy sampleEngine (some "us-east-1") ∧ ¬ RegionPolicy sampleEngine (some "Nowhere!") := by
  have hfirst : sampleEngine.submit ⟨1⟩ 0
      (.enqueueIdempotentWithRegion "default" sampleTyped "first" "us-east-1") =
      .ok (pinnedTask 1 (some "first") "us-east-1") := rfl
  have hsecond : sampleEngine.submit ⟨2⟩ 0 (.enqueueInTx "default" sampleTyped (some "Nowhere!")) =
      .ok (pinnedTask 2 none "Nowhere!") := rfl
  have hthird : sampleEngine.submit ⟨3⟩ 0
      (.enqueueInTxIdempotent "default" sampleTyped "third" (some "Nowhere!")) =
      .ok (pinnedTask 3 (some "third") "Nowhere!") := rfl
  have hruns : Runs (Calls fun c => c ∈ uncheckedCalls) .empty (System.shown uncheckedMoves)
      (System.after uncheckedMoves) :=
    Runs.of_moves uncheckedMoves (by decide +kernel) (by decide +kernel)
  -- every task in these calls comes from one of the three entry points
  refine ⟨hruns.calls_mono fun c hc task ht => ?_, by decide +kernel, ?_, ?_⟩
  · rcases List.mem_cons.mp hc with rfl | hc
    · obtain rfl := List.mem_singleton.mp ht
      exact ⟨_, _, _, hfirst, .enqueueIdempotentWithRegion, trivial⟩
    · obtain rfl := List.mem_singleton.mp hc
      rcases List.mem_cons.mp ht with rfl | ht
      · exact ⟨_, _, _, hsecond, .enqueueInTx List.mem_cons_self, trivial⟩
      · obtain rfl := List.mem_singleton.mp ht
        exact ⟨_, _, _, hthird,
          .enqueueInTxIdempotent (List.mem_cons_of_mem _ List.mem_cons_self), trivial⟩
  · intro h
    have hmem := (h "us-east-1" rfl).2 (by simp [sampleEngine])
    simp [sampleEngine] at hmem
  · intro h
    have hmem := (h "Nowhere!" rfl).2 (by simp [sampleEngine])
    simp [sampleEngine] at hmem

end IronDefer
