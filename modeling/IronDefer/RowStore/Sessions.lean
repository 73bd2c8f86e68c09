import IronDefer.RowStore.Database
import IronDefer.RowStore.Runs

/-!
# What interleaving cannot change

Row locks keep two open transactions from writing the same row, so the versions a transaction has
replaced are still the committed ones when it commits. A property of programs that holds whatever
tables their statements see (`Program.Along`) is therefore a property of every transaction of the
interleaved database, and what it says about the changes of a transaction is true of the rows as
they are at its commit.

## Main definitions

* `Db.Exclusive`: no row is written by two open transactions
* `Db.Sound`: open transactions are on their way to their postconditions
* `Proved`: the programs of a run are proved along what the run lets them meet
* `Output.Meets`: a finished transaction meets its postcondition
* `Db.AllVersions`: a property of every row version, committed or not

## Main results

* `Reaches.exclusive`, `Reaches.sound`: both hold along every run
* `Reaches.meets`: every finished transaction of a run meets its postcondition
* `Reaches.started`: so do the calls of finished transactions what every start satisfies
* `Reaches.started_before`: a transaction starts before it ends
* `Reaches.allVersions`: what every statement keeps holds of every row version
* `Reaches.of_failed`: the statement a failed transaction was refused
-/

namespace RowStore

variable {K V A S B E Err O R : Type} [DecidableEq K] {Res : S → Type} {key : V → K}
  {sem : Semantics key A S Res B E Err} {code : O → Program S Res (Finish R)}

namespace Db

variable {db db' : Db key A S Res O B R} {ev : Event O B E} {o : Output O B V A R Err}

/-- No row is written by two open transactions. -/
def Exclusive (db : Db key A S Res O B R) : Prop :=
  ∀ s ∈ db.sessions.rows, ∀ s' ∈ db.sessions.rows, s.id ≠ s'.id →
    ∀ v ∈ s.news, ∀ w ∈ s'.news, key v ≠ key w

omit [DecidableEq K] in
theorem mem_sessions_drop {sid : ℕ} {s : Session S Res O B V A R} :
    s ∈ (db.drop sid).sessions.rows ↔ s ∈ db.sessions.rows ∧ s.id ≠ sid :=
  Table.mem_erase

theorem mem_sessions_publish {s s' : Session S Res O B V A R} :
    s' ∈ (db.publish s).sessions.rows ↔ s' ∈ db.sessions.rows ∧ s'.id ≠ s.id :=
  Table.mem_erase

omit [DecidableEq K] in
theorem Exclusive.of_subset (h : db.Exclusive)
    (hsub : ∀ s ∈ db'.sessions.rows, s ∈ db.sessions.rows) : db'.Exclusive :=
  fun s hs s' hs' => h s (hsub s hs) s' (hsub s' hs')

theorem Exclusive.step (h : db.Exclusive) (hs : db.Step sem code ev db' o) : db'.Exclusive := by
  cases hs with
  | start hn =>
    intro s hs s' hs' hne v hv w hw
    rcases Table.mem_put.mp hs with rfl | ⟨hs, -⟩
    · cases hv
    rcases Table.mem_put.mp hs' with rfl | ⟨hs', -⟩
    · cases hw
    exact h s hs s' hs' hne v hv w hw
  | @exec s e q k eff hm hr hw he hf =>
    -- the rows newly written are free: no other transaction has written them
    have hnew : ∀ s' ∈ db.sessions.rows, s'.id ≠ s.id →
        ∀ v ∈ s.news ++ eff.news, ∀ w ∈ s'.news, key v ≠ key w := by
      intro s' hs' hne v hv w hw
      rcases List.mem_append.mp hv with hv | hv
      · exact h s hm s' hs' hne.symm v hv w hw
      · exact (key_ne_of_free (hf v hv) hs' hne hw).symm
    intro s₁ h₁ s₂ h₂ hne v hv w hw
    rcases Table.mem_put.mp h₁ with rfl | ⟨h₁, hid₁⟩
    · rcases Table.mem_put.mp h₂ with rfl | ⟨h₂, hid₂⟩
      · exact absurd rfl hne
      · exact hnew s₂ h₂ (Ne.symm hid₂) v hv w hw
    · rcases Table.mem_put.mp h₂ with rfl | ⟨h₂, hid₂⟩
      · exact (hnew s₁ h₁ (Ne.symm hid₁) w hw v hv).symm
      · exact h s₁ h₁ s₂ h₂ hne v hv w hw
  | reject => exact h.of_subset fun s hs => (mem_sessions_drop.mp hs).1
  | fault => exact h.of_subset fun s hs => (mem_sessions_drop.mp hs).1
  | commit => exact h.of_subset fun s hs => (mem_sessions_publish.mp hs).1
  | rollback => exact h.of_subset fun s hs => (mem_sessions_drop.mp hs).1
  | unwind => exact h.of_subset fun s hs => (mem_sessions_drop.mp hs).1

/-- Another transaction's commit leaves the versions a transaction has replaced in place. -/
theorem Exclusive.record_publish (h : db.Exclusive) {s s' : Session S Res O B V A R}
    (hs : s ∈ db.sessions.rows) (hs' : s' ∈ db.sessions.rows) (hne : s'.id ≠ s.id) :
    (db.publish s).table.record s'.news = db.table.record s'.news :=
  Table.record_putAll_of_disjoint _ fun v hv w hw => h s hs s' hs' hne.symm w hw v hv

/-- Every open transaction among `ids` keeps `J` of what it has done, and ends in its
postcondition. -/
def Sound (sem : Semantics key A S Res B E Err) (rely : Table key → (K → Bool) → E → Prop)
    (J : List (Change V) → List A → Prop)
    (Q : O → B → List (Change V) → List A → Finish R → Prop) (ids : ℕ → Prop)
    (db : Db key A S Res O B R) : Prop :=
  ∀ s ∈ db.sessions.rows, ids s.id →
    J (db.table.record s.news) (s.logs.map Prod.snd) ∧
      s.rest.Along sem s.began rely J (Q s.op s.began) (db.table.record s.news)
        (s.logs.map Prod.snd)

variable {rely : Table key → (K → Bool) → E → Prop} {J : List (Change V) → List A → Prop}
  {Q : O → B → List (Change V) → List A → Finish R → Prop} {ids : ℕ → Prop}

theorem Sound.drop (h : db.Sound sem rely J Q ids) (sid : ℕ) :
    (db.drop sid).Sound sem rely J Q ids :=
  fun s hs => h s (mem_sessions_drop.mp hs).1

theorem Sound.publish (h : db.Sound sem rely J Q ids) (hx : db.Exclusive)
    {s : Session S Res O B V A R} (hs : s ∈ db.sessions.rows) :
    (db.publish s).Sound sem rely J Q ids := by
  intro s' hs' hid
  obtain ⟨hm, hne⟩ := mem_sessions_publish.mp hs'
  rw [hx.record_publish hs hm hne]
  exact h s' hm hid

theorem Sound.advance (h : db.Sound sem rely J Q ids) {s : Session S Res O B V A R}
    (hs : s ∈ db.sessions.rows) {q : S} {k : Res q → Program S Res (Finish R)} {e : E}
    {eff : Effect V A (Res q)} (hr : s.rest = .stmt q k)
    (hrely : ids s.id → rely db.table (db.free s.id) e)
    (he : sem.exec q s.began e (db.view s).rows (db.free s.id) = .ok eff) :
    (db.advance s k eff).Sound sem rely J Q ids := by
  intro s' hs' hid
  rcases Table.mem_put.mp hs' with rfl | ⟨hm, -⟩
  · have ha := (h s hs hid).2
    rw [hr] at ha
    have hrest := ha db.table e (db.free s.id) eff (hrely hid) (by rw [Table.news_record])
      (by rwa [Table.news_record])
    simpa [Db.advance, Table.record_append] using hrest
  · exact h s' hm hid

theorem Sound.step (h : db.Sound sem rely J Q ids) (hx : db.Exclusive) (hJ : J [] [])
    (hcode : ∀ sid op b, ev = .start sid op b → ids sid →
      (code op).Along sem b rely J (Q op b) [] [])
    (hrely : ∀ sid e, ev = .exec sid e → ids sid → rely db.table (db.free sid) e)
    (hs : db.Step sem code ev db' o) : db'.Sound sem rely J Q ids := by
  cases hs with
  | start hn =>
    intro s hs hid
    rcases Table.mem_put.mp hs with rfl | ⟨hs, -⟩
    · exact ⟨hJ, hcode _ _ _ rfl hid⟩
    · exact h s hs hid
  | exec hm hr hw he hf => exact h.advance hm hr (hrely _ _ rfl) he
  | reject => exact h.drop _
  | fault => exact h.drop _
  | commit hm hr => exact h.publish hx hm
  | rollback => exact h.drop _
  | unwind => exact h.drop _

/-- Every row version, committed or written by an open transaction, satisfies `I`. -/
def AllVersions (I : V → Prop) (db : Db key A S Res O B R) : Prop :=
  (∀ v ∈ db.table.rows, I v) ∧ ∀ s ∈ db.sessions.rows, ∀ v ∈ s.news, I v

/-- Every statement the open transactions have left satisfies `P` for the call it serves. -/
def AllStatements (P : O → B → S → Prop) (db : Db key A S Res O B R) : Prop :=
  ∀ s ∈ db.sessions.rows, s.rest.All (P s.op s.began)

variable {I : V → Prop} {P : O → B → S → Prop}

theorem AllVersions.view (h : db.AllVersions I) {s : Session S Res O B V A R}
    (hs : s ∈ db.sessions.rows) : ∀ v ∈ (db.view s).rows, I v := by
  intro v hv
  rcases Table.mem_putAll hv with hv | ⟨hv, -⟩
  · exact h.2 s hs v hv
  · exact h.1 v hv

theorem AllStatements.step (h : db.AllStatements P)
    (hcode : ∀ sid op b, ev = .start sid op b → (code op).All (P op b))
    (hs : db.Step sem code ev db' o) : db'.AllStatements P := by
  cases hs with
  | start hn =>
    intro s hs
    rcases Table.mem_put.mp hs with rfl | ⟨hs, -⟩
    · exact hcode _ _ _ rfl
    · exact h s hs
  | @exec s e q k eff hm hr hw he hf =>
    intro s' hs'
    rcases Table.mem_put.mp hs' with rfl | ⟨hs', -⟩
    · have hall := h s hm
      rw [hr, Program.all_stmt] at hall
      exact hall.2 _
    · exact h s' hs'
  | reject => exact fun s hs => h s (mem_sessions_drop.mp hs).1
  | fault => exact fun s hs => h s (mem_sessions_drop.mp hs).1
  | commit => exact fun s hs => h s (mem_sessions_publish.mp hs).1
  | rollback => exact fun s hs => h s (mem_sessions_drop.mp hs).1
  | unwind => exact fun s hs => h s (mem_sessions_drop.mp hs).1

/-- A statement that keeps `I` on the rows it sees keeps it in the database. -/
theorem AllVersions.step (h : db.AllVersions I) (hP : db.AllStatements P)
    (hstmt : ∀ op b q e rows free eff, P op b q → (∀ v ∈ rows, I v) →
      sem.exec q b e rows free = .ok eff → ∀ v ∈ eff.news, I v)
    (hs : db.Step sem code ev db' o) : db'.AllVersions I := by
  -- an end other than a commit only drops versions
  have hdrop : ∀ sid, (db.drop sid).AllVersions I := fun sid =>
    ⟨h.1, fun s hs => h.2 s (mem_sessions_drop.mp hs).1⟩
  cases hs with
  | start hn =>
    refine ⟨h.1, fun s hs => ?_⟩
    rcases Table.mem_put.mp hs with rfl | ⟨hs, -⟩
    · simp
    · exact h.2 s hs
  | @exec s e q k eff hm hr hw he hf =>
    have hq := hP s hm
    rw [hr, Program.all_stmt] at hq
    refine ⟨h.1, fun s' hs' => ?_⟩
    rcases Table.mem_put.mp hs' with rfl | ⟨hs', -⟩
    · intro v hv
      rcases List.mem_append.mp hv with hv | hv
      · exact h.2 s hm v hv
      · exact hstmt _ _ _ _ _ _ _ hq.1 (h.view hm) he v hv
    · exact h.2 s' hs'
  | reject => exact hdrop _
  | fault => exact hdrop _
  | commit hm hr => exact ⟨h.view hm, fun s hs => h.2 s (mem_sessions_publish.mp hs).1⟩
  | rollback => exact hdrop _
  | unwind => exact hdrop _

omit [DecidableEq K] in
theorem exclusive_idle (t : Table key) (log : List (ℕ × A)) (n : ℕ) :
    (idle t log n : Db key A S Res O B R).Exclusive := fun s hs => by simp [idle] at hs

theorem sound_idle (t : Table key) (log : List (ℕ × A)) (n : ℕ) :
    (idle t log n : Db key A S Res O B R).Sound sem rely J Q ids := fun s hs => by
  simp [idle] at hs

end Db

namespace Output

/-- A finished transaction meets its postcondition `Q`. -/
def Meets (Q : O → B → List (Change V) → List A → Finish R → Prop) (ids : ℕ → Prop) :
    Output O B V A R Err → Prop
  | .committed sid op b cs ls r => ids sid → Q op b cs (ls.map Prod.snd) (.commit r)
  | .returned sid op b r => ids sid → ∃ cs ls, Q op b cs ls (.rollback r)
  | _ => True

end Output

/-- What lets the postconditions `Q` be concluded for the transactions `ids` of the runs from
`db₀`: their programs are proved along `rely`, and the runs stay within it. -/
structure Proved (sem : Semantics key A S Res B E Err) (code : O → Program S Res (Finish R))
    (ok : List (Output O B V A R Err) → Db key A S Res O B R → Event O B E → Prop)
    (db₀ : Db key A S Res O B R) (rely : Table key → (K → Bool) → E → Prop)
    (J : List (Change V) → List A → Prop)
    (Q : O → B → List (Change V) → List A → Finish R → Prop) (ids : ℕ → Prop) : Prop where
  init : J [] []
  programs : ∀ os db sid op b, ok os db (.start sid op b) → ids sid →
    (code op).Along sem b rely J (Q op b) [] []
  within : ∀ os db sid e, Reaches (Db.step sem code) ok db₀ os db → ok os db (.exec sid e) →
    ids sid → rely db.table (db.free sid) e
  exclusive : db₀.Exclusive
  sound : db₀.Sound sem rely J Q ids

namespace Reaches

variable {ok : List (Output O B V A R Err) → Db key A S Res O B R → Event O B E → Prop}
  {db₀ : Db key A S Res O B R} {os : List (Output O B V A R Err)} {db : Db key A S Res O B R}

theorem exclusive (hx : db₀.Exclusive) (h : Reaches (Db.step sem code) ok db₀ os db) :
    db.Exclusive :=
  h.induct (P := fun _ db => db.Exclusive) hx fun _ _ _ _ _ _ ih _ hs => ih.step (Db.step_iff.mp hs)

variable {rely : Table key → (K → Bool) → E → Prop} {J : List (Change V) → List A → Prop}
  {Q : O → B → List (Change V) → List A → Finish R → Prop} {ids : ℕ → Prop}

theorem sound (hp : Proved sem code ok db₀ rely J Q ids)
    (h : Reaches (Db.step sem code) ok db₀ os db) : db.Sound sem rely J Q ids :=
  h.induct (P := fun _ db => db.Sound sem rely J Q ids) hp.sound fun _ _ _ _ _ hr ih hok hs =>
    ih.step (hr.exclusive hp.exclusive) hp.init (fun sid op b he => hp.programs _ _ sid op b (he ▸ hok))
      (fun sid e he => hp.within _ _ sid e hr (he ▸ hok)) (Db.step_iff.mp hs)

/-- **Programs are proved alone and hold interleaved**: every finished transaction of a run meets
the postcondition its program has along every run of its own. -/
theorem meets (hp : Proved sem code ok db₀ rely J Q ids)
    (h : Reaches (Db.step sem code) ok db₀ os db) : ∀ o ∈ os, o.Meets Q ids := by
  induction h with
  | init => simp
  | next hr hok hs ih =>
    intro p hp'
    rcases List.mem_append.mp hp' with hp' | hp'
    · exact ih p hp'
    · obtain rfl := List.mem_singleton.mp hp'
      have hsound := hr.sound hp
      -- a transaction that ends has its program at an end, where the postcondition holds
      cases Db.step_iff.mp hs with
      | start => trivial
      | exec => trivial
      | reject => trivial
      | fault => trivial
      | commit hm hr =>
        intro hid
        have ha := (hsound _ hm hid).2
        rwa [hr] at ha
      | rollback hm hr =>
        intro hid
        have ha := (hsound _ hm hid).2
        rw [hr] at ha
        exact ⟨_, _, ha⟩
      | unwind => trivial

/-- What every admitted start satisfies holds of the calls of finished transactions, those open at
the beginning aside. -/
theorem started {P : O → B → Prop} (ids : ℕ → Prop) (hx : db₀.Exclusive)
    (hopen : ∀ s ∈ db₀.sessions.rows, ¬ ids s.id)
    (hP : ∀ os db sid op b, ok os db (.start sid op b) → P op b)
    (h : Reaches (Db.step sem code) ok db₀ os db) :
    ∀ o ∈ os, o.Meets (fun op b _ _ _ => P op b) ids := by
  have hp : Proved sem code ok db₀ (fun _ _ _ => True) (fun _ _ => True)
      (fun op b _ _ _ => P op b) ids :=
    { init := trivial
      programs := fun _ _ _ _ _ hok _ =>
        Program.along_of_forall (fun _ _ => trivial) (fun _ _ _ => hP _ _ _ _ _ hok) _
      within := fun _ _ _ _ _ _ _ => trivial
      exclusive := hx
      sound := fun s hs hid => absurd hid (hopen s hs) }
  exact meets hp h

/-- A transaction has been admitted after outputs that came before its end: what every admitted
start satisfies of the outputs before it, and later outputs keep, holds of the outputs before its
end. -/
theorem started_before {P : List (Output O B V A R Err) → O → Prop}
    (hopen : ∀ s ∈ db₀.sessions.rows, P [] s.op) (hmono : ∀ os o op, P os op → P (os ++ [o]) op)
    (hP : ∀ os db sid op b, ok os db (.start sid op b) → P os op)
    (h : Reaches (Db.step sem code) ok db₀ os db) :
    (∀ s ∈ db.sessions.rows, P os s.op) ∧ ∀ ps o qs, os = ps ++ o :: qs →
      o.Meets (fun op _ _ _ _ => P ps op) fun _ => True := by
  induction h with
  | init => exact ⟨hopen, fun ps o qs h => by simp at h⟩
  | @next os db ev db' o hr hok hs ih =>
    obtain ⟨hsessions, hout⟩ := ih
    have hkeep : ∀ s ∈ db.sessions.rows, P (os ++ [o]) s.op := fun s hs =>
      hmono _ _ _ (hsessions s hs)
    refine ⟨?_, fun ps p qs heq => ?_⟩
    · intro s hs'
      cases Db.step_iff.mp hs with
      | start hn =>
        rcases Table.mem_put.mp hs' with rfl | ⟨hs', -⟩
        · exact hmono _ _ _ (hP _ _ _ _ _ hok)
        · exact hkeep s hs'
      | exec hm =>
        rcases Table.mem_put.mp hs' with rfl | ⟨hs', -⟩
        · have hsame := hkeep _ hm
          exact hsame
        · exact hkeep s hs'
      | commit => exact hkeep s (Db.mem_sessions_publish.mp hs').1
      | _ => exact hkeep s (Db.mem_sessions_drop.mp hs').1
    -- the end is this step, whose transaction was open, or an earlier one
    · rcases List.eq_nil_or_concat qs with rfl | ⟨qs, q, rfl⟩
      · obtain ⟨rfl, hp⟩ := List.append_inj' heq rfl
        obtain rfl : o = p := by simpa using hp
        cases Db.step_iff.mp hs with
        | commit hm => exact fun _ => hsessions _ hm
        | rollback hm => exact fun _ => ⟨[], [], hsessions _ hm⟩
        | _ => trivial
      · rw [List.concat_eq_append, ← List.cons_append, ← List.append_assoc] at heq
        exact hout ps p qs (List.append_inj' heq rfl).1

/-- **The rule of programs**: what the program left to a transaction satisfies, given the versions
written so far, if every statement executed keeps it. -/
theorem programs {P : O → B → List V → Program S Res (Finish R) → Prop}
    (hopen : ∀ s ∈ db₀.sessions.rows, P s.op s.began s.news s.rest)
    (hstart : ∀ os db sid op b, ok os db (.start sid op b) → P op b [] (code op))
    (hexec : ∀ os db s e q k eff, ok os db (.exec s.id e) → s ∈ db.sessions.rows →
      s.rest = .stmt q k → P s.op s.began s.news (.stmt q k) →
      sem.exec q s.began e (db.view s).rows (db.free s.id) = .ok eff →
      P s.op s.began (s.news ++ eff.news) (k eff.result))
    (h : Reaches (Db.step sem code) ok db₀ os db) :
    (∀ s ∈ db.sessions.rows, P s.op s.began s.news s.rest) ∧
      ∀ o ∈ os, o.Meets (fun op b cs _ fin => P op b (news cs) (.pure fin)) fun _ => True := by
  induction h with
  | init => exact ⟨hopen, by simp⟩
  | @next os db ev db' o hr hok hs ih =>
    obtain ⟨hsessions, hout⟩ := ih
    refine ⟨?_, fun p hp => ?_⟩
    · intro s hs'
      cases Db.step_iff.mp hs with
      | start hn =>
        rcases Table.mem_put.mp hs' with rfl | ⟨hs', -⟩
        · exact hstart _ _ _ _ _ hok
        · exact hsessions s hs'
      -- the rest of the program is kept statement by statement
      | exec hm hrest hw he =>
        rcases Table.mem_put.mp hs' with rfl | ⟨hs', -⟩
        · have hleft := hsessions _ hm
          rw [hrest] at hleft
          exact hexec _ _ _ _ _ _ _ hok hm hrest hleft he
        · exact hsessions s hs'
      | commit => exact hsessions s (Db.mem_sessions_publish.mp hs').1
      | _ => exact hsessions s (Db.mem_sessions_drop.mp hs').1
    · rcases List.mem_append.mp hp with hp | hp
      · exact hout p hp
      · obtain rfl := List.mem_singleton.mp hp
        cases Db.step_iff.mp hs with
        | commit hm hrest =>
          have hleft := hsessions _ hm
          rw [hrest] at hleft
          intro _
          rwa [Table.news_record]
        | @rollback s r hm hrest =>
          have hleft := hsessions _ hm
          rw [hrest] at hleft
          refine fun _ => ⟨db.table.record s.news, [], ?_⟩
          show P s.op s.began (news (db.table.record s.news)) (.pure (.rollback r))
          rwa [Table.news_record]
        | _ => trivial

/-- **Programs end well where their statements do**: along a run in which the statements of the
programs have allowed results, finished transactions end in what their programs end in with such
results. -/
theorem endsIn {T : O → B → S → Prop} (allowed : (s : S) → Res s → Prop)
    (good : O → B → Finish R → Prop) (hopen : db₀.sessions.rows = [])
    (hstmts : ∀ os db sid op b, ok os db (.start sid op b) → (code op).All (T op b))
    (hstart : ∀ os db sid op b, ok os db (.start sid op b) → (code op).EndsIn allowed (good op b))
    (hexec : ∀ os db s e q k eff, ok os db (.exec s.id e) → s ∈ db.sessions.rows →
      s.rest = .stmt q k → T s.op s.began q →
      sem.exec q s.began e (db.view s).rows (db.free s.id) = .ok eff → allowed q eff.result)
    (h : Reaches (Db.step sem code) ok db₀ os db) :
    ∀ o ∈ os, o.Meets (fun op b _ _ fin => good op b fin) fun _ => True := by
  have hall := (h.programs (P := fun op b _ p => p.All (T op b) ∧ p.EndsIn allowed (good op b))
    (by simp [hopen]) (fun _ _ _ _ _ hok => ⟨hstmts _ _ _ _ _ hok, hstart _ _ _ _ _ hok⟩)
    fun _ _ s _ q k eff hok hs hrest hleft he => by
      obtain ⟨hT, hends⟩ := hleft
      rw [Program.all_stmt] at hT
      exact ⟨hT.2 _, hends _ (hexec _ _ _ _ _ _ _ hok hs hrest hT.1 he)⟩).2
  intro o ho
  have hend := hall o ho
  cases o with
  | committed =>
    intro hid
    obtain ⟨-, hgood⟩ := hend hid
    exact hgood
  | returned =>
    intro hid
    obtain ⟨cs, ls, -, hgood⟩ := hend hid
    exact ⟨cs, ls, hgood⟩
  | _ => trivial

/-- **Row invariants**: what every statement executed on rows satisfying `I` keeps holds of every
row version of a run. -/
theorem allVersions {I : V → Prop} {P : O → B → S → Prop}
    (hstmt : ∀ op b q e rows free eff, P op b q → (∀ v ∈ rows, I v) →
      sem.exec q b e rows free = .ok eff → ∀ v ∈ eff.news, I v)
    (hcode : ∀ os db sid op b, ok os db (.start sid op b) → (code op).All (P op b))
    (hv : db₀.AllVersions I) (hP : db₀.AllStatements P)
    (h : Reaches (Db.step sem code) ok db₀ os db) : db.AllVersions I ∧ db.AllStatements P :=
  h.induct (P := fun _ db => db.AllVersions I ∧ db.AllStatements P) ⟨hv, hP⟩
    fun _ _ _ _ _ _ ih hok hs =>
      ⟨ih.1.step ih.2 hstmt (Db.step_iff.mp hs),
        ih.2.step (fun sid op b he => hcode _ _ sid op b (he ▸ hok)) (Db.step_iff.mp hs)⟩

/-- A transaction the database has refused a statement: where the run was, and the statement. -/
theorem of_failed (h : Reaches (Db.step sem code) ok db₀ os db) {sid : ℕ} {op : O} {err : Err}
    (ho : .failed sid op (some err) ∈ os) :
    ∃ os' db' s q k e, Reaches (Db.step sem code) ok db₀ os' db' ∧ s ∈ db'.sessions.rows ∧
      s.op = op ∧ s.rest = .stmt q k ∧
      sem.exec q s.began e (db'.view s).rows (db'.free s.id) = .error err := by
  induction h with
  | init => cases ho
  | next hr hok hs ih =>
    rcases List.mem_append.mp ho with ho | ho
    · exact ih ho
    · have ho := List.mem_singleton.mp ho
      cases Db.step_iff.mp hs with
      | reject hm hrest hw he =>
        cases ho
        exact ⟨_, _, _, _, _, _, hr, hm, rfl, hrest, he⟩
      | _ => cases ho

end Reaches

end RowStore
