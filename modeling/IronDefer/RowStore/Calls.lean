import IronDefer.RowStore.Clients

/-!
# The calls of clients

What has ended under the numbers of a client, among all a database has shown. Every number belongs
to one client, so the transactions of all clients are those of each of them, put together. The
programs of these transactions, and of no others, end well where their statements have allowed
results.

## Main definitions

* `ended`: what has ended under given numbers
* `Server.Ends`: some transactions end well as long as their statements have allowed results

## Main results

* `ended_flatMap`: numbers that are not used twice share no transaction
* `ended_singleton`: under one number one transaction has ended
* `Site.ends_step`: the transactions of clients end well
-/

namespace RowStore

section Ended

variable {O B V A R Err α : Type}

/-- The outputs that have ended a transaction with one of the numbers. -/
def ended (os : List (Output O B V A R Err)) (sids : List ℕ) : List (Output O B V A R Err) :=
  os.filter fun o => o.sid?.any fun sid => decide (sid ∈ sids)

theorem any_sid {sids : List ℕ} {o : Output O B V A R Err} :
    (o.sid?.any fun sid => decide (sid ∈ sids)) = true ↔ ∃ sid ∈ sids, o.sid? = some sid := by
  rw [Option.any_eq_true]
  simp only [decide_eq_true_eq, and_comm]

theorem mem_ended {os : List (Output O B V A R Err)} {sids : List ℕ} {o : Output O B V A R Err} :
    o ∈ ended os sids ↔ o ∈ os ∧ ∃ sid ∈ sids, o.sid? = some sid := by
  rw [ended, List.mem_filter, any_sid]

@[simp] theorem ended_nil (os : List (Output O B V A R Err)) : ended os [] = [] := by
  apply List.eq_nil_iff_forall_not_mem.mpr
  intro o ho
  obtain ⟨-, sid, hsid, -⟩ := mem_ended.mp ho
  cases hsid

theorem ended_append {xs ys : List ℕ} (hd : xs.Disjoint ys) (os : List (Output O B V A R Err)) :
    (ended os (xs ++ ys)).Perm (ended os xs ++ ended os ys) := by
  induction os with
  | nil => exact .refl _
  | cons o os ih =>
    by_cases hx : ∃ sid ∈ xs, o.sid? = some sid
    · obtain ⟨sid, hx, hsid⟩ := hx
      have hy : sid ∉ ys := fun hy => hd hx hy
      simpa [ended, hsid, hx, hy] using ih
    · by_cases hy : ∃ sid ∈ ys, o.sid? = some sid
      · obtain ⟨sid, hy, hsid⟩ := hy
        have hx : sid ∉ xs := fun hx => hd hx hy
        simpa [ended, hsid, hx, hy] using (ih.cons o).trans List.perm_middle.symm
      · -- the output has ended nothing of either
        have hnone : ∀ zs : List ℕ, (¬ ∃ sid ∈ zs, o.sid? = some sid) →
            ended (o :: os) zs = ended os zs := by
          intro zs hz
          exact List.filter_cons_of_neg fun hany => hz (any_sid.mp hany)
        rw [hnone xs hx, hnone ys hy, hnone (xs ++ ys)]
        · exact ih
        · rintro ⟨sid, hmem, hsid⟩
          rcases List.mem_append.mp hmem with hmem | hmem
          · exact hx ⟨sid, hmem, hsid⟩
          · exact hy ⟨sid, hmem, hsid⟩

/-- **Numbers that are not used twice share no transaction.** -/
theorem ended_flatMap {cs : List α} {f : α → List ℕ} (h : (cs.flatMap f).Nodup)
    (os : List (Output O B V A R Err)) :
    (cs.flatMap fun c => ended os (f c)).Perm (ended os (cs.flatMap f)) := by
  induction cs with
  | nil => rw [List.flatMap_nil, List.flatMap_nil, ended_nil]
  | cons c cs ih =>
    rw [List.flatMap_cons] at h ⊢
    obtain ⟨-, hrest, hd⟩ := List.nodup_append'.mp h
    exact ((ih hrest).append_left _).trans (ended_append hd os).symm

/-- Under one number one transaction has ended. -/
theorem ended_singleton {os : List (Output O B V A R Err)} (h : (os.filterMap Output.sid?).Nodup)
    {o : Output O B V A R Err} (ho : o ∈ os) {sid : ℕ} (hsid : o.sid? = some sid) :
    ended os [sid] = [o] := by
  induction os with
  | nil => cases ho
  | cons p os ih =>
    -- the first output ends the transaction, and no other does, or it is among the rest
    by_cases hp : p.sid? = some sid
    · rw [List.filterMap_cons_some hp, List.nodup_cons] at h
      have hnot : ∀ q ∈ os, q.sid? ≠ some sid := fun q hq hsame =>
        h.1 (List.mem_filterMap.mpr ⟨q, hq, hsame⟩)
      obtain rfl : o = p := by
        rcases List.mem_cons.mp ho with rfl | ho
        · rfl
        · exact absurd hsid (hnot o ho)
      have hrest : ended os [sid] = [] := by
        refine List.eq_nil_iff_forall_not_mem.mpr fun q hq => ?_
        obtain ⟨hq, sid', hmem, hsame⟩ := mem_ended.mp hq
        exact hnot q hq (List.mem_singleton.mp hmem ▸ hsame)
      rw [← hrest]
      exact List.filter_cons_of_pos (by simp [hsid])
    · have hmem : o ∈ os := by
        rcases List.mem_cons.mp ho with rfl | ho
        · exact absurd hsid hp
        · exact ho
      rw [← ih (h.sublist ((List.sublist_cons_self p os).filterMap _)) hmem]
      refine List.filter_cons_of_neg fun hany => hp ?_
      obtain ⟨sid', hmem, hsid'⟩ := any_sid.mp hany
      rw [hsid', List.mem_singleton.mp hmem]

end Ended

/-! ## Ends -/

variable {K V A S B E Err O R : Type} [DecidableEq K] {Res : S → Type} {key : V → K}

/-- The transactions with the numbers `ids` end well as long as their statements have allowed
results, and those that have ended have ended so. -/
structure Server.Ends (allowed : (q : S) → Res q → Prop) (good : O → Finish R → Prop)
    (ids : ℕ → Prop) (sv : Server key A S Res O B R Err) : Prop where
  opened : ∀ x ∈ sv.db.sessions.rows, ids x.id → x.rest.EndsIn allowed (good x.op)
  ended : ∀ o ∈ sv.shown, o.Meets (fun op _ _ _ fin => good op fin) ids

namespace Server.Ends

variable {sem : Semantics key A S Res B E Err} {code : O → Program S Res (Finish R)}
  {sv sv' : Server key A S Res O B R Err} {allowed : (q : S) → Res q → Prop}
  {good : O → Finish R → Prop} {ids : ℕ → Prop}

omit [DecidableEq K] in
theorem idle {db : Db key A S Res O B R} (hnew : db.sessions.rows = []) :
    (Server.idle db : Server key A S Res O B R Err).Ends allowed good ids where
  opened := fun x hx => by
    have hx : x ∈ db.sessions.rows := hx
    rw [hnew] at hx
    cases hx
  ended := fun _ ho => nomatch ho

omit [DecidableEq K] in
/-- A number nobody has had yet may be added. -/
theorem more (h : sv.Ends allowed good ids) (hfresh : sv.Fresh) {ids' : ℕ → Prop}
    (hids : ∀ n, ids' n → ids n ∨ n = sv.next) : sv.Ends allowed good ids' := by
  have hold : ∀ x ∈ sv.begun, ids' x.sid → ids x.sid := fun x hx hid =>
    (hids _ hid).resolve_right (Nat.ne_of_lt (hfresh.lt x hx))
  constructor
  · intro x hx hid
    obtain ⟨y, hy, hyid, -⟩ := hfresh.opened x hx
    exact h.opened x hx (hyid ▸ hold y hy (hyid ▸ hid))
  · intro o ho
    have hmeets := h.ended o ho
    cases o with
    | committed sid =>
      obtain ⟨⟨y, hy, rfl, -⟩, -⟩ := hfresh.ended _ ho sid rfl
      exact fun hid => hmeets (hold y hy hid)
    | returned sid =>
      obtain ⟨⟨y, hy, rfl, -⟩, -⟩ := hfresh.ended _ ho sid rfl
      exact fun hid => hmeets (hold y hy hid)
    | _ => trivial

/-- **The rule of programs.** Every step of the database keeps it that executes a statement with an
allowed result. -/
theorem step (h : sv.Ends allowed good ids) {db' : Db key A S Res O B R}
    {o : Output O B V A R Err} {ev : Event O B E} (hs : sv.db.Step sem code ev db' o)
    (hstart : ∀ sid op b, ev = .start sid op b → ids sid → (code op).EndsIn allowed (good op))
    (hexec : ∀ x ∈ sv.db.sessions.rows, ∀ e q k eff, ev = .exec x.id e → ids x.id →
      x.rest = .stmt q k → sem.exec q x.began e (sv.db.view x).rows (sv.db.free x.id) = .ok eff →
        allowed q eff.result)
    (hdb : sv'.db = db') (hshown : sv'.shown = sv.shown ++ [o]) : sv'.Ends allowed good ids := by
  -- a program ends well, and its rest after an allowed result does
  have hkeep : (∀ x ∈ db'.sessions.rows, ids x.id → x.rest.EndsIn allowed (good x.op)) ∧
      o.Meets (fun op _ _ _ fin => good op fin) ids := by
    cases hs with
    | start hn =>
      refine ⟨fun x hx hid => ?_, trivial⟩
      rcases Table.mem_put.mp hx with rfl | ⟨hx, -⟩
      · exact hstart _ _ _ rfl hid
      · exact h.opened x hx hid
    | exec hm hrest _ he =>
      refine ⟨fun x hx hid => ?_, trivial⟩
      rcases Table.mem_put.mp hx with rfl | ⟨hx, -⟩
      · have hends := h.opened _ hm hid
        rw [hrest] at hends
        exact hends _ (hexec _ hm _ _ _ _ rfl hid hrest he)
      · exact h.opened x hx hid
    | commit hm hrest =>
      refine ⟨fun x hx hid => h.opened x (Db.mem_sessions_publish.mp hx).1 hid, fun hid => ?_⟩
      have hends := h.opened _ hm hid
      rwa [hrest] at hends
    | rollback hm hrest =>
      refine ⟨fun x hx hid => h.opened x (Db.mem_sessions_drop.mp hx).1 hid,
        fun hid => ⟨[], [], ?_⟩⟩
      have hends := h.opened _ hm hid
      rwa [hrest] at hends
    | _ => exact ⟨fun x hx hid => h.opened x (Db.mem_sessions_drop.mp hx).1 hid, trivial⟩
  refine ⟨hdb ▸ hkeep.1, fun p hp => ?_⟩
  rw [hshown] at hp
  rcases List.mem_append.mp hp with hp | hp
  · exact h.ended p hp
  · exact List.mem_singleton.mp hp ▸ hkeep.2

end Server.Ends

namespace Site

variable {ι T N : Type} {Ans : T → Type} {sem : Semantics key A S Res B E Err}
  {code : O → Program S Res (Finish R)}
  {programs : ι → ClientProgram O Ans N R Unit} {db₀ : Db key A S Res O B R}
  {s s' : Site key A S Res O B R Err ι Ans N} {e : Site.Event O B E ι Ans N}
  {allowed : (q : S) → Res q → Prop} {good : O → Finish R → Prop}

/-- **The transactions of clients end well**, at every step that executes their statements with
allowed results. -/
theorem ends_step (h : s.server.Ends allowed good (· ∈ s.called))
    (hsound : Sound programs sem code db₀ s) {sees : E → K → Bool} {same : V → V → Prop}
    [DecidableRel same] (hcode : ∀ op, (code op).EndsIn allowed (good op))
    (hexec : ∀ x ∈ s.server.db.sessions.rows, ∀ env q k eff, e = .database (.exec x.id env) →
      x.id ∈ s.called → x.rest = .stmt q k → sem.exec q x.began env (s.server.db.view x).rows
        (s.server.db.free x.id) = .ok eff → allowed q eff.result)
    (hs : s.step sem code sees same programs e = some s') :
    s'.server.Ends allowed good (· ∈ s'.called) := by
  have hcall : ∀ {op b sv' ids}, s.server.call sem code op b = some sv' →
      s.server.Ends allowed good ids → sv'.Ends allowed good ids := by
    intro op b sv' ids hc hends
    obtain ⟨o, hstep, hshown, -⟩ := Server.call_eq_some hc
    exact hends.step hstep (fun _ op _ _ _ => hcode op) (fun _ _ _ _ _ _ he => nomatch he) rfl hshown
  cases step_of_step hs with
  | call hc => exact hcall hc h
  | @database ev sv hp =>
    obtain ⟨-, o, hstep, hshown, -⟩ := Server.proceed_eq_some hp
    exact h.step hstep (fun _ op _ _ _ => hcode op)
      (fun x hx env q k eff he => hexec x hx env q k eff (congrArg _ he)) rfl hshown
  | enter =>
    refine h.more hsound.server.fresh fun n hn => .inl ?_
    simpa [called, numbers] using hn
  | @client i c e sv c' hi hm =>
    -- a client has begun at most one call more
    have hids : ∀ n, n ∈ called ⟨sv, s.clients.set i c'⟩ → n ∈ s.called ∨ n = s.server.next := by
      intro n hn
      rcases hm.called hi with ⟨hperm, -⟩ | ⟨hperm, -⟩
      · exact (List.mem_cons.mp (hperm.mem_iff.mp hn)).symm
      · exact .inl (hperm.mem_iff.mp hn)
    have hmore := h.more hsound.server.fresh hids
    cases hm with
    | send _ _ hc => exact hcall hc hmore
    | hear | act => exact hmore
    | lose | leave => exact ⟨hmore.opened, hmore.ended⟩

end Site

end RowStore
