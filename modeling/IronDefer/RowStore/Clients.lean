import IronDefer.RowStore.Server
import Mathlib.Data.List.Perm.Subperm

/-!
# Client programs on a shared database

Clients run programs whose statements are calls on one database, or effects of their own that the
surroundings answer. They take turns with the database and with callers that run no program. A
client waits for the answer to its call, which may carry a note besides the reply, such as the text
of an error; it may get an error in place of the answer, while its transaction goes on, and it may
be dropped anywhere.

What a client has done is the list of statements it has taken. A call that was answered is listed
with the output of the database that has ended its transaction. Since every call has its own number,
no output is listed twice, whatever the interleaving.

## Main definitions

* `Taken`: a statement a client has taken, with what came of it
* `Program.Follows`: a program has taken some statements and is left with the rest
* `Site`: a database and its clients
* `Site.step`: the steps of a site
* `Site.Sound`: clients follow their programs, and have heard the database

## Main results

* `Site.Sound.step`: every step keeps a site sound
* `Site.Sound.subperm`: what the clients have heard, the database has shown, and no output twice
-/

namespace RowStore

/-- A statement of a client: a call of the database, or an effect of its own. -/
inductive Ask (O T : Type) where
  | call (op : O)
  | own (t : T)

/-- What a statement is answered by. A call is answered by the reply of its transaction, where there
is one, and a note. -/
abbrev Ask.Answer {O T : Type} (Ans : T → Type) (N R : Type) : Ask O T → Type
  | .call _ => N × Option R
  | .own t => Ans t

/-- The program of a client. -/
abbrev ClientProgram (O : Type) {T : Type} (Ans : T → Type) (N R α : Type) :=
  Program (Ask O T) (Ask.Answer Ans N R) α

/-- A statement a client has taken: an effect of its own with the answer, a call with the output
that has ended its transaction, or a call, by its number, that got an error in place of that. -/
inductive Taken (O T : Type) (Ans : T → Type) (Out : Type) where
  | own (t : T) (r : Ans t)
  | heard (op : O) (o : Out)
  | lost (op : O) (sid : ℕ)

/-- The output an answered call was answered by. -/
def Taken.output? {O T : Type} {Ans : T → Type} {Out : Type} : Taken O T Ans Out → Option Out
  | .heard _ o => some o
  | .own _ _ | .lost _ _ => none

section Follows

variable {T : Type} {Ans : T → Type} {O B V A R Err N α : Type}

/-- `Follows p es q`: having taken the statements `es`, the program `p` is left with `q`. -/
inductive Program.Follows : ClientProgram O Ans N R α →
    List (Taken O T Ans (Output O B V A R Err)) → ClientProgram O Ans N R α → Prop
  | here (p : ClientProgram O Ans N R α) : Follows p [] p
  | own {t : T} {k : Ans t → ClientProgram O Ans N R α} (r : Ans t)
      {es : List (Taken O T Ans (Output O B V A R Err))} {q : ClientProgram O Ans N R α} :
      Follows (k r) es q → Follows (.stmt (.own t) k) (.own t r :: es) q
  | heard {op : O} {k : N × Option R → ClientProgram O Ans N R α} (o : Output O B V A R Err) (n : N)
      {es : List (Taken O T Ans (Output O B V A R Err))} {q : ClientProgram O Ans N R α} :
      o.op = some op → Follows (k (n, o.reply)) es q →
        Follows (.stmt (.call op) k) (.heard op o :: es) q
  | lost {op : O} {k : N × Option R → ClientProgram O Ans N R α} (sid : ℕ) (n : N)
      {es : List (Taken O T Ans (Output O B V A R Err))} {q : ClientProgram O Ans N R α} :
      Follows (k (n, none)) es q → Follows (.stmt (.call op) k) (.lost op sid :: es) q

theorem Program.Follows.trans {p q r : ClientProgram O Ans N R α}
    {es fs : List (Taken O T Ans (Output O B V A R Err))} (h : p.Follows es q)
    (h' : q.Follows fs r) : p.Follows (es ++ fs) r := by
  induction h with
  | here => exact h'
  | own r _ ih => exact .own r (ih h')
  | heard o n ho _ ih => exact .heard o n ho (ih h')
  | lost sid n _ ih => exact .lost sid n (ih h')

/-- What holds of every statement a program can reach holds of the effects it has taken. -/
theorem Program.Follows.all {P : Ask O T → Prop} {p q : ClientProgram O Ans N R α}
    {es : List (Taken O T Ans (Output O B V A R Err))} (h : p.Follows es q) (hp : p.All P) {t : T}
    {r : Ans t} (ht : .own t r ∈ es) : P (.own t) := by
  induction h with
  | here => cases ht
  | own r' _ ih =>
    cases ht with
    | head => exact hp.1
    | tail _ ht => exact ih (hp.2 r') ht
  | heard o n _ _ ih =>
    cases ht with
    | tail _ ht => exact ih (hp.2 (n, o.reply)) ht
  | lost sid n _ ih =>
    cases ht with
    | tail _ ht => exact ih (hp.2 (n, none)) ht

/-- An answered call is answered by an output of its operation. -/
theorem Program.Follows.op_of_heard {p q : ClientProgram O Ans N R α}
    {es : List (Taken O T Ans (Output O B V A R Err))} (h : p.Follows es q) {op : O}
    {o : Output O B V A R Err} (ho : .heard op o ∈ es) : o.op = some op := by
  induction h with
  | here => cases ho
  | own r _ ih =>
    cases ho with
    | tail _ ho => exact ih ho
  | heard o n hop _ ih =>
    cases ho with
    | head => exact hop
    | tail _ ho => exact ih ho
  | lost sid n _ ih =>
    cases ho with
    | tail _ ho => exact ih ho

end Follows

/-- A client: where its program started, what it has taken, what is left of it, and the call it
waits for. -/
structure Client (ι O : Type) {T : Type} (Ans : T → Type) (N R Out : Type) where
  origin : ι
  past : List (Taken O T Ans Out)
  rest : ClientProgram O Ans N R Unit
  waits : Option ℕ

/-- The outputs a client has heard. -/
def Client.heard {ι O T : Type} {Ans : T → Type} {N R Out : Type} (c : Client ι O Ans N R Out) :
    List Out :=
  c.past.filterMap Taken.output?

/-- A database and its clients. -/
structure Site {K V : Type} (key : V → K) (A S : Type) (Res : S → Type) (O B R Err ι : Type)
    {T : Type} (Ans : T → Type) (N : Type) where
  server : Server key A S Res O B R Err
  clients : List (Client ι O Ans N R (Output O B V A R Err))

/-- What happens at a site. -/
inductive Site.Event (O B E ι : Type) {T : Type} (Ans : T → Type) (N : Type) where
  /-- Somebody else calls. -/
  | call (op : O) (b : B)
  /-- The database makes a step. -/
  | database (ev : RowStore.Event O B E)
  /-- A client starts. -/
  | enter (origin : ι)
  /-- A client makes the call its program is at. -/
  | send (i : ℕ) (b : B)
  /-- The answer to its call arrives. -/
  | hear (i : ℕ) (n : N)
  /-- A client gets an error in place of the answer. -/
  | lose (i : ℕ) (n : N)
  /-- The effect a client is at is answered. -/
  | act (i : ℕ) (answer : ∀ t, Ans t)
  /-- A client is dropped. -/
  | leave (i : ℕ)

namespace Site

variable {K V A S B E Err O R ι T N : Type} [DecidableEq K] {Res : S → Type} {key : V → K}
  {Ans : T → Type}

section Step

variable (sem : Semantics key A S Res B E Err) (code : O → Program S Res (Finish R))
  (sees : E → K → Bool) (same : V → V → Prop) [DecidableRel same]
  (programs : ι → ClientProgram O Ans N R Unit)

/-- The output that has ended a transaction. -/
def outcome? (sv : Server key A S Res O B R Err) (sid : ℕ) : Option (Output O B V A R Err) :=
  sv.shown.find? fun o => o.sid? = some sid

/-- The site with the client `i` as `c`. -/
def setClient (s : Site key A S Res O B R Err ι Ans N) (i : ℕ)
    (c : Client ι O Ans N R (Output O B V A R Err)) : Site key A S Res O B R Err ι Ans N :=
  { s with clients := s.clients.set i c }

/-- One step of a site, where it is enabled. -/
def step (s : Site key A S Res O B R Err ι Ans N) :
    Site.Event O B E ι Ans N → Option (Site key A S Res O B R Err ι Ans N)
  | .call op b => (s.server.call sem code op b).map fun server => { s with server }
  | .database ev => (s.server.proceed sem code sees same ev).map fun server => { s with server }
  | .enter origin =>
    some { s with clients := s.clients ++ [⟨origin, [], programs origin, none⟩] }
  | .send i b =>
    match s.clients[i]? with
    | some c =>
      match c.rest, c.waits with
      | .stmt (.call op) _, none =>
        (s.server.call sem code op b).map fun server =>
          { s.setClient i { c with waits := some s.server.next } with server }
      | _, _ => none
    | none => none
  | .hear i n =>
    match s.clients[i]? with
    | some c =>
      match c.rest, c.waits with
      | .stmt (.call op) k, some sid =>
        (outcome? s.server sid).map fun o =>
          s.setClient i { c with
            past := c.past ++ [.heard op o]
            rest := k (n, o.reply)
            waits := none }
      | _, _ => none
    | none => none
  | .lose i n =>
    match s.clients[i]? with
    | some c =>
      match c.rest, c.waits with
      | .stmt (.call op) k, some sid =>
        some { s.setClient i { c with
          past := c.past ++ [.lost op sid]
          rest := k (n, none)
          waits := none } with server := s.server.leave [sid] }
      | _, _ => none
    | none => none
  | .act i answer =>
    match s.clients[i]? with
    | some c =>
      match c.rest with
      | .stmt (.own t) k =>
        some (s.setClient i { c with past := c.past ++ [.own t (answer t)], rest := k (answer t) })
      | _ => none
    | none => none
  | .leave i =>
    match s.clients[i]? with
    | some c =>
      match c.rest with
      | .unwind => none
      | _ =>
        some { s.setClient i { c with rest := .unwind } with
          server := s.server.leave c.waits.toList }
    | none => none

/-- What the client `i` can do, and what that does to the server. -/
inductive Moves (sv : Server key A S Res O B R Err) (i : ℕ)
    (c : Client ι O Ans N R (Output O B V A R Err)) : Site.Event O B E ι Ans N →
      Server key A S Res O B R Err → Client ι O Ans N R (Output O B V A R Err) → Prop
  | send {op k b sv'} : c.rest = .stmt (.call op) k → c.waits = none →
      sv.call sem code op b = some sv' →
        Moves sv i c (.send i b) sv' { c with waits := some sv.next }
  | hear {op k sid o n} : c.rest = .stmt (.call op) k → c.waits = some sid →
      outcome? sv sid = some o → Moves sv i c (.hear i n) sv { c with
        past := c.past ++ [.heard op o], rest := k (n, o.reply), waits := none }
  | lose {op k sid n} : c.rest = .stmt (.call op) k → c.waits = some sid →
      Moves sv i c (.lose i n) (sv.leave [sid]) { c with
        past := c.past ++ [.lost op sid], rest := k (n, none), waits := none }
  | act {t k answer} : c.rest = .stmt (.own t) k → Moves sv i c (.act i answer) sv { c with
      past := c.past ++ [.own t (answer t)], rest := k (answer t) }
  | leave : c.rest ≠ .unwind →
      Moves sv i c (.leave i) (sv.leave c.waits.toList) { c with rest := .unwind }

/-- The steps of a site, one case for each way to go. -/
inductive Step (s : Site key A S Res O B R Err ι Ans N) :
    Site.Event O B E ι Ans N → Site key A S Res O B R Err ι Ans N → Prop
  | call {op b sv} : s.server.call sem code op b = some sv →
      Step s (.call op b) { s with server := sv }
  | database {ev sv} : s.server.proceed sem code sees same ev = some sv →
      Step s (.database ev) { s with server := sv }
  | enter {origin} : Step s (.enter origin)
      { s with clients := s.clients ++ [⟨origin, [], programs origin, none⟩] }
  | client {i c e sv c'} : s.clients[i]? = some c → Moves sem code s.server i c e sv c' →
      Step s e ⟨sv, s.clients.set i c'⟩

variable {sem code sees same programs}

/-- **What can happen at a site.** -/
theorem step_of_step {s s' : Site key A S Res O B R Err ι Ans N} {e : Site.Event O B E ι Ans N}
    (h : s.step sem code sees same programs e = some s') :
    s.Step sem code sees same programs e s' := by
  -- the server's own steps, and then those of a client that is there
  cases e with
  | call op b =>
    obtain ⟨sv, hc, rfl⟩ := Option.map_eq_some_iff.mp h
    exact .call hc
  | database ev =>
    obtain ⟨sv, hp, rfl⟩ := Option.map_eq_some_iff.mp h
    exact .database hp
  | enter origin =>
    cases h
    exact .enter
  | send i b =>
    simp only [step] at h
    split at h
    next c hi =>
      split at h
      next op k hrest hwaits =>
        obtain ⟨sv, hc, rfl⟩ := Option.map_eq_some_iff.mp h
        exact .client hi (.send hrest hwaits hc)
      · cases h
    · cases h
  | hear i n =>
    simp only [step] at h
    split at h
    next c hi =>
      split at h
      next op k sid hrest hwaits =>
        obtain ⟨o, ho, rfl⟩ := Option.map_eq_some_iff.mp h
        exact .client hi (.hear hrest hwaits ho)
      · cases h
    · cases h
  | lose i n =>
    simp only [step] at h
    split at h
    next c hi =>
      split at h
      next op k sid hrest hwaits =>
        cases h
        exact .client hi (.lose hrest hwaits)
      · cases h
    · cases h
  | act i answer =>
    simp only [step] at h
    split at h
    next c hi =>
      split at h
      next t k hrest =>
        cases h
        exact .client hi (.act hrest)
      · cases h
    · cases h
  | leave i =>
    simp only [step] at h
    split at h
    next c hi =>
      split at h
      · cases h
      next hrest =>
        cases h
        exact .client hi (.leave hrest)
    · cases h

end Step

end Site

/-! ## Runs -/

/-- What holds at the start of a run and survives every step holds at its end. -/
theorem foldlM_induct {σ ε : Type} {step : σ → ε → Option σ} {P : σ → Prop} {s₀ s : σ} {es : List ε}
    (init : P s₀) (next : ∀ s e s', P s → step s e = some s' → P s')
    (h : es.foldlM step s₀ = some s) : P s := by
  induction es generalizing s₀ with
  | nil =>
    cases h
    exact init
  | cons e es ih =>
    rw [List.foldlM_cons] at h
    obtain ⟨s₁, hs₁, h⟩ := Option.bind_eq_some_iff.mp h
    exact ih (next _ _ _ init hs₁) h

section Ran

variable {K V A S B E Err O R : Type} [DecidableEq K] {Res : S → Type} {key : V → K}
  (sem : Semantics key A S Res B E Err) (code : O → Program S Res (Finish R))
  (db₀ : Db key A S Res O B R)

/-- The database has made a run from `db₀`, in which every transaction has ended at most once. -/
structure Server.Ran (sv : Server key A S Res O B R Err) : Prop where
  fresh : sv.Fresh
  served : Reaches (Db.step sem code) (fun _ _ _ => True) db₀ sv.shown sv.db
  once : (sv.shown.filterMap Output.sid?).Nodup

namespace Server.Ran

variable {sem code db₀} {sv sv' : Server key A S Res O B R Err}

theorem idle (hnew : db₀.sessions.rows = []) :
    Ran sem code db₀ (Server.idle db₀ : Server key A S Res O B R Err) :=
  ⟨Server.fresh_idle hnew, .init, List.nodup_nil⟩

theorem call (h : Ran sem code db₀ sv) {op : O} {b : B} (hc : sv.call sem code op b = some sv') :
    Ran sem code db₀ sv' := by
  obtain ⟨o, hstep, hshown, -⟩ := Server.call_eq_some hc
  refine ⟨h.fresh.call hc, hshown ▸ h.served.next trivial (Db.step_iff.mpr hstep), ?_⟩
  rw [hshown, List.filterMap_append, List.filterMap_cons_none hstep.sid?_of_start,
    List.filterMap_nil, List.append_nil]
  exact h.once

/-- A transaction that ends has been open, so it has not ended before. -/
theorem proceed (h : Ran sem code db₀ sv) {sees : E → K → Bool} {same : V → V → Prop}
    [DecidableRel same] {ev : Event O B E} (hp : sv.proceed sem code sees same ev = some sv') :
    Ran sem code db₀ sv' := by
  obtain ⟨-, o, hstep, hshown, -⟩ := Server.proceed_eq_some hp
  refine ⟨h.fresh.proceed hp, hshown ▸ h.served.next trivial (Db.step_iff.mpr hstep), ?_⟩
  rw [hshown, List.filterMap_append]
  cases hsid : o.sid? with
  | none =>
    rw [List.filterMap_cons_none hsid, List.filterMap_nil, List.append_nil]
    exact h.once
  | some sid =>
    rw [List.filterMap_cons_some hsid]
    refine h.once.append (List.nodup_singleton sid) (List.disjoint_singleton.mpr fun hold => ?_)
    obtain ⟨o', ho', hsid'⟩ := List.mem_filterMap.mp hold
    obtain ⟨⟨s, hs, hid, -⟩, -⟩ := hstep.session_of_sid hsid
    exact (h.fresh.ended o' ho' sid hsid').2 s hs hid

theorem leave (h : Ran sem code db₀ sv) (sids : List ℕ) : Ran sem code db₀ (sv.leave sids) :=
  ⟨h.fresh.leave sids, h.served, h.once⟩

end Server.Ran

end Ran

namespace Site

variable {K V A S B E Err O R ι T N : Type} [DecidableEq K] {Res : S → Type} {key : V → K}
  {Ans : T → Type}

/-! ## Soundness -/

section Sound

/-- The number of a call that is over for the client. -/
def callNumber : Taken O T Ans (Output O B V A R Err) → Option ℕ
  | .heard _ o => o.sid?
  | .lost _ sid => some sid
  | .own _ _ => none

/-- The numbers of the calls a client has made. -/
def numbers (c : Client ι O Ans N R (Output O B V A R Err)) : List ℕ :=
  c.past.filterMap callNumber ++ c.waits.toList

/-- The numbers of the calls of all clients. -/
def called (s : Site key A S Res O B R Err ι Ans N) : List ℕ := s.clients.flatMap numbers

variable (programs : ι → ClientProgram O Ans N R Unit)

/-- A client follows its program, and what it has heard, the database has shown. -/
structure Follower (sv : Server key A S Res O B R Err)
    (c : Client ι O Ans N R (Output O B V A R Err)) : Prop where
  follows : ∃ q, (programs c.origin).Follows c.past q ∧ (c.rest = q ∨ c.rest = .unwind)
  called : ∀ sid, c.waits = some sid → c.rest = .unwind ∨ ∃ op k, c.rest = .stmt (.call op) k ∧
    ∃ x ∈ sv.begun, x.sid = sid ∧ x.op = op
  heard : ∀ o ∈ c.heard, o ∈ sv.shown ∧ o.sid?.isSome
  left : ∀ op sid, .lost op sid ∈ c.past → sid ∈ sv.dropped
  dropped : c.rest = .unwind → ∀ sid ∈ c.waits, sid ∈ sv.dropped

variable (sem : Semantics key A S Res B E Err) (code : O → Program S Res (Finish R))
  (db₀ : Db key A S Res O B R)

/-- The database makes a run, the clients follow their programs, and every call has been made by one
client, once. -/
structure Sound (s : Site key A S Res O B R Err ι Ans N) : Prop where
  server : s.server.Ran sem code db₀
  clients : ∀ c ∈ s.clients, Follower programs s.server c
  lt : ∀ n ∈ s.called, n < s.server.next
  nodup : s.called.Nodup

variable {programs sem code db₀}
variable {sv sv' : Server key A S Res O B R Err} {c c' : Client ι O Ans N R (Output O B V A R Err)}
  {s s' : Site key A S Res O B R Err ι Ans N} {i : ℕ} {e : Site.Event O B E ι Ans N}

/-- A site nobody has entered is sound. -/
theorem sound_idle (hnew : db₀.sessions.rows = []) :
    Sound programs sem code db₀ (⟨.idle db₀, []⟩ : Site key A S Res O B R Err ι Ans N) where
  server := .idle hnew
  clients := fun _ hc => nomatch hc
  lt := fun _ hn => nomatch hn
  nodup := List.nodup_nil

omit [DecidableEq K] in
theorem outcome?_eq_some {sid : ℕ} {o : Output O B V A R Err} (h : outcome? sv sid = some o) :
    o ∈ sv.shown ∧ o.sid? = some sid :=
  ⟨List.mem_of_find?_eq_some h, by simpa using List.find?_some h⟩

omit [DecidableEq K] in
/-- What a client has taken, it has taken following its program, whatever else happens. -/
theorem Follower.extends (h : Follower programs sv c) (hext : sv.Extends sv') :
    Follower programs sv' c where
  follows := h.follows
  called := fun sid hsid => (h.called sid hsid).imp_right fun ⟨op, k, hrest, x, hx, hid⟩ =>
    ⟨op, k, hrest, x, hext.begun x hx, hid⟩
  heard := fun o ho => ⟨hext.mem_shown (h.heard o ho).1, (h.heard o ho).2⟩
  left := fun op sid hl => hext.dropped sid (h.left op sid hl)
  dropped := fun hrest sid hsid => hext.dropped sid (h.dropped hrest sid hsid)

omit [DecidableEq K] in
/-- A client that has not been dropped is where its program is. -/
theorem Follower.follows_rest (h : Follower programs sv c) (hne : c.rest ≠ .unwind) :
    (programs c.origin).Follows c.past c.rest := by
  obtain ⟨q, hq, heq⟩ := h.follows
  rcases heq with rfl | hdropped
  · exact hq
  · exact absurd hdropped hne

theorem Moves.extends (h : Moves sem code sv i c e sv' c') : sv.Extends sv' := by
  cases h with
  | send _ _ hc => exact .call hc
  | hear | act => exact ⟨⟨[], (List.append_nil _).symm⟩, fun _ hx => hx, fun _ hx => hx⟩
  | lose | leave => exact .leave _

/-- A client that moves takes the statement its program is at. -/
theorem Moves.follower (h : Moves sem code sv i c e sv' c') (hfresh : sv.Fresh)
    (hc : Follower programs sv c) : Follower programs sv' c' := by
  have hc' := hc.extends h.extends
  -- a client that is at a statement has not been dropped
  have hnext : ∀ {t k q e}, c.rest = .stmt t k → (Program.stmt t k).Follows [e] q →
      ∃ q', (programs c.origin).Follows (c.past ++ [e]) q' ∧ (q = q' ∨ q = .unwind) := by
    intro t k q e hrest hq
    have hp := hc.follows_rest (by simp [hrest])
    exact ⟨q, hp.trans (hrest ▸ hq), .inl rfl⟩
  have hleft : ∀ {e op sid}, .lost op sid ∈ c.past ++ [e] → (∀ sid', e ≠ .lost op sid') →
      sid ∈ sv'.dropped := by
    intro e op sid hl hne
    rcases List.mem_append.mp hl with hl | hl
    · exact hc'.left op sid hl
    · exact absurd (List.mem_singleton.mp hl).symm (hne sid)
  cases h with
  | @send op k b sv' hrest hwaits hcall =>
    obtain ⟨o, -, -, -, hbegun⟩ := Server.call_eq_some hcall
    refine ⟨hc'.follows, fun sid hsid => ?_, hc'.heard, hc'.left, fun hdropped => ?_⟩
    · cases hsid
      exact .inr ⟨op, k, hrest, _, hbegun ▸ List.mem_cons_self, rfl, rfl⟩
    · cases hrest.symm.trans hdropped
  | @hear op k sid o n hrest hwaits ho =>
    obtain ⟨hshown, hsid⟩ := outcome?_eq_some ho
    obtain hdropped | ⟨op', k', hrest', x, hx, rfl, rfl⟩ := hc.called sid hwaits
    · cases hrest.symm.trans hdropped
    cases hrest.symm.trans hrest'
    refine ⟨hnext hrest (.heard o n (hfresh.op_eq hx hshown hsid) (.here _)),
      fun _ h => (nomatch h), fun o' ho' => ?_, fun _ _ hl => hleft hl (by simp),
      fun _ _ h => (nomatch h)⟩
    rw [Client.heard, List.filterMap_append, List.mem_append] at ho'
    rcases ho' with ho' | ho'
    · exact hc.heard o' ho'
    · obtain rfl : o' = o := by simpa [Taken.output?] using ho'
      exact ⟨hshown, by rw [hsid]; rfl⟩
  | @lose op k sid n hrest hwaits =>
    refine ⟨hnext hrest (.lost sid n (.here _)), fun _ h => (nomatch h),
      fun o' ho' => hc'.heard o' ?_, fun op' sid' hl => ?_, fun _ _ h => (nomatch h)⟩
    · simpa [Client.heard, Taken.output?] using ho'
    · rcases List.mem_append.mp hl with hl | hl
      · exact hc'.left op' sid' hl
      · cases List.mem_singleton.mp hl
        exact List.mem_cons_self
  | @act t k answer hrest =>
    have hnone : ∀ sid, c.waits ≠ some sid := by
      intro sid hsid
      rcases hc.called sid hsid with hdropped | ⟨op, k', hrest', -⟩
      · cases hrest.symm.trans hdropped
      · cases hrest.symm.trans hrest'
    refine ⟨hnext hrest (.own (answer t) (.here _)), fun sid hsid => absurd hsid (hnone sid),
      fun o' ho' => hc'.heard o' ?_, fun _ _ hl => hleft hl (by simp),
      fun _ sid hsid => absurd hsid (hnone sid)⟩
    simpa [Client.heard, Taken.output?] using ho'
  | leave hrest =>
    obtain ⟨q, hq, -⟩ := hc.follows
    refine ⟨⟨q, hq, .inr rfl⟩, fun _ _ => .inl rfl, hc'.heard, hc'.left, fun _ sid hsid => ?_⟩
    exact List.mem_append_left _ (Option.mem_toList.mpr hsid)

theorem Moves.ran (h : Moves sem code sv i c e sv' c') (hsv : sv.Ran sem code db₀) :
    sv'.Ran sem code db₀ := by
  cases h with
  | send _ _ hc => exact hsv.call hc
  | hear | act => exact hsv
  | lose | leave => exact hsv.leave _

/-- A client that moves takes the next number, or takes none. -/
theorem Moves.numbers (h : Moves sem code sv i c e sv' c') :
    numbers c' = numbers c ++ [sv.next] ∧ sv'.next = sv.next + 1 ∨
      numbers c' = numbers c ∧ sv'.next = sv.next := by
  cases h with
  | send hrest hwaits hcall =>
    obtain ⟨o, -, -, hnext, -⟩ := Server.call_eq_some hcall
    exact .inl ⟨by simp [Site.numbers, hwaits], hnext⟩
  | hear hrest hwaits ho =>
    refine .inr ⟨?_, rfl⟩
    simp [Site.numbers, callNumber, hwaits, (outcome?_eq_some ho).2]
  | lose hrest hwaits => exact .inr ⟨by simp [Site.numbers, callNumber, hwaits], rfl⟩
  | act => exact .inr ⟨by simp [Site.numbers, callNumber], rfl⟩
  | leave => exact .inr ⟨rfl, rfl⟩

/-- A list with one entry exchanged. -/
theorem flatMap_set {α β : Type} {f : α → List β} {l : List α} {i : ℕ} {a : α} (h : l[i]? = some a)
    (a' : α) : (l.flatMap f).Perm (f a ++ (l.eraseIdx i).flatMap f) ∧
      ((l.set i a').flatMap f).Perm (f a' ++ (l.eraseIdx i).flatMap f) := by
  obtain ⟨hi, rfl⟩ := List.getElem?_eq_some_iff.mp h
  exact ⟨((List.getElem_cons_eraseIdx_perm hi).flatMap_right f).symm,
    (List.set_perm_cons_eraseIdx hi a').flatMap_right f⟩

/-- A client that moves makes a call nobody has made, or none. -/
theorem Moves.called (h : Moves sem code s.server i c e sv' c') (hi : s.clients[i]? = some c) :
    (called ⟨sv', s.clients.set i c'⟩).Perm (s.server.next :: s.called) ∧
        sv'.next = s.server.next + 1 ∨
      (called ⟨sv', s.clients.set i c'⟩).Perm s.called ∧ sv'.next = s.server.next := by
  obtain ⟨hbefore, hafter⟩ := flatMap_set (f := Site.numbers) hi c'
  rcases h.numbers with ⟨hnums, hnext⟩ | ⟨hnums, hnext⟩
  · rw [hnums, List.append_assoc] at hafter
    exact .inl ⟨(hafter.trans List.perm_middle).trans (hbefore.symm.cons _), hnext⟩
  · rw [hnums] at hafter
    exact .inr ⟨hafter.trans hbefore.symm, hnext⟩

/-- **Every step keeps a site sound.** -/
theorem Sound.step (h : Sound programs sem code db₀ s) {sees : E → K → Bool}
    {same : V → V → Prop} [DecidableRel same]
    (hs : s.step sem code sees same programs e = some s') :
    Sound programs sem code db₀ s' := by
  cases step_of_step hs with
  | @call op b sv hc =>
    obtain ⟨o, -, -, hnext, -⟩ := Server.call_eq_some hc
    exact ⟨h.server.call hc, fun c hc' => (h.clients c hc').extends (.call hc),
      fun n hn => hnext ▸ Nat.lt_succ_of_lt (h.lt n hn), h.nodup⟩
  | @database ev sv hp =>
    obtain ⟨-, o, -, -, hnext, -⟩ := Server.proceed_eq_some hp
    exact ⟨h.server.proceed hp, fun c hc' => (h.clients c hc').extends (.proceed hp),
      fun n hn => hnext ▸ h.lt n hn, h.nodup⟩
  | @enter origin =>
    -- a client that has just come has called nothing
    have hsame : Site.called { s with clients := s.clients ++ [⟨origin, [], programs origin, none⟩] } =
        s.called := by
      simp [Site.called, numbers]
    refine ⟨h.server, fun c hc => ?_, hsame ▸ h.lt, hsame ▸ h.nodup⟩
    rcases List.mem_append.mp hc with hc | hc
    · exact h.clients c hc
    · obtain rfl := List.mem_singleton.mp hc
      exact ⟨⟨_, .here _, .inl rfl⟩, fun _ h => (nomatch h), fun _ h => (nomatch h),
        fun _ _ h => (nomatch h), fun _ _ h => (nomatch h)⟩
  | @client i c e sv c' hi hm =>
    have hclients : ∀ x ∈ s.clients.set i c', Follower programs sv x := by
      intro x hx
      rcases List.mem_or_eq_of_mem_set hx with hx | rfl
      · exact (h.clients x hx).extends hm.extends
      · exact hm.follower h.server.fresh (h.clients c (List.mem_of_getElem? hi))
    have hran := hm.ran h.server
    rcases hm.called hi with ⟨hperm, hnext⟩ | ⟨hperm, hnext⟩
    · -- the call has a number nobody has had
      refine ⟨hran, hclients, fun n hn => ?_, hperm.nodup_iff.mpr ?_⟩
      · rw [hnext]
        rcases List.mem_cons.mp (hperm.mem_iff.mp hn) with rfl | hn
        · exact Nat.lt_succ_self _
        · exact Nat.lt_succ_of_lt (h.lt n hn)
      · exact List.nodup_cons.mpr ⟨fun hn => Nat.lt_irrefl _ (h.lt _ hn), h.nodup⟩
    · refine ⟨hran, hclients, fun n hn => ?_, hperm.nodup_iff.mpr h.nodup⟩
      rw [hnext]
      exact h.lt n (hperm.mem_iff.mp hn)

/-- Every site that is reached is sound. -/
theorem Sound.of_run {sees : E → K → Bool} {same : V → V → Prop} [DecidableRel same]
    (hnew : db₀.sessions.rows = []) {es : List (Site.Event O B E ι Ans N)}
    (h : es.foldlM (Site.step sem code sees same programs)
      (⟨.idle db₀, []⟩ : Site key A S Res O B R Err ι Ans N) = some s) :
    Sound programs sem code db₀ s :=
  foldlM_induct (sound_idle hnew) (fun _ _ _ hs hstep => hs.step hstep) h

/-- The numbers of what has been heard are numbers of calls that are over. -/
theorem heard_sids {es : List (Taken O T Ans (Output O B V A R Err))}
    (h : ∀ o ∈ es.filterMap Taken.output?, o.sid?.isSome) :
    ((es.filterMap Taken.output?).map Output.sid?).Sublist ((es.filterMap callNumber).map some) := by
  induction es with
  | nil => exact List.Sublist.refl _
  | cons e es ih =>
    cases e with
    | own t r => exact ih h
    | lost op sid => exact (ih h).cons _
    | heard op o =>
      obtain ⟨sid, hsid⟩ := Option.isSome_iff_exists.mp (h o List.mem_cons_self)
      have hrest := ih fun o ho => h o (List.mem_cons_of_mem _ ho)
      have hnum : callNumber (.heard op o : Taken O T Ans (Output O B V A R Err)) = some sid := hsid
      rw [List.filterMap_cons_some hnum, List.map_cons]
      have hcons := hrest.cons_cons (o.sid?)
      rw [hsid] at hcons
      exact hsid ▸ hcons

/-- **What the clients have heard, the database has shown, and no output has been heard twice.** -/
theorem Sound.subperm (h : Sound programs sem code db₀ s) :
    (s.clients.flatMap Client.heard).Subperm s.server.shown := by
  refine List.subperm_of_subset (List.Nodup.of_map Output.sid? ?_) fun o ho => ?_
  · -- the numbers of what has been heard are among those of the calls
    have hsids : ∀ cs : List (Client ι O Ans N R (Output O B V A R Err)),
        (∀ c ∈ cs, ∀ o ∈ c.heard, o.sid?.isSome) →
          ((cs.flatMap Client.heard).map Output.sid?).Sublist ((cs.flatMap numbers).map some) := by
      intro cs hcs
      induction cs with
      | nil => exact List.Sublist.refl _
      | cons c cs ih =>
        rw [List.flatMap_cons, List.map_append, List.flatMap_cons, List.map_append]
        refine List.Sublist.append ?_ (ih fun c hc => hcs c (List.mem_cons_of_mem _ hc))
        apply (heard_sids (hcs c List.mem_cons_self)).trans
        exact (List.sublist_append_left _ _).map _
    apply List.Nodup.sublist (hsids s.clients fun c hc o ho => ((h.clients c hc).heard o ho).2)
    exact h.nodup.map (fun _ _ h => Option.some.inj h)
  · obtain ⟨c, hc, ho⟩ := List.mem_flatMap.mp ho
    exact ((h.clients c hc).heard o ho).1

end Sound

end Site

end RowStore
