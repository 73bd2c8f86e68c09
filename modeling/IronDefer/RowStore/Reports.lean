import IronDefer.RowStore.Clients
import Mathlib.Data.List.Flatten

/-!
# What clients tell

Clients tell of things by effects of their own. A program is backed where it tells of nothing the
answers to its calls have not shown before, and of nothing twice. What backed clients of one
database tell, the database has then shown, whatever the interleaving.

## Main definitions

* `told`, `heardOf`: what the effects among some statements tell, and what the answers show
* `Backed`: what a program tells, it has heard before
* `Settled`: a backed program that is over has told all it has heard

## Main results

* `Backed.own`, `Backed.call`, `Backed.bind_quiet`: the rules, one for each kind of statement
* `Settled.own`, `Settled.call`, `Settled.bind_quiet`: those of settled programs
* `Site.Sound.told_subperm`: what clients tell that have heard it before, the database has shown,
  and they tell nothing twice
-/

namespace RowStore

section Reports

variable {T X : Type} {Ans : T → Type} {O B V A R Err N α β : Type} (tells : T → List X)
  (shows : Output O B V A R Err → List X)

/-- What the effects among some statements tell. -/
def told (es : List (Taken O T Ans (Output O B V A R Err))) : List X :=
  es.flatMap fun
    | .own t _ => tells t
    | .heard _ _ | .lost _ _ => []

/-- What the answers among some statements show. -/
def heardOf (es : List (Taken O T Ans (Output O B V A R Err))) : List X :=
  (es.filterMap Taken.output?).flatMap shows

@[simp] theorem told_nil : told tells ([] : List (Taken O T Ans (Output O B V A R Err))) = [] := rfl

@[simp] theorem told_own (t : T) (r : Ans t) (es : List (Taken O T Ans (Output O B V A R Err))) :
    told tells (.own t r :: es) = tells t ++ told tells es := rfl

@[simp] theorem told_heard (op : O) (o : Output O B V A R Err)
    (es : List (Taken O T Ans (Output O B V A R Err))) :
    told tells (.heard op o :: es) = told tells es := rfl

@[simp] theorem told_lost (op : O) (sid : ℕ) (es : List (Taken O T Ans (Output O B V A R Err))) :
    told tells (.lost op sid :: es) = told tells es := rfl

@[simp] theorem heardOf_nil :
    heardOf shows ([] : List (Taken O T Ans (Output O B V A R Err))) = [] := rfl

@[simp] theorem heardOf_own (t : T) (r : Ans t)
    (es : List (Taken O T Ans (Output O B V A R Err))) :
    heardOf shows (.own t r :: es) = heardOf shows es := rfl

@[simp] theorem heardOf_heard (op : O) (o : Output O B V A R Err)
    (es : List (Taken O T Ans (Output O B V A R Err))) :
    heardOf shows (.heard op o :: es) = shows o ++ heardOf shows es := rfl

@[simp] theorem heardOf_lost (op : O) (sid : ℕ) (es : List (Taken O T Ans (Output O B V A R Err))) :
    heardOf shows (.lost op sid :: es) = heardOf shows es := rfl

omit tells in
theorem mem_output? {op : O} {o : Output O B V A R Err}
    {es : List (Taken O T Ans (Output O B V A R Err))} (h : .heard op o ∈ es) :
    o ∈ es.filterMap Taken.output? :=
  List.mem_filterMap.mpr ⟨_, h, rfl⟩

theorem mem_heardOf {op : O} {o : Output O B V A R Err}
    {es : List (Taken O T Ans (Output O B V A R Err))} (h : .heard op o ∈ es) {x : X}
    (hx : x ∈ shows o) : x ∈ heardOf shows es :=
  List.mem_flatMap.mpr ⟨o, mem_output? h, hx⟩

theorem heardOf_eq_nil {es : List (Taken O T Ans (Output O B V A R Err))}
    (h : ∀ o, shows o = []) : heardOf shows es = [] :=
  List.flatMap_eq_nil_iff.mpr fun o _ => h o

variable (spec : Output O B V A R Err → Prop)

/-- The answers among some statements meet a specification. -/
def AllMeet (es : List (Taken O T Ans (Output O B V A R Err))) : Prop :=
  ∀ o ∈ es.filterMap Taken.output?, spec o

variable {spec}

theorem AllMeet.of_own {t : T} {r : Ans t} {es : List (Taken O T Ans (Output O B V A R Err))}
    (h : AllMeet spec (.own t r :: es)) : AllMeet spec es := h

theorem AllMeet.of_lost {op : O} {sid : ℕ} {es : List (Taken O T Ans (Output O B V A R Err))}
    (h : AllMeet spec (.lost op sid :: es)) : AllMeet spec es := h

theorem allMeet_heard {op : O} {o : Output O B V A R Err}
    {es : List (Taken O T Ans (Output O B V A R Err))} :
    AllMeet spec (.heard op o :: es) ↔ spec o ∧ AllMeet spec es := List.forall_mem_cons

variable (spec)

/-- Having heard `known`, a program tells nothing it has not heard, and nothing twice. -/
def Backed (known : List X) (p : ClientProgram O Ans N R α) : Prop :=
  ∀ es q, p.Follows es q → AllMeet spec es →
    (told tells es).Subperm (known ++ heardOf shows es)

variable {tells shows spec} {known : List X}

theorem Backed.pure (a : α) :
    Backed tells shows spec known (.pure a : ClientProgram O Ans N R α) := by
  intro es q h _
  cases h
  exact List.nil_subperm

theorem Backed.unwind : Backed tells shows spec known (.unwind : ClientProgram O Ans N R α) := by
  intro es q h _
  cases h
  exact List.nil_subperm

/-- An effect tells something the program has heard. -/
theorem Backed.own {t : T} {k : Ans t → ClientProgram O Ans N R α} {rest : List X}
    (hk : ∀ r, Backed tells shows spec rest (k r)) (hknown : known.Perm (tells t ++ rest)) :
    Backed tells shows spec known (.stmt (.own t) k) := by
  intro es q h hes
  cases h with
  | here => exact List.nil_subperm
  | own r h =>
    have hrest := hk r _ _ h hes
    rw [told_own, heardOf_own]
    apply ((List.subperm_append_left (tells t)).mpr hrest).trans
    rw [← List.append_assoc]
    exact (hknown.symm.append_right _).subperm

/-- An effect tells nothing. -/
theorem Backed.quiet {t : T} {k : Ans t → ClientProgram O Ans N R α} (ht : tells t = [])
    (hk : ∀ r, Backed tells shows spec known (k r)) :
    Backed tells shows spec known (.stmt (.own t) k) :=
  .own hk (by rw [ht]; rfl)

/-- What the answer to a call shows, the program has heard. -/
theorem Backed.call {op : O} {k : N × Option R → ClientProgram O Ans N R α}
    (hheard : ∀ o n, o.op = some op → spec o →
      Backed tells shows spec (known ++ shows o) (k (n, o.reply)))
    (hlost : ∀ n, Backed tells shows spec known (k (n, none))) :
    Backed tells shows spec known (.stmt (.call op) k) := by
  intro es q h hes
  cases h with
  | here => exact List.nil_subperm
  | heard o n ho h =>
    obtain ⟨hspec, hes⟩ := allMeet_heard.mp hes
    have hrest := hheard o n ho hspec _ _ h hes
    rw [List.append_assoc] at hrest
    exact hrest
  | lost sid n h =>
    have hrest := hlost n _ _ h hes.of_lost
    exact hrest

/-- More may have been heard. -/
theorem Backed.mono {known' : List X} {p : ClientProgram O Ans N R α}
    (h : Backed tells shows spec known p) (hle : known.Subperm known') :
    Backed tells shows spec known' p :=
  fun es q hf hes => (h es q hf hes).trans ((List.subperm_append_right _).mpr hle)

/-- A statement that is an effect and tells nothing. -/
def Ask.Quiet (tells : T → List X) : Ask O T → Prop
  | .call _ => False
  | .own t => tells t = []

/-- A program that tells nothing comes first. -/
theorem Backed.bind_quiet {p : ClientProgram O Ans N R α} {f : α → ClientProgram O Ans N R β}
    (hp : p.All (Ask.Quiet tells)) (hf : ∀ a, Backed tells shows spec known (f a)) :
    Backed tells shows spec known (p >>= f) := by
  induction p with
  | pure a => exact hf a
  | unwind => exact .unwind
  | stmt s k ih =>
    cases s with
    | call op => exact hp.1.elim
    | own t => exact .quiet hp.1 fun r => ih r (hp.2 r)

/-! ## Settled programs -/

variable (tells shows spec)

/-- Having heard `known`, a program tells nothing it has not heard, and where it is over, it has told
all of it. -/
structure Settled (known : List X) (p : ClientProgram O Ans N R α) : Prop where
  backed : Backed tells shows spec known p
  whole : ∀ es a, p.Follows es (.pure a) → AllMeet spec es →
    (told tells es).Perm (known ++ heardOf shows es)

variable {tells shows spec}

theorem Settled.pure (a : α) :
    Settled tells shows spec [] (.pure a : ClientProgram O Ans N R α) where
  backed := .pure a
  whole := by
    intro es b h _
    cases h
    exact .refl _

theorem Settled.own {t : T} {k : Ans t → ClientProgram O Ans N R α} {rest : List X}
    (hk : ∀ r, Settled tells shows spec rest (k r)) (hknown : known.Perm (tells t ++ rest)) :
    Settled tells shows spec known (.stmt (.own t) k) where
  backed := .own (fun r => (hk r).backed) hknown
  whole := by
    intro es a h hes
    cases h with
    | own r h =>
      rw [told_own, heardOf_own]
      refine (((hk r).whole _ a h hes).append_left (tells t)).trans ?_
      rw [← List.append_assoc]
      exact hknown.symm.append_right _

theorem Settled.call {op : O} {k : N × Option R → ClientProgram O Ans N R α}
    (hheard : ∀ o n, o.op = some op → spec o →
      Settled tells shows spec (known ++ shows o) (k (n, o.reply)))
    (hlost : ∀ n, Settled tells shows spec known (k (n, none))) :
    Settled tells shows spec known (.stmt (.call op) k) where
  backed := .call (fun o n ho hs => (hheard o n ho hs).backed) fun n => (hlost n).backed
  whole := by
    intro es a h hes
    cases h with
    | heard o n ho h =>
      obtain ⟨hspec, hes⟩ := allMeet_heard.mp hes
      have hrest := (hheard o n ho hspec).whole _ a h hes
      rw [List.append_assoc] at hrest
      exact hrest
    | lost sid n h =>
      have hrest := (hlost n).whole _ a h hes.of_lost
      exact hrest

/-- What has been heard may be put in another order. -/
theorem Settled.perm {known' : List X} {p : ClientProgram O Ans N R α}
    (h : Settled tells shows spec known p) (hp : known.Perm known') :
    Settled tells shows spec known' p where
  backed := h.backed.mono hp.subperm
  whole := fun es a hf hes => (h.whole es a hf hes).trans (hp.append_right _)

theorem Settled.bind_quiet {p : ClientProgram O Ans N R α} {f : α → ClientProgram O Ans N R β}
    (hp : p.All (Ask.Quiet tells)) (hf : ∀ a, Settled tells shows spec known (f a)) :
    Settled tells shows spec known (p >>= f) := by
  induction p with
  | pure a => exact hf a
  | unwind => exact ⟨.unwind, fun es a h _ => by cases h⟩
  | stmt s k ih =>
    cases s with
    | call op => exact hp.1.elim
    | own t =>
      refine .own (fun r => ih r (hp.2 r)) ?_
      rw [show tells t = [] from hp.1, List.nil_append]

end Reports

/-- **What clients tell that have heard it before, the database has shown, and they tell nothing
twice.** -/
theorem Site.Sound.told_subperm {K V A S B E Err O R ι T N X : Type} [DecidableEq K]
    {Res : S → Type} {key : V → K} {Ans : T → Type} {sem : Semantics key A S Res B E Err}
    {code : O → Program S Res (Finish R)} {programs : ι → ClientProgram O Ans N R Unit}
    {db₀ : Db key A S Res O B R} {s : Site key A S Res O B R Err ι Ans N} {tells : T → List X}
    {shows : Output O B V A R Err → List X} (h : s.Sound programs sem code db₀)
    (hclients : ∀ c ∈ s.clients, (told tells c.past).Subperm (heardOf shows c.past)) :
    (s.clients.flatMap fun c => told tells c.past).Subperm (s.server.shown.flatMap shows) := by
  have hmono : ∀ {os ps : List (Output O B V A R Err)}, os.Subperm ps →
      (os.flatMap shows).Subperm (ps.flatMap shows) := by
    rintro os ps ⟨qs, hperm, hsub⟩
    exact ⟨qs.flatMap shows, hperm.flatMap_right shows, hsub.flatMap shows⟩
  refine List.Subperm.trans ?_ (hmono h.subperm)
  generalize s.clients = cs at hclients
  induction cs with
  | nil => exact List.nil_subperm
  | cons c cs ih =>
    rw [List.flatMap_cons, List.flatMap_cons, List.flatMap_append]
    exact (hclients c List.mem_cons_self).append (ih fun x hx => hclients x (List.mem_cons_of_mem _ hx))

end RowStore
