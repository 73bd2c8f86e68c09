import IronDefer.RowStore.Sessions

/-!
# Programs that unwind for a reason

A program that checks the results of its statements unwinds only where one of them is not in order.
What is in order is a property of the row versions the statements write, so in a run of the database
a transaction that unwinds has written a version that is not in order, and one whose program ends
well only after all its checks has written none.

## Main definitions

* `Program.Checks`: the program unwinds only where a result is not in order

## Main results

* `Program.checks_bind`: programs in a row check together
* `Reaches.checks`: **who unwinds has written a version that is not in order**
-/

namespace RowStore

variable {K V A S B E Err O R α β : Type} [DecidableEq K] {Res : S → Type} {key : V → K}

namespace Program

variable (allowed inOrder : (s : S) → Res s → Prop)

/-- As long as the results of its statements are allowed, the program unwinds only where `g` fails
or one of them is not in order. Where it ends with a value, `Q` relates the value to whether they
all have been in order. -/
def Checks (Q : α → Prop → Prop) : Program S Res α → Prop → Prop
  | .pure a, g => Q a g
  | .unwind, g => ¬ g
  | .stmt s k, g => ∀ r, allowed s r → (k r).Checks Q (g ∧ inOrder s r)

variable {allowed inOrder} {g : Prop}

@[simp] theorem checks_pure {Q : α → Prop → Prop} {a : α} :
    (Program.pure a : Program S Res α).Checks allowed inOrder Q g ↔ Q a g := Iff.rfl

theorem checks_bind {Q : β → Prop → Prop} {p : Program S Res α} {f : α → Program S Res β} :
    (p >>= f).Checks allowed inOrder Q g ↔
      p.Checks allowed inOrder (fun a g => (f a).Checks allowed inOrder Q g) g := by
  induction p generalizing g with
  | pure a => exact Iff.rfl
  | unwind => exact Iff.rfl
  | stmt s k ih => exact forall_congr' fun r => imp_congr_right fun _ => ih r

theorem Checks.mono {Q Q' : α → Prop → Prop} (hQ : ∀ a g, Q a g → Q' a g) {p : Program S Res α}
    (h : p.Checks allowed inOrder Q g) : p.Checks allowed inOrder Q' g := by
  induction p generalizing g with
  | pure a => exact hQ _ _ h
  | unwind => exact h
  | stmt s k ih => exact fun r hr => ih r (h r hr)

end Program

variable {sem : Semantics key A S Res B E Err} {code : O → Program S Res (Finish R)}
  {ok : List (Output O B V A R Err) → Db key A S Res O B R → Event O B E → Prop}
  {db₀ : Db key A S Res O B R} {os : List (Output O B V A R Err)} {db : Db key A S Res O B R}

/-- **Who unwinds has written a version that is not in order**, and who ends well only after its
checks has written none. -/
theorem Reaches.checks {allowed : (s : S) → Res s → Prop} {inOrder : O → (s : S) → Res s → Prop}
    {sound : O → V → Prop} {Q : O → Finish R → Prop → Prop}
    (hopen : db₀.sessions.rows = [])
    (hstart : ∀ os db sid op b, ok os db (.start sid op b) →
      (code op).Checks allowed (inOrder op) (Q op) True)
    (hexec : ∀ op q b e (t : Table key) free eff, sem.exec q b e t.rows free = .ok eff →
      allowed q eff.result ∧ (inOrder op q eff.result ↔ ∀ v ∈ eff.news, sound op v))
    (h : Reaches (Db.step sem code) ok db₀ os db) :
    (∀ s ∈ db.sessions.rows, s.rest = .unwind → ∃ v ∈ s.news, ¬ sound s.op v) ∧
      ∀ o ∈ os, o.Meets (fun op _ cs _ fin => Q op fin (∀ v ∈ news cs, sound op v))
        fun _ => True := by
  -- what is left of a program checks on from the versions written so far
  have hprograms := h.programs
    (P := fun op _ vs p => p.Checks allowed (inOrder op) (Q op) (∀ v ∈ vs, sound op v))
    (by simp [hopen]) (fun _ _ _ _ _ hok => by simpa using hstart _ _ _ _ _ hok)
    fun _ _ s _ q k eff _ _ _ hleft he => by
      obtain ⟨hallowed, hiff⟩ := hexec s.op _ _ _ _ _ _ he
      have hsound : (∀ v ∈ s.news ++ eff.news, sound s.op v) ↔
          (∀ v ∈ s.news, sound s.op v) ∧ inOrder s.op q eff.result := by
        rw [hiff, List.forall_mem_append]
      rw [hsound]
      exact hleft eff.result hallowed
  refine ⟨fun s hs hunwind => ?_, hprograms.2⟩
  have hleft := hprograms.1 s hs
  rw [hunwind] at hleft
  have hnot : ¬ ∀ v ∈ s.news, sound s.op v := hleft
  -- some version is not in order, or all of them are
  by_contra hnone
  exact hnot fun v hv => by_contra fun hbad => hnone ⟨v, hv, hbad⟩

end RowStore
