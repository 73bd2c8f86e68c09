import IronDefer.Infrastructure.ErrorText
import IronDefer.Text.Json
import Mathlib.Algebra.Ring.Nat

/-!
# Scrubbing the message of an error

The scan for JSON values counts the brackets of the kind with which a value starts. Its counter has
32 bits, so that the count is the one of the text as long as no more than `2 ^ 32` brackets are open.
Behind a bracket that closes the value it copies the text again.

## Main definitions

* `Inside.ofCount`: the scan where the text has a given count
* `Outer`: a text behind which the scan is not in a value
* `nestedArrays`: arrays in each other

## Main results

* `step_ofCount`: the scan counts the brackets of its kind
* `scrub_of_closes`, `scrub_of_unterminated`: what the scan makes of a value, and of one without end
* `scrub_append`: behind an outer text the scan starts anew
* `message_scrubbed`: **JSON values are cut out, and what follows a bracket without end**
-/

namespace IronDefer

open Text (Bracket Count Within Closes Unterminated Nested Derives)
open scoped Text

/-! ## The counter -/

/-- The scan of a value behind its first bracket, where the text has a count. -/
def Inside.ofCount (q : Bracket) (s : Count) : Inside where
  c := q.opening
  close := q.closing
  depth := .ofNat s.depth
  inString := s.inString
  escaped := s.escaped

theorem ofCount_start (q : Bracket) : Inside.ofCount q .start = .open q.opening := by
  cases q with
  | curly => rfl
  | square => rfl

theorem isOpening_iff {x : Char} : isOpening x = true ↔ ∃ q : Bracket, x = q.opening := by
  constructor
  · intro h
    rcases Bool.or_eq_true_iff.mp h with h | h
    · exact ⟨.curly, of_decide_eq_true h⟩
    · exact ⟨.square, of_decide_eq_true h⟩
  · rintro ⟨q, rfl⟩
    cases q with
    | curly => rfl
    | square => rfl

/-- The last bracket is closed where the counter says so. -/
theorem ofNat_sub_one_eq_zero_iff {d : ℕ} (hpos : 0 < d) (hle : d ≤ 2 ^ 32) :
    UInt32.ofNat d - 1 = 0 ↔ d = 1 := by
  rw [← UInt32.toNat_inj, UInt32.toNat_sub, UInt32.toNat_ofNat']
  have h1 : (1 : UInt32).toNat = 1 := rfl
  have h0 : (0 : UInt32).toNat = 0 := rfl
  rw [h1, h0]
  omega

theorem ofNat_sub_one {d : ℕ} (hpos : 0 < d) : UInt32.ofNat d - 1 = UInt32.ofNat (d - 1) := by
  rw [← UInt32.toNat_inj, UInt32.toNat_sub, UInt32.toNat_ofNat', UInt32.toNat_ofNat']
  have h1 : (1 : UInt32).toNat = 1 := rfl
  rw [h1]
  omega

/-- **The scan counts the brackets of its kind**, while not more than `2 ^ 32` are open. -/
theorem step_ofCount {q : Bracket} {s : Count} (hpos : 0 < s.depth) (hle : s.depth ≤ 2 ^ 32)
    (x : Char) : (Inside.ofCount q s).step x = (s.step q x).map (Inside.ofCount q) := by
  -- both test the character in the same order
  unfold Inside.step Count.step
  show (if s.escaped then _ else if x = '\\' then _ else if x = '"' then _
    else if s.inString then _ else if x = q.opening then _ else if x = q.closing then _ else _) = _
  by_cases hescaped : s.escaped = true
  · rw [if_pos hescaped, if_pos hescaped]
    rfl
  rw [if_neg hescaped, if_neg hescaped]
  by_cases hbackslash : x = '\\'
  · rw [if_pos hbackslash, if_pos hbackslash]
    rfl
  rw [if_neg hbackslash, if_neg hbackslash]
  by_cases hquote : x = '"'
  · rw [if_pos hquote, if_pos hquote]
    rfl
  rw [if_neg hquote, if_neg hquote]
  by_cases hstring : s.inString = true
  · rw [if_pos hstring, if_pos hstring]
    rfl
  rw [if_neg hstring, if_neg hstring]
  by_cases hopening : x = q.opening
  · rw [if_pos hopening, if_pos hopening]
    have hdepth : UInt32.ofNat s.depth + 1 = UInt32.ofNat (s.depth + 1) :=
      (UInt32.ofNat_add s.depth 1).symm
    show some { Inside.ofCount q s with depth := UInt32.ofNat s.depth + 1 } = _
    rw [hdepth]
    rfl
  rw [if_neg hopening, if_neg hopening]
  by_cases hclosing : x = q.closing
  · rw [if_pos hclosing, if_pos hclosing]
    -- the counter reads zero where the last bracket is closed, and nowhere else in this range
    show (if UInt32.ofNat s.depth - 1 = 0 then none
      else some { Inside.ofCount q s with depth := UInt32.ofNat s.depth - 1 }) = _
    by_cases hlast : s.depth = 1
    · rw [if_pos hlast, if_pos ((ofNat_sub_one_eq_zero_iff hpos hle).mpr hlast)]
      rfl
    · rw [if_neg hlast, if_neg (mt (ofNat_sub_one_eq_zero_iff hpos hle).mp hlast),
        ofNat_sub_one hpos]
      rfl
  · rw [if_neg hclosing, if_neg hclosing]
    rfl

/-- The scan is where the text is. -/
theorem scanMessage_run {q : Bracket} {s t : Count} {w : List Char} (hpos : 0 < s.depth)
    (hwithin : Within q (2 ^ 32) s w) (hrun : s.run q w = some t) (rest : List Char) :
    scanMessage (some (.ofCount q s)) (w ++ rest) = scanMessage (some (.ofCount q t)) rest := by
  induction w generalizing s with
  | nil =>
    cases hrun
    rfl
  | cons x w ih =>
    obtain ⟨hle, hnext⟩ := Text.within_cons.mp hwithin
    obtain ⟨v, hv, hrun⟩ := Option.bind_eq_some_iff.mp hrun
    have hstep := step_ofCount (q := q) hpos hle x
    rw [hv, Option.map_some] at hstep
    rw [List.cons_append, scanMessage, hstep]
    exact ih (Text.depth_pos_of_step hpos hv) (hnext v hv) hrun

/-! ## Values -/

/-- **A value is cut out up to the bracket that closes it.** -/
theorem scrub_of_closes {q : Bracket} {u : List Char} (hu : Closes q (2 ^ 32) u)
    (rest : List Char) : scrubDatabaseMessage (q.opening :: (u ++ rest)) =
      scrubbedJson ++ scrubDatabaseMessage rest := by
  obtain ⟨w, t, rfl, hwithin, hrun, hclose⟩ := hu
  have hpos : 0 < t.depth := Text.depth_pos_of_run Nat.one_pos hrun
  have hle : t.depth ≤ 2 ^ 32 := hwithin w t (List.prefix_refl w) hrun
  have hstep := step_ofCount (q := q) hpos hle q.closing
  rw [hclose, Option.map_none] at hstep
  rw [scrubDatabaseMessage, scanMessage, if_pos (isOpening_iff.mpr ⟨q, rfl⟩), ← ofCount_start,
    List.append_assoc, scanMessage_run Nat.one_pos hwithin hrun, List.singleton_append,
    scanMessage, hstep]
  rfl

/-- **Where no bracket closes it, a value goes up to the end.** -/
theorem scrub_of_unterminated {q : Bracket} {w : List Char} (hw : Unterminated q (2 ^ 32) w) :
    scrubDatabaseMessage (q.opening :: w) = scrubbedJson := by
  obtain ⟨t, hrun⟩ := Option.isSome_iff_exists.mp hw.2
  have hscan := scanMessage_run Nat.one_pos hw.1 hrun []
  rw [List.append_nil] at hscan
  rw [scrubDatabaseMessage, scanMessage, if_pos (isOpening_iff.mpr ⟨q, rfl⟩), ← ofCount_start,
    hscan]
  rfl

/-- A text of characters outside values, and of values, which are closed. -/
inductive Outer : List Char → Prop
  | nil : Outer []
  | plain {x w} : (∀ q : Bracket, x ≠ q.opening) → Outer w → Outer (x :: w)
  | value {q u w} : Closes q (2 ^ 32) u → Outer w → Outer (Bracket.opening q :: (u ++ w))

theorem outer_of_plain {w : List Char} (h : ∀ x ∈ w, ∀ q : Bracket, x ≠ q.opening) : Outer w := by
  induction w with
  | nil => exact .nil
  | cons x w ih =>
    exact .plain (h x List.mem_cons_self) (ih fun y hy => h y (List.mem_cons_of_mem x hy))

theorem scrub_cons_plain {x : Char} (h : ∀ q : Bracket, x ≠ q.opening) (w : List Char) :
    scrubDatabaseMessage (x :: w) = x :: scrubDatabaseMessage w := by
  have hopening : ¬ isOpening x = true := fun hx => by
    obtain ⟨q, hq⟩ := isOpening_iff.mp hx
    exact h q hq
  rw [scrubDatabaseMessage, scanMessage, if_neg hopening]
  rfl

/-- **Behind an outer text the scan starts anew.** -/
theorem scrub_append {w : List Char} (h : Outer w) (rest : List Char) :
    scrubDatabaseMessage (w ++ rest) = scrubDatabaseMessage w ++ scrubDatabaseMessage rest := by
  induction h with
  | nil => rfl
  | plain hx _ ih =>
    rw [List.cons_append, scrub_cons_plain hx, ih, scrub_cons_plain hx, List.cons_append]
  | value hu _ ih =>
    rw [List.cons_append, List.append_assoc, scrub_of_closes hu, ih, scrub_of_closes hu,
      List.append_assoc]

theorem scrub_of_plain {w : List Char} (h : ∀ x ∈ w, ∀ q : Bracket, x ≠ q.opening) :
    scrubDatabaseMessage w = w := by
  induction w with
  | nil => rfl
  | cons x w ih =>
    rw [scrub_cons_plain (h x List.mem_cons_self),
      ih fun y hy => h y (List.mem_cons_of_mem x hy)]

/-- No opening bracket is left. -/
theorem not_opening_of_mem_scan {msg : List Char} {inside : Option Inside} {x : Char}
    (h : x ∈ scanMessage inside msg) : isOpening x = false := by
  have hmark : ∀ y ∈ scrubbedJson, isOpening y = false := by decide
  induction msg generalizing inside with
  | nil =>
    cases inside with
    | none => cases h
    | some s => exact hmark x h
  | cons c cs ih =>
    cases inside with
    | none =>
      -- outside of a value an opening bracket starts one, and inside nothing is copied
      rw [scanMessage] at h
      split at h
      · exact ih h
      next hc =>
        rcases List.mem_cons.mp h with rfl | h
        · exact Bool.eq_false_iff.mpr hc
        · exact ih h
    | some s =>
      rw [scanMessage] at h
      split at h
      · exact ih h
      · rcases List.mem_append.mp h with h | h
        · exact hmark x h
        · exact ih h

/-- **JSON values are cut out of a message.** An object or an array, nested at most `2 ^ 32` deep in
brackets of its own kind, is replaced as a whole, and the rest is scrubbed as if it stood alone. No
opening bracket is left of any message. Behind one that opens a value and is not closed, with not
more than `2 ^ 32` open at once, nothing is left. -/
theorem message_scrubbed :
    (∀ pre q v rest, (∀ x ∈ pre, ∀ q : Bracket, x ≠ q.opening) → Nested q (2 ^ 32) v →
      scrubDatabaseMessage (pre ++ (v ++ rest)) =
        pre ++ (scrubbedJson ++ scrubDatabaseMessage rest)) ∧
    (∀ msg, ∀ x ∈ scrubDatabaseMessage msg, ∀ q : Bracket, x ≠ q.opening) ∧
    ∀ pre q rest, Outer pre → Unterminated q (2 ^ 32) rest →
      scrubDatabaseMessage (pre ++ q.opening :: rest) = scrubDatabaseMessage pre ++ scrubbedJson := by
  refine ⟨fun pre q v rest hpre hv => ?_, fun msg x hx q heq => ?_, fun pre q rest hpre hrest => ?_⟩
  · obtain ⟨u, rfl, hu⟩ := Text.closes_of_nested hv
    rw [scrub_append (outer_of_plain hpre), scrub_of_plain hpre]
    exact congrArg (pre ++ ·) (scrub_of_closes hu rest)
  · have hnot := not_opening_of_mem_scan hx
    rw [isOpening_iff.mpr ⟨q, heq⟩] at hnot
    cases hnot
  · rw [scrub_append hpre, scrub_of_unterminated hrest]

/-- An array with a bracket in a string is cut out of a message. -/
theorem quoted_bracket_scrubbed :
    scrubDatabaseMessage ("bad value ".toList ++ ("[\"]\"]".toList ++ " at 3".toList)) =
      "bad value ".toList ++ (scrubbedJson ++ scrubDatabaseMessage " at 3".toList) := by
  have hspace : Text.IsSpace [] := fun x hx => absurd hx List.not_mem_nil
  have hbody : Text.StringBody [']'] := .plain (by decide) (by decide) (by decide) .nil
  have hstring : Derives .value 0 0 "\"]\"".toList := .string ⟨_, hbody, rfl⟩
  have harray : Derives .value 0 1 "[\"]\"]".toList :=
    .array (.lastElement (.element hspace hstring hspace))
  refine message_scrubbed.1 _ .square _ _ ?_ ⟨0, 1, harray, by decide, rfl⟩
  intro x hx q heq
  rw [heq] at hx
  cases q with
  | curly => exact absurd hx (by decide)
  | square => exact absurd hx (by decide)

/-! ## What is left -/

/-- Arrays in each other, `n` deep. -/
def nestedArrays (n : ℕ) : List Char := List.replicate n '[' ++ List.replicate n ']'

theorem nested_nestedArrays (n : ℕ) : Nested .square (n + 1) (nestedArrays (n + 1)) := by
  have hderives : ∀ n, Derives .value 0 (n + 1) (nestedArrays (n + 1)) := by
    intro n
    induction n with
    | zero => exact .emptyArray (w := []) fun x hx => absurd hx List.not_mem_nil
    | succ n ih =>
      have hspace : Text.IsSpace [] := fun x hx => absurd hx List.not_mem_nil
      have hinner := Derives.array (.lastElement (.element hspace ih hspace))
      have heq : nestedArrays (n + 1 + 1) =
          Bracket.square.opening :: (([] ++ (nestedArrays (n + 1) ++ [])) ++
            [Bracket.square.closing]) := by
        rw [nestedArrays, List.replicate_succ, List.replicate_succ' (n := n + 1), nestedArrays]
        simp [Bracket.opening, Bracket.closing]
      rw [heq]
      exact hinner
  refine ⟨0, n + 1, hderives n, Nat.le_refl _, ?_⟩
  rw [nestedArrays, List.replicate_succ]
  rfl

/-- Every opening bracket adds one to the counter, which comes back to where it was. -/
theorem scan_openings (d : UInt32) (n : ℕ) (rest : List Char) :
    scanMessage (some ⟨'[', ']', d, false, false⟩) (List.replicate n '[' ++ rest) =
      scanMessage (some ⟨'[', ']', d + .ofNat n, false, false⟩) rest := by
  induction n generalizing d with
  | zero =>
    have hzero : d + UInt32.ofNat 0 = d := UInt32.add_zero d
    rw [hzero]
    rfl
  | succ n ih =>
    have hsucc : d + 1 + UInt32.ofNat n = d + UInt32.ofNat (n + 1) := by
      rw [UInt32.add_assoc, UInt32.ofNat_add, UInt32.add_comm 1]
      rfl
    rw [List.replicate_succ, List.cons_append, scanMessage]
    show scanMessage (some ⟨'[', ']', d + 1, false, false⟩) _ = _
    rw [ih, hsucc]

/-- One array more than the counter has numbers is closed by its first bracket. -/
theorem scrub_nestedArrays {n : ℕ} (hn : UInt32.ofNat n = 0) :
    scrubDatabaseMessage (nestedArrays (n + 1)) = scrubbedJson ++ List.replicate n ']' := by
  have hclosing : ∀ x ∈ List.replicate n ']', ∀ q : Bracket, x ≠ q.opening := by
    intro x hx q
    rw [List.eq_of_mem_replicate hx]
    cases q with
    | curly => decide
    | square => decide
  rw [nestedArrays, List.replicate_succ, List.cons_append, scrubDatabaseMessage, scanMessage]
  show scanMessage (some ⟨'[', ']', 1, false, false⟩) _ = _
  rw [scan_openings, hn, UInt32.add_zero, List.replicate_succ, scanMessage]
  show scrubbedJson ++ scrubDatabaseMessage (List.replicate n ']') = _
  rw [scrub_of_plain hclosing]

/-- A value that is nested too deep leaves its closing brackets, and what follows a bracket that is
not closed stays where it stands in a value of the other kind. -/
theorem deep_value_leaks :
    (Nested .square (2 ^ 32 + 1) (nestedArrays (2 ^ 32 + 1)) ∧
      scrubDatabaseMessage ([] ++ (nestedArrays (2 ^ 32 + 1) ++ [])) ≠
        [] ++ (scrubbedJson ++ scrubDatabaseMessage [])) ∧
    Unterminated .square (2 ^ 32) ('\x7d' :: " secret".toList) ∧
      scrubDatabaseMessage ('\x7b' :: '[' :: '\x7d' :: " secret".toList) =
        scrubbedJson ++ " secret".toList := by
  refine ⟨⟨nested_nestedArrays _, ?_⟩, ⟨?_, rfl⟩, by decide +kernel⟩
  · have hzero : UInt32.ofNat (2 ^ 32) = 0 := by decide
    rw [List.append_nil, List.nil_append, scrub_nestedArrays hzero]
    intro heq
    have hnil := List.append_cancel_left heq
    have hlen := congrArg List.length hnil
    rw [List.length_replicate] at hlen
    exact absurd hlen (by decide)
  · have hneutral : ∀ x ∈ " secret".toList, Text.Neutral x := by decide
    have hle : Count.start.depth ≤ 2 ^ 32 := by decide
    exact (Text.keeps_cons hle (Text.step_other (r := .curly) ⟨rfl, rfl⟩ (by decide)).2
      (Text.keeps_of_neutral rfl hle hneutral)).within

end IronDefer
