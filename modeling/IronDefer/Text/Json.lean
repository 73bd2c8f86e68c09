import IronDefer.Text.Brackets

/-!
# The grammar of JSON

The texts of JSON values: literals, numbers, strings with escapes, and objects and arrays with white
space between their parts. A derivation knows how deep the objects and the arrays are nested in it.

## Main definitions

* `StringBody`, `IsString`, `IsNumber`: strings and numbers
* `Derives`: the texts of a part of the grammar, up to a depth of objects and one of arrays
* `Nested`: the text of an object or an array, up to a depth of its own brackets

## Main results

* `keeps_of_derives`: **a value keeps the count of brackets**, up to its own depth
* `closes_of_nested`: an object and an array close their first bracket at their end
-/

namespace Text

/-! ## Strings and numbers -/

def IsSpace (w : List Char) : Prop := ∀ x ∈ w, x ∈ [' ', '\t', '\n', '\r']

def isHexDigit (x : Char) : Prop := x ∈ "0123456789abcdefABCDEF".toList

/-- What stands between the quotes of a string. -/
inductive StringBody : List Char → Prop
  | nil : StringBody []
  | plain {x w} : 0x20 ≤ x.toNat → x ≠ '"' → x ≠ '\\' → StringBody w → StringBody (x :: w)
  | escape {x w} : x ∈ ['"', '\\', '/', 'b', 'f', 'n', 'r', 't'] → StringBody w →
      StringBody ('\\' :: x :: w)
  | unicode {x₁ x₂ x₃ x₄ w} : isHexDigit x₁ → isHexDigit x₂ → isHexDigit x₃ → isHexDigit x₄ →
      StringBody w → StringBody ('\\' :: 'u' :: x₁ :: x₂ :: x₃ :: x₄ :: w)

def IsString (w : List Char) : Prop := ∃ body, StringBody body ∧ w = '"' :: (body ++ ['"'])

/-- One or more digits. -/
def Digits (w : List Char) : Prop := w ≠ [] ∧ ∀ x ∈ w, x.isDigit = true

/-- A number: a sign, an integer without leading zeros, a fraction and an exponent. -/
def IsNumber (w : List Char) : Prop :=
  ∃ sign int frac exp, w = sign ++ (int ++ (frac ++ exp)) ∧ sign ∈ [[], ['-']] ∧
    (int = ['0'] ∨ Digits int ∧ int.head? ≠ some '0') ∧
    (frac = [] ∨ ∃ ds, Digits ds ∧ frac = '.' :: ds) ∧
    (exp = [] ∨ ∃ e s ds, Digits ds ∧ e ∈ ['e', 'E'] ∧ s ∈ [[], ['+'], ['-']] ∧
      exp = e :: (s ++ ds))

def IsLiteral (w : List Char) : Prop :=
  w ∈ ["true".toList, "false".toList, "null".toList]

/-! ## Values -/

/-- The parts of the grammar. -/
inductive Part where
  | value
  | element
  | elements
  | member
  | members

/-- The texts of a part. Its objects are nested at most as deep as the first number says, and its
arrays as the second. -/
inductive Derives : Part → ℕ → ℕ → List Char → Prop
  | literal {b k w} : IsLiteral w → Derives .value b k w
  | number {b k w} : IsNumber w → Derives .value b k w
  | string {b k w} : IsString w → Derives .value b k w
  | emptyObject {b k w} : IsSpace w →
      Derives .value (b + 1) k (Bracket.curly.opening :: (w ++ [Bracket.curly.closing]))
  | object {b k w} : Derives .members b k w →
      Derives .value (b + 1) k (Bracket.curly.opening :: (w ++ [Bracket.curly.closing]))
  | emptyArray {b k w} : IsSpace w →
      Derives .value b (k + 1) (Bracket.square.opening :: (w ++ [Bracket.square.closing]))
  | array {b k w} : Derives .elements b k w →
      Derives .value b (k + 1) (Bracket.square.opening :: (w ++ [Bracket.square.closing]))
  | element {b k u v w} : IsSpace u → Derives .value b k v → IsSpace w →
      Derives .element b k (u ++ (v ++ w))
  | lastElement {b k w} : Derives .element b k w → Derives .elements b k w
  | moreElements {b k u w} : Derives .element b k u → Derives .elements b k w →
      Derives .elements b k (u ++ ',' :: w)
  | member {b k u name v w} : IsSpace u → IsString name → IsSpace v → Derives .element b k w →
      Derives .member b k (u ++ (name ++ (v ++ ':' :: w)))
  | lastMember {b k w} : Derives .member b k w → Derives .members b k w
  | moreMembers {b k u w} : Derives .member b k u → Derives .members b k w →
      Derives .members b k (u ++ ',' :: w)

/-- The depth of the brackets of a kind. -/
def depthOf : Bracket → ℕ → ℕ → ℕ
  | .curly, b, _ => b
  | .square, _, k => k

theorem depthOf_object (q : Bracket) (b k : ℕ) :
    depthOf q (b + 1) k = depthOf q b k + if Bracket.curly = q then 1 else 0 := by
  cases q with
  | curly => rfl
  | square => rfl

theorem depthOf_array (q : Bracket) (b k : ℕ) :
    depthOf q b (k + 1) = depthOf q b k + if Bracket.square = q then 1 else 0 := by
  cases q with
  | curly => rfl
  | square => rfl

/-- The text of an object, or of an array, whose brackets are nested at most `n` deep. -/
def Nested (q : Bracket) (n : ℕ) (w : List Char) : Prop :=
  ∃ b k, Derives .value b k w ∧ depthOf q b k ≤ n ∧ w.head? = some q.opening

/-! ## The count of brackets -/

section Counts

variable {q : Bracket} {s : Count} {n : ℕ} {w : List Char}

theorem neutral_of_space (h : IsSpace w) : ∀ x ∈ w, Neutral x := by
  have hspace : ∀ x ∈ [' ', '\t', '\n', '\r'], Neutral x := by decide
  exact fun x hx => hspace x (h x hx)

theorem keeps_of_space (hw : IsSpace w) (hs : s.Outside) (hle : s.depth ≤ n) : Keeps q n s w :=
  keeps_of_neutral hs.2 hle (neutral_of_space hw)

theorem neutral_of_digit {x : Char} (h : x.isDigit = true) : Neutral x := by
  have hother : ∀ y ∈ ['\\', '"', '\x7b', '\x7d', '[', ']'], y.isDigit = false := by decide
  intro hx
  rw [hother x hx] at h
  cases h

theorem neutral_of_literal (h : IsLiteral w) : ∀ x ∈ w, Neutral x := by
  have hliteral : ∀ v ∈ ["true".toList, "false".toList, "null".toList], ∀ x ∈ v, Neutral x := by
    decide
  exact hliteral w h

theorem neutral_of_number (h : IsNumber w) : ∀ x ∈ w, Neutral x := by
  obtain ⟨sign, int, frac, exp, rfl, hsign, hint, hfrac, hexp⟩ := h
  have hsigns : ∀ v ∈ [[], ['-']], ∀ x ∈ v, Neutral x := by decide
  have hexpSigns : ∀ v ∈ [[], ['+'], ['-']], ∀ x ∈ v, Neutral x := by decide
  have hmarks : ∀ x ∈ ['e', 'E'], Neutral x := by decide
  -- a sign, a digit, a point, or the mark of an exponent
  intro x hx
  rcases List.mem_append.mp hx with hx | hx
  · exact hsigns sign hsign x hx
  rcases List.mem_append.mp hx with hx | hx
  · rcases hint with rfl | ⟨hdigits, -⟩
    · rw [List.mem_singleton.mp hx]
      decide
    · exact neutral_of_digit (hdigits.2 x hx)
  rcases List.mem_append.mp hx with hx | hx
  · rcases hfrac with rfl | ⟨ds, hdigits, rfl⟩
    · cases hx
    rcases List.mem_cons.mp hx with rfl | hx
    · decide
    · exact neutral_of_digit (hdigits.2 x hx)
  · rcases hexp with rfl | ⟨e, sgn, ds, hdigits, he, hsgn, rfl⟩
    · cases hx
    rcases List.mem_cons.mp hx with rfl | hx
    · exact hmarks x he
    rcases List.mem_append.mp hx with hx | hx
    · exact hexpSigns sgn hsgn x hx
    · exact neutral_of_digit (hdigits.2 x hx)

/-- Between its quotes a string does not end. -/
theorem keeps_of_stringBody (hw : StringBody w) (hs : s.escaped = false)
    (hstring : s.inString = true) (hle : s.depth ≤ n) : Keeps q n s w := by
  have hhex : ∀ {x : Char} {w : List Char}, isHexDigit x → Keeps q n s w →
      Keeps q n s (x :: w) := by
    intro x w hx hw
    have hplain : ∀ y ∈ "0123456789abcdefABCDEF".toList, y ≠ '"' ∧ y ≠ '\\' := by decide
    exact keeps_cons hle (step_quoted hs hstring (hplain x hx).1 (hplain x hx).2) hw
  induction hw with
  | nil => exact keeps_nil hle
  | plain _ hquote hbackslash _ ih =>
    exact keeps_cons hle (step_quoted hs hstring hquote hbackslash) ih
  | escape _ _ ih => exact (keeps_escape hs hle _).append ih
  | unicode h₁ h₂ h₃ h₄ _ ih =>
    exact (keeps_escape hs hle 'u').append (hhex h₁ (hhex h₂ (hhex h₃ (hhex h₄ ih))))

theorem keeps_of_string (hw : IsString w) (hs : s.Outside) (hle : s.depth ≤ n) :
    Keeps q n s w := by
  obtain ⟨body, hbody, rfl⟩ := hw
  have hopen : s.step q '"' = some { s with inString := true } := by
    rw [step_quote hs.2, hs.1]
    rfl
  have hclose : Count.step q { s with inString := true } '"' = some s := by
    have hquote := step_quote (q := q) (s := { s with inString := true }) hs.2
    rw [hquote]
    show some { s with inString := false } = some s
    rw [← hs.1]
  exact keeps_wrap hle hopen (keeps_of_stringBody hbody hs.2 rfl hle) hclose

/-- In a pair of brackets a text may go deeper by one where they are of the kind that counts. -/
theorem keeps_brackets {r : Bracket} {d : ℕ} (hs : s.Outside) (hpos : 0 < s.depth)
    (hw : ∀ t : Count, t.Outside → 0 < t.depth → Keeps q (t.depth + d) t w) :
    Keeps q (s.depth + (d + if r = q then 1 else 0)) s (r.opening :: (w ++ [r.closing])) := by
  have hle : s.depth ≤ s.depth + (d + if r = q then 1 else 0) := Nat.le_add_right _ _
  by_cases hr : r = q
  · subst hr
    have hdeeper := hw { s with depth := s.depth + 1 } hs (Nat.succ_pos _)
    refine keeps_wrap hle (step_opening hs) (hdeeper.mono ?_) ?_
    · rw [if_pos rfl]
      show s.depth + 1 + d ≤ _
      omega
    · have hne : s.depth + 1 ≠ 1 := by omega
      have hclosing := step_closing (q := r) (s := { s with depth := s.depth + 1 }) hs
      rw [hclosing]
      show (if s.depth + 1 = 1 then none else some { s with depth := s.depth + 1 - 1 }) = _
      rw [if_neg hne, Nat.add_sub_cancel]
  · obtain ⟨hopening, hclosing⟩ := step_other hs hr
    rw [if_neg hr]
    exact keeps_wrap (Nat.le_add_right _ _) hopening (hw s hs hpos) hclosing

/-- **What the grammar derives keeps the count of brackets**, and goes as deep as its own ones. -/
theorem keeps_of_derives {p : Part} {b k : ℕ} (h : Derives p b k w) :
    ∀ s : Count, s.Outside → 0 < s.depth → Keeps q (s.depth + depthOf q b k) s w := by
  induction h with
  | literal h =>
    exact fun s hs _ => keeps_of_neutral hs.2 (Nat.le_add_right _ _) (neutral_of_literal h)
  | number h =>
    exact fun s hs _ => keeps_of_neutral hs.2 (Nat.le_add_right _ _) (neutral_of_number h)
  | string h => exact fun s hs _ => keeps_of_string h hs (Nat.le_add_right _ _)
  -- brackets add one to the count around what is between them
  | emptyObject h =>
    intro s hs hpos
    rw [depthOf_object]
    exact keeps_brackets hs hpos fun t ht _ => keeps_of_space h ht (Nat.le_add_right _ _)
  | object _ ih =>
    intro s hs hpos
    rw [depthOf_object]
    exact keeps_brackets hs hpos ih
  | emptyArray h =>
    intro s hs hpos
    rw [depthOf_array]
    exact keeps_brackets hs hpos fun t ht _ => keeps_of_space h ht (Nat.le_add_right _ _)
  | array _ ih =>
    intro s hs hpos
    rw [depthOf_array]
    exact keeps_brackets hs hpos ih
  -- white space, commas and colons do not count
  | element hu _ hw ih =>
    intro s hs hpos
    exact (keeps_of_space hu hs (Nat.le_add_right _ _)).append
      ((ih s hs hpos).append (keeps_of_space hw hs (Nat.le_add_right _ _)))
  | lastElement _ ih => exact ih
  | moreElements _ _ ih ihs =>
    intro s hs hpos
    exact (ih s hs hpos).append (keeps_cons (Nat.le_add_right _ _)
      (step_of_neutral hs.2 (by decide)) (ihs s hs hpos))
  | member hu hname hv _ ih =>
    intro s hs hpos
    have hcolon : Neutral ':' := by decide
    have hvalue := keeps_cons (Nat.le_add_right _ _) (step_of_neutral hs.2 hcolon) (ih s hs hpos)
    exact (keeps_of_space hu hs (Nat.le_add_right _ _)).append
      ((keeps_of_string hname hs (Nat.le_add_right _ _)).append
        ((keeps_of_space hv hs (Nat.le_add_right _ _)).append hvalue))
  | lastMember _ ih => exact ih
  | moreMembers _ _ ih ihs =>
    intro s hs hpos
    exact (ih s hs hpos).append (keeps_cons (Nat.le_add_right _ _)
      (step_of_neutral hs.2 (by decide)) (ihs s hs hpos))

theorem opening_injective {r : Bracket} (h : r.opening = q.opening) : r = q := by
  cases r with
  | curly =>
    cases q with
    | curly => rfl
    | square => exact absurd h (by decide)
  | square =>
    cases q with
    | curly => exact absurd h (by decide)
    | square => rfl

/-- A text in brackets closes the first one at its end. -/
theorem closes_of_brackets {r : Bracket} {d : ℕ} {u : List Char}
    (hu : ∀ t : Count, t.Outside → 0 < t.depth → Keeps q (t.depth + d) t u)
    (hdepth : d + (if r = q then 1 else 0) ≤ n)
    (hhead : (r.opening :: (u ++ [r.closing])).head? = some q.opening) :
    ∃ v, r.opening :: (u ++ [r.closing]) = q.opening :: v ∧ Closes q n v := by
  obtain rfl := opening_injective (Option.some.inj hhead)
  rw [if_pos rfl] at hdepth
  have hkeeps := (hu .start ⟨rfl, rfl⟩ Nat.one_pos).mono (Nat.le_trans (Nat.add_comm _ _).le hdepth)
  refine ⟨_, rfl, u, .start, rfl, hkeeps.within, hkeeps.run, ?_⟩
  rw [step_closing ⟨rfl, rfl⟩]
  rfl

/-- **An object and an array close their first bracket at their end**, and not before. -/
theorem closes_of_nested (hw : Nested q n w) : ∃ u, w = q.opening :: u ∧ Closes q n u := by
  obtain ⟨b, k, hderives, hdepth, hhead⟩ := hw
  -- no other value starts with a bracket
  have hneutral : ∀ {v : List Char}, (∀ x ∈ v, Neutral x) → v.head? ≠ some q.opening := by
    intro v hv hhead
    exact ((hv _ (List.mem_of_head? hhead)).bracket q).1 rfl
  cases hderives with
  | literal h => exact absurd hhead (hneutral (neutral_of_literal h))
  | number h => exact absurd hhead (hneutral (neutral_of_number h))
  | string h =>
    obtain ⟨body, -, rfl⟩ := h
    have hquote : '"' ≠ q.opening := by
      cases q with
      | curly => decide
      | square => decide
    exact absurd (Option.some.inj hhead) hquote
  | emptyObject h =>
    rw [depthOf_object] at hdepth
    exact closes_of_brackets (fun t ht _ => keeps_of_space h ht (Nat.le_add_right _ _)) hdepth hhead
  | object h =>
    rw [depthOf_object] at hdepth
    exact closes_of_brackets (keeps_of_derives h) hdepth hhead
  | emptyArray h =>
    rw [depthOf_array] at hdepth
    exact closes_of_brackets (fun t ht _ => keeps_of_space h ht (Nat.le_add_right _ _)) hdepth hhead
  | array h =>
    rw [depthOf_array] at hdepth
    exact closes_of_brackets (keeps_of_derives h) hdepth hhead

end Counts

end Text
