import IronDefer.Infrastructure.DetailScrub
import Mathlib.Data.List.TakeWhile

/-!
# The two forms of a detail

The database names the values of a row in a failed check, and the values of a key in one that is
violated. It does not mark a closing parenthesis in a value. A value is cut out whole where it is
closed: where it is as long as the lower case of what stands in it before its first closing
parenthesis. In a key, the text of the columns has to be plain, too: it must not have one of the
patterns that are searched for, nor change its length.

## Main definitions

* `rowDetail`, `keyDetail`: the two forms
* `SameScrub`: two details which are scrubbed to the same text
* `Closed`, `ClosedValue`, `PlainColumns`: what is cut out whole, and where

## Main results

* `scrubDetail_row`, `scrubDetail_key`: what is left of the two forms
* `sameScrub_row_iff`, `sameScrub_key_iff`: next to a closed value, only a closed one leaves the same
* `plain_of_sameScrub`: columns that are not plain tell closed values apart
* `detail_scrubbed_iff`: **when the two forms do not tell their values apart**
-/

namespace IronDefer

open Text (find sliceFrom size Lowercase IsBoundary IsMark)
open scoped Text

/-! ## The forms -/

def rowFront : List Char := "Failing row contains (".toList

/-- The detail of a failed check. -/
def rowDetail (row : List Char) : List Char := rowFront ++ row ++ ").".toList

def keyFront : List Char := "Key (".toList

/-- What follows the closing parenthesis of the value. -/
def keyBack : List Char := " already exists.".toList

/-- The detail of a violated key. -/
def keyDetail (cols value : List Char) : List Char :=
  keyFront ++ cols ++ ")=(".toList ++ value ++ ')' :: keyBack

/-- The scrub makes the same text of the two details, and does not panic. -/
def SameScrub (L : Lowercase) (d₁ d₂ : List Char) : Prop :=
  ∃ out, scrubDetail L d₁ = some out ∧ scrubDetail L d₂ = some out

/-- What stands in a text before its first closing parenthesis. -/
def firstPart (s : List Char) : List Char := s.takeWhile fun c => c ≠ ')'

/-- The text is as long as the lower case of its first part. Where the lower case keeps the length,
this says that there is no closing parenthesis in it. -/
def Closed (L : Lowercase) (s : List Char) : Prop := size (L.text (firstPart s)) = size s

/-- A value of a key that is cut out whole. -/
structure ClosedValue (L : Lowercase) (value : List Char) : Prop where
  contains : ¬ containsPattern <:+: L.text value
  closed : Closed L value

/-- Columns of a key behind which the value is found. -/
structure PlainColumns (L : Lowercase) (cols : List Char) : Prop where
  contains : ¬ containsPattern <:+: L.text cols
  equals : ¬ equalsPattern <:+: L.text cols
  size : size (L.text cols) = size cols

/-- Behind as many bytes as the lower case of their first parts has, two rows are the same. -/
def SameRest (L : Lowercase) (r₁ r₂ : List Char) : Prop :=
  ∃ front₁ front₂ rest, r₁ ++ ").".toList = front₁ ++ rest ∧ r₂ ++ ").".toList = front₂ ++ rest ∧
    size front₁ = size (L.text (firstPart r₁)) ∧ size front₂ = size (L.text (firstPart r₂))

variable {L : Lowercase}

/-! ## First parts -/

theorem not_mem_firstPart (s : List Char) : ')' ∉ firstPart s := by
  intro h
  have hne := List.mem_takeWhile_imp h
  exact absurd rfl (of_decide_eq_true hne)

theorem size_firstPart_le (s : List Char) : size (firstPart s) ≤ size s := by
  obtain ⟨rest, hrest⟩ := List.takeWhile_prefix (l := s) fun c => decide (c ≠ ')')
  have hsize := congrArg size hrest
  rw [Text.size_append] at hsize
  have hfirst : size (firstPart s) + size rest = size s := hsize
  omega

/-- The first part goes up to the next closing parenthesis. -/
theorem find_firstPart (s post : List Char) :
    ∃ rest, s ++ ')' :: post = firstPart s ++ ')' :: rest := by
  induction s with
  | nil => exact ⟨post, rfl⟩
  | cons c cs ih =>
    by_cases hc : c = ')'
    · subst hc
      exact ⟨cs ++ ')' :: post, rfl⟩
    · obtain ⟨rest, hrest⟩ := ih
      have hfirst : firstPart (c :: cs) = c :: firstPart cs :=
        List.takeWhile_cons_of_pos (by simpa using hc)
      exact ⟨rest, by rw [hfirst, List.cons_append, hrest, List.cons_append]⟩

theorem find_close (s post : List Char) :
    ∃ rest, find [')'] (s ++ ')' :: post) = some (firstPart s, rest) := by
  obtain ⟨rest, hrest⟩ := find_firstPart s post
  exact ⟨rest, by rw [hrest]; exact Text.find_singleton (not_mem_firstPart s)⟩

theorem firstPart_of_not_mem {s : List Char} (h : ')' ∉ s) : firstPart s = s := by
  unfold firstPart
  rw [List.takeWhile_eq_self_iff]
  rintro c hc
  apply decide_eq_true
  rintro rfl
  exact h hc

theorem text_firstPart (s : List Char) : firstPart (L.text s) = L.text (firstPart s) := by
  -- the lower-cased text has its first closing parenthesis at the same place
  obtain ⟨rest, hrest⟩ := find_close (L.text s) []
  obtain ⟨rest', hrest'⟩ := find_firstPart s []
  have htext : L.text s ++ [')'] = L.text (s ++ [')']) := by
    rw [L.text_append, L.text_cons, L.image_mark isMark_close]
    rfl
  rw [htext, hrest', find_close_text (not_mem_firstPart s)] at hrest
  exact (congrArg Prod.fst (Option.some.inj hrest)).symm

/-! ## What is cut out -/

/-- The detail without what stands between two bytes. -/
def cutBetween (detail : List Char) (i j : ℕ) : Option (List Char) :=
  (Text.sliceTo detail i).bind fun front =>
    (sliceFrom detail j).map fun suffix => front ++ scrubbed ++ suffix

theorem cutBetween_eq_some_iff {detail out : List Char} {i j : ℕ} :
    cutBetween detail i j = some out ↔ ∃ front q p suffix, detail = front ++ q ∧
      detail = p ++ suffix ∧ size front = i ∧ size p = j ∧ out = front ++ (scrubbed ++ suffix) := by
  simp only [cutBetween, Option.bind_eq_some_iff, Option.map_eq_some_iff,
    Text.sliceTo_eq_some_iff, Text.sliceFrom_eq_some_iff]
  constructor
  · rintro ⟨front, ⟨q, hq, hi⟩, suffix, ⟨p, hp, hj⟩, rfl⟩
    exact ⟨front, q, p, suffix, hq, hp, hi, hj, List.append_assoc _ _ _⟩
  · rintro ⟨front, q, p, suffix, hq, hp, hi, hj, rfl⟩
    exact ⟨front, ⟨q, hq, hi⟩, suffix, ⟨p, hp, hj⟩, List.append_assoc _ _ _⟩

/-- What is left where a closing parenthesis follows. -/
theorem cutOut_close {detail : List Char} (start : ℕ) (s post : List Char) :
    cutOut detail start (s ++ ')' :: post) =
      (cutBetween detail start (start + size (firstPart s))).map some := by
  obtain ⟨rest, hrest⟩ := find_close s post
  rw [cutOut_of_find hrest, cutBetween]
  cases Text.sliceTo detail start with
  | none => rfl
  | some front => simp only [Option.bind_some, Option.map_map, Function.comp_def]

/-- What is left of a value that starts where it is looked for. -/
theorem cutOut_value (front value post : List Char) {start : ℕ} (h : start = size front) :
    cutOut (front ++ (value ++ ')' :: post)) start (L.text value ++ ')' :: L.text post) =
      ((sliceFrom (value ++ ')' :: post) (size (L.text (firstPart value)))).map fun rest =>
        front ++ scrubbed ++ rest).map some := by
  rw [cutOut_close, h, cutBetween, Text.sliceTo_append, text_firstPart, Option.bind_some,
    Text.sliceFrom_append_add]

/-- The scrub of a detail with a row. -/
theorem scrubDetail_of_contains {detail before after : List Char} {out : Option (List Char)}
    (hfind : find containsPattern (L.text detail) = some (before, after))
    (hcut : cutOut detail (size before + size containsPattern) after = out.map some) :
    scrubDetail L detail = out := by
  unfold scrubDetail
  dsimp only
  rw [hfind]
  dsimp only
  rw [hcut]
  cases out with
  | none => rfl
  | some out => rfl

/-- The scrub of a detail with a key. -/
theorem scrubDetail_of_key {detail before after between rest : List Char}
    {out : Option (List Char)} (hnone : find containsPattern (L.text detail) = none)
    (hfind : find keyPattern (L.text detail) = some (before, after))
    (hequals : find equalsPattern (keyPattern ++ after) = some (between, rest))
    (hcut : cutOut detail (size before + (size between + size equalsPattern)) rest =
      out.map some) : scrubDetail L detail = out := by
  unfold scrubDetail
  dsimp only
  rw [hnone]
  dsimp only
  unfold scrubKey
  rw [hfind]
  dsimp only
  rw [hequals]
  dsimp only
  rw [hcut]
  cases out with
  | none => rfl
  | some out => rfl

/-- A closed value leaves nothing of itself. -/
theorem slice_close_iff {value post : List Char} :
    sliceFrom (value ++ post) (size (L.text (firstPart value))) = some post ↔ Closed L value := by
  rw [Text.sliceFrom_eq_some_iff, Closed]
  constructor
  · rintro ⟨p, hp, hsize⟩
    rw [← hsize, List.append_cancel_right hp]
  · exact fun h => ⟨value, rfl, h.symm⟩

/-! ## Rows -/

theorem rowDetail_eq (row : List Char) : rowDetail row = rowFront ++ (row ++ ')' :: ['.']) := by
  rw [rowDetail, List.append_assoc]
  rfl

theorem text_rowFront : L.text rowFront = "failing row ".toList ++ ("contains ".toList ++ ['(']) := by
  rw [L.text_of_ascii (by decide)]
  decide

theorem find_rowDetail (row : List Char) : find containsPattern (L.text (rowDetail row)) =
    some ("failing row ".toList, L.text row ++ ')' :: L.text ['.']) := by
  have hc : '(' ∉ "contains ".toList := by decide
  have hu : '(' ∉ "failing row ".toList := by decide
  rw [rowDetail_eq, L.text_append, L.text_append, L.text_cons, L.image_mark isMark_close,
    text_rowFront, List.append_assoc]
  exact Text.find_first hc hu

/-- **What is left of a failed check**: what stands behind as many bytes as the lower case of the
row's first part has. -/
theorem scrubDetail_row (row : List Char) : scrubDetail L (rowDetail row) =
    (sliceFrom (row ++ ").".toList) (size (L.text (firstPart row)))).map fun rest =>
      rowFront ++ scrubbed ++ rest := by
  have hsize : size "failing row ".toList + size containsPattern = size rowFront := by decide
  apply scrubDetail_of_contains (find_rowDetail row)
  rw [rowDetail_eq]
  exact cutOut_value rowFront row ['.'] hsize

/-- **Two rows are scrubbed to the same text** where they are the same behind their first parts. -/
theorem sameScrub_row_iff_sameRest {r₁ r₂ : List Char} :
    SameScrub L (rowDetail r₁) (rowDetail r₂) ↔ SameRest L r₁ r₂ := by
  rw [SameScrub, scrubDetail_row, scrubDetail_row]
  simp only [Option.map_eq_some_iff, Text.sliceFrom_eq_some_iff]
  constructor
  · rintro ⟨_, ⟨rest, ⟨f₁, h₁, hs₁⟩, rfl⟩, rest', ⟨f₂, h₂, hs₂⟩, heq⟩
    obtain rfl := List.append_cancel_left heq
    exact ⟨f₁, f₂, rest', h₁, h₂, hs₁, hs₂⟩
  · rintro ⟨f₁, f₂, rest, h₁, h₂, hs₁, hs₂⟩
    exact ⟨_, ⟨rest, ⟨f₁, h₁, hs₁⟩, rfl⟩, rest, ⟨f₂, h₂, hs₂⟩, rfl⟩

/-- Next to a closed row, only a closed one leaves the same text. -/
theorem sameScrub_row_iff {r₁ r₂ : List Char} (h : Closed L r₁) :
    SameScrub L (rowDetail r₁) (rowDetail r₂) ↔ Closed L r₂ := by
  rw [SameScrub, scrubDetail_row, scrubDetail_row, slice_close_iff.mpr h, ← slice_close_iff]
  constructor
  · rintro ⟨_, heq, hout⟩
    cases heq
    obtain ⟨rest, hrest, heq⟩ := Option.map_eq_some_iff.mp hout
    rw [hrest, List.append_cancel_left heq]
  · intro hrest
    exact ⟨_, rfl, by rw [hrest]; rfl⟩

/-! ## Keys -/

theorem text_equalsPattern : L.text equalsPattern = equalsPattern := by
  rw [L.text_of_ascii (by decide)]
  decide

theorem text_keyFront : L.text keyFront = keyPattern := by
  rw [L.text_of_ascii (by decide)]
  decide

theorem text_keyBack : L.text keyBack = keyBack := by
  rw [L.text_of_ascii (by decide)]
  decide

theorem text_keyDetail (cols value : List Char) : L.text (keyDetail cols value) =
    keyPattern ++ L.text cols ++ equalsPattern ++ L.text value ++ ')' :: keyBack := by
  rw [keyDetail, L.text_append, L.text_append, L.text_append, L.text_append, L.text_cons,
    L.image_mark isMark_close, text_keyFront, text_keyBack]
  show _ ++ L.text equalsPattern ++ _ ++ _ = _
  rw [text_equalsPattern]
  rfl

/-- The first `contains (` of a key detail is in the columns, or else in the value. -/
theorem find_contains_key {cols : List Char} (h : ¬ containsPattern <:+: L.text cols)
    (value : List Char) : find containsPattern (L.text (keyDetail cols value)) =
      (find containsPattern (L.text value)).map fun r =>
        (keyPattern ++ L.text cols ++ equalsPattern ++ r.1, r.2 ++ ')' :: keyBack) := by
  have hc : '(' ∉ "contains ".toList := by decide
  have hback : '(' ∉ ')' :: keyBack := by decide
  have hkey : ¬ "contains ".toList ++ ['('] <:+: "key ".toList ++ ['('] := by decide
  -- the columns and `)=(` do not end with the pattern
  have hcols : ¬ "contains ".toList ++ ['('] <:+: (L.text cols ++ ")=".toList) ++ ['('] := by
    rw [List.infix_concat_iff]
    rintro (⟨t, ht⟩ | hinfix)
    · have hends := List.append_cancel_right (ht ▸ (List.append_assoc t _ _).symm)
      have hpair : (t ++ "contains".toList) ++ [' '] = (L.text cols ++ [')']) ++ ['='] := by
        simpa using hends.symm
      cases (List.append_inj' hpair rfl).2
    · exact h (Text.infix_append_of_not_mem (by decide) hinfix)
  have hsplit : L.text (keyDetail cols value) = ("key ".toList ++ ['(']) ++
      (((L.text cols ++ ")=".toList) ++ ['(']) ++ (L.text value ++ ')' :: keyBack)) := by
    rw [text_keyDetail]
    simp [keyPattern, equalsPattern]
  rw [hsplit]
  show find ("contains ".toList ++ ['(']) _ = _
  rw [Text.find_behind hc hkey, Text.find_behind hc hcols, Text.find_before hback]
  show Option.map _ (Option.map _ (Option.map _ (find containsPattern (L.text value)))) = _
  rw [Option.map_map, Option.map_map]
  refine congrArg (Option.map · (find containsPattern (L.text value))) (funext fun r => ?_)
  show (_, _) = (_, _)
  simp [keyPattern, equalsPattern]

theorem find_key (rest : List Char) : find keyPattern (keyPattern ++ rest) = some ([], rest) := by
  have hc : '(' ∉ "key ".toList := by decide
  exact Text.find_first (u := []) hc (List.not_mem_nil)

/-- Where the columns do not have the pattern, the next one is the one behind them. -/
theorem find_equals_key {cols : List Char} (h : ¬ equalsPattern <:+: cols) (rest : List Char) :
    find equalsPattern (keyPattern ++ (cols ++ (equalsPattern ++ rest))) =
      some (keyPattern ++ cols, rest) := by
  have hc : '(' ∉ ")=".toList := by decide
  have hkey : ¬ ")=".toList ++ ['('] <:+: "key ".toList ++ ['('] := by decide
  have hcols : find equalsPattern (cols ++ (equalsPattern ++ rest)) = some (cols, rest) := by
    rw [Text.find_eq_some_iff]
    refine ⟨rfl, fun b a heq => ?_⟩
    by_contra hlt
    -- a place before would be in the columns, or begin in their last two characters
    rcases List.append_eq_append_iff.mp heq with ⟨t, hb, -⟩ | ⟨t, hb, ha⟩
    · rw [hb, List.length_append] at hlt
      omega
    · match t, hb, ha with
      | [], hb, _ =>
        rw [hb, List.append_nil] at hlt
        exact hlt (Nat.le_refl _)
      | [_], _, ha => cases (List.cons.inj (List.cons.inj ha).2).1
      | [_, _], _, ha =>
        cases (List.cons.inj (List.cons.inj (List.cons.inj ha).2).2).1
      | d₁ :: d₂ :: d₃ :: t, hb, ha =>
        obtain ⟨h₁, ha⟩ := List.cons.inj ha
        obtain ⟨h₂, ha⟩ := List.cons.inj ha
        obtain ⟨h₃, -⟩ := List.cons.inj ha
        subst h₁ h₂ h₃
        exact h ⟨b, t, by rw [hb, List.append_assoc]; rfl⟩
  show find (")=".toList ++ ['(']) (("key ".toList ++ ['(']) ++ _) = _
  rw [Text.find_behind hc hkey]
  show Option.map _ (find equalsPattern (cols ++ (equalsPattern ++ rest))) = _
  rw [hcols]
  rfl

theorem keyDetail_eq (cols value : List Char) :
    keyDetail cols value = (keyFront ++ cols ++ equalsPattern) ++ (value ++ ')' :: keyBack) := by
  rw [keyDetail, List.append_assoc _ value]
  rfl

/-- Columns that keep their length move no place. -/
theorem size_keyFront {cols : List Char} (h : size (L.text cols) = size cols) :
    size (keyPattern ++ L.text cols ++ equalsPattern) =
      size (keyFront ++ cols ++ equalsPattern) := by
  have hkey : size keyPattern = size keyFront := by decide
  rw [Text.size_append, Text.size_append, Text.size_append, Text.size_append, h, hkey]

/-- **What is left of a violated key**: what stands behind as many bytes as the lower case of the
value's first part has. -/
theorem scrubDetail_key {cols value : List Char} (hcols : PlainColumns L cols)
    (hvalue : ¬ containsPattern <:+: L.text value) : scrubDetail L (keyDetail cols value) =
    (sliceFrom (value ++ ')' :: keyBack) (size (L.text (firstPart value)))).map fun rest =>
      (keyFront ++ cols ++ equalsPattern) ++ scrubbed ++ rest := by
  have hnone : find containsPattern (L.text (keyDetail cols value)) = none := by
    rw [find_contains_key hcols.contains, Text.find_eq_none_iff.mpr hvalue]
    rfl
  have hlower : L.text (keyDetail cols value) =
      keyPattern ++ (L.text cols ++ (equalsPattern ++ (L.text value ++ ')' :: keyBack))) := by
    rw [text_keyDetail]
    simp only [List.append_assoc]
  have hfind := congrArg (find keyPattern) hlower
  rw [find_key] at hfind
  have hstart : size [] + (size (keyPattern ++ L.text cols) + size equalsPattern) =
      size (keyFront ++ cols ++ equalsPattern) := by
    rw [Text.size_nil, Nat.zero_add, ← Text.size_append, size_keyFront hcols.size]
  apply scrubDetail_of_key hnone hfind (find_equals_key hcols.equals _)
  rw [keyDetail_eq]
  have hcut := cutOut_value (L := L) (keyFront ++ cols ++ equalsPattern) value keyBack hstart
  rw [text_keyBack] at hcut
  exact hcut

/-! ## What a value that is not closed leaves -/

/-- Where something stands before the mark of a value, the text is not the one without it. -/
theorem eq_nil_of_scrubbed {mid suffix rest : List Char} (hrest : '<' ∉ rest)
    (h : mid ++ (scrubbed ++ suffix) = scrubbed ++ rest) : mid = [] := by
  cases mid with
  | nil => rfl
  | cons c mid =>
    -- the `<` of the mark would stand in what follows that of the other
    have htail : mid ++ (scrubbed ++ suffix) = "scrubbed>".toList ++ rest := (List.cons.inj h).2
    have hmem : '<' ∈ "scrubbed>".toList ++ rest := by
      rw [← htail]
      exact List.mem_append_right _ List.mem_cons_self
    rcases List.mem_append.mp hmem with hmem | hmem
    · exact absurd hmem (by decide)
    · exact absurd hmem hrest

/-- A `contains (` in the value keeps the front of it. -/
theorem scrubDetail_key_of_contains {cols value out : List Char} (hcols : PlainColumns L cols)
    (hvalue : containsPattern <:+: L.text value)
    (hout : scrubDetail L (keyDetail cols value) = some out) :
    ∃ mid suffix, mid ≠ [] ∧
      out = (keyFront ++ cols ++ equalsPattern) ++ (mid ++ (scrubbed ++ suffix)) := by
  obtain ⟨⟨before, after⟩, hfind⟩ : ∃ r, find containsPattern (L.text value) = some r :=
    Option.ne_none_iff_exists'.mp fun hnone => Text.find_eq_none_iff.mp hnone hvalue
  have hlower := find_contains_key hcols.contains value
  rw [hfind] at hlower
  have hsame := size_keyFront hcols.size
  set start := size (keyPattern ++ L.text cols ++ equalsPattern ++ before) + size containsPattern
    with hstart
  rw [scrubDetail_of_contains hlower (cutOut_close _ after keyBack), ← hstart,
    cutBetween_eq_some_iff] at hout
  obtain ⟨front, q, -, suffix, hq, -, hi, -, rfl⟩ := hout
  -- what is kept before the value goes beyond the front of the detail
  have hlt : size (keyFront ++ cols ++ equalsPattern) < size front := by
    have hpos : 0 < size containsPattern := by decide
    rw [hi, hstart, Text.size_append _ before, hsame]
    omega
  obtain ⟨mid, rfl⟩ : keyFront ++ cols ++ equalsPattern <+: front :=
    Text.prefix_of_size_le ⟨_, (keyDetail_eq cols value).symm⟩ ⟨q, hq.symm⟩ (Nat.le_of_lt hlt)
  refine ⟨mid, suffix, ?_, List.append_assoc _ _ _⟩
  rintro rfl
  rw [List.append_nil] at hlt
  exact Nat.lt_irrefl _ hlt

/-- Next to a closed value, only a closed one leaves the same text. -/
theorem sameScrub_key_iff {cols v₁ v₂ : List Char} (hcols : PlainColumns L cols)
    (h : ClosedValue L v₁) :
    SameScrub L (keyDetail cols v₁) (keyDetail cols v₂) ↔ ClosedValue L v₂ := by
  have hback : '<' ∉ ')' :: keyBack := by decide
  have h₁ := scrubDetail_key hcols h.contains
  rw [slice_close_iff.mpr h.closed, Option.map_some] at h₁
  rw [SameScrub, h₁]
  constructor
  · rintro ⟨out, heq, hout⟩
    cases heq
    have hcontains : ¬ containsPattern <:+: L.text v₂ := by
      intro hinfix
      obtain ⟨mid, suffix, hmid, heq⟩ := scrubDetail_key_of_contains hcols hinfix hout
      rw [List.append_assoc] at heq
      exact hmid (eq_nil_of_scrubbed hback (List.append_cancel_left heq).symm)
    rw [scrubDetail_key hcols hcontains] at hout
    obtain ⟨rest, hrest, heq⟩ := Option.map_eq_some_iff.mp hout
    rw [List.append_cancel_left heq] at hrest
    exact ⟨hcontains, slice_close_iff.mp hrest⟩
  · intro h₂
    refine ⟨_, rfl, ?_⟩
    rw [scrubDetail_key hcols h₂.contains, slice_close_iff.mpr h₂.closed, Option.map_some]

/-! ## Columns that are not plain -/

/-- A value of one letter. -/
theorem text_replicate {c : Char} (hascii : c.toNat < 128) (hlower : c.toLower = c) (n : ℕ) :
    L.text (List.replicate n c) = List.replicate n c := by
  rw [L.text_of_ascii fun d hd => List.eq_of_mem_replicate hd ▸ hascii, List.map_replicate, hlower]

theorem closedValue_replicate {c : Char} (hascii : c.toNat < 128) (hlower : c.toLower = c)
    (hopen : c ≠ '(') (hclose : c ≠ ')') (n : ℕ) : ClosedValue L (List.replicate n c) where
  contains h := by
    rw [text_replicate hascii hlower] at h
    exact hopen (List.eq_of_mem_replicate (h.subset (by decide : '(' ∈ containsPattern))).symm
  closed := by
    have hfirst : firstPart (List.replicate n c) = List.replicate n c :=
      firstPart_of_not_mem fun h => hclose (List.eq_of_mem_replicate h).symm
    rw [Closed, hfirst, text_replicate hascii hlower]

/-- What is kept before the place of the values tells two of one letter apart. -/
theorem eq_of_front {front before q₁ q₂ rest₁ rest₂ : List Char} {c₁ c₂ : Char}
    (hlt : size front < size before) (h₁ : front ++ c₁ :: rest₁ = before ++ q₁)
    (h₂ : front ++ c₂ :: rest₂ = before ++ q₂) : c₁ = c₂ := by
  obtain ⟨mid, rfl⟩ : front <+: before :=
    Text.prefix_of_size_le ⟨_, rfl⟩ ⟨q₁, h₁.symm⟩ (Nat.le_of_lt hlt)
  rw [List.append_assoc] at h₁ h₂
  cases mid with
  | nil =>
    rw [List.append_nil] at hlt
    exact absurd hlt (Nat.lt_irrefl _)
  | cons c mid =>
    have hc₁ := (List.cons.inj (List.append_cancel_left h₁)).1
    have hc₂ := (List.cons.inj (List.append_cancel_left h₂)).1
    rw [hc₁, hc₂]

/-- What is kept behind the place of the values tells two of one letter apart. -/
theorem eq_of_suffix {front₁ front₂ p₁ p₂ suffix post : List Char} {c₁ c₂ : Char}
    (hlt₁ : size p₁ < size (front₁ ++ [c₁])) (hlt₂ : size p₂ < size (front₂ ++ [c₂]))
    (h₁ : (front₁ ++ [c₁]) ++ post = p₁ ++ suffix) (h₂ : (front₂ ++ [c₂]) ++ post = p₂ ++ suffix) :
    c₁ = c₂ := by
  -- each suffix begins with an end of the value
  have hend : ∀ {front p : List Char} {c : Char}, size p < size (front ++ [c]) →
      (front ++ [c]) ++ post = p ++ suffix → ∃ t, suffix = (t ++ [c]) ++ post := by
    intro front p c hlt h
    obtain ⟨t, ht⟩ : p <+: front ++ [c] :=
      Text.prefix_of_size_le ⟨suffix, h.symm⟩ ⟨post, rfl⟩ (Nat.le_of_lt hlt)
    rcases List.eq_nil_or_concat t with rfl | ⟨t, d, rfl⟩
    · rw [← ht, List.append_nil] at hlt
      exact absurd hlt (Nat.lt_irrefl _)
    · rw [List.concat_eq_append] at ht
      obtain ⟨-, hd⟩ := List.append_inj' ((List.append_assoc _ _ _).trans ht) rfl
      cases hd
      rw [← ht, List.append_assoc] at h
      exact ⟨t, (List.append_cancel_left h).symm⟩
  obtain ⟨t₁, ht₁⟩ := hend hlt₁ h₁
  obtain ⟨t₂, ht₂⟩ := hend hlt₂ h₂
  have heq := List.append_cancel_right (ht₁.symm.trans ht₂)
  cases (List.append_inj' heq rfl).2
  rfl

/-- A cut at the same bytes for all values keeps something of each, or it is at their place. -/
theorem not_sameScrub_of_cut {cols : List Char} {n i j : ℕ}
    (hcut : ∀ c : Char, c = 'x' ∨ c = 'y' → scrubDetail L (keyDetail cols (List.replicate (n + 1) c)) =
      cutBetween (keyDetail cols (List.replicate (n + 1) c)) i j)
    (hkept : size (keyFront ++ cols ++ equalsPattern) < i ∨
      j < size (keyFront ++ cols ++ equalsPattern) + (n + 1)) :
    ¬ SameScrub L (keyDetail cols (List.replicate (n + 1) 'x'))
      (keyDetail cols (List.replicate (n + 1) 'y')) := by
  rintro ⟨out, hx, hy⟩
  rw [hcut _ (.inl rfl), cutBetween_eq_some_iff] at hx
  rw [hcut _ (.inr rfl), cutBetween_eq_some_iff] at hy
  obtain ⟨f₁, q₁, p₁, s₁, hf₁, hp₁, hi₁, hj₁, rfl⟩ := hx
  obtain ⟨f₂, q₂, p₂, s₂, hf₂, hp₂, hi₂, hj₂, heq⟩ := hy
  obtain ⟨rfl, hs⟩ := Text.append_inj_of_size heq (hi₁.trans hi₂.symm)
  obtain rfl := List.append_cancel_left hs
  have hne : 'x' ≠ 'y' := by decide
  -- the first character of the value stands before the cut, or its last one behind it
  rcases hkept with hlt | hlt
  · rw [keyDetail_eq, List.replicate_succ, List.cons_append] at hf₁ hf₂
    exact hne (eq_of_front (hi₁ ▸ hlt) hf₁ hf₂)
  · have hdetail : ∀ c, keyDetail cols (List.replicate (n + 1) c) =
        ((keyFront ++ cols ++ equalsPattern ++ List.replicate n c) ++ [c]) ++ ')' :: keyBack := by
      intro c
      rw [keyDetail_eq, List.replicate_succ']
      simp only [List.append_assoc]
    have hsize : ∀ c : Char, c.utf8Size = 1 → j <
        size (keyFront ++ cols ++ equalsPattern ++ List.replicate n c ++ [c]) := by
      intro c hc
      rw [Text.size_append, Text.size_append, Text.size_replicate, Text.size_cons, hc,
        Text.size_nil]
      omega
    rw [hdetail] at hp₁ hp₂
    exact hne (eq_of_suffix (hj₁ ▸ hsize 'x' (by decide)) (hj₂ ▸ hsize 'y' (by decide)) hp₁ hp₂)

/-- A cut in the columns is before the end of a value that is long enough. -/
theorem cut_lt {cols before after pat : List Char}
    (hfind : find pat (keyPattern ++ L.text cols) = some (before, after)) :
    size before + size pat + size (firstPart after) <
      size (keyFront ++ cols ++ equalsPattern) + (size (L.text cols) + 1) := by
  have hsize := congrArg size (Text.eq_of_find hfind)
  have hfirst := size_firstPart_le after
  have hkey : size keyPattern = size keyFront := by decide
  simp only [Text.size_append] at hsize ⊢
  omega

/-- **Columns behind which closed values are not told apart are plain.** -/
theorem plain_of_sameScrub {cols : List Char} (h : ∀ v₁ v₂, ClosedValue L v₁ → ClosedValue L v₂ →
    SameScrub L (keyDetail cols v₁) (keyDetail cols v₂)) : PlainColumns L cols := by
  have hletter : ∀ {c : Char}, c = 'x' ∨ c = 'y' → ∀ n,
      ClosedValue L (List.replicate n c) ∧ L.text (List.replicate n c) = List.replicate n c := by
    rintro c (rfl | rfl) n
    · exact ⟨closedValue_replicate (by decide) (by decide) (by decide) (by decide) n,
        text_replicate (by decide) (by decide) n⟩
    · exact ⟨closedValue_replicate (by decide) (by decide) (by decide) (by decide) n,
        text_replicate (by decide) (by decide) n⟩
  have hsame : ∀ n, SameScrub L (keyDetail cols (List.replicate (n + 1) 'x'))
      (keyDetail cols (List.replicate (n + 1) 'y')) := fun n =>
    h _ _ (hletter (.inl rfl) _).1 (hletter (.inr rfl) _).1
  have hlower : ∀ value, L.text (keyDetail cols value) = (keyPattern ++ L.text cols) ++
      ')' :: ("=(".toList ++ L.text value ++ ')' :: keyBack) := by
    intro value
    rw [text_keyDetail]
    simp [equalsPattern]
  have hcontains : ¬ containsPattern <:+: L.text cols := by
    intro hinfix
    obtain ⟨⟨before, after⟩, hfind⟩ : ∃ r, find containsPattern (keyPattern ++ L.text cols) = some r :=
      Option.ne_none_iff_exists'.mp fun hnone => Text.find_eq_none_iff.mp hnone
        (List.infix_append_of_infix_right hinfix)
    refine not_sameScrub_of_cut (i := size before + size containsPattern) (fun c _ => ?_)
      (.inr (cut_lt hfind)) (hsame _)
    have hfind' := Text.find_append_right hfind
      (')' :: ("=(".toList ++ L.text (List.replicate (size (L.text cols) + 1) c) ++ ')' :: keyBack))
    rw [← hlower] at hfind'
    exact scrubDetail_of_contains hfind' (cutOut_close _ after _)
  -- a key, then: no `contains (` is in the columns, nor in a value of one letter
  have hnone : ∀ {c : Char}, c = 'x' ∨ c = 'y' → ∀ n,
      find containsPattern (L.text (keyDetail cols (List.replicate n c))) = none := by
    intro c hc n
    rw [find_contains_key hcontains, Text.find_eq_none_iff.mpr (hletter hc n).1.contains]
    rfl
  have hkey : ∀ value, find keyPattern (L.text (keyDetail cols value)) = some ([],
      L.text cols ++ ')' :: ("=(".toList ++ L.text value ++ ')' :: keyBack)) := by
    intro value
    rw [hlower, List.append_assoc]
    exact find_key _
  have hequals : ¬ equalsPattern <:+: L.text cols := by
    intro hinfix
    obtain ⟨⟨before, after⟩, hfind⟩ : ∃ r, find equalsPattern (keyPattern ++ L.text cols) = some r :=
      Option.ne_none_iff_exists'.mp fun hnone => Text.find_eq_none_iff.mp hnone
        (List.infix_append_of_infix_right hinfix)
    refine not_sameScrub_of_cut (i := size before + size equalsPattern) (fun c hc => ?_)
      (.inr (cut_lt hfind)) (hsame _)
    have hfind' := Text.find_append_right hfind
      (')' :: ("=(".toList ++ L.text (List.replicate (size (L.text cols) + 1) c) ++ ')' :: keyBack))
    rw [List.append_assoc] at hfind'
    apply scrubDetail_of_key (hnone hc _) (hkey _) hfind'
    rw [Text.size_nil, Nat.zero_add]
    exact cutOut_close _ after _
  refine ⟨hcontains, hequals, ?_⟩
  -- the value is looked for too early, or too late
  by_contra hne
  set start := size (keyPattern ++ L.text cols ++ equalsPattern) with hstart
  have hkept : size (keyFront ++ cols ++ equalsPattern) < start ∨
      start + 1 < size (keyFront ++ cols ++ equalsPattern) + (0 + 1) := by
    have hkey : size keyPattern = size keyFront := by decide
    rw [hstart]
    simp only [Text.size_append]
    omega
  refine not_sameScrub_of_cut (fun c hc => ?_) hkept (hsame 0)
  have hone : size (firstPart (L.text (List.replicate (0 + 1) c))) = 1 := by
    rw [text_firstPart, (hletter hc _).1.closed, Text.size_replicate]
    rcases hc with rfl | rfl
    · rfl
    · rfl
  refine scrubDetail_of_key (hnone hc _) (hkey _)
    (find_equals_key hequals (L.text (List.replicate (0 + 1) c) ++ ')' :: keyBack)) ?_
  rw [Text.size_nil, ← Text.size_append, ← hstart, Nat.zero_add start, cutOut_close, hone]

/-- **The two forms of a detail do not tell their values apart** exactly where the values are closed,
and the columns plain: two rows leave the same text where they are the same behind their first
parts, and next to a closed one where the other is closed; all closed values of a key leave the same
where the columns are plain, and then, next to a closed one, only the closed ones do. -/
theorem detail_scrubbed_iff (L : Lowercase) :
    (∀ r₁ r₂, SameScrub L (rowDetail r₁) (rowDetail r₂) ↔ SameRest L r₁ r₂) ∧
    (∀ r₁ r₂, Closed L r₁ → (SameScrub L (rowDetail r₁) (rowDetail r₂) ↔ Closed L r₂)) ∧
    (∀ cols, (∀ v₁ v₂, ClosedValue L v₁ → ClosedValue L v₂ →
      SameScrub L (keyDetail cols v₁) (keyDetail cols v₂)) ↔ PlainColumns L cols) ∧
    ∀ cols v₁ v₂, PlainColumns L cols → ClosedValue L v₁ →
      (SameScrub L (keyDetail cols v₁) (keyDetail cols v₂) ↔ ClosedValue L v₂) := by
  refine ⟨fun r₁ r₂ => sameScrub_row_iff_sameRest, fun r₁ r₂ => sameScrub_row_iff,
    fun cols => ⟨plain_of_sameScrub, fun hcols v₁ v₂ h₁ h₂ => ?_⟩,
    fun cols v₁ v₂ => sameScrub_key_iff⟩
  exact (sameScrub_key_iff hcols h₁).mpr h₂

/-- The tail of a value with a closing parenthesis stays in both forms. -/
theorem closing_parenthesis_leaks :
    ¬ SameScrub Text.simpleLowercase (rowDetail "a".toList) (rowDetail "a) b".toList) ∧
    ¬ SameScrub Text.simpleLowercase (keyDetail "name".toList "a".toList)
      (keyDetail "name".toList "a) b".toList) := by
  constructor
  · rintro ⟨out, ha, hb⟩
    have ha' : scrubDetail Text.simpleLowercase (rowDetail "a".toList) =
        some "Failing row contains (<scrubbed>).".toList := by decide +kernel
    have hb' : scrubDetail Text.simpleLowercase (rowDetail "a) b".toList) =
        some "Failing row contains (<scrubbed>) b).".toList := by decide +kernel
    rw [ha'] at ha
    rw [hb', ← ha] at hb
    exact absurd hb (by decide)
  · rintro ⟨out, ha, hb⟩
    have ha' : scrubDetail Text.simpleLowercase (keyDetail "name".toList "a".toList) =
        some "Key (name)=(<scrubbed>) already exists.".toList := by decide +kernel
    have hb' : scrubDetail Text.simpleLowercase (keyDetail "name".toList "a) b".toList) =
        some "Key (name)=(<scrubbed>) b) already exists.".toList := by decide +kernel
    rw [ha'] at ha
    rw [hb', ← ha] at hb
    exact absurd hb (by decide)

end IronDefer
