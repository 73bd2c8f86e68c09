import IronDefer.Infrastructure.ErrorText

/-!
# Scrubbing the detail of a violation

The detail of a constraint violation names the values of the row. The adapter looks for the places of
the values in the lower-cased detail, up to the next closing parenthesis, and slices the detail
itself at the bytes it has found. A value may contain a closing parenthesis, and its lower case may
be longer or shorter than it is. Then the rest of the value stays in the text, or the slice panics.

## Main definitions

* `Aligned`: the detail has a boundary after as many bytes as the lower case of a front of it has
* `SlicedBehind`: a front of the detail behind which it is sliced
* `SlicesKept`: the detail is aligned at the fronts where it is sliced

## Main results

* `cutOut_isSome_iff`: when a value can be cut out
* `scrub_detail_total_iff`: **the scrub panics exactly where it is not aligned**
-/

namespace IronDefer

open Text (find sliceFrom size Lowercase IsBoundary IsMark)
open scoped Text

variable {L : Lowercase} {detail : List Char}

/-! ## Slices -/

variable (L detail) in
/-- The detail has a boundary after as many bytes as the lower case of the front has. -/
def Aligned (front : List Char) : Prop := IsBoundary detail (size (L.text front))

theorem isMark_close : IsMark ')' := by decide

theorem isMark_open : IsMark '(' := by decide

theorem cutOut_of_find {start : ℕ} {rest inside after : List Char}
    (h : find [')'] rest = some (inside, after)) :
    cutOut detail start rest = (Text.sliceTo detail start).bind fun front =>
      (sliceFrom detail (start + size inside)).map fun suffix =>
        some (front ++ scrubbed ++ suffix) := by
  unfold cutOut
  rw [h]
  cases Text.sliceTo detail start with
  | none => rfl
  | some front =>
    cases hs : sliceFrom detail (start + size inside) with
    | none => simp [hs]
    | some suffix => simp [hs]

theorem cutOut_of_none {start : ℕ} {rest : List Char} (h : find [')'] rest = none) :
    cutOut detail start rest = (Text.sliceTo detail start).map fun _ => none := by
  unfold cutOut
  rw [h]
  cases Text.sliceTo detail start with
  | none => rfl
  | some front => rfl

/-- The next closing parenthesis in the lower-cased text is the one in the text. -/
theorem find_close_text {value y : List Char} (h : ')' ∉ value) :
    find [')'] (L.text (value ++ ')' :: y)) = some (L.text value, L.text y) := by
  rw [L.text_append, L.text_cons, L.image_mark isMark_close]
  exact Text.find_singleton fun hmem => h ((L.mem_text_iff isMark_close).mp hmem)

theorem exists_value {y : List Char} (h : ')' ∈ y) :
    ∃ value rest, y = value ++ ')' :: rest ∧ ')' ∉ value := by
  obtain ⟨⟨value, rest⟩, hfind⟩ : ∃ r, find [')'] y = some r :=
    Option.ne_none_iff_exists'.mp fun hnone => Text.find_singleton_eq_none_iff.mp hnone h
  exact ⟨value, rest, Text.eq_of_find hfind, Text.not_mem_of_find_singleton hfind⟩

/-- **A value can be cut out** where the detail is aligned before it and behind it. -/
theorem cutOut_isSome_iff (x y : List Char) :
    (cutOut detail (size (L.text x)) (L.text y)).isSome ↔ Aligned L detail x ∧
      ∀ value rest, y = value ++ ')' :: rest → ')' ∉ value → Aligned L detail (x ++ value) := by
  by_cases hclose : ')' ∈ y
  · obtain ⟨value, rest, rfl, hvalue⟩ := exists_value hclose
    rw [cutOut_of_find (find_close_text hvalue)]
    have hsize : size (L.text x) + size (L.text value) = size (L.text (x ++ value)) := by
      rw [L.text_append, Text.size_append]
    have hsome : ((Text.sliceTo detail (size (L.text x))).bind fun front =>
        (sliceFrom detail (size (L.text x) + size (L.text value))).map fun suffix =>
          some (front ++ scrubbed ++ suffix)).isSome ↔
        Aligned L detail x ∧ Aligned L detail (x ++ value) := by
      rw [hsize, Aligned, Aligned, ← Text.sliceTo_isSome_iff, ← Text.sliceFrom_isSome_iff]
      cases Text.sliceTo detail (size (L.text x)) with
      | none => simp
      | some front => simp
    rw [hsome]
    refine and_congr_right fun _ => ⟨fun h value' rest' heq hvalue' => ?_, fun h => h _ _ rfl hvalue⟩
    -- the next closing parenthesis is the same
    have hfind := Text.find_singleton (a := rest) hvalue
    rw [heq, Text.find_singleton hvalue'] at hfind
    cases hfind
    exact h
  · have hnone : find [')'] (L.text y) = none :=
      Text.find_singleton_eq_none_iff.mpr fun h => hclose ((L.mem_text_iff isMark_close).mp h)
    rw [cutOut_of_none hnone, Option.isSome_map, Text.sliceTo_isSome_iff]
    refine (and_iff_left ?_).symm
    rintro value rest rfl
    exact absurd (List.mem_append_right _ List.mem_cons_self) hclose

/-- Nothing is cut out where the parenthesis is not closed. -/
theorem cutOut_eq_none_iff (x y : List Char) :
    cutOut detail (size (L.text x)) (L.text y) = some none ↔
      Aligned L detail x ∧ ')' ∉ y := by
  by_cases hclose : ')' ∈ y
  · refine iff_of_false (fun h => ?_) fun h => h.2 hclose
    obtain ⟨value, rest, rfl, hvalue⟩ := exists_value hclose
    rw [cutOut_of_find (find_close_text hvalue)] at h
    obtain ⟨front, -, h⟩ := Option.bind_eq_some_iff.mp h
    obtain ⟨suffix, -, h⟩ := Option.map_eq_some_iff.mp h
    cases h
  · have hnone : find [')'] (L.text y) = none :=
      Text.find_singleton_eq_none_iff.mpr fun h => hclose ((L.mem_text_iff isMark_close).mp h)
    rw [cutOut_of_none hnone, and_iff_left hclose, Aligned, ← Text.sliceTo_isSome_iff]
    cases Text.sliceTo detail (size (L.text x)) with
    | none => simp
    | some front => simp

/-! ## Where the detail is sliced -/

variable (L detail) in
/-- The detail is sliced behind the front `x`, where one of the searches has ended in the lower-cased
detail. -/
inductive SlicedBehind : List Char → List Char → Prop
  /-- Behind the first `contains (`. -/
  | contains {before after x y} :
      find containsPattern (L.text detail) = some (before, after) → detail = x ++ y →
      L.text x = before ++ containsPattern → SlicedBehind x y
  /-- Behind the first `)=(` that follows the first `key (`, where there is no closing parenthesis
  behind the first `contains (`. -/
  | key {before after between rest x y} :
      (∀ before after, find containsPattern (L.text detail) = some (before, after) →
        ')' ∉ after) →
      find keyPattern (L.text detail) = some (before, after) →
      find equalsPattern (keyPattern ++ after) = some (between, rest) → detail = x ++ y →
      L.text x = before ++ (between ++ equalsPattern) → SlicedBehind x y

variable (L detail) in
/-- The detail is aligned where it is sliced: behind each mark, and before the next closing
parenthesis. -/
structure SlicesKept : Prop where
  front : ∀ x y, SlicedBehind L detail x y → Aligned L detail x
  value : ∀ x value y, SlicedBehind L detail x (value ++ ')' :: y) → ')' ∉ value →
    Aligned L detail (x ++ value)

/-- A search for a pattern that ends with an opening parenthesis ends behind a front of the
detail. -/
theorem exists_marked {pre post : List Char} (h : L.text detail = pre ++ '(' :: post) :
    ∃ x y, detail = x ++ y ∧ L.text x = pre ++ ['('] ∧ L.text y = post := by
  obtain ⟨x, y, rfl, rfl, rfl⟩ := L.exists_front isMark_open h
  refine ⟨x ++ ['('], y, by simp, ?_, rfl⟩
  rw [L.text_append, L.text_cons, L.image_mark isMark_open]
  rfl

theorem exists_marked_contains {before after : List Char}
    (h : find containsPattern (L.text detail) = some (before, after)) :
    ∃ x y, detail = x ++ y ∧ L.text x = before ++ containsPattern ∧ L.text y = after := by
  have hpattern : containsPattern = "contains ".toList ++ ['('] := by decide
  have hlower : L.text detail = before ++ "contains ".toList ++ '(' :: after := by
    rw [Text.eq_of_find h, hpattern]
    simp
  obtain ⟨x, y, rfl, hx, rfl⟩ := exists_marked hlower
  exact ⟨x, y, rfl, by rw [hx, hpattern, List.append_assoc], rfl⟩

theorem exists_marked_key {before after between rest : List Char}
    (h : find keyPattern (L.text detail) = some (before, after))
    (h' : find equalsPattern (keyPattern ++ after) = some (between, rest)) :
    ∃ x y, detail = x ++ y ∧ L.text x = before ++ (between ++ equalsPattern) ∧
      L.text y = rest := by
  have hpattern : equalsPattern = ")=".toList ++ ['('] := by decide
  have hlower : L.text detail = before ++ (between ++ ")=".toList) ++ '(' :: rest := by
    rw [Text.eq_of_find h, Text.eq_of_find h', hpattern]
    simp
  obtain ⟨x, y, rfl, hx, rfl⟩ := exists_marked hlower
  exact ⟨x, y, rfl, by rw [hx, hpattern]; simp, rfl⟩

/-- What follows a mark, lower-cased, is what the search has left. -/
theorem text_rest {x y pre post : List Char} (hd : detail = x ++ y)
    (hlower : L.text detail = pre ++ post) (hx : L.text x = pre) : L.text y = post := by
  rw [hd, L.text_append, hx] at hlower
  exact List.append_cancel_left hlower

/-- The part for keys returns exactly where the detail is aligned at its mark. -/
theorem scrubKey_isSome_iff : (scrubKey detail (L.text detail)).isSome ↔
      ∀ before after between rest x y,
        find keyPattern (L.text detail) = some (before, after) →
        find equalsPattern (keyPattern ++ after) = some (between, rest) → detail = x ++ y →
        L.text x = before ++ (between ++ equalsPattern) →
        (cutOut detail (size (L.text x)) (L.text y)).isSome := by
  unfold scrubKey
  cases hfind : find keyPattern (L.text detail) with
  | none => simp
  | some r =>
    obtain ⟨before, after⟩ := r
    dsimp only
    cases hequals : find equalsPattern (keyPattern ++ after) with
    | none =>
      apply iff_of_true rfl
      rintro _ _ between rest x y heq hequals'
      cases heq
      rw [hequals] at hequals'
      cases hequals'
    | some r =>
      obtain ⟨between, rest⟩ := r
      obtain ⟨x, y, hd, hx, hy⟩ := exists_marked_key hfind hequals
      have hcut : cutOut detail (size (L.text x)) (L.text y) =
          cutOut detail (size before + (size between + size equalsPattern)) rest := by
        rw [hx, hy, Text.size_append, Text.size_append]
      dsimp only
      rw [Option.isSome_map, ← hcut]
      refine ⟨fun h => ?_, fun h => h _ _ _ _ x y rfl hequals hd hx⟩
      rintro _ _ _ _ x' y' heq hequals' hd' hx'
      cases heq
      rw [hequals] at hequals'
      cases hequals'
      -- another front with the same lower case is sliced at the same byte
      have hlower : L.text detail = (before ++ (between ++ equalsPattern)) ++ rest := by
        rw [Text.eq_of_find hfind, Text.eq_of_find hequals]
        simp
      rw [hx', text_rest hd' hlower hx', ← hx, ← hy]
      exact h

/-- The detail is aligned where every mark can be cut out behind. -/
theorem slicesKept_iff : SlicesKept L detail ↔
    ∀ x y, SlicedBehind L detail x y → (cutOut detail (size (L.text x)) (L.text y)).isSome := by
  constructor
  · intro h x y hmarked
    refine (cutOut_isSome_iff x y).mpr ⟨h.front x y hmarked, fun value rest hy hvalue => ?_⟩
    exact h.value x value rest (hy ▸ hmarked) hvalue
  · intro h
    exact ⟨fun x y hmarked => ((cutOut_isSome_iff x y).mp (h x y hmarked)).1,
      fun x value y hmarked => ((cutOut_isSome_iff x _).mp (h x _ hmarked)).2 value y rfl⟩

/-- **The scrub of a detail panics exactly where the detail is not aligned with its lower case at one
of the places where it is sliced.** -/
theorem scrub_detail_total_iff (L : Lowercase) (detail : List Char) :
    (scrubDetail L detail).isSome ↔ SlicesKept L detail := by
  rw [slicesKept_iff]
  -- the part for keys decides where nothing is cut out behind `contains (`
  have hkey : (∀ before after, find containsPattern (L.text detail) = some (before, after) →
      ')' ∉ after) → ((scrubKey detail (L.text detail)).isSome ↔ ∀ before after between rest x y,
        find keyPattern (L.text detail) = some (before, after) →
        find equalsPattern (keyPattern ++ after) = some (between, rest) → detail = x ++ y →
        L.text x = before ++ (between ++ equalsPattern) →
        (cutOut detail (size (L.text x)) (L.text y)).isSome) := fun _ => scrubKey_isSome_iff
  unfold scrubDetail
  dsimp only
  cases hfind : find containsPattern (L.text detail) with
  | none =>
    have hnone : ∀ before after,
        find containsPattern (L.text detail) = some (before, after) → ')' ∉ after := by
      intro before after h
      rw [hfind] at h
      cases h
    dsimp only
    rw [hkey hnone]
    constructor
    · rintro h x y (⟨hcontains, -, -⟩ | ⟨-, hbefore, hbetween, hd, hx⟩)
      · rw [hfind] at hcontains
        cases hcontains
      · exact h _ _ _ _ x y hbefore hbetween hd hx
    · exact fun h _ _ _ _ x y hbefore hbetween hd hx => h x y (.key hnone hbefore hbetween hd hx)
  | some r =>
    obtain ⟨before, after⟩ := r
    obtain ⟨x, y, hd, hx, hy⟩ := exists_marked_contains hfind
    have hmarked : SlicedBehind L detail x y := .contains hfind hd hx
    have hstart : size before + size containsPattern = size (L.text x) := by
      rw [hx, Text.size_append]
    have hclose : ')' ∈ after ↔ ')' ∈ y := by
      rw [← hy]
      exact L.mem_text_iff isMark_close
    dsimp only
    rw [hstart, ← hy]
    -- another front with the same lower case is sliced at the same byte
    have hsame : ∀ {x' y'}, detail = x' ++ y' → L.text x' = before ++ containsPattern →
        cutOut detail (size (L.text x')) (L.text y') = cutOut detail (size (L.text x)) (L.text y) := by
      intro x' y' hd' hx'
      have hlower : L.text detail = (before ++ containsPattern) ++ after := by
        rw [Text.eq_of_find hfind, List.append_assoc]
      rw [hx', text_rest hd' hlower hx', ← hx, ← hy]
    cases hcut : cutOut detail (size (L.text x)) (L.text y) with
    | none =>
      apply iff_of_false (fun h => nomatch h)
      intro h
      have hsome := h x y hmarked
      rw [hcut] at hsome
      cases hsome
    | some out =>
      have hsome : (cutOut detail (size (L.text x)) (L.text y)).isSome := by rw [hcut]; rfl
      have haligned := ((cutOut_isSome_iff x y).mp hsome).1
      cases out with
      | some out =>
        apply iff_of_true rfl
        rintro x' y' (⟨hcontains, hd', hx'⟩ | ⟨hnone, -, -, -, -⟩)
        · rw [hfind] at hcontains
          cases hcontains
          rw [hsame hd' hx', hcut]
          rfl
        · have hmem : ')' ∈ y := by
            by_contra hnot
            have heq := (cutOut_eq_none_iff x y).mpr ⟨haligned, hnot⟩
            rw [hcut] at heq
            cases heq
          exact absurd (hclose.mpr hmem) (hnone _ _ hfind)
      | none =>
        have hnot := ((cutOut_eq_none_iff x y).mp hcut).2
        have hnone : ∀ before after,
            find containsPattern (L.text detail) = some (before, after) → ')' ∉ after := by
          intro before' after' h
          rw [hfind] at h
          cases h
          exact fun hmem => hnot (hclose.mp hmem)
        dsimp only
        rw [hkey hnone]
        constructor
        · rintro h x' y' (⟨hcontains, hd', hx'⟩ | ⟨-, hbefore, hbetween, hd', hx'⟩)
          · rw [hfind] at hcontains
            cases hcontains
            rw [hsame hd' hx', hcut]
            rfl
          · exact h _ _ _ _ x' y' hbefore hbetween hd' hx'
        · exact fun h _ _ _ _ x' y' hbefore hbetween hd' hx' =>
            h x' y' (.key hnone hbefore hbetween hd' hx')

/-- Where every character keeps its number of bytes, as those of ASCII do, the detail is aligned. -/
theorem slicesKept_of_size (h : ∀ c ∈ detail, size (L.image c) = c.utf8Size) :
    SlicesKept L detail := by
  have hall : ∀ x y, detail = x ++ y → Aligned L detail x := by
    rintro x y rfl
    refine ⟨x, y, rfl, (L.size_text fun c hc => h c (List.mem_append_left _ hc)).symm⟩
  have hsplit : ∀ x y, SlicedBehind L detail x y → detail = x ++ y := by
    rintro x y (⟨-, hd, -⟩ | ⟨-, -, -, hd, -⟩)
    · exact hd
    · exact hd
  refine ⟨fun x y hm => hall x y (hsplit x y hm), fun x value y hm _ => ?_⟩
  exact hall (x ++ value) (')' :: y) (by rw [hsplit _ _ hm, List.append_assoc])

/-- A violated key whose value is the sign of the Kelvin, three bytes with a lower case of one: the
value is sliced behind its first byte. -/
theorem kelvin_detail_panics : scrubDetail Text.simpleLowercase
    ("Key (unit)=(".toList ++ '\u212A' :: ") already exists.".toList) = none := by
  decide +kernel

end IronDefer
