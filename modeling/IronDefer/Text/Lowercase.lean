import IronDefer.Text.Search

/-!
# Lower-casing

The lower case of a text is made character by character. An ASCII character has one ASCII character
as its lower case. Another character may have several, which may take more bytes or fewer than it
does; where one of them is ASCII, it is a letter. So the marks of ASCII, which are not letters, stand
in the lower-cased text exactly where they stand in the text.

## Main definitions

* `Lowercase`: the lower case of each character
* `Lowercase.text`: the lower case of a text
* `simpleLowercase`: a lower case that knows ASCII and three letters beyond it

## Main results

* `Lowercase.mem_image_iff`: a mark is the lower case of itself only
* `Lowercase.exists_front`: **a mark in the lower-cased text is one of the text**
-/

namespace Text

/-- The lower case of each character. The final form of a sigma is as long as its other form, and is
not told from it. -/
structure Lowercase where
  image : Char → List Char
  ascii : ∀ c, c.toNat < 128 → image c = [c.toLower]
  letters : ∀ c, 128 ≤ c.toNat → ∀ x ∈ image c, x.toNat < 128 → x.isLower = true

/-- An ASCII character that is no letter. -/
def IsMark (p : Char) : Prop := p.toNat < 128 ∧ p.isAlpha = false

instance (p : Char) : Decidable (IsMark p) := inferInstanceAs (Decidable (_ ∧ _))

/-- The range of the letters, and of what they become. -/
theorem toLower_of_not_upper {c : Char} (h : ¬ (65 ≤ c.toNat ∧ c.toNat ≤ 90)) : c.toLower = c := by
  unfold Char.toLower
  exact dif_neg h

theorem toNat_toLower_of_upper {c : Char} (h : 65 ≤ c.toNat ∧ c.toNat ≤ 90) :
    c.toLower.toNat = c.toNat + 32 := by
  have hval : c.toLower.val = c.val + 32 := by
    have hupper : c.val ≥ 'A'.val ∧ c.val ≤ 'Z'.val := h
    unfold Char.toLower
    rw [dif_pos hupper]
    rfl
  show c.toLower.val.toNat = c.val.toNat + 32
  have hle : c.val.toNat ≤ 90 := h.2
  have h32 : (32 : UInt32).toNat = 32 := rfl
  rw [hval, UInt32.toNat_add, h32]
  exact Nat.mod_eq_of_lt (by omega)

theorem not_letter_of_mark {p : Char} (hp : IsMark p) :
    ¬ (65 ≤ p.toNat ∧ p.toNat ≤ 90) ∧ ¬ (97 ≤ p.toNat ∧ p.toNat ≤ 122) := by
  have halpha := Bool.or_eq_false_iff.mp hp.2
  constructor
  · exact of_decide_eq_false halpha.1
  · rintro ⟨hlow, hhigh⟩
    have hlower : p.isLower = true := Bool.and_eq_true_iff.mpr
      ⟨decide_eq_true hlow, decide_eq_true hhigh⟩
    rw [halpha.2] at hlower
    cases hlower

/-- No letter becomes a mark. -/
theorem toLower_eq_mark_iff {p c : Char} (hp : IsMark p) : c.toLower = p ↔ c = p := by
  obtain ⟨hupper, hlower⟩ := not_letter_of_mark hp
  by_cases hc : 65 ≤ c.toNat ∧ c.toNat ≤ 90
  · have htoNat := toNat_toLower_of_upper hc
    constructor
    · rintro rfl
      omega
    · rintro rfl
      exact absurd hc hupper
  · rw [toLower_of_not_upper hc]

namespace Lowercase

variable (L : Lowercase)

/-- `str::to_lowercase`. -/
def text (s : List Char) : List Char := s.flatMap L.image

@[simp] theorem text_nil : L.text [] = [] := rfl

@[simp] theorem text_cons (c : Char) (s : List Char) : L.text (c :: s) = L.image c ++ L.text s :=
  List.flatMap_cons

@[simp] theorem text_append (s t : List Char) : L.text (s ++ t) = L.text s ++ L.text t :=
  List.flatMap_append

theorem text_of_ascii {s : List Char} (h : ∀ c ∈ s, c.toNat < 128) :
    L.text s = s.map Char.toLower := by
  induction s with
  | nil => rfl
  | cons c cs ih =>
    rw [text_cons, L.ascii c (h c List.mem_cons_self),
      ih fun d hd => h d (List.mem_cons_of_mem c hd)]
    rfl

/-- **A mark is the lower case of itself only.** -/
theorem mem_image_iff {p c : Char} (hp : IsMark p) : p ∈ L.image c ↔ c = p := by
  by_cases hc : c.toNat < 128
  · rw [L.ascii c hc, List.mem_singleton, eq_comm, toLower_eq_mark_iff hp]
  · have hc' : 128 ≤ c.toNat := Nat.le_of_not_lt hc
    refine iff_of_false (fun hmem => ?_) fun heq => ?_
    · have hlower := L.letters c hc' p hmem hp.1
      have halpha : p.isAlpha = true := by
        unfold Char.isAlpha
        rw [hlower, Bool.or_true]
      rw [hp.2] at halpha
      cases halpha
    · have hlt := hp.1
      rw [heq] at hc'
      omega

theorem image_mark {p : Char} (hp : IsMark p) : L.image p = [p] := by
  rw [L.ascii p hp.1, (toLower_eq_mark_iff hp).mpr rfl]

theorem mem_text_iff {p : Char} (hp : IsMark p) {s : List Char} : p ∈ L.text s ↔ p ∈ s := by
  rw [text, List.mem_flatMap]
  constructor
  · rintro ⟨c, hc, hmem⟩
    rwa [← (L.mem_image_iff hp).mp hmem]
  · exact fun h => ⟨p, h, (L.mem_image_iff hp).mpr rfl⟩

/-- **A mark in the lower-cased text is one of the text**, with what stands before it and after
it. -/
theorem exists_front {p : Char} (hp : IsMark p) {s front rest : List Char}
    (h : L.text s = front ++ p :: rest) :
    ∃ x y, s = x ++ p :: y ∧ L.text x = front ∧ L.text y = rest := by
  induction s generalizing front with
  | nil => exact absurd h (by simp)
  | cons c cs ih =>
    rw [text_cons] at h
    -- the mark stands in the image of the first character, or behind it
    rcases List.append_eq_append_iff.mp h with ⟨front', rfl, hrest⟩ | ⟨behind, himage, hrest⟩
    · obtain ⟨x, y, rfl, rfl, rfl⟩ := ih hrest
      exact ⟨c :: x, y, rfl, rfl, rfl⟩
    · cases behind with
      | nil =>
        have hcs : L.text cs = [] ++ p :: rest := hrest.symm
        obtain ⟨x, y, rfl, hx, rfl⟩ := ih hcs
        refine ⟨c :: x, y, rfl, ?_, rfl⟩
        rw [text_cons, hx, himage, List.append_nil, List.append_nil]
      | cons q behind =>
        obtain ⟨rfl, hbehind⟩ := List.cons.inj hrest
        have hmem : p ∈ L.image c := by
          rw [himage]
          exact List.mem_append_right _ List.mem_cons_self
        obtain rfl := (L.mem_image_iff hp).mp hmem
        rw [L.image_mark hp] at himage
        have hfront : front = [] ∧ behind = [] := by
          cases front with
          | nil => exact ⟨rfl, (List.cons.inj himage).2.symm⟩
          | cons d ds => exact absurd (List.cons.inj himage).2.symm (by simp)
        obtain ⟨rfl, rfl⟩ := hfront
        exact ⟨[], cs, rfl, rfl, hbehind.symm⟩

/-- Where every character keeps its number of bytes, the text does. -/
theorem size_text {s : List Char} (h : ∀ c ∈ s, size (L.image c) = c.utf8Size) :
    size (L.text s) = size s := by
  induction s with
  | nil => rfl
  | cons c cs ih =>
    rw [text_cons, size_append, h c List.mem_cons_self,
      ih fun d hd => h d (List.mem_cons_of_mem c hd), size_cons]

end Lowercase

/-- The lower case of ASCII, of the dotted I, of the sign of the Kelvin and of the capital sharp s;
other letters beyond ASCII are left as they are. -/
def simpleLowercase : Lowercase where
  image c :=
    if c = '\u0130' then ['i', '\u0307']
    else if c = '\u212A' then ['k']
    else if c = '\u1E9E' then ['\u00DF']
    else [c.toLower]
  ascii c hc := by
    have hne : ∀ d : Char, 128 ≤ d.toNat → c ≠ d := by
      rintro d hd rfl
      omega
    rw [if_neg (hne _ (by decide)), if_neg (hne _ (by decide)), if_neg (hne _ (by decide))]
  letters c hc x hx hlt := by
    split at hx
    · rcases List.mem_pair.mp hx with rfl | rfl
      · rfl
      · exact absurd hlt (by decide)
    · split at hx
      · rw [List.mem_singleton.mp hx]
        rfl
      · split at hx
        · rw [List.mem_singleton.mp hx] at hlt
          exact absurd hlt (by decide)
        · have hupper : ¬ (65 ≤ c.toNat ∧ c.toNat ≤ 90) := by omega
          rw [List.mem_singleton.mp hx, toLower_of_not_upper hupper] at hlt
          omega

end Text
