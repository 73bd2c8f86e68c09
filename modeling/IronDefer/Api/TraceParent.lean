import IronDefer.Text.Search
import Mathlib.Data.Option.Basic

/-!
# The trace of a request

A request may name the trace it belongs to, in its header `traceparent`: a version, the id of the
trace, the id of a span and flags, in hexadecimal digits. The handler takes the id of the trace from
it. The standard knows lower-case digits only, and no ids of zeros, which the handler takes as well.

## Main definitions

* `HeaderText`: how the library reads the text of a header
* `extractTraceId`: the id of the trace that a header names
* `Traceparent`: the header values of the standard's version `00`
* `LooseTraceparent`: values of its shape that the standard does not allow

## Main results

* `extractTraceId_eq_some_iff`: the values that the handler takes
* `trace_id_strict_iff`: **the handler takes what the standard allows where a value is not loose**
-/

namespace IronDefer

open Text (size)
open scoped Text

/-! ## Header values -/

/-- The character of a byte. -/
def byteChar (b : UInt8) : Char := .ofUInt8 b

/-- How the library reads the text of a header value: not at all, or as the characters of its bytes;
visible characters of ASCII are always read. -/
structure HeaderText where
  toStr : List UInt8 → Option (List Char)
  eq_map : ∀ value text, toStr value = some text → text = value.map byteChar
  visible : ∀ value, (∀ b ∈ value, 0x20 ≤ b.toNat ∧ b.toNat < 0x7F) → (toStr value).isSome

/-- The library, as it is documented: visible characters, the space and the tabulator. -/
def visibleAscii : HeaderText where
  toStr value :=
    if value.all fun b => 0x20 ≤ b.toNat && b.toNat < 0x7F || b.toNat = 9 then
      some (value.map byteChar)
    else none
  eq_map value text h := by
    split at h
    · exact (Option.some.inj h).symm
    · cases h
  visible value h := by
    have hall : (value.all fun b => 0x20 ≤ b.toNat && b.toNat < 0x7F || b.toNat = 9) = true := by
      apply List.all_eq_true.mpr
      intro b hb
      simp [h b hb]
    rw [if_pos hall]
    rfl

/-- `char::is_ascii_hexdigit`. -/
def isAsciiHexdigit (c : Char) : Bool :=
  ('0' ≤ c && c ≤ '9') || ('a' ≤ c && c ≤ 'f') || ('A' ≤ c && c ≤ 'F')

/-- The check of a field: so many bytes, all of them hexadecimal digits. -/
def hexField (n : ℕ) (field : List Char) : Option (List Char) :=
  if size field ≠ n || !field.all isAsciiHexdigit then none else some field

/-- `parts.next()?`. -/
def nextPart : List (List Char) → Option (List Char × List (List Char))
  | [] => none
  | part :: parts => some (part, parts)

/-- `extract_trace_id`, of the header `traceparent`, if there is one. -/
def extractTraceId (T : HeaderText) (traceparent : Option (List UInt8)) : Option (List Char) := do
  let value ← T.toStr (← traceparent)
  let (version, parts) ← nextPart (value.splitOn '-')
  guard (version = "00".toList)
  let (traceId, parts) ← nextPart parts
  let traceId ← hexField 32 traceId
  let (spanId, parts) ← nextPart parts
  let _ ← hexField 16 spanId
  let (flags, parts) ← nextPart parts
  let _ ← hexField 2 flags
  guard (nextPart parts).isNone
  return traceId

/-! ## The standard -/

def isLowerHexdigit (c : Char) : Bool := ('0' ≤ c && c ≤ '9') || ('a' ≤ c && c ≤ 'f')

/-- The value has the four fields, of hexadecimal digits. -/
structure Shaped (value traceId spanId flags : List Char) : Prop where
  eq : value = "00".toList ++ '-' :: (traceId ++ '-' :: (spanId ++ '-' :: flags))
  length_traceId : traceId.length = 32
  length_spanId : spanId.length = 16
  length_flags : flags.length = 2
  hexdigits : ∀ c ∈ traceId ++ (spanId ++ flags), isAsciiHexdigit c = true

/-- A value of the standard's version `00`. -/
structure Traceparent (value traceId spanId flags : List Char) : Prop
    extends Shaped value traceId spanId flags where
  lower : ∀ c ∈ traceId ++ (spanId ++ flags), isLowerHexdigit c = true
  traceId_ne : traceId ≠ List.replicate 32 '0'
  spanId_ne : spanId ≠ List.replicate 16 '0'

/-- A value that has the shape, with an upper-case digit or with an id of zeros. -/
def LooseTraceparent (value : List Char) : Prop :=
  ∃ traceId spanId flags, Shaped value traceId spanId flags ∧
    ((∃ c ∈ traceId ++ (spanId ++ flags), isLowerHexdigit c = false) ∨
      traceId = List.replicate 32 '0' ∨ spanId = List.replicate 16 '0')

/-! ## What the handler takes -/

section Parts

variable {n : ℕ} {field value t : List Char}

theorem size_of_ascii {s : List Char} (h : ∀ c ∈ s, c.utf8Size = 1) : size s = s.length := by
  induction s with
  | nil => rfl
  | cons c cs ih =>
    rw [Text.size_cons, h c List.mem_cons_self, ih fun d hd => h d (List.mem_cons_of_mem c hd),
      List.length_cons, Nat.add_comm]

theorem toNat_hexdigit {c : Char} (h : isAsciiHexdigit c = true) :
    0x30 ≤ c.toNat ∧ c.toNat ≤ 0x66 := by
  have hrange : ∀ {lo hi : Char}, (lo ≤ c && c ≤ hi) = true →
      lo.toNat ≤ c.toNat ∧ c.toNat ≤ hi.toNat := by
    intro lo hi h
    obtain ⟨hlo, hhi⟩ := Bool.and_eq_true_iff.mp h
    exact ⟨of_decide_eq_true hlo, of_decide_eq_true hhi⟩
  have h0 : '0'.toNat = 0x30 ∧ '9'.toNat = 0x39 := by decide
  have ha : 'a'.toNat = 0x61 ∧ 'f'.toNat = 0x66 := by decide
  have hA : 'A'.toNat = 0x41 ∧ 'F'.toNat = 0x46 := by decide
  rcases Bool.or_eq_true_iff.mp h with h | h
  · rcases Bool.or_eq_true_iff.mp h with h | h
    · have hc := hrange h
      omega
    · have hc := hrange h
      omega
  · have hc := hrange h
    omega

theorem utf8Size_hexdigit {c : Char} (h : isAsciiHexdigit c = true) : c.utf8Size = 1 := by
  have hle := (toNat_hexdigit h).2
  have hval : c.val ≤ 0x7F := by
    rw [UInt32.le_iff_toNat_le]
    exact Nat.le_trans hle (by decide)
  exact if_pos hval

theorem hexField_eq_some_iff : hexField n field = some t ↔
    t = field ∧ field.length = n ∧ ∀ c ∈ field, isAsciiHexdigit c = true := by
  unfold hexField
  by_cases hall : ∀ c ∈ field, isAsciiHexdigit c = true
  · have hsize := size_of_ascii fun c hc => utf8Size_hexdigit (hall c hc)
    have hall' : field.all isAsciiHexdigit = true := List.all_eq_true.mpr hall
    rw [hsize, hall']
    by_cases hn : field.length = n
    · rw [if_neg (by simp [hn])]
      exact ⟨fun h => ⟨(Option.some.inj h).symm, hn, hall⟩, fun h => by rw [h.1]⟩
    · rw [if_pos (by simp [hn])]
      exact iff_of_false (fun h => nomatch h) fun h => hn h.2.1
  · have hall' : field.all isAsciiHexdigit = false :=
      Bool.eq_false_iff.mpr fun h => hall (List.all_eq_true.mp h)
    rw [hall', if_pos (by simp)]
    exact iff_of_false (fun h => nomatch h) fun h => hall h.2.2

theorem nextPart_eq_some_iff {parts rest : List (List Char)} {part : List Char} :
    nextPart parts = some (part, rest) ↔ parts = part :: rest := by
  cases parts with
  | nil => simp [nextPart]
  | cons part' parts => simp [nextPart]

/-- A digit does not end a field. -/
theorem not_mem_hexdigits (h : ∀ c ∈ field, isAsciiHexdigit c = true) : '-' ∉ field := by
  intro hmem
  exact absurd (h '-' hmem) (by decide)

/-- A text of four fields is split into them. -/
theorem splitOn_fields {version traceId spanId flags : List Char} (hversion : '-' ∉ version)
    (htraceId : '-' ∉ traceId) (hspanId : '-' ∉ spanId) (hflags : '-' ∉ flags) :
    (version ++ '-' :: (traceId ++ '-' :: (spanId ++ '-' :: flags))).splitOn '-' =
      [version, traceId, spanId, flags] := by
  rw [List.splitOn_append_cons_self_of_not_mem hversion,
    List.splitOn_append_cons_self_of_not_mem htraceId,
    List.splitOn_append_cons_self_of_not_mem hspanId, List.splitOn_eq_singleton hflags]

theorem toNat_byteChar (b : UInt8) : (byteChar b).toNat = b.toNat := UInt8.toNat_toUInt32 b

/-- The characters of a value of the shape are visible. -/
theorem visible_of_shaped {bytes : List UInt8} {traceId spanId flags : List Char}
    (h : Shaped (bytes.map byteChar) traceId spanId flags) :
    ∀ b ∈ bytes, 0x20 ≤ b.toNat ∧ b.toNat < 0x7F := by
  intro b hb
  rw [← toNat_byteChar]
  have hmem : byteChar b ∈ bytes.map byteChar := List.mem_map_of_mem hb
  have hdigit : ∀ c ∈ traceId ++ (spanId ++ flags), 0x20 ≤ c.toNat ∧ c.toNat < 0x7F := by
    intro c hc
    have hrange := toNat_hexdigit (h.hexdigits c hc)
    omega
  have hmark : 0x20 ≤ '-'.toNat ∧ '-'.toNat < 0x7F := by decide
  have hversion : ∀ c ∈ "00".toList, 0x20 ≤ c.toNat ∧ c.toNat < 0x7F := by decide
  rw [h.eq] at hmem
  generalize byteChar b = c at hmem
  simp only [List.mem_append, List.mem_cons] at hmem hdigit
  rcases hmem with hc | rfl | hc | rfl | hc | rfl | hc
  · exact hversion c hc
  · exact hmark
  · exact hdigit c (.inl hc)
  · exact hmark
  · exact hdigit c (.inr (.inl hc))
  · exact hmark
  · exact hdigit c (.inr (.inr hc))

/-- **The handler takes every value of the shape**, and no other. -/
theorem extractTraceId_eq_some_iff {T : HeaderText} {bytes : List UInt8} :
    extractTraceId T (some bytes) = some t ↔
      ∃ spanId flags, Shaped (bytes.map byteChar) t spanId flags := by
  constructor
  · intro h
    unfold extractTraceId at h
    simp only [Option.bind_eq_bind, Option.bind_eq_some_iff, Option.pure_def,
      hexField_eq_some_iff] at h
    obtain ⟨_, hvalue, text, htext, ⟨version, p₁⟩, h₁, _, hversion, ⟨traceId, p₂⟩, h₂, _,
      ⟨rfl, hlen₁, hhex₁⟩, ⟨spanId, p₃⟩, h₃, _, ⟨-, hlen₂, hhex₂⟩, ⟨flags, p₄⟩, h₄, _,
      ⟨-, hlen₃, hhex₃⟩, _, hnone, heq⟩ := h
    cases hvalue
    cases heq
    have hversion' : version = "00".toList := (Option.guard_eq_some' _).mp hversion
    rw [nextPart_eq_some_iff] at h₁ h₂ h₃ h₄
    -- the parts are four, and they are the text
    have hp₄ : p₄ = [] := by
      cases p₄ with
      | nil => rfl
      | cons part parts => exact absurd ((Option.guard_eq_some' _).mp hnone) Bool.false_ne_true
    have hsplit : List.intercalate ['-'] (text.splitOn '-') = text := List.intercalate_splitOn '-'
    dsimp only at h₂ h₃ h₄ hp₄
    rw [h₁, h₂, h₃, h₄, hp₄] at hsplit
    refine ⟨spanId, flags, ?_, hlen₁, hlen₂, hlen₃, ?_⟩
    · rw [← T.eq_map _ _ htext, ← hsplit, hversion']
      simp [List.intercalate]
    · intro c hc
      rcases List.mem_append.mp hc with hc | hc
      · exact hhex₁ c hc
      · rcases List.mem_append.mp hc with hc | hc
        · exact hhex₂ c hc
        · exact hhex₃ c hc
  · rintro ⟨spanId, flags, hshape⟩
    obtain ⟨text, htext⟩ := Option.isSome_iff_exists.mp (T.visible bytes (visible_of_shaped hshape))
    have hhex₁ : ∀ c ∈ t, isAsciiHexdigit c = true := fun c hc =>
      hshape.hexdigits c (List.mem_append_left _ hc)
    have hhex₂ : ∀ c ∈ spanId, isAsciiHexdigit c = true := fun c hc =>
      hshape.hexdigits c (List.mem_append_right _ (List.mem_append_left _ hc))
    have hhex₃ : ∀ c ∈ flags, isAsciiHexdigit c = true := fun c hc =>
      hshape.hexdigits c (List.mem_append_right _ (List.mem_append_right _ hc))
    have hsplit : text.splitOn '-' = ["00".toList, t, spanId, flags] := by
      rw [T.eq_map _ _ htext, hshape.eq]
      exact splitOn_fields (by decide) (not_mem_hexdigits hhex₁) (not_mem_hexdigits hhex₂)
        (not_mem_hexdigits hhex₃)
    have h₁ := hexField_eq_some_iff.mpr ⟨rfl, hshape.length_traceId, hhex₁⟩
    have h₂ := hexField_eq_some_iff.mpr ⟨rfl, hshape.length_spanId, hhex₂⟩
    have h₃ := hexField_eq_some_iff.mpr ⟨rfl, hshape.length_flags, hhex₃⟩
    unfold extractTraceId
    simp only [Option.bind_eq_bind, Option.bind_some, Option.pure_def, htext, hsplit, nextPart, h₁,
      h₂, h₃]
    rfl

/-- The fields of a value are its own. -/
theorem Shaped.unique {traceId spanId flags traceId' spanId' flags' : List Char}
    (h : Shaped value traceId spanId flags) (h' : Shaped value traceId' spanId' flags') :
    traceId = traceId' ∧ spanId = spanId' ∧ flags = flags' := by
  have hfields := (List.cons.inj (List.append_cancel_left (h.eq.symm.trans h'.eq))).2
  obtain ⟨htraceId, hrest⟩ := List.append_inj hfields
    (h.length_traceId.trans h'.length_traceId.symm)
  obtain ⟨hspanId, hflags⟩ := List.append_inj (List.cons.inj hrest).2
    (h.length_spanId.trans h'.length_spanId.symm)
  exact ⟨htraceId, hspanId, (List.cons.inj hflags).2⟩

end Parts

/-- **The handler takes exactly what the standard allows** from a value that is not loose: from one
that is no `traceparent` nothing, and from one that is, its trace. From a loose value it takes a
trace that the standard does not allow. -/
theorem trace_id_strict_iff (T : HeaderText) (bytes : List UInt8) :
    (∀ t, extractTraceId T (some bytes) = some t ↔
      ∃ spanId flags, Traceparent (bytes.map byteChar) t spanId flags) ↔
    ¬ LooseTraceparent (bytes.map byteChar) := by
  constructor
  · rintro h ⟨traceId, spanId, flags, hshape, hloose⟩
    obtain ⟨spanId', flags', hstrict⟩ :=
      (h traceId).mp (extractTraceId_eq_some_iff.mpr ⟨spanId, flags, hshape⟩)
    -- a value has one shape, so the fields that are loose are the ones that were read
    obtain ⟨-, rfl, rfl⟩ := hshape.unique hstrict.toShaped
    rcases hloose with ⟨c, hc, hupper⟩ | hzero | hzero
    · have hlower := hstrict.lower c hc
      rw [hupper] at hlower
      cases hlower
    · exact hstrict.traceId_ne hzero
    · exact hstrict.spanId_ne hzero
  · intro h t
    rw [extractTraceId_eq_some_iff]
    refine exists_congr fun spanId => exists_congr fun flags => ⟨fun hshape => ?_, fun hstrict =>
      hstrict.toShaped⟩
    refine ⟨hshape, fun c hc => ?_, fun hzero => ?_, fun hzero => ?_⟩
    · by_contra hupper
      exact h ⟨t, spanId, flags, hshape, .inl ⟨c, hc, Bool.eq_false_iff.mpr hupper⟩⟩
    · exact h ⟨t, spanId, flags, hshape, .inr (.inl hzero)⟩
    · exact h ⟨t, spanId, flags, hshape, .inr (.inr hzero)⟩

/-- The bytes of a text of ASCII. -/
def asciiBytes (text : String) : List UInt8 := text.toList.map fun c => .ofNat c.toNat

/-- A value with ids of zeros, and one with upper-case digits, which are taken. -/
theorem loose_trace_taken :
    ¬ (∀ t, extractTraceId visibleAscii
        (some (asciiBytes "00-00000000000000000000000000000000-0000000000000000-01")) = some t ↔
      ∃ spanId flags, Traceparent
        ((asciiBytes "00-00000000000000000000000000000000-0000000000000000-01").map byteChar)
        t spanId flags) ∧
    ¬ (∀ t, extractTraceId visibleAscii
        (some (asciiBytes "00-4BF92F3577B34DA6A3CE929D0E0E4736-00F067AA0BA902B7-01")) = some t ↔
      ∃ spanId flags, Traceparent
        ((asciiBytes "00-4BF92F3577B34DA6A3CE929D0E0E4736-00F067AA0BA902B7-01").map byteChar)
        t spanId flags) := by
  constructor
  · intro h
    have htaken : extractTraceId visibleAscii
        (some (asciiBytes "00-00000000000000000000000000000000-0000000000000000-01")) =
        some "00000000000000000000000000000000".toList := by decide +kernel
    obtain ⟨spanId, flags, hstrict⟩ := (h _).mp htaken
    exact hstrict.traceId_ne (by decide)
  · intro h
    have htaken : extractTraceId visibleAscii
        (some (asciiBytes "00-4BF92F3577B34DA6A3CE929D0E0E4736-00F067AA0BA902B7-01")) =
        some "4BF92F3577B34DA6A3CE929D0E0E4736".toList := by decide +kernel
    obtain ⟨spanId, flags, hstrict⟩ := (h _).mp htaken
    have hlower := hstrict.lower 'B' (List.mem_append_left _ (by decide))
    exact absurd hlower (by decide)

end IronDefer
