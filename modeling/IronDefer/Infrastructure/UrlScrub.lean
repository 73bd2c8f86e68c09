import IronDefer.Infrastructure.ErrorText
import Mathlib.Data.List.TakeWhile

/-!
# Scrubbing connection urls

A url starts with one of two schemes and goes up to the next white space, so that it may have other
urls in it. What stands between the first colon behind its scheme and its last `@` is replaced. A
password is followed by an `@` and stands behind a colon, in whichever url of the text it is.

## Main definitions

* `StartsScheme`: a text that starts with a scheme
* `scrubUserinfo`: what `scrub_url` makes of a url behind its scheme

## Main results

* `findPgScheme_eq_some_iff`: the scan finds the first scheme
* `startsScheme_of_append`: a scheme does not begin before another one and end in it
* `scrubUserinfo_password`, `scrubMessage_password`: the text without a password does not depend on it
* `scrubMessage_scrubMessage`: a scrubbed text is left as it is
* `scrubMessage_databaseScrubbed`: so is the message the adapter makes of a database error
* `passwords_scrubbed`: **no password stays in a text**
-/

namespace IronDefer

open Text (find size)
open scoped Text

/-! ## The first scheme -/

/-- The text starts with one of the schemes. -/
def StartsScheme (url : List Char) : Prop :=
  ∃ rest, url = postgresScheme ++ rest ∨ url = postgresqlScheme ++ rest

section Schemes

variable {s before url b u v pre : List Char}

/-- No scheme starts before the one that is found. -/
theorem length_le_of_findPgScheme (h : findPgScheme s = some (before, url)) (hs : s = b ++ u)
    (hu : StartsScheme u) : before.length ≤ b.length := by
  -- fronts of the text are as long as they have bytes
  have hlength : ∀ {x x' y y' : List Char}, s = x ++ y → s = x' ++ y' → size x ≤ size x' →
      x.length ≤ x'.length := fun hx hx' hle =>
    (Text.prefix_of_size_le ⟨_, hx.symm⟩ ⟨_, hx'.symm⟩ hle).length_le
  obtain ⟨rest, rfl | rfl⟩ := hu
  · unfold findPgScheme at h
    split at h
    next ha hb =>
      split at h
      · cases h
        exact Text.length_le_of_find ha hs
      next hlt =>
        cases h
        exact Nat.le_trans (hlength (Text.eq_of_find hb) (Text.eq_of_find ha)
          (Nat.le_of_not_le hlt)) (Text.length_le_of_find ha hs)
    next ha _ =>
      cases h
      exact Text.length_le_of_find ha hs
    next ha _ =>
      have hsome := Text.find_isSome hs
      rw [ha] at hsome
      cases hsome
    next => cases h
  · unfold findPgScheme at h
    split at h
    next ha hb =>
      split at h
      next hle =>
        cases h
        exact Nat.le_trans (hlength (Text.eq_of_find ha) (Text.eq_of_find hb) hle)
          (Text.length_le_of_find hb hs)
      · cases h
        exact Text.length_le_of_find hb hs
    next _ hb =>
      have hsome := Text.find_isSome hs
      rw [hb] at hsome
      cases hsome
    next _ hb =>
      cases h
      exact Text.length_le_of_find hb hs
    next => cases h

theorem find_eq_none_of_findPgScheme (h : findPgScheme s = none) :
    find postgresScheme s = none ∧ find postgresqlScheme s = none := by
  unfold findPgScheme at h
  split at h
  · split at h
    · cases h
    · cases h
  · cases h
  · cases h
  next hpostgres hpostgresql => exact ⟨hpostgres, hpostgresql⟩

theorem findPgScheme_eq_none_iff :
    findPgScheme s = none ↔ ∀ b u, s = b ++ u → ¬ StartsScheme u := by
  constructor
  · rintro h b u rfl ⟨rest, rfl | rfl⟩
    · have hsome : (find postgresScheme (b ++ (postgresScheme ++ rest))).isSome :=
        Text.find_isSome rfl
      rw [(find_eq_none_of_findPgScheme h).1] at hsome
      cases hsome
    · have hsome : (find postgresqlScheme (b ++ (postgresqlScheme ++ rest))).isSome :=
        Text.find_isSome rfl
      rw [(find_eq_none_of_findPgScheme h).2] at hsome
      cases hsome
  · intro h
    cases hfind : findPgScheme s with
    | none => rfl
    | some r => exact absurd (exists_scheme_of_findPgScheme hfind) (h _ _ (findPgScheme_eq hfind))

/-- **The scan finds the first scheme.** -/
theorem findPgScheme_eq_some_iff : findPgScheme s = some (before, url) ↔
    s = before ++ url ∧ StartsScheme url ∧
      ∀ b u, s = b ++ u → StartsScheme u → before.length ≤ b.length := by
  constructor
  · exact fun h => ⟨findPgScheme_eq h, exists_scheme_of_findPgScheme h,
      fun _ _ => length_le_of_findPgScheme h⟩
  · rintro ⟨hs, hurl, hfirst⟩
    cases hfind : findPgScheme s with
    | none => exact absurd hurl (findPgScheme_eq_none_iff.mp hfind _ _ hs)
    | some r =>
      obtain ⟨before', url'⟩ := r
      have hs' := findPgScheme_eq hfind
      have hlen : before'.length = before.length :=
        Nat.le_antisymm (length_le_of_findPgScheme hfind hs hurl)
          (hfirst _ _ hs' (exists_scheme_of_findPgScheme hfind))
      obtain ⟨rfl, rfl⟩ := List.append_inj (hs'.symm.trans hs) hlen
      rfl

theorem StartsScheme.ne_nil (h : StartsScheme u) : u ≠ [] := by
  obtain ⟨rest, rfl | rfl⟩ := h
  · exact List.cons_ne_nil 'p' _
  · exact List.cons_ne_nil 'p' _

theorem StartsScheme.append (h : StartsScheme u) (w : List Char) : StartsScheme (u ++ w) := by
  obtain ⟨rest, rfl | rfl⟩ := h
  · exact ⟨rest ++ w, .inl (List.append_assoc _ _ _)⟩
  · exact ⟨rest ++ w, .inr (List.append_assoc _ _ _)⟩

/-- **A scheme that begins before another one ends before it.** -/
theorem startsScheme_of_append (hv : v ≠ []) (hu : StartsScheme u) (h : StartsScheme (v ++ u)) :
    StartsScheme v := by
  obtain ⟨c, u', rfl, hc⟩ : ∃ c u', u = c :: u' ∧ c = 'p' := by
    obtain ⟨rest, rfl | rfl⟩ := hu
    · exact ⟨_, _, rfl, rfl⟩
    · exact ⟨_, _, rfl, rfl⟩
  subst hc
  -- the first character of a scheme is nowhere else in it
  have hover : ∀ tail rest : List Char, 'p' ∉ tail → v ++ 'p' :: u' = ('p' :: tail) ++ rest →
      ∃ rest', v = ('p' :: tail) ++ rest' := by
    intro tail rest htail heq
    rcases List.append_eq_append_iff.mp heq with ⟨w, hw, hrest⟩ | ⟨w, hw, -⟩
    · cases w with
      | nil => exact ⟨[], by rw [hw]; simp⟩
      | cons d w =>
        obtain ⟨rfl, -⟩ := List.cons.inj hrest
        obtain ⟨e, v, rfl⟩ := List.exists_cons_of_ne_nil hv
        obtain ⟨-, hw⟩ := List.cons.inj hw
        exact absurd (by rw [hw]; simp) htail
    · exact ⟨w, hw⟩
  obtain ⟨rest, h | h⟩ := h
  · obtain ⟨rest', hrest'⟩ := hover "ostgres://".toList _ (by decide) h
    exact ⟨rest', .inl hrest'⟩
  · obtain ⟨rest', hrest'⟩ := hover "ostgresql://".toList _ (by decide) h
    exact ⟨rest', .inr hrest'⟩

/-- Where no scheme is in a front, the one behind it is the first. -/
theorem findPgScheme_append_of_none (h : findPgScheme pre = none) (hu : StartsScheme u) :
    findPgScheme (pre ++ u) = some (pre, u) := by
  rw [findPgScheme_eq_some_iff]
  refine ⟨rfl, hu, fun b w heq hw => ?_⟩
  rcases List.append_eq_append_iff.mp heq with ⟨t, hb, -⟩ | ⟨t, ht, rfl⟩
  · rw [hb, List.length_append]
    exact Nat.le_add_right _ _
  · by_cases hnil : t = []
    · rw [ht, hnil, List.append_nil]
    · exact absurd (startsScheme_of_append hnil hu hw) (findPgScheme_eq_none_iff.mp h _ _ ht)

/-- The first scheme of a front is the first of the text. -/
theorem findPgScheme_append_of_some (h : findPgScheme pre = some (before, url))
    (hu : StartsScheme u) : findPgScheme (pre ++ u) = some (before, url ++ u) := by
  obtain ⟨rfl, hurl, hfirst⟩ := findPgScheme_eq_some_iff.mp h
  rw [findPgScheme_eq_some_iff]
  refine ⟨List.append_assoc _ _ _, hurl.append u, fun b w heq hw => ?_⟩
  rcases List.append_eq_append_iff.mp heq with ⟨t, hb, -⟩ | ⟨t, ht, rfl⟩
  · rw [hb, List.length_append, List.length_append]
    omega
  · by_cases hnil : t = []
    · rw [hnil, List.append_nil] at ht
      rw [← ht, List.length_append]
      exact Nat.le_add_right _ _
    · exact hfirst b t ht (startsScheme_of_append hnil hu hw)

end Schemes

/-! ## A url -/

section Urls

variable {c : Char} {x y s : List Char}

/-- The last place of a character. -/
theorem rfind_append (h : c ∉ y) : rfind c (x ++ c :: y) = some (x, y) := by
  have hfind : find [c] (y.reverse ++ c :: x.reverse) = some (y.reverse, x.reverse) :=
    Text.find_singleton fun hmem => h (List.mem_reverse.mp hmem)
  rw [rfind, List.reverse_append, List.reverse_cons, List.append_assoc, List.singleton_append,
    hfind, Option.map_some, List.reverse_reverse, List.reverse_reverse]

theorem eq_of_rfind (h : rfind c s = some (x, y)) : s = x ++ c :: y ∧ c ∉ y := by
  obtain ⟨⟨b, a⟩, hfind, heq⟩ := Option.map_eq_some_iff.mp h
  cases heq
  have hs := congrArg List.reverse (Text.eq_of_find hfind)
  rw [List.reverse_reverse] at hs
  refine ⟨by rw [hs]; simp, fun hmem => ?_⟩
  exact Text.not_mem_of_find_singleton hfind (List.mem_reverse.mp hmem)

theorem rfind_eq_none (h : rfind c s = none) : c ∉ s := by
  have hnone : find [c] s.reverse = none := Option.map_eq_none_iff.mp h
  exact fun hmem => Text.find_singleton_eq_none_iff.mp hnone (List.mem_reverse.mpr hmem)

/-- What `scrub_url` makes of what stands behind the scheme. -/
def scrubUserinfo (rest : List Char) : List Char :=
  match rfind '@' rest with
  | none => rest
  | some (userinfo, host) =>
    match find [':'] userinfo with
    | none => rest
    | some (user, password) =>
      if password = [] then rest else user ++ (":***".toList ++ '@' :: host)

theorem scrubUrl_of_find {name rest : List Char} (h : find schemeEnd s = some (name, rest)) :
    scrubUrl s = name ++ (schemeEnd ++ scrubUserinfo rest) := by
  have hs := Text.eq_of_find h
  unfold scrubUrl scrubUserinfo
  rw [h]
  dsimp only
  cases rfind '@' rest with
  | none => exact hs
  | some r =>
    obtain ⟨userinfo, host⟩ := r
    dsimp only
    cases find [':'] userinfo with
    | none => exact hs
    | some r =>
      obtain ⟨user, password⟩ := r
      dsimp only
      split
      · exact hs
      · rw [List.takeWhile_append_dropWhile]
        simp only [List.append_assoc]

/-- **The scrub of a url** leaves its scheme. -/
theorem scrubUrl_scheme {scheme : List Char} (h : scheme ∈ [postgresScheme, postgresqlScheme])
    (rest : List Char) : scrubUrl (scheme ++ rest) = scheme ++ scrubUserinfo rest := by
  have hscheme : ∃ name, find schemeEnd scheme = some (name, []) ∧ scheme = name ++ schemeEnd := by
    rcases List.mem_pair.mp h with rfl | rfl
    · exact ⟨"postgres".toList, by decide, by decide⟩
    · exact ⟨"postgresql".toList, by decide, by decide⟩
  obtain ⟨name, hfind, hname⟩ := hscheme
  rw [scrubUrl_of_find (Text.find_append_right hfind rest), List.nil_append, ← List.append_assoc,
    ← hname]

/-- **What is left of a url does not depend on the password** behind a colon and before an `@`,
whatever stands around them. -/
theorem scrubUserinfo_password {pw₁ pw₂ : List Char} (h₁ : pw₁ ≠ []) (h₂ : pw₂ ≠ [])
    (front host : List Char) : scrubUserinfo (front ++ ':' :: (pw₁ ++ '@' :: host)) =
      scrubUserinfo (front ++ ':' :: (pw₂ ++ '@' :: host)) := by
  -- the last `@` is the one behind the password, or it is in what follows
  obtain ⟨tail, last, hlast⟩ : ∃ tail last, ∀ pw : List Char,
      rfind '@' (front ++ ':' :: (pw ++ '@' :: host)) =
        some (front ++ ':' :: (pw ++ tail), last) := by
    cases hrfind : rfind '@' host with
    | none =>
      refine ⟨[], host, fun pw => ?_⟩
      have hsplit : front ++ ':' :: (pw ++ '@' :: host) =
          (front ++ ':' :: (pw ++ [])) ++ '@' :: host := by simp
      rw [hsplit, rfind_append (rfind_eq_none hrfind)]
    | some r =>
      obtain ⟨tail, last⟩ := r
      obtain ⟨rfl, hlast⟩ := eq_of_rfind hrfind
      refine ⟨'@' :: tail, last, fun pw => ?_⟩
      have hsplit : front ++ ':' :: (pw ++ '@' :: (tail ++ '@' :: last)) =
          (front ++ ':' :: (pw ++ '@' :: tail)) ++ '@' :: last := by simp
      rw [hsplit, rfind_append hlast]
  -- the first colon is the one before the password, or it is in the front
  obtain ⟨user, between, hcolon⟩ : ∃ user between, ∀ rest : List Char,
      find [':'] (front ++ ':' :: rest) = some (user, between ++ rest) := by
    obtain ⟨⟨user, between⟩, hfind⟩ : ∃ r, find [':'] (front ++ [':']) = some r :=
      Option.ne_none_iff_exists'.mp fun hnone =>
        Text.find_singleton_eq_none_iff.mp hnone (by simp)
    refine ⟨user, between, fun rest => ?_⟩
    have hsplit : front ++ ':' :: rest = (front ++ [':']) ++ rest := by simp
    rw [hsplit]
    exact Text.find_append_right hfind rest
  have hscrub : ∀ pw : List Char, pw ≠ [] →
      scrubUserinfo (front ++ ':' :: (pw ++ '@' :: host)) =
        user ++ (":***".toList ++ '@' :: last) := by
    intro pw hpw
    have hne : between ++ (pw ++ tail) ≠ [] := by simp [hpw]
    unfold scrubUserinfo
    rw [hlast]
    dsimp only
    rw [hcolon]
    exact if_neg hne
  rw [hscrub pw₁ h₁, hscrub pw₂ h₂]

/-- What is scrubbed is not scrubbed again. -/
theorem scrubUserinfo_scrubUserinfo (rest : List Char) :
    scrubUserinfo (scrubUserinfo rest) = scrubUserinfo rest := by
  -- it is left as it is, or a password is replaced
  have hcases : scrubUserinfo rest = rest ∨ ∃ user host, ':' ∉ user ∧ '@' ∉ host ∧
      scrubUserinfo rest = user ++ (":***".toList ++ '@' :: host) := by
    cases hrfind : rfind '@' rest with
    | none => exact .inl (by rw [scrubUserinfo, hrfind])
    | some r =>
      obtain ⟨userinfo, host⟩ := r
      cases hfind : find [':'] userinfo with
      | none => exact .inl (by rw [scrubUserinfo, hrfind]; dsimp only; rw [hfind])
      | some r =>
        obtain ⟨user, password⟩ := r
        have heq : scrubUserinfo rest =
            if password = [] then rest else user ++ (":***".toList ++ '@' :: host) := by
          rw [scrubUserinfo, hrfind]
          dsimp only
          rw [hfind]
        by_cases hpassword : password = []
        · exact .inl (by rw [heq, if_pos hpassword])
        · exact .inr ⟨user, host, Text.not_mem_of_find_singleton hfind, (eq_of_rfind hrfind).2,
            by rw [heq, if_neg hpassword]⟩
  rcases hcases with heq | ⟨user, host, huser, hhost, heq⟩
  · rw [heq, heq]
  · have hlast : rfind '@' (user ++ (":***".toList ++ '@' :: host)) =
        some (user ++ ':' :: "***".toList, host) := by
      have hsplit : user ++ (":***".toList ++ '@' :: host) =
          (user ++ ':' :: "***".toList) ++ '@' :: host := by simp
      rw [hsplit, rfind_append hhost]
    rw [heq, scrubUserinfo, hlast]
    dsimp only
    rw [Text.find_singleton huser]
    exact if_neg (by decide)

/-- The scrub puts no white space into a url. -/
theorem inUrl_scrubUserinfo {rest : List Char} (h : ∀ c ∈ rest, inUrl c = true) :
    ∀ c ∈ scrubUserinfo rest, inUrl c = true := by
  intro c hc
  unfold scrubUserinfo at hc
  split at hc
  · exact h c hc
  next hrfind =>
    obtain ⟨rfl, -⟩ := eq_of_rfind hrfind
    split at hc
    · exact h c hc
    next hfind =>
      split at hc
      · exact h c hc
      · have huserinfo := Text.eq_of_find hfind
        have hmark : ∀ c ∈ ":***".toList, inUrl c = true := by decide
        rcases List.mem_append.mp hc with hc | hc
        · refine h c (List.mem_append_left _ ?_)
          rw [huserinfo]
          exact List.mem_append_left _ hc
        rcases List.mem_append.mp hc with hc | hc
        · exact hmark c hc
        · exact h c (List.mem_append_right _ hc)

end Urls

/-! ## The scan -/

section Scan

variable {scheme pre post user pw₁ pw₂ : List Char}

theorem startsScheme_scheme (h : scheme ∈ [postgresScheme, postgresqlScheme]) (rest : List Char) :
    StartsScheme (scheme ++ rest) := by
  rcases List.mem_pair.mp h with rfl | rfl
  · exact ⟨rest, .inl rfl⟩
  · exact ⟨rest, .inr rfl⟩

theorem exists_scheme {url : List Char} (h : StartsScheme url) :
    ∃ scheme ∈ [postgresScheme, postgresqlScheme], ∃ rest, url = scheme ++ rest := by
  obtain ⟨rest, rfl | rfl⟩ := h
  · exact ⟨postgresScheme, by simp, rest, rfl⟩
  · exact ⟨postgresqlScheme, by simp, rest, rfl⟩

theorem inUrl_scheme (h : scheme ∈ [postgresScheme, postgresqlScheme]) :
    ∀ c ∈ scheme, inUrl c = true := by
  have hschemes : ∀ s ∈ [postgresScheme, postgresqlScheme], ∀ c ∈ s, inUrl c = true := by decide
  exact hschemes scheme h

/-- A url with a password, up to the `@` behind it. -/
def passwordUrl (scheme user pw : List Char) : List Char :=
  scheme ++ (user ++ ':' :: (pw ++ ['@']))

theorem inUrl_passwordUrl (hscheme : scheme ∈ [postgresScheme, postgresqlScheme])
    (huser : ∀ c ∈ user, inUrl c = true) {pw : List Char} (hpw : ∀ c ∈ pw, inUrl c = true) :
    ∀ c ∈ passwordUrl scheme user pw, inUrl c = true := by
  intro c hc
  rcases List.mem_append.mp hc with hc | hc
  · exact inUrl_scheme hscheme c hc
  rcases List.mem_append.mp hc with hc | hc
  · exact huser c hc
  rcases List.mem_cons.mp hc with rfl | hc
  · decide
  rcases List.mem_append.mp hc with hc | hc
  · exact hpw c hc
  · rw [List.mem_singleton.mp hc]
    decide

/-- **The scrubbed text does not depend on the password** of a url, wherever the url stands. -/
theorem scrubMessage_password (hscheme : scheme ∈ [postgresScheme, postgresqlScheme])
    (huser : ∀ c ∈ user, inUrl c = true) (h₁ : pw₁ ≠ []) (h₂ : pw₂ ≠ [])
    (hpw₁ : ∀ c ∈ pw₁, inUrl c = true) (hpw₂ : ∀ c ∈ pw₂, inUrl c = true) (pre post : List Char) :
    scrubMessage (pre ++ (passwordUrl scheme user pw₁ ++ post)) =
      scrubMessage (pre ++ (passwordUrl scheme user pw₂ ++ post)) := by
  have hin₁ := inUrl_passwordUrl hscheme huser hpw₁
  have hin₂ := inUrl_passwordUrl hscheme huser hpw₂
  have hstarts : ∀ pw, StartsScheme (passwordUrl scheme user pw ++ post) :=
    fun pw => (startsScheme_scheme hscheme _).append post
  -- by induction on the length of the front: in each round the scan skips a part of it
  induction hn : pre.length using Nat.strong_induction_on generalizing pre with
  | _ n ih =>
    subst hn
    cases hfind : findPgScheme pre with
    | none =>
      -- the url itself is found
      rw [scrubMessage_of_some (findPgScheme_append_of_none hfind (hstarts pw₁)),
        scrubMessage_of_some (findPgScheme_append_of_none hfind (hstarts pw₂)),
        List.takeWhile_append_of_pos hin₁, List.takeWhile_append_of_pos hin₂,
        List.dropWhile_append_of_pos hin₁, List.dropWhile_append_of_pos hin₂]
      have hurl : scrubUrl (passwordUrl scheme user pw₁ ++ post.takeWhile inUrl) =
          scrubUrl (passwordUrl scheme user pw₂ ++ post.takeWhile inUrl) := by
        have hscrub := scrubUserinfo_password h₁ h₂ user (post.takeWhile inUrl)
        simp only [passwordUrl, List.append_assoc, List.cons_append, List.nil_append]
        rw [scrubUrl_scheme hscheme, scrubUrl_scheme hscheme, hscrub]
      rw [hurl]
    | some r =>
      obtain ⟨before, url⟩ := r
      rw [scrubMessage_of_some (findPgScheme_append_of_some hfind (hstarts pw₁)),
        scrubMessage_of_some (findPgScheme_append_of_some hfind (hstarts pw₂))]
      by_cases hurl : ∀ c ∈ url, inUrl c = true
      · -- the url is glued to an earlier one
        rw [List.takeWhile_append_of_pos hurl, List.takeWhile_append_of_pos hurl,
          List.dropWhile_append_of_pos hurl, List.dropWhile_append_of_pos hurl,
          List.takeWhile_append_of_pos hin₁, List.takeWhile_append_of_pos hin₂,
          List.dropWhile_append_of_pos hin₁, List.dropWhile_append_of_pos hin₂]
        obtain ⟨scheme', hscheme', rest, rfl⟩ :=
          exists_scheme (exists_scheme_of_findPgScheme hfind)
        have hscrub := scrubUserinfo_password h₁ h₂ (rest ++ (scheme ++ user))
          (post.takeWhile inUrl)
        have hglued : scrubUrl (scheme' ++ rest ++
              (passwordUrl scheme user pw₁ ++ post.takeWhile inUrl)) =
            scrubUrl (scheme' ++ rest ++
              (passwordUrl scheme user pw₂ ++ post.takeWhile inUrl)) := by
          simp only [passwordUrl, List.append_assoc, List.cons_append, List.nil_append] at hscrub ⊢
          rw [scrubUrl_scheme hscheme', scrubUrl_scheme hscheme', hscrub]
        rw [hglued]
      · -- the earlier url ends in the front
        have hne : (url.takeWhile inUrl).length ≠ url.length := fun hlen =>
          hurl (List.takeWhile_eq_self_iff.mp
            ((List.takeWhile_prefix inUrl).eq_of_length hlen))
        have hdrop : url.dropWhile inUrl ≠ [] := fun hnil =>
          hurl (List.dropWhile_eq_nil_iff.mp hnil)
        have htake : ∀ w, (url ++ w).takeWhile inUrl = url.takeWhile inUrl := fun w => by
          rw [List.takeWhile_append, if_neg hne]
        have hrest : ∀ w, (url ++ w).dropWhile inUrl = url.dropWhile inUrl ++ w := fun w => by
          rw [List.dropWhile_append, if_neg (by simpa using hdrop)]
        rw [htake, htake, hrest, hrest,
          ih _ (length_dropWhile_url_lt hfind) (url.dropWhile inUrl) rfl]

/-- No scheme starts before the first one. -/
theorem findPgScheme_before {s before url : List Char} (h : findPgScheme s = some (before, url)) :
    findPgScheme before = none := by
  obtain ⟨rfl, -, hfirst⟩ := findPgScheme_eq_some_iff.mp h
  rw [findPgScheme_eq_none_iff]
  rintro b v rfl hv
  have hle := hfirst b (v ++ url) (List.append_assoc _ _ _) (hv.append url)
  rw [List.length_append] at hle
  exact hv.ne_nil (List.eq_nil_of_length_eq_zero (by omega))

/-- A text that starts with white space starts with it behind the scrub. -/
theorem takeWhile_scrubMessage {s : List Char} (h : s.takeWhile inUrl = []) :
    (scrubMessage s).takeWhile inUrl = [] := by
  cases hfind : findPgScheme s with
  | none => rw [scrubMessage_of_none hfind, h]
  | some r =>
    obtain ⟨before, url⟩ := r
    rw [scrubMessage_of_some hfind]
    obtain ⟨rfl, hurl, -⟩ := findPgScheme_eq_some_iff.mp hfind
    cases before with
    | nil =>
      -- the first character of a scheme is no white space
      obtain ⟨rest, rfl | rfl⟩ := hurl
      · exact absurd h (List.cons_ne_nil 'p' _)
      · exact absurd h (List.cons_ne_nil 'p' _)
    | cons c before =>
      have hc : ¬ inUrl c = true := fun hc => by
        rw [List.cons_append, List.takeWhile_cons_of_pos hc] at h
        cases h
      rw [List.cons_append, List.takeWhile_cons_of_neg hc]

/-- **A scrubbed text is left as it is.** -/
theorem scrubMessage_scrubMessage (msg : List Char) :
    scrubMessage (scrubMessage msg) = scrubMessage msg := by
  -- by induction on the length: behind a url the scan goes on with a shorter text
  induction hn : msg.length using Nat.strong_induction_on generalizing msg with
  | _ n ih =>
    subst hn
    cases hfind : findPgScheme msg with
    | none => rw [scrubMessage_of_none hfind, scrubMessage_of_none hfind]
    | some r =>
      obtain ⟨before, url⟩ := r
      have hrest := ih _ (length_dropWhile_url_lt hfind) (url.dropWhile inUrl) rfl
      have hspace : (scrubMessage (url.dropWhile inUrl)).takeWhile inUrl = [] := by
        apply takeWhile_scrubMessage
        rw [List.takeWhile_eq_nil_iff]
        exact List.dropWhile_get_zero_not inUrl url
      obtain ⟨scheme, hscheme, rest, rfl⟩ := exists_scheme (exists_scheme_of_findPgScheme hfind)
      have htake : (scheme ++ rest).takeWhile inUrl = scheme ++ rest.takeWhile inUrl :=
        List.takeWhile_append_of_pos (inUrl_scheme hscheme)
      rw [scrubMessage_of_some hfind, htake, scrubUrl_scheme hscheme]
      set userinfo := scrubUserinfo (rest.takeWhile inUrl) with huserinfo
      set after := scrubMessage ((scheme ++ rest).dropWhile inUrl) with hafter
      have hin : ∀ c ∈ scheme ++ userinfo, inUrl c = true := by
        intro c hc
        rcases List.mem_append.mp hc with hc | hc
        · exact inUrl_scheme hscheme c hc
        · exact inUrl_scrubUserinfo (fun d hd => List.mem_takeWhile_imp hd) c hc
      have hdrop : after.dropWhile inUrl = after := by
        have hsplit := List.takeWhile_append_dropWhile (p := inUrl) (l := after)
        rwa [hspace, List.nil_append] at hsplit
      have hfind' := findPgScheme_append_of_none (findPgScheme_before hfind)
        ((startsScheme_scheme hscheme userinfo).append after)
      rw [scrubMessage_of_some hfind', List.takeWhile_append_of_pos hin,
        List.dropWhile_append_of_pos hin, hspace, List.append_nil, hdrop, hrest,
        scrubUrl_scheme hscheme, huserinfo, scrubUserinfo_scrubUserinfo]

/-- The adapter keeps the code of a database error, and there is nothing left to scrub in the
message it makes. -/
theorem scrubMessage_databaseScrubbed {L : Text.Lowercase} {msg out : List Char}
    {detail : Option (List Char)} {code code' : Option String}
    (h : databaseScrubbed L msg detail code = some (out, code')) :
    scrubMessage out = out ∧ code' = code := by
  cases detail with
  | none =>
    cases h
    exact ⟨scrubMessage_scrubMessage _, rfl⟩
  | some detail =>
    obtain ⟨scrubbed, -, heq⟩ := Option.map_eq_some_iff.mp h
    cases heq
    exact ⟨scrubMessage_scrubMessage _, rfl⟩

/-- **No password of a connection url stays in a text.** Whatever stands before and behind the url,
and whatever the password has in it, the scrubbed text does not depend on it. The scan ends on every
text, and a scrubbed text is left as it is. -/
theorem passwords_scrubbed :
    (∀ scheme ∈ [postgresScheme, postgresqlScheme], ∀ pre post user pw₁ pw₂ : List Char,
      (∀ c ∈ user, isWhitespace c = false) → pw₁ ≠ [] → pw₂ ≠ [] →
      (∀ c ∈ pw₁, isWhitespace c = false) → (∀ c ∈ pw₂, isWhitespace c = false) →
      scrubMessage (pre ++ (scheme ++ (user ++ ':' :: (pw₁ ++ '@' :: post)))) =
        scrubMessage (pre ++ (scheme ++ (user ++ ':' :: (pw₂ ++ '@' :: post))))) ∧
    (∀ msg, ∃ s, ∀ rounds, msg.length < rounds → scrubLoop rounds [] msg = some s) ∧
    ∀ msg, scrubMessage (scrubMessage msg) = scrubMessage msg := by
  have hin : ∀ {w : List Char}, (∀ c ∈ w, isWhitespace c = false) → ∀ c ∈ w, inUrl c = true := by
    intro w h c hc
    rw [inUrl, h c hc]
    rfl
  have hsplit : ∀ scheme user pw post : List Char,
      scheme ++ (user ++ ':' :: (pw ++ '@' :: post)) = passwordUrl scheme user pw ++ post := by
    intro scheme user pw post
    simp [passwordUrl]
  refine ⟨fun scheme hscheme pre post user pw₁ pw₂ huser h₁ h₂ hpw₁ hpw₂ => ?_,
    fun msg => ⟨scrubMessage msg, fun rounds h => scrubLoop_eq_some h []⟩,
    scrubMessage_scrubMessage⟩
  rw [hsplit, hsplit]
  exact scrubMessage_password hscheme (hin huser) h₁ h₂ (hin hpw₁) (hin hpw₂) pre post

/-- A password with an `@` and a scheme in it, in a url behind another one. -/
theorem glued_password_scrubbed :
    scrubMessage ("cannot use postgres://a:b@c,".toList ++ (postgresqlScheme ++ ("me".toList ++
      ':' :: ("x@postgres://y:".toList ++ '@' :: "host/db?ssl=on now".toList)))) =
    scrubMessage ("cannot use postgres://a:b@c,".toList ++ (postgresqlScheme ++ ("me".toList ++
      ':' :: ("secret".toList ++ '@' :: "host/db?ssl=on now".toList)))) :=
  passwords_scrubbed.1 _ (by decide) _ _ _ _ _ (by decide) (by decide) (by decide) (by decide)
    (by decide)

end Scan

end IronDefer
