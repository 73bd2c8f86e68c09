import IronDefer.Domain.Values
import IronDefer.Text.Lowercase

/-!
# The texts of database errors

An error of the database may carry the data of a row or the password of a connection in its text.
The adapter scrubs a text before it becomes part of an error: JSON values in the message, the values
in the detail, and the passwords of connection urls in what is put together from both.

## Main definitions

* `scrubDetail`: the detail of a constraint violation without its values, where no slice panics
* `Inside`, `scrubDatabaseMessage`: a message without the JSON values in it
* `scrubUrl`, `scrubMessage`: a text without the passwords of its connection urls
* `databaseScrubbed`: the error the adapter makes of an error of the database

## Main results

* `scrubMessage_of_none`, `scrubMessage_of_some`: the scan for urls goes on behind each url
* `scrubLoop_eq_some`: **the scan ends within as many rounds as the text has characters**
-/

namespace IronDefer

open Text (find sliceFrom size Lowercase)

/-! ## The detail of a violation -/

/-- What stands in the place of a value. -/
def scrubbed : List Char := "<scrubbed>".toList

/-- The two searches of `scrub_parenthesized` in turn, for the next opening parenthesis and, where
`inside`, for the next closing one. -/
def scanParens : Bool → List Char → List Char
  | _, [] => []
  | false, c :: cs =>
    if c = '(' then '(' :: (scrubbed ++ scanParens true cs) else c :: scanParens false cs
  | true, c :: cs => if c = ')' then ')' :: scanParens false cs else scanParens true cs

/-- `scrub_parenthesized`: what stands in a pair of parentheses is cut out. -/
def scrubParenthesized (s : List Char) : List Char := scanParens false s

/-- Cut out of the detail what stands from byte `start` to the next closing parenthesis, which is
looked for in `rest`, the lower-cased detail from there on. The outer `none` is a panic, the inner
one a parenthesis that is not closed. -/
def cutOut (detail : List Char) (start : ℕ) (rest : List Char) :
    Option (Option (List Char)) := do
  let pfx ← Text.sliceTo detail start
  match find [')'] rest with
  | some (inside, _) => do
    let suffix ← sliceFrom detail (start + size inside)
    return some (pfx ++ scrubbed ++ suffix)
  | none => return none

def containsPattern : List Char := "contains (".toList

def keyPattern : List Char := "key (".toList

def equalsPattern : List Char := ")=(".toList

/-- The part of `scrub_detail` for a violated key, and for what is left. -/
def scrubKey (detail lower : List Char) : Option (List Char) :=
  match find keyPattern lower with
  | some (before, after) =>
    match find equalsPattern (keyPattern ++ after) with
    | some (between, rest) =>
      (cutOut detail (size before + (size between + size equalsPattern)) rest).map fun out =>
        out.getD (scrubParenthesized detail)
    | none => some (scrubParenthesized detail)
  | none => some (scrubParenthesized detail)

/-- `scrub_detail`. The places are looked for in the lower-cased detail, and the detail is sliced
there; `none` is a panic of a slice. -/
def scrubDetail (L : Lowercase) (detail : List Char) : Option (List Char) :=
  let lower := L.text detail
  match find containsPattern lower with
  | some (before, after) =>
    match cutOut detail (size before + size containsPattern) after with
    | some (some out) => some out
    | some none => scrubKey detail lower
    | none => none
  | none => scrubKey detail lower

/-! ## The message of an error -/

/-- What stands in the place of a JSON value. -/
def scrubbedJson : List Char := "<scrubbed-json>".toList

/-- The scan inside a JSON value that starts with the bracket `c`. -/
structure Inside where
  c : Char
  close : Char
  depth : UInt32
  inString : Bool
  escaped : Bool
  deriving DecidableEq

/-- The scan at the start of a value. -/
def Inside.open (c : Char) : Inside where
  c
  close := if c = '\x7b' then '\x7d' else ']'
  depth := 1
  inString := false
  escaped := false

/-- The scan of one character; `none` where it closes the value. -/
def Inside.step (s : Inside) (inner : Char) : Option Inside :=
  if s.escaped then some { s with escaped := false }
  else if inner = '\\' then some { s with escaped := true }
  else if inner = '"' then some { s with inString := !s.inString }
  else if s.inString then some s
  else if inner = s.c then some { s with depth := s.depth + 1 }
  else if inner = s.close then
    if s.depth - 1 = 0 then none else some { s with depth := s.depth - 1 }
  else some s

def isOpening (c : Char) : Bool := c = '\x7b' || c = '['

/-- The two loops of `scrub_database_message`, which take their characters from one iterator: the
outer one where `inside` is none. -/
def scanMessage : Option Inside → List Char → List Char
  | none, [] => []
  | some _, [] => scrubbedJson
  | none, c :: cs =>
    if isOpening c then scanMessage (some (.open c)) cs else c :: scanMessage none cs
  | some s, c :: cs =>
    match s.step c with
    | some s => scanMessage (some s) cs
    | none => scrubbedJson ++ scanMessage none cs

def scrubDatabaseMessage (msg : List Char) : List Char := scanMessage none msg

/-! ## Connection urls -/

/-- The text before the last place of a character, and the text after it. -/
def rfind (c : Char) (s : List Char) : Option (List Char × List Char) :=
  (find [c] s.reverse).map fun r => (r.2.reverse, r.1.reverse)

def schemeEnd : List Char := "://".toList

/-- `scrub_url`: the password of a connection url is replaced. -/
def scrubUrl (s : List Char) : List Char :=
  match find schemeEnd s with
  | none => s
  | some (scheme, rest) =>
    match rfind '@' rest with
    | none => s
    | some (userinfo, host) =>
      let hostOnwards := host.takeWhile fun c => c ≠ '?' && c ≠ '#'
      let trailing := host.dropWhile fun c => c ≠ '?' && c ≠ '#'
      match find [':'] userinfo with
      | none => s
      | some (user, password) =>
        if password = [] then s
        else scheme ++ schemeEnd ++ user ++ ":***".toList ++ '@' :: (hostOnwards ++ trailing)

def postgresScheme : List Char := "postgres://".toList

def postgresqlScheme : List Char := "postgresql://".toList

/-- `find_pg_scheme`: the text before the first of the two schemes, and the text from there on. -/
def findPgScheme (s : List Char) : Option (List Char × List Char) :=
  match find postgresScheme s, find postgresqlScheme s with
  | some (a, afterA), some (b, afterB) =>
    if size a ≤ size b then some (a, postgresScheme ++ afterA)
    else some (b, postgresqlScheme ++ afterB)
  | some (a, afterA), none => some (a, postgresScheme ++ afterA)
  | none, some (b, afterB) => some (b, postgresqlScheme ++ afterB)
  | none, none => none

/-- A character that does not end a url. -/
def inUrl (c : Char) : Bool := !isWhitespace c

/-- The loop of `scrub_message`; `none` where the rounds are used up. -/
def scrubLoop : ℕ → List Char → List Char → Option (List Char)
  | 0, _, _ => none
  | rounds + 1, out, rest =>
    match findPgScheme rest with
    | none => some (out ++ rest)
    | some (before, url) =>
      scrubLoop rounds (out ++ before ++ scrubUrl (url.takeWhile inUrl)) (url.dropWhile inUrl)

/-- `scrub_message`. -/
def scrubMessage (msg : List Char) : List Char := (scrubLoop (msg.length + 1) [] msg).getD []

/-! ## The error -/

/-- The message with the detail behind it, where the message does not have it already. -/
def appendDetail (L : Lowercase) (msg detail : List Char) : List Char :=
  if (find detail msg).isSome then msg
  else if (find "detail:".toList (L.text msg)).isSome then msg ++ ' ' :: detail
  else msg ++ " DETAIL: ".toList ++ detail

/-- The error the adapter makes of a database error with a message, a detail and a code: its message
and its code. `none` is a panic. -/
def databaseScrubbed (L : Lowercase) (msg : List Char) (detail : Option (List Char))
    (code : Option String) : Option (List Char × Option String) :=
  match detail with
  | none => some (scrubMessage (scrubDatabaseMessage msg), code)
  | some detail => (scrubDetail L detail).map fun detail =>
    (scrubMessage (appendDetail L (scrubDatabaseMessage msg) detail), code)

/-! ## The scan for urls -/

theorem findPgScheme_eq {s before url : List Char} (h : findPgScheme s = some (before, url)) :
    s = before ++ url := by
  unfold findPgScheme at h
  split at h
  next ha hb =>
    split at h
    · cases h
      exact Text.eq_of_find ha
    · cases h
      exact Text.eq_of_find hb
  next ha hb =>
    cases h
    exact Text.eq_of_find ha
  next ha hb =>
    cases h
    exact Text.eq_of_find hb
  next => cases h

/-- A url starts with one of the schemes. -/
theorem exists_scheme_of_findPgScheme {s before url : List Char}
    (h : findPgScheme s = some (before, url)) :
    ∃ rest, url = postgresScheme ++ rest ∨ url = postgresqlScheme ++ rest := by
  unfold findPgScheme at h
  split at h
  · split at h
    · cases h
      exact ⟨_, .inl rfl⟩
    · cases h
      exact ⟨_, .inr rfl⟩
  · cases h
    exact ⟨_, .inl rfl⟩
  · cases h
    exact ⟨_, .inr rfl⟩
  · cases h

/-- The scan goes on with a shorter text. -/
theorem length_dropWhile_url_lt {s before url : List Char}
    (h : findPgScheme s = some (before, url)) : (url.dropWhile inUrl).length < s.length := by
  have hs := congrArg List.length (findPgScheme_eq h)
  rw [List.length_append] at hs
  -- the first character of a scheme is in the url
  have hcons : ∃ c cs, url = c :: cs ∧ inUrl c = true := by
    obtain ⟨rest, rfl | rfl⟩ := exists_scheme_of_findPgScheme h
    · exact ⟨'p', _, rfl, by decide⟩
    · exact ⟨'p', _, rfl, by decide⟩
  obtain ⟨c, cs, rfl, hc⟩ := hcons
  have hdrop := (List.dropWhile_suffix inUrl (l := cs)).length_le
  rw [List.dropWhile_cons_of_pos hc]
  rw [List.length_cons] at hs
  omega

/-- With rounds enough, the loop ends with a text that does not depend on how many there are. -/
theorem exists_scrubLoop (rest : List Char) :
    ∃ s, ∀ rounds out, rest.length < rounds → scrubLoop rounds out rest = some (out ++ s) := by
  -- by induction on the length of what is left
  induction hn : rest.length using Nat.strong_induction_on generalizing rest with
  | _ n ih =>
    subst hn
    cases hfind : findPgScheme rest with
    | none =>
      refine ⟨rest, fun rounds out hlt => ?_⟩
      obtain ⟨rounds, rfl⟩ := Nat.exists_eq_succ_of_ne_zero (Nat.ne_of_gt (Nat.zero_lt_of_lt hlt))
      rw [scrubLoop, hfind]
    | some r =>
      obtain ⟨before, url⟩ := r
      have hshort := length_dropWhile_url_lt hfind
      obtain ⟨s, hs⟩ := ih _ hshort (url.dropWhile inUrl) rfl
      refine ⟨before ++ scrubUrl (url.takeWhile inUrl) ++ s, fun rounds out hlt => ?_⟩
      obtain ⟨rounds, rfl⟩ := Nat.exists_eq_succ_of_ne_zero (Nat.ne_of_gt (Nat.zero_lt_of_lt hlt))
      rw [scrubLoop, hfind]
      show scrubLoop rounds _ (url.dropWhile inUrl) = _
      rw [hs rounds _ (Nat.lt_of_lt_of_le hshort (Nat.le_of_lt_succ hlt))]
      simp only [List.append_assoc]

/-- **The loop ends** within as many rounds as the text has characters, and one. -/
theorem scrubLoop_eq_some {rounds : ℕ} {rest : List Char} (h : rest.length < rounds)
    (out : List Char) : scrubLoop rounds out rest = some (out ++ scrubMessage rest) := by
  obtain ⟨s, hs⟩ := exists_scrubLoop rest
  rw [hs rounds out h, scrubMessage, hs _ [] (Nat.lt_succ_self _)]
  rfl

theorem scrubMessage_of_none {msg : List Char} (h : findPgScheme msg = none) :
    scrubMessage msg = msg := by
  rw [scrubMessage, scrubLoop, h]
  rfl

/-- Behind a url the scan starts again. -/
theorem scrubMessage_of_some {msg before url : List Char}
    (h : findPgScheme msg = some (before, url)) :
    scrubMessage msg = before ++ (scrubUrl (url.takeWhile inUrl) ++
      scrubMessage (url.dropWhile inUrl)) := by
  rw [scrubMessage, scrubLoop, h]
  show (scrubLoop msg.length _ (url.dropWhile inUrl)).getD [] = _
  rw [scrubLoop_eq_some (length_dropWhile_url_lt h)]
  simp

end IronDefer
