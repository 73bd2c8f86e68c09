import IronDefer.Text.Printable
import Mathlib.Data.Rat.Defs

/-!
# Validated values

The newtypes of the domain crate. A name, a kind or an attempt bound can only be built from a
value its validation accepts, so a record built from them is well formed by construction.
Timestamps count from the database's epoch: nanoseconds on the side of the program,
microseconds in the database.

## Main definitions

* `I32`: a value of the integer type the attempt columns have
* `TaskId`, `WorkerId`: stable identifiers
* `ValidationError`: what constructing a value can be refused for
* `QueueName`, `TaskKind`, `AttemptCount`, `MaxAttempts`, `Priority`: the validated newtypes
* `DateTime`, `Timestamp`, `Duration`: instants of the program and of the database, and durations
* `Json`: a JSON value, by its compact text

## Main results

* `QueueName.tryFrom_asStr`, `TaskKind.tryFrom_asStr`, `AttemptCount.new_get`,
  `MaxAttempts.new_get`: what a value holds is accepted again
-/

namespace IronDefer

/-- A value of `i32`, and of the column type `INTEGER`. -/
structure I32 where
  val : Int
  lower : -2147483648 ≤ val
  upper : val ≤ 2147483647
  deriving DecidableEq

namespace I32

def ofInt? (n : Int) : Option I32 :=
  if h : -2147483648 ≤ n ∧ n ≤ 2147483647 then some ⟨n, h.1, h.2⟩ else none

theorem val_of_ofInt? {n : Int} {a : I32} (h : ofInt? n = some a) : a.val = n := by
  unfold ofInt? at h
  split at h
  · cases h; rfl
  · cases h

theorem ofInt?_isSome {n : Int} : (ofInt? n).isSome ↔ -2147483648 ≤ n ∧ n ≤ 2147483647 := by
  unfold ofInt?
  split <;> simp_all

end I32

/-- Stable identifier for a persisted task. -/
structure TaskId where
  uuid : ℕ
  deriving DecidableEq, Repr

/-- Stable identifier for a worker process. -/
structure WorkerId where
  uuid : ℕ
  deriving DecidableEq, Repr

/-- Errors raised when constructing validated values. -/
inductive ValidationError where
  | emptyQueueName
  | queueNameWhitespace (value : String)
  | queueNameForbiddenChar (value : String)
  | queueNameTooLong (length max : ℕ)
  | emptyTaskKind
  | negativeAttemptCount (value : Int)
  | invalidMaxAttempts (value : Int)
  deriving DecidableEq, Repr

/-- One character of a text as Rust's `{:?}` shows it. -/
def debugChar (c : Char) : String :=
  if c == '"' then "\\\"" else if c == '\\' then "\\\\"
  else if c == '\x00' then "\\0" else if c == '\t' then "\\t" else if c == '\n' then "\\n"
  else if c == '\r' then "\\r"
  else if Text.isEscaped c then
    "\\u\x7b" ++ String.ofList (Nat.toDigits 16 c.toNat) ++ "\x7d"
  else String.singleton c

/-- A text as Rust's `{:?}` shows it. -/
def debugText (s : String) : String := "\"" ++ String.join (s.toList.map debugChar) ++ "\""

/-- The text of a refusal. -/
def ValidationError.display : ValidationError → String
  | emptyQueueName => "queue name must not be empty"
  | queueNameWhitespace value => "queue name must not contain whitespace: " ++ debugText value
  | queueNameForbiddenChar value =>
    "queue name must not contain control or zero-width characters: " ++ debugText value
  | queueNameTooLong length max =>
    "queue name length " ++ toString length ++ " exceeds maximum " ++ toString max
  | emptyTaskKind => "task kind must not be empty"
  | negativeAttemptCount value => "attempt count must be >= 0, got " ++ toString value
  | invalidMaxAttempts value => "max_attempts must be >= 1, got " ++ toString value

/-! ## Names -/

/-- Unicode `White_Space`, as `char::is_whitespace` reads it. -/
def isWhitespace (c : Char) : Bool :=
  let n := c.val.toNat
  (9 ≤ n && n ≤ 13) || n == 0x20 || n == 0x85 || n == 0xA0 || n == 0x1680 ||
    (0x2000 ≤ n && n ≤ 0x200A) || n == 0x2028 || n == 0x2029 || n == 0x202F || n == 0x205F ||
    n == 0x3000

/-- The general category `Cc`, as `char::is_control` reads it. -/
def isControl (c : Char) : Bool :=
  let n := c.val.toNat
  n ≤ 0x1F || (0x7F ≤ n && n ≤ 0x9F)

/-- The zero-width and bidi format characters a queue name may not contain. -/
def isInvisible (c : Char) : Bool :=
  let n := c.val.toNat
  n == 0x200B || n == 0x200C || n == 0x200D || n == 0x2060 || n == 0xFEFF || n == 0xAD ||
    (0x202A ≤ n && n ≤ 0x202E) || (0x2066 ≤ n && n ≤ 0x2069)

namespace QueueName

/-- Maximum queue name length in bytes. -/
def maxLen : ℕ := 128

/-- The scan over the characters of a name. -/
def validateChars (value : String) : List Char → Except ValidationError Unit
  | [] => .ok ()
  | c :: cs =>
    if isWhitespace c then .error (.queueNameWhitespace value)
    else if c.val == 0 || isControl c || isInvisible c then .error (.queueNameForbiddenChar value)
    else validateChars value cs

def validate (value : String) : Except ValidationError Unit :=
  if value.isEmpty then .error .emptyQueueName
  else if maxLen < value.utf8ByteSize then .error (.queueNameTooLong value.utf8ByteSize maxLen)
  else validateChars value value.toList

end QueueName

/-- A validated queue name. -/
structure QueueName where
  asStr : String
  valid : QueueName.validate asStr = .ok ()
  deriving DecidableEq

def QueueName.tryFrom (value : String) : Except ValidationError QueueName :=
  match h : QueueName.validate value with
  | .ok () => .ok ⟨value, h⟩
  | .error e => .error e

@[simp] theorem QueueName.tryFrom_asStr (q : QueueName) : QueueName.tryFrom q.asStr = .ok q := by
  unfold QueueName.tryFrom
  split
  · rfl
  next e h => rw [q.valid] at h; cases h

theorem QueueName.tryFrom_eq_error {value : String} {e : ValidationError}
    (h : QueueName.validate value = .error e) : QueueName.tryFrom value = .error e := by
  unfold QueueName.tryFrom
  split
  next h' => rw [h] at h'; cases h'
  next e' h' => rw [h] at h'; cases h'; rfl

/-- A validated task kind: never empty. -/
structure TaskKind where
  asStr : String
  nonempty : asStr.isEmpty = false
  deriving DecidableEq

def TaskKind.tryFrom (value : String) : Except ValidationError TaskKind :=
  if h : value.isEmpty = false then .ok ⟨value, h⟩ else .error .emptyTaskKind

@[simp] theorem TaskKind.tryFrom_asStr (k : TaskKind) : TaskKind.tryFrom k.asStr = .ok k :=
  dif_pos k.nonempty

/-! ## Attempts and priority -/

/-- Number of times a task has been claimed. -/
structure AttemptCount where
  get : I32
  nonneg : 0 ≤ get.val
  deriving DecidableEq

namespace AttemptCount

def zero : AttemptCount := ⟨⟨0, by decide, by decide⟩, by decide⟩

def new (value : I32) : Except ValidationError AttemptCount :=
  if h : value.val < 0 then .error (.negativeAttemptCount value.val)
  else .ok ⟨value, Int.not_lt.mp h⟩

@[simp] theorem new_get (a : AttemptCount) : new a.get = .ok a := dif_neg (Int.not_lt.mpr a.nonneg)

end AttemptCount

/-- Maximum number of attempts before a task is terminally failed. -/
structure MaxAttempts where
  get : I32
  pos : 1 ≤ get.val
  deriving DecidableEq

namespace MaxAttempts

def default : MaxAttempts := ⟨⟨3, by decide, by decide⟩, by decide⟩

def new (value : I32) : Except ValidationError MaxAttempts :=
  if h : value.val < 1 then .error (.invalidMaxAttempts value.val)
  else .ok ⟨value, Int.not_lt.mp h⟩

@[simp] theorem new_get (m : MaxAttempts) : new m.get = .ok m := dif_neg (Int.not_lt.mpr m.pos)

end MaxAttempts

/-- Task execution priority. Higher values are claimed first. -/
structure Priority where
  get : Int
  deriving DecidableEq

def Priority.default : Priority := ⟨0⟩

/-! ## Time -/

/-- An instant of the program, in nanoseconds. -/
abbrev DateTime := Int

/-- An instant of the database, in microseconds. -/
abbrev Timestamp := Int

/-- A span of time, in nanoseconds. -/
abbrev Duration := ℕ

/-- `DateTime::<Utc>::MAX_UTC`, in nanoseconds. -/
def maxDateTime : DateTime := 8209320191999999999999

/-- What the database stores of an instant: the encoder cuts it to microseconds. -/
def DateTime.toTimestamp (d : DateTime) : Timestamp := Int.tdiv d 1000

/-- The last instant of the database that the program has a `DateTime` for, at the end of the year
262142; the database counts on to 294276. -/
def maxTimestamp : Timestamp := 8209320191999999999

/-- What the program makes of an instant it can decode. -/
def Timestamp.toDateTime (t : Timestamp) : DateTime := t * 1000

/-- The year of an instant, in the proleptic Gregorian calendar: days count from the first of March
of the year zero, 730425 days before the epoch, in eras of 400 years. -/
def DateTime.year (d : DateTime) : Int :=
  let day := d / 86400000000000 + 730425
  let era := day / 146097
  let dayOfEra := day % 146097
  let yearOfEra := (dayOfEra - dayOfEra / 1460 + dayOfEra / 36524 - dayOfEra / 146096) / 365
  let dayOfYear := dayOfEra - (365 * yearOfEra + yearOfEra / 4 - yearOfEra / 100)
  -- the year that starts in March has ended when January begins
  yearOfEra + era * 400 + if dayOfYear < 306 then 0 else 1

/-! ## JSON -/

/-- A JSON value, by its compact text. -/
structure Json where
  text : String
  deriving DecidableEq, Repr

namespace Json

/-- One character of a string in compact JSON text. -/
def escapeChar (c : Char) : String :=
  let n := c.val.toNat
  if c == '"' then "\\\"" else if c == '\\' then "\\\\"
  else if n == 8 then "\\b" else if n == 9 then "\\t" else if n == 10 then "\\n"
  else if n == 12 then "\\f" else if n == 13 then "\\r"
  else if n < 16 then "\\u000" ++ String.singleton (Nat.digitChar n)
  else if n < 32 then "\\u001" ++ String.singleton (Nat.digitChar (n - 16))
  else String.singleton c

/-- A string as a JSON value. -/
def string (s : String) : String := "\"" ++ String.join (s.toList.map escapeChar) ++ "\""

/-- The object with the one field `name`. -/
def object (name value : String) : Json := ⟨"\x7b" ++ string name ++ ":" ++ string value ++ "\x7d"⟩

/-- The escape of NUL inside the text, which `JSONB` refuses. -/
def hasNul : List Char → Bool
  | '\\' :: 'u' :: '0' :: '0' :: '0' :: '0' :: _ => true
  | '\\' :: _ :: cs => hasNul cs
  | _ :: cs => hasNul cs
  | [] => false

end Json

end IronDefer
