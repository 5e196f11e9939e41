import AgentMail.Guard.Check
import AgentMail.Base.Values
import Mathlib.Algebra.Order.Field.Rat

/-!
# Reading the reservation artifacts

The guard and the installed hook each read the JSON artifacts of the archive and decide which
reservations are live: `crates/mcp-agent-mail-guard/src/lib.rs:1279–1395` (the hook, Python) and
`2520–2658` (the guard). Reading directories and files is left out, as is the guard's limit of
one megabyte a file: an artifact here is a JSON object, and an absent key is `null` on both sides.
-/

namespace AgentMail.Guard

open Base

/-- The JSON values that the readers tell apart; of an array or object they only see whether it
has entries. -/
inductive Json where
  | null
  | bool (b : Bool)
  | int (n : Int)
  | real (x : ℚ)
  | str (t : Text)
  | compound (nonempty : Bool)
  deriving DecidableEq

/-- The keys that the readers look up. -/
structure Artifact where
  pathPattern : Json
  path : Json
  agentName : Json
  agent : Json
  exclusive : Json
  expiresTs : Json
  releasedTs : Json

/-- A double: a rational or an infinity. -/
abbrev Double := WithBot (WithTop ℚ)

/-- What the two readers take from their standard and date libraries at one instant. Nothing is
assumed of these functions. -/
structure Clock where
  /-- The instant, in nanoseconds. -/
  nowNanos : Int
  /-- The double `now.timestamp() * 1_000_000`. -/
  hookNow : ℚ
  /-- `str(value)`. -/
  pyStr : Json → Text
  /-- `str.isdigit` on one character. -/
  pyIsDigit : Char → Bool
  /-- `float(text)`, `none` for a `ValueError`. -/
  pyFloat : Text → Option Double
  /-- `datetime.fromisoformat(text)` in microseconds, a naive time read as UTC. -/
  pyFromIsoformat : Text → Option Int
  /-- `text.parse::<f64>()`. -/
  parseF64 : Text → Option Double
  /-- `text.parse::<i64>()`. -/
  parseI64 : Text → Option Int
  /-- `DateTime::parse_from_rfc3339(text)`, in nanoseconds. -/
  parseRfc3339 : Text → Option Int
  /-- `NaiveDateTime::parse_from_str(text, "%Y-%m-%dT%H:%M:%S%.f")`, as UTC. -/
  parseNaiveFraction : Text → Option Int
  /-- `NaiveDateTime::parse_from_str(text, "%Y-%m-%dT%H:%M:%S")`, as UTC. -/
  parseNaive : Text → Option Int
  /-- `Utc.timestamp_opt` of a count of microseconds, printed with `to_rfc3339`. -/
  toRfc3339 : Int → Option Text

namespace Clock

/-- `now.timestamp_micros()`; the hook's `now` has microseconds only. -/
def nowMicros (K : Clock) : Int := K.nowNanos / 1000

end Clock

/-! ### The hook -/

namespace Hook

/-- `str.isspace`: the Unicode white space and the four separators below the space. -/
def isSpace (c : Char) : Bool := isWhitespace c || (0x1C ≤ c.toNat && c.toNat ≤ 0x1F)

/-- `str.strip()`. -/
def strip (t : Text) : Text := (t.dropWhile isSpace).rdropWhile isSpace

/-- Truth of a value. -/
def truthy : Json → Bool
  | .null => false
  | .bool b => b
  | .int n => n != 0
  | .real x => x != 0
  | .str t => !t.isEmpty
  | .compound nonempty => nonempty

/-- `a or b`. -/
def orElse (a b : Json) : Json := if truthy a then a else b

variable (L : Lowercase) (K : Clock)

/-- `all(ch.isdigit() or ch in ".+-" for ch in trimmed)`. -/
def isNumeric (trimmed : Text) : Bool :=
  trimmed.all fun ch => K.pyIsDigit ch || ch == '.' || ch == '+' || ch == '-'

/-- `released_ts_marks_released`. -/
def releasedTsMarksReleased : Json → Bool
  | .null => false
  | .bool b => b
  | .int n => 0 < n
  | .real x => 0 < x
  | .str value =>
    let trimmed := strip value
    let lowered := L.toLowercase trimmed
    if lowered == [] || lowered == "0".toList || lowered == "null".toList ||
        lowered == "none".toList then false
    else if isNumeric K trimmed then (K.pyFloat trimmed).any fun x => decide (0 < x)
    else true
  | .compound _ => false

/-- `is_expired`; a boolean is a number here. -/
def isExpired : Json → Bool
  | .null => true
  | .bool b => (if b then 1 else 0 : ℚ) ≤ K.hookNow
  | .int n => (n : ℚ) ≤ K.hookNow
  | .real x => x ≤ K.hookNow
  | .str value =>
    let trimmed := strip value
    if trimmed.isEmpty then true
    else if isNumeric K trimmed then
      (K.pyFloat trimmed).any fun x => decide (x ≤ ((K.hookNow : WithTop ℚ) : Double))
    else
      let iso := trimmed.flatMap fun c => if c = 'Z' then "+00:00".toList else [c]
      (K.pyFromIsoformat iso).any fun dt => decide (dt ≤ K.nowMicros)
  | .compound _ => false

/-- `str(value)`; a text is itself. -/
def str : Json → Text
  | .str t => t
  | value => K.pyStr value

/-- The entry that `get_active_reservations` appends. -/
structure Reservation where
  pathPattern : Text
  agentName : Text
  deriving DecidableEq

/-- One turn of the loop of `get_active_reservations`. -/
def readReservation (record : Artifact) : Option Reservation :=
  if releasedTsMarksReleased L K record.releasedTs then none
  else if isExpired K record.expiresTs then none
  else
    let pattern := strip (str K (orElse (orElse record.pathPattern record.path) (.str [])))
    let holder := strip (str K (orElse (orElse record.agentName record.agent) (.str [])))
    if pattern.isEmpty || holder.isEmpty || record.exclusive != .bool true then none
    else some { pathPattern := pattern, agentName := holder }

end Hook

/-! ### The guard -/

variable (K : Clock)

/-- `released_ts_marks_record_released`. -/
def releasedTsMarksRecordReleased : Json → Bool
  | .int n => 0 < n
  | .real x => 0 < x
  | .str text =>
    let trimmed := trim text
    if trimmed.isEmpty || eqIgnoreAsciiCase trimmed "null".toList ||
        eqIgnoreAsciiCase trimmed "none".toList || trimmed == "0".toList then false
    else if trimmed.all fun ch => ch.isDigit || ch == '.' || ch == '+' || ch == '-' then
      (K.parseF64 trimmed).any fun x => decide (0 < x)
    else true
  | _ => false

/-- `is_expired`. -/
def isExpired (tsStr : Text) : Bool :=
  match K.parseRfc3339 tsStr with
  | some dt => dt ≤ K.nowNanos
  | none =>
    match K.parseNaiveFraction tsStr with
    | some dt => dt ≤ K.nowNanos
    | none =>
      match K.parseNaive tsStr with
      | some dt => dt ≤ K.nowNanos
      | none =>
        match K.parseI64 tsStr with
        | some num => num ≤ K.nowMicros
        | none => false

/-- The text of `expires_ts`, or `none` where the reader skips the artifact. -/
def expiresStr : Json → Option Text
  | .str s => some s
  | .int num =>
    if num < i64Min ∨ i64Max < num then none
    else if num ≤ K.nowMicros then none
    else K.toRfc3339 num
  | _ => none

/-- `value.as_str()`. -/
def asStr : Json → Option Text
  | .str t => some t
  | _ => none

/-- `first.as_str().or_else(|| second.as_str()).map_or("", str::trim)`. -/
def trimmedText (first second : Json) : Text :=
  ((asStr first).or (asStr second)).elim [] trim

theorem trim_trimmedText (first second : Json) :
    trim (trimmedText first second) = trimmedText first second := by
  unfold trimmedText
  cases (asStr first).or (asStr second) with
  | none => rfl
  | some t => exact trim_trim t

/-- One artifact of `scan_reservation_artifacts` and `read_active_reservations_from_archive`. -/
def readReservation (record : Artifact) : Option FileReservationRecord :=
  if releasedTsMarksRecordReleased K record.releasedTs then none
  else
    match expiresStr K record.expiresTs with
    | none => none
    | some expires =>
      if isExpired K expires then none
      else
        let pattern := trimmedText record.pathPattern record.path
        let agentName := trimmedText record.agentName record.agent
        if pattern.isEmpty then none
        else
          match record.exclusive with
          | .bool exclusive =>
            if agentName.isEmpty then none
            else some {
              pathPattern := pattern
              agentName := agentName
              exclusive := exclusive
              expiresTs := expires
              trimmed := trim_trimmedText record.pathPattern record.path }
          | _ => none

end AgentMail.Guard
