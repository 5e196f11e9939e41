import AgentMail.Base.Text
import AgentMail.Base.Values
import Mathlib.Data.Nat.Digits.Defs

/-!
# JSON values, decimal integers and timestamps

The values that `serde_json` returns, with the accessors that the program calls, and the ways in
which a timestamp is read from one. `iso_to_micros`
(`crates/mcp-agent-mail-core/src/timestamps.rs:37–185`) rests on the date library; what it takes
from it is a `DateParsers`.
-/

namespace AgentMail.Base

open List

/-! ### Values -/

/-- `serde_json::Value`. Of a number that is not an integer only its spelling is kept. -/
inductive Json where
  | null
  | bool (b : Bool)
  | int (n : Int)
  | float (spelling : Text)
  | str (t : Text)
  | arr (values : List Json)
  | obj (fields : List (Text × Json))

namespace Json

/-- `value.get(key)`. -/
def get? (key : Text) : Json → Option Json
  | obj fields => (fields.find? fun f => f.1 == key).map Prod.snd
  | _ => none

/-- `Value::as_str`. -/
def asStr : Json → Option Text
  | str t => some t
  | _ => none

/-- `Value::as_bool`. -/
def asBool : Json → Option Bool
  | bool b => some b
  | _ => none

/-- `Value::as_i64`. -/
def asI64 : Json → Option Int
  | int n => if i64Min ≤ n ∧ n ≤ i64Max then some n else none
  | _ => none

/-- `Value::as_u64`. -/
def asU64 : Json → Option Nat
  | int n => if 0 ≤ n ∧ n < 2 ^ 64 then some n.toNat else none
  | _ => none

/-- `value[key]`, which is `Null` where there is no such field. -/
def index (key : Text) (value : Json) : Json := (value.get? key).getD null

def isString : Json → Bool
  | str _ => true
  | _ => false

def isObject : Json → Bool
  | obj _ => true
  | _ => false

/-- `json_str` of the rebuild. -/
def strField (key : Text) (value : Json) : Option Text := (value.get? key).bind asStr

end Json

/-! ### Decimal integers -/

/-- The value of an ASCII digit. -/
def digitVal (c : Char) : Option Nat := if c.isDigit then some (c.toNat - '0'.toNat) else none

/-- The value of a text of digits. -/
def digitsVal (t : Text) : Option Nat :=
  t.foldl (fun acc c => acc.bind fun n => (digitVal c).map fun d => 10 * n + d) (some 0)

/-- `text.parse::<i64>()`: an optional sign, then digits only, within the range. -/
def parseI64 (t : Text) : Option Int :=
  let value := match t with
    | '+' :: rest => if rest.isEmpty then none else (digitsVal rest).map fun n => (n : Int)
    | '-' :: rest => if rest.isEmpty then none else (digitsVal rest).map fun n => -(n : Int)
    | rest => if rest.isEmpty then none else (digitsVal rest).map fun n => (n : Int)
  value.filter fun n => i64Min ≤ n && n ≤ i64Max

/-- The decimal digits of a number, as `format!` prints them. -/
def natText (n : Nat) : Text :=
  if n = 0 then ['0'] else ((Nat.digits 10 n).map Nat.digitChar).reverse

theorem digitChar_injective {m n : Nat} (hm : m < 16) (hn : n < 16)
    (h : Nat.digitChar m = Nat.digitChar n) : m = n := by
  have hall : ∀ m < 16, ∀ n < 16, Nat.digitChar m = Nat.digitChar n → m = n := by decide
  exact hall m hm n hn h

theorem isDigit_of_mem_natText {n : Nat} {c : Char} (h : c ∈ natText n) : c.isDigit = true := by
  have hall : ∀ d < 10, (Nat.digitChar d).isDigit = true := by decide
  rw [natText] at h
  split at h
  · rw [mem_singleton.mp h]
    rfl
  · rw [mem_reverse, mem_map] at h
    obtain ⟨d, hd, rfl⟩ := h
    exact hall d (Nat.digits_lt_base (by omega) hd)

theorem map_digitChar_injective {l l' : List Nat} (hl : ∀ d ∈ l, d < 10) (hl' : ∀ d ∈ l', d < 10)
    (h : l.map Nat.digitChar = l'.map Nat.digitChar) : l = l' := by
  induction l generalizing l' with
  | nil => exact (map_eq_nil_iff.mp h.symm).symm
  | cons d l ih =>
    cases l' with
    | nil => cases h
    | cons d' l' =>
      rw [forall_mem_cons] at hl hl'
      rw [map_cons, map_cons, List.cons.injEq] at h
      have hd := hl.1
      have hd' := hl'.1
      rw [digitChar_injective (by omega) (by omega) h.1, ih hl.2 hl'.2 h.2]

theorem natText_injective {m n : Nat} (h : natText m = natText n) : m = n := by
  have hlt (k : Nat) : ∀ d ∈ Nat.digits 10 k, d < 10 := fun d hd =>
    Nat.digits_lt_base (by omega) hd
  -- Only zero is printed with a zero in front.
  have hzero {k : Nat} (hk : k ≠ 0) : ((Nat.digits 10 k).map Nat.digitChar).reverse ≠ ['0'] := by
    intro heq
    have hmap : (Nat.digits 10 k).map Nat.digitChar = [0].map Nat.digitChar := by
      rw [← reverse_inj]
      exact heq
    have hdigits := map_digitChar_injective (hlt k) (by simp) hmap
    have hback := Nat.ofDigits_digits 10 k
    rw [hdigits] at hback
    exact hk hback.symm
  rw [natText, natText] at h
  split at h
  · next hm =>
    split at h
    · next hn => rw [hm, hn]
    · next hn => exact absurd h.symm (hzero hn)
  · next hm =>
    split at h
    · next hn => exact absurd h (hzero hm)
    · exact Nat.digits_inj_iff.mp
        (map_digitChar_injective (hlt m) (hlt n) (reverse_injective h))

/-! ### Timestamps -/

/-- What the date library reads, in microseconds. -/
structure DateParsers where
  /-- `DateTime::parse_from_rfc3339`. -/
  rfc3339 : Text → Option Int
  /-- `NaiveDateTime::parse_from_str` with `%Y-%m-%dT%H:%M:%S%.fZ`. -/
  naiveZ : Text → Option Int
  /-- `NaiveDateTime::parse_from_str` with `%Y-%m-%dT%H:%M:%S%.f`. -/
  naiveFraction : Text → Option Int
  /-- `NaiveDateTime::parse_from_str` with `%Y-%m-%dT%H:%M:%S`. -/
  naive : Text → Option Int

/-- `iso_to_micros`. -/
def isoToMicros (D : DateParsers) (s : Text) : Option Int :=
  (D.rfc3339 s).or <| (D.naiveZ s).or <| (D.naiveFraction s).or (D.naive s)

/-- `parse_ts_from_json` and `parse_json_micros`: an integer, or a text that is one or a date. -/
def parseTs (D : DateParsers) (key : Text) (value : Json) : Option Int :=
  (value.get? key).bind fun field =>
    match field with
    | .int _ => field.asI64
    | .str s =>
      let s := trim s
      if s.isEmpty then none else (parseI64 s).or (isoToMicros D s)
    | _ => none

end AgentMail.Base
