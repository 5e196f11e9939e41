import AgentMail.Base.Decimal
import AgentMail.Lib.Binary64

/-!
# The pagination token

`SearchCursor` of `search_planner.rs`: the bits of a score in sixteen hexadecimal digits and a
decimal row id.
-/

namespace AgentMail.Search

open Base Lib Artifact List

/-- `SearchCursor`. -/
structure SearchCursor where
  score : Binary64
  id : I64

/-- The lowest `width` hexadecimal digits, as `{:0width$x}` prints them. -/
def hexDigits : Nat → Nat → Text
  | 0, _ => []
  | width + 1, n => hexDigits width (n / 16) ++ [Nat.digitChar (n % 16)]

/-- `char::to_digit(16)`. -/
def hexVal (c : Char) : Option Nat :=
  if '0' ≤ c ∧ c ≤ '9' then some (c.toNat - 48)
  else if 'a' ≤ c ∧ c ≤ 'f' then some (c.toNat - 87)
  else if 'A' ≤ c ∧ c ≤ 'F' then some (c.toNat - 55)
  else none

/-- The value of a text of hexadecimal digits. -/
def hexDigitsVal (t : Text) : Option Nat :=
  t.foldl (fun acc c => acc.bind fun n => (hexVal c).map fun d => 16 * n + d) (some 0)

/-- `u64::from_str_radix(text, 16)`. -/
def fromStrRadix16 (t : Text) : Option Nat :=
  let digits := (stripHead ['+'] t).getD t
  if digits.isEmpty then none else (hexDigitsVal digits).filter fun n => n < 2 ^ 64

/-- `f64::from_bits`. -/
def fromBits (bits : Nat) : Option Binary64 :=
  if h : bits < 2 ^ 64 then some ⟨bits, h⟩ else none

/-- `SearchCursor::encode`. -/
def SearchCursor.encode (c : SearchCursor) : Text :=
  's' :: hexDigits 16 c.score.bits ++ ":i".toList ++ intText c.id.1

/-- An `i64` of a value that was read as one. -/
def toI64 (n : Int) : Option I64 := if h : i64Min ≤ n ∧ n ≤ i64Max then some ⟨n, h⟩ else none

/-- `SearchCursor::decode`; scores that are not finite are rejected. -/
def SearchCursor.decode (token : Text) : Option SearchCursor :=
  (splitOnce ":i".toList token).bind fun parts =>
    (stripHead ['s'] parts.1).bind fun hex =>
      (fromStrRadix16 hex).bind fun bits =>
        (fromBits bits).bind fun score =>
          if score.isFinite then
            (parseI64 parts.2).bind fun id => (toI64 id).map fun id => ⟨score, id⟩
          else none

/-! ### Round trip -/

theorem hexVal_digitChar {d : Nat} (h : d < 16) : hexVal (Nat.digitChar d) = some d := by
  have hall : ∀ d < 16, hexVal (Nat.digitChar d) = some d := by decide
  exact hall d h

theorem hexDigitsVal_concat (t : Text) (c : Char) : hexDigitsVal (t ++ [c]) =
    (hexDigitsVal t).bind fun n => (hexVal c).map fun d => 16 * n + d := by
  rw [hexDigitsVal, foldl_append]
  rfl

theorem hexDigitsVal_hexDigits {width n : Nat} (h : n < 16 ^ width) :
    hexDigitsVal (hexDigits width n) = some n := by
  induction width generalizing n with
  | zero =>
    have hzero : n = 0 := by
      rw [Nat.pow_zero] at h
      omega
    rw [hzero]
    rfl
  | succ width ih =>
    have hdiv : n / 16 < 16 ^ width := by
      rw [Nat.pow_succ] at h
      omega
    rw [hexDigits, hexDigitsVal_concat, ih hdiv, Option.bind_some,
      hexVal_digitChar (Nat.mod_lt n (by omega)), Option.map_some, Nat.div_add_mod]

theorem length_hexDigits (width n : Nat) : (hexDigits width n).length = width := by
  induction width generalizing n with
  | zero => rfl
  | succ width ih => rw [hexDigits, length_append, ih, length_singleton]

theorem hexDigit_ne {width n : Nat} {c : Char} (h : c ∈ hexDigits width n) : c ≠ '+' ∧ c ≠ ':' := by
  have hall : ∀ d < 16, Nat.digitChar d ≠ '+' ∧ Nat.digitChar d ≠ ':' := by decide
  induction width generalizing n with
  | zero => cases h
  | succ width ih =>
    rw [hexDigits, mem_append, mem_singleton] at h
    rcases h with h | rfl
    · exact ih h
    · exact hall _ (Nat.mod_lt n (by omega))

theorem fromStrRadix16_hexDigits {n : Nat} (h : n < 2 ^ 64) :
    fromStrRadix16 (hexDigits 16 n) = some n := by
  have hsign : stripHead ['+'] (hexDigits 16 n) = none := by
    unfold stripHead
    rw [if_neg]
    intro hhead
    have hmem : '+' ∈ hexDigits 16 n :=
      (List.isPrefixOf_iff_prefix.mp hhead).subset (mem_singleton_self _)
    exact (hexDigit_ne hmem).1 rfl
  have hne : (hexDigits 16 n).isEmpty = false := by
    rw [isEmpty_eq_false_iff]
    intro hnil
    have hlength := length_hexDigits 16 n
    rw [hnil] at hlength
    cases hlength
  have hval : hexDigitsVal (hexDigits 16 n) = some n := hexDigitsVal_hexDigits (by omega)
  simp only [fromStrRadix16, hsign, Option.getD_none, hne, hval, Option.filter_some, decide_eq_true h,
    if_true, Bool.false_eq_true, if_false]

/-- A text is cut at the first place where a pattern stands. -/
theorem splitOnce_append {front pattern back : Text} {c : Char} (hhead : pattern.head? = some c)
    (hfront : c ∉ front) : splitOnce pattern (front ++ pattern ++ back) = some (front, back) := by
  obtain ⟨tail, rfl⟩ : ∃ tail, pattern = c :: tail := by
    cases pattern with
    | nil => cases hhead
    | cons d tail =>
      rw [List.head?_cons, Option.some_inj] at hhead
      exact ⟨tail, by rw [hhead]⟩
  have hfind : findFrom (c :: tail) (front ++ c :: tail ++ back) 0 = some front.length := by
    rw [findFrom, List.find?_range'_eq_some, mem_range'_1]
    refine ⟨?_, ?_, ?_⟩
    · rw [append_assoc, drop_left, List.isPrefixOf_iff_prefix]
      exact prefix_append _ _
    · simp only [length_append, length_cons]
      omega
    · -- earlier the first character of the pattern would stand in the front
      intro i _ hi
      rw [Bool.not_eq_true', ← Bool.not_eq_true, List.isPrefixOf_iff_prefix]
      intro hprefix
      have hget : (front ++ c :: tail ++ back)[i]? = some c := by
        obtain ⟨rest, hrest⟩ := hprefix
        have hdrop := congrArg (·[0]?) hrest
        simpa [List.getElem?_drop] using hdrop.symm
      rw [append_assoc, List.getElem?_append_left hi] at hget
      exact hfront (mem_of_getElem? hget)
  rw [splitOnce, hfind, Option.map_some, append_assoc, take_left]
  congr 2
  rw [← append_assoc, drop_append_of_le_length (by simp), drop_of_length_le (by simp), nil_append]

/-- A token with a finite score is decoded to the cursor that was encoded. -/
theorem SearchCursor.decode_encode {c : SearchCursor} (h : c.score.isFinite = true) :
    SearchCursor.decode c.encode = some c := by
  have hcolon : ':' ∉ 's' :: hexDigits 16 c.score.bits := by
    rw [mem_cons, not_or]
    exact ⟨by decide, fun hmem => (hexDigit_ne hmem).2 rfl⟩
  have hsplit : splitOnce ":i".toList c.encode =
      some ('s' :: hexDigits 16 c.score.bits, intText c.id.1) := splitOnce_append rfl hcolon
  have hstrip : stripHead ['s'] ('s' :: hexDigits 16 c.score.bits) =
      some (hexDigits 16 c.score.bits) := by
    have hhead : ['s'].isPrefixOf ('s' :: hexDigits 16 c.score.bits) = true :=
      List.isPrefixOf_iff_prefix.mpr (prefix_append ['s'] _)
    rw [stripHead, if_pos hhead]
    rfl
  have hbits : fromBits c.score.bits = some c.score := dif_pos c.score.lt
  have hid : toI64 c.id.1 = some c.id := dif_pos c.id.2
  rw [decode, hsplit, Option.bind_some, hstrip, Option.bind_some,
    fromStrRadix16_hexDigits c.score.lt, Option.bind_some, hbits, Option.bind_some, if_pos h,
    parseI64_intText, Option.bind_some, hid, Option.map_some]

end AgentMail.Search
