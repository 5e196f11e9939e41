import AgentMail.Base.Json
import Mathlib.Data.Vector.Defs

/-!
# Bytes

UTF-8, hexadecimal digits and little-endian numbers, each with the fact that two values with the same
bytes are the same value.
-/

namespace AgentMail.Base

open List

abbrev Bytes : Type := List UInt8

def newline : UInt8 := 10

/-- `str::as_bytes`. -/
def utf8 (t : Text) : Bytes := t.flatMap String.utf8EncodeChar

/-- `hex::encode`. -/
def hexEncode (bytes : Bytes) : Text :=
  bytes.flatMap fun b => [Nat.digitChar (b.toNat / 16), Nat.digitChar (b.toNat % 16)]

/-- `hex::val`. -/
def hexValue (c : Char) : Option Nat :=
  if 'A' ≤ c ∧ c ≤ 'F' then some (c.toNat - 'A'.toNat + 10)
  else if 'a' ≤ c ∧ c ≤ 'f' then some (c.toNat - 'a'.toNat + 10)
  else if '0' ≤ c ∧ c ≤ '9' then some (c.toNat - '0'.toNat)
  else none

/-- `hex::decode`. -/
def hexDecode : Text → Option Bytes
  | [] => some []
  | [_] => none
  | high :: low :: rest => do
    let high ← hexValue high
    let low ← hexValue low
    let bytes ← hexDecode rest
    return UInt8.ofNat (16 * high + low) :: bytes

/-- The low `k` bytes of a number, the lowest first; `to_le_bytes` of a `u64` are eight. -/
def leBytes : Nat → Nat → Bytes
  | 0, _ => []
  | k + 1, n => UInt8.ofNat n :: leBytes k (n / 256)

/-! ### UTF-8 -/

theorem utf8_injective {t t' : Text} (h : utf8 t = utf8 t') : t = t' := by
  have hencode : t.utf8Encode = t'.utf8Encode := congrArg List.toByteArray h
  have hdecode := congrArg ByteArray.utf8Decode? hencode
  rw [List.utf8Decode?_utf8Encode, List.utf8Decode?_utf8Encode] at hdecode
  simpa using hdecode

theorem length_utf8 (t : Text) : (utf8 t).length = byteLen t := by
  induction t with
  | nil => rfl
  | cons c t ih =>
    rw [utf8, flatMap_cons, length_append, String.length_utf8EncodeChar, byteLen,
      map_cons, sum_cons]
    exact congrArg _ ih

theorem byteLen_eq_length {t : Text} (h : ∀ c ∈ t, c.utf8Size = 1) : byteLen t = t.length := by
  unfold byteLen
  rw [map_eq_replicate_iff.mpr h]
  simp

/-! ### Hexadecimal digits -/

theorem digitChar_utf8Size {n : Nat} (h : n < 16) : (Nat.digitChar n).utf8Size = 1 := by
  have hall : ∀ n < 16, (Nat.digitChar n).utf8Size = 1 := by decide
  exact hall n h

theorem nibbles_lt (b : UInt8) : b.toNat / 16 < 16 ∧ b.toNat % 16 < 16 := by
  have := b.toNat_lt
  omega

theorem forall_mem_hexEncode {P : Char → Prop} (h : ∀ n < 16, P (Nat.digitChar n))
    {bytes : Bytes} : ∀ c ∈ hexEncode bytes, P c := by
  intro c hc
  obtain ⟨b, _, hc⟩ := mem_flatMap.mp hc
  have hlt := nibbles_lt b
  rw [mem_cons, mem_singleton] at hc
  rcases hc with rfl | rfl
  · exact h _ hlt.1
  · exact h _ hlt.2

theorem utf8Size_hexEncode {bytes : Bytes} : ∀ c ∈ hexEncode bytes, c.utf8Size = 1 :=
  forall_mem_hexEncode fun _ => digitChar_utf8Size

theorem length_hexEncode (bytes : Bytes) : (hexEncode bytes).length = 2 * bytes.length := by
  induction bytes with
  | nil => rfl
  | cons b bytes ih =>
    show (_ :: _ :: hexEncode bytes).length = _
    rw [length_cons, length_cons, ih, length_cons]
    omega

theorem hexEncode_injective {bytes bytes' : Bytes} (h : hexEncode bytes = hexEncode bytes') :
    bytes = bytes' := by
  induction bytes generalizing bytes' with
  | nil =>
    cases bytes' with
    | nil => rfl
    | cons b' bytes' => cases h
  | cons b bytes ih =>
    cases bytes' with
    | nil => cases h
    | cons b' bytes' =>
      have hcons : Nat.digitChar (b.toNat / 16) :: Nat.digitChar (b.toNat % 16) :: hexEncode bytes =
          Nat.digitChar (b'.toNat / 16) :: Nat.digitChar (b'.toNat % 16) :: hexEncode bytes' := h
      rw [cons_eq_cons, cons_eq_cons] at hcons
      obtain ⟨hhigh, hlow, hrest⟩ := hcons
      have hdiv := digitChar_injective (nibbles_lt b).1 (nibbles_lt b').1 hhigh
      have hmod := digitChar_injective (nibbles_lt b).2 (nibbles_lt b').2 hlow
      have hb : b = b' := UInt8.toNat_inj.mp (by omega)
      rw [hb, ih hrest]

theorem map_toLower_hexEncode (bytes : Bytes) :
    (hexEncode bytes).map Char.toLower = hexEncode bytes := by
  have hsmall : ∀ n < 16, (Nat.digitChar n).toLower = Nat.digitChar n := by decide
  induction bytes with
  | nil => rfl
  | cons b bytes ih =>
    show Char.toLower _ :: Char.toLower _ :: (hexEncode bytes).map Char.toLower = _
    rw [hsmall _ (nibbles_lt b).1, hsmall _ (nibbles_lt b).2, ih]
    rfl

/-! ### Numbers -/

theorem length_leBytes (k n : Nat) : (leBytes k n).length = k := by
  induction k generalizing n with
  | zero => rfl
  | succ k ih => rw [leBytes, length_cons, ih]

theorem leBytes_injective {k m n : Nat} (hm : m < 256 ^ k) (hn : n < 256 ^ k)
    (h : leBytes k m = leBytes k n) : m = n := by
  induction k generalizing m n with
  | zero =>
    rw [pow_zero] at hm hn
    omega
  | succ k ih =>
    rw [leBytes, leBytes, List.cons.injEq] at h
    have hlow : m % 256 = n % 256 := by
      have := congrArg UInt8.toNat h.1
      simpa using this
    rw [pow_succ] at hm hn
    have hhigh : m / 256 = n / 256 :=
      ih (Nat.div_lt_of_lt_mul (by omega)) (Nat.div_lt_of_lt_mul (by omega)) h.2
    omega

end AgentMail.Base
