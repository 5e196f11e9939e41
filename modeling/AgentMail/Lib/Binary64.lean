import AgentMail.Base.Values
import Mathlib.Data.Nat.Log
import Mathlib.Tactic.Ring

/-!
# Binary64 numbers

The interchange format with a sign bit, eleven exponent bits and a fraction of 52 bits. A finite
number is `scaled / 2 ^ 1074`, so that comparisons and negation are those of integers. The only
arithmetic here is the conversion of 64-bit integers, which rounds to nearest with ties to even.
-/

namespace AgentMail.Lib

open Base

/-- The bits of a number. -/
structure Binary64 where
  bits : Nat
  lt : bits < 2 ^ 64

namespace Binary64

def negative (x : Binary64) : Bool := decide (2 ^ 63 ≤ x.bits)

def exponent (x : Binary64) : Nat := x.bits / 2 ^ 52 % 2 ^ 11

def fraction (x : Binary64) : Nat := x.bits % 2 ^ 52

/-- `f64::is_finite`. -/
def isFinite (x : Binary64) : Bool := x.exponent != 2047

def isNan (x : Binary64) : Bool := x.exponent == 2047 && x.fraction != 0

/-- The magnitude, in units of `2 ^ -1074`. Subnormal numbers have no hidden bit. -/
def magnitude (x : Binary64) : Nat :=
  if x.exponent = 0 then x.fraction else (2 ^ 52 + x.fraction) * 2 ^ (x.exponent - 1)

/-- The value, in units of `2 ^ -1074`. -/
def scaled (x : Binary64) : Int := if x.negative then -(x.magnitude : Int) else x.magnitude

/-- `a < b`. -/
def lt' (a b : Binary64) : Bool := !a.isNan && !b.isNan && decide (a.scaled < b.scaled)

/-- `a = b`: the two zeros are equal. -/
def eq' (a b : Binary64) : Bool := !a.isNan && !b.isNan && decide (a.scaled = b.scaled)

def zero : Binary64 := ⟨0, by decide⟩

/-- The number below all others. -/
def negInfinity : Binary64 := ⟨2 ^ 64 - 2 ^ 52, by decide⟩

/-- What `total_cmp` compares. -/
def totalKey (x : Binary64) : Int := if x.negative then 2 ^ 63 - 1 - (x.bits : Int) else x.bits

/-- `-x`: the sign bit changes, also of a zero. -/
def neg (x : Binary64) : Binary64 :=
  if h : 2 ^ 63 ≤ x.bits then ⟨x.bits - 2 ^ 63, by have := x.lt; omega⟩
  else ⟨x.bits + 2 ^ 63, by omega⟩

/-- The significand of a magnitude with leading bit `e`, rounded to 53 bits. -/
def significand (a e : Nat) : Nat :=
  if e ≤ 52 then a * 2 ^ (52 - e)
  else
    let unit := 2 ^ (e - 52)
    let q := a / unit
    let r := a % unit
    if unit < 2 * r ∨ (unit = 2 * r ∧ q % 2 = 1) then q + 1 else q

/-- The bits of a rounded magnitude; a significand that rounds up to `2 ^ 53` carries into the
exponent. -/
def roundMagnitude (a : Nat) : Nat :=
  if a = 0 then 0 else (a.log2 + 1023) * 2 ^ 52 + (significand a a.log2 - 2 ^ 52)

theorem significand_zero : significand 0 (Nat.log2 0) = 0 := by decide

theorem significand_le (a : Nat) : significand a a.log2 ≤ 2 ^ 53 := by
  have hlt : a < 2 ^ (a.log2 + 1) := Nat.lt_log2_self
  unfold significand
  by_cases he : a.log2 ≤ 52
  · rw [if_pos he]
    calc a * 2 ^ (52 - a.log2) ≤ 2 ^ (a.log2 + 1) * 2 ^ (52 - a.log2) :=
          Nat.mul_le_mul_right _ (le_of_lt hlt)
      _ = 2 ^ 53 := by
          rw [← Nat.pow_add]
          congr 1
          omega
  · rw [if_neg he]
    have hq : a / 2 ^ (a.log2 - 52) < 2 ^ 53 := by
      rw [Nat.div_lt_iff_lt_mul (Nat.two_pow_pos _), ← Nat.pow_add]
      calc a < 2 ^ (a.log2 + 1) := hlt
        _ = 2 ^ (53 + (a.log2 - 52)) := by
          congr 1
          omega
    dsimp only
    split <;> omega

theorem roundMagnitude_lt {a : Nat} (h : a < 2 ^ 64) : roundMagnitude a < 2 ^ 63 := by
  unfold roundMagnitude
  by_cases ha : a = 0
  · rw [if_pos ha]
    exact Nat.two_pow_pos 63
  · rw [if_neg ha]
    have hlog : a.log2 < 64 := (Nat.log2_lt ha).mpr h
    have hsig := significand_le a
    omega

/-- `n as f64`, and `CAST(n AS REAL)`. -/
def ofInt (n : I64) : Binary64 :=
  have h : n.1.natAbs < 2 ^ 64 := by
    have := n.2
    unfold i64Min i64Max at this
    omega
  ⟨(if n.1 < 0 then 2 ^ 63 else 0) + roundMagnitude n.1.natAbs, by
    have := roundMagnitude_lt h
    split <;> omega⟩

/-- The conversion keeps the value. -/
def Exact (n : I64) : Prop := (ofInt n).scaled = n.1 * 2 ^ 1074

instance (n : I64) : Decidable (Exact n) := inferInstanceAs (Decidable (_ = _))

/-! ### Fields of assembled numbers -/

theorem exponent_low {x : Binary64} {e f : Nat} (hf : f < 2 ^ 52) (he : e < 2 ^ 11)
    (s : Bool) (h : x.bits = (if s then 2 ^ 63 else 0) + (e * 2 ^ 52 + f)) :
    x.exponent = e ∧ x.fraction = f ∧ x.negative = s := by
  unfold exponent fraction negative
  cases s with
  | false =>
    rw [if_neg Bool.false_ne_true] at h
    refine ⟨by omega, by omega, ?_⟩
    rw [decide_eq_false_iff_not]
    omega
  | true =>
    rw [if_pos rfl] at h
    refine ⟨by omega, by omega, ?_⟩
    rw [decide_eq_true_eq]
    omega

@[simp] theorem scaled_zero : zero.scaled = 0 := by decide

/-- Negation keeps exponent and fraction. -/
theorem neg_fields (x : Binary64) :
    x.neg.exponent = x.exponent ∧ x.neg.fraction = x.fraction ∧ x.neg.negative = !x.negative := by
  have hlt := x.lt
  unfold neg exponent fraction negative
  split
  · next h =>
    rw [decide_eq_true h, Bool.not_true, decide_eq_false_iff_not]
    dsimp only
    omega
  · next h =>
    rw [decide_eq_false h, Bool.not_false, decide_eq_true_eq]
    dsimp only
    omega

@[simp] theorem isFinite_neg (x : Binary64) : x.neg.isFinite = x.isFinite := by
  rw [isFinite, isFinite, (neg_fields x).1]

@[simp] theorem isNan_neg (x : Binary64) : x.neg.isNan = x.isNan := by
  rw [isNan, isNan, (neg_fields x).1, (neg_fields x).2.1]

@[simp] theorem scaled_neg (x : Binary64) : x.neg.scaled = -x.scaled := by
  obtain ⟨he, hf, hs⟩ := neg_fields x
  have hmag : x.neg.magnitude = x.magnitude := by rw [magnitude, magnitude, he, hf]
  rw [scaled, scaled, hs, hmag]
  cases x.negative <;> simp

theorem isNan_of_isFinite {x : Binary64} (h : x.isFinite = true) : x.isNan = false := by
  rw [isFinite, bne_iff_ne] at h
  rw [isNan, beq_eq_false_iff_ne.mpr h, Bool.false_and]

/-- What is finite is above the number below all others. -/
theorem negInfinity_lt {x : Binary64} (h : x.isFinite = true) : negInfinity.lt' x = true := by
  have hexp : x.exponent ≤ 2046 := by
    have hmod : x.exponent < 2 ^ 11 := Nat.mod_lt _ (by decide)
    rw [isFinite, bne_iff_ne] at h
    omega
  have hfraction : x.fraction < 2 ^ 52 := Nat.mod_lt _ (by decide)
  have hdouble : ∀ n, (2 ^ 52 * 2) * 2 ^ n = 2 ^ 52 * 2 ^ (n + 1) := by
    intro n
    rw [Nat.mul_assoc, ← Nat.pow_succ']
  have hmag : x.magnitude < 2 ^ 52 * 2 ^ 2046 := by
    unfold magnitude
    split
    · exact lt_of_lt_of_le hfraction (Nat.le_mul_of_pos_right _ (Nat.two_pow_pos _))
    · apply lt_of_lt_of_le (b := (2 ^ 52 * 2) * 2 ^ (x.exponent - 1))
      · exact Nat.mul_lt_mul_of_pos_right (by omega) (Nat.two_pow_pos _)
      · rw [hdouble]
        exact Nat.mul_le_mul_left _ (Nat.pow_le_pow_right (by decide) (by omega))
  have hscaled : negInfinity.scaled = -((2 ^ 52 * 2 ^ 2046 : Nat) : Int) := by
    have hnegative : negInfinity.negative = true := by decide
    have hexponent : negInfinity.exponent = 2047 := by decide
    have hfrac : negInfinity.fraction = 0 := by decide
    unfold scaled magnitude
    rw [hnegative, hexponent, hfrac, if_pos rfl, if_neg (by decide), Nat.add_zero]
  generalize 2 ^ 52 * 2 ^ 2046 = top at hmag hscaled
  have hnan : negInfinity.isNan = false := by decide
  have hbelow : negInfinity.scaled < x.scaled := by
    rw [hscaled, scaled]
    split <;> omega
  rw [lt', hnan, isNan_of_isFinite h, decide_eq_true hbelow]
  rfl

/-! ### Converted integers -/

theorem significand_ge {a : Nat} (ha : a ≠ 0) : 2 ^ 52 ≤ significand a a.log2 := by
  have hge : 2 ^ a.log2 ≤ a := Nat.log2_self_le ha
  unfold significand
  by_cases he : a.log2 ≤ 52
  · rw [if_pos he]
    calc 2 ^ 52 = 2 ^ a.log2 * 2 ^ (52 - a.log2) := by
          rw [← Nat.pow_add]
          congr 1
          omega
      _ ≤ a * 2 ^ (52 - a.log2) := Nat.mul_le_mul_right _ hge
  · rw [if_neg he]
    have hq : 2 ^ 52 ≤ a / 2 ^ (a.log2 - 52) := by
      rw [Nat.le_div_iff_mul_le (Nat.two_pow_pos _), ← Nat.pow_add]
      calc 2 ^ (52 + (a.log2 - 52)) = 2 ^ a.log2 := by
            congr 1
            omega
        _ ≤ a := hge
    dsimp only
    split <;> omega

/-- The exponent field of a rounded magnitude, and what stands below it. -/
theorem roundMagnitude_fields {a : Nat} (ha : a ≠ 0) : ∃ f < 2 ^ 52, ∃ e,
    roundMagnitude a = e * 2 ^ 52 + f ∧ 1 ≤ e ∧ e ≤ a.log2 + 1024 ∧
      (2 ^ 52 + f) * 2 ^ (e - 1) = significand a a.log2 * 2 ^ (a.log2 + 1022) := by
  have hle := significand_le a
  have hge := significand_ge ha
  unfold roundMagnitude
  rw [if_neg ha]
  by_cases hcarry : significand a a.log2 = 2 ^ 53
  · refine ⟨0, by omega, a.log2 + 1024, by rw [hcarry]; omega, by omega, by omega, ?_⟩
    rw [hcarry, show a.log2 + 1024 - 1 = 1 + (a.log2 + 1022) by omega, Nat.pow_add, ← Nat.mul_assoc]
    rfl
  · refine ⟨significand a a.log2 - 2 ^ 52, by omega, a.log2 + 1023, rfl, by omega, by omega, ?_⟩
    rw [Nat.add_sub_cancel' hge]
    rfl

/-- A converted integer is its rounded magnitude with its sign. -/
theorem ofInt_spec (n : I64) : (ofInt n).isFinite = true ∧
    (ofInt n).scaled = (if n.1 < 0 then -1 else 1) *
      (significand n.1.natAbs n.1.natAbs.log2 * 2 ^ (n.1.natAbs.log2 + 1022) : Nat) := by
  have hn := n.2
  unfold i64Min i64Max at hn
  by_cases hzero : n.1 = 0
  · have hof : ofInt n = zero := by
      unfold ofInt zero
      simp [hzero, roundMagnitude]
    rw [hof, hzero, Int.natAbs_zero, significand_zero, Nat.zero_mul, scaled_zero]
    exact ⟨by decide, (Int.mul_zero _).symm⟩
  have ha : n.1.natAbs ≠ 0 := by omega
  have hlog : n.1.natAbs.log2 < 64 := (Nat.log2_lt ha).mpr (by omega)
  obtain ⟨f, hf, e, hbits, hone, hle, hvalue⟩ := roundMagnitude_fields ha
  have hsign : (ofInt n).bits = (if decide (n.1 < 0) then 2 ^ 63 else 0) + (e * 2 ^ 52 + f) := by
    simp only [ofInt, hbits, decide_eq_true_eq]
  obtain ⟨hexp, hfrac, hneg⟩ := exponent_low hf (by omega) _ hsign
  constructor
  · rw [isFinite, hexp, bne_iff_ne]
    omega
  · have hmag : (ofInt n).magnitude =
        significand n.1.natAbs n.1.natAbs.log2 * 2 ^ (n.1.natAbs.log2 + 1022) := by
      rw [magnitude, hexp, hfrac, if_neg (Nat.ne_of_gt hone), hvalue]
    rw [scaled, hneg, hmag]
    by_cases hlt : n.1 < 0
    · rw [decide_eq_true hlt, if_pos rfl, if_pos hlt, Int.neg_one_mul]
    · rw [decide_eq_false hlt, if_neg Bool.false_ne_true, if_neg hlt, Int.one_mul]

theorem isFinite_ofInt (n : I64) : (ofInt n).isFinite = true := (ofInt_spec n).1

/-- No bit is rounded away from a magnitude with at most 53 significant bits. -/
theorem significand_exact {a m k : Nat} (hm : m ≤ 2 ^ 53) (hn : a = m * 2 ^ k) :
    significand a a.log2 * 2 ^ (a.log2 + 1022) = a * 2 ^ 1074 := by
  by_cases ha : a = 0
  · have hzero (x y : Nat) : 0 * x = 0 * y := by rw [Nat.zero_mul, Nat.zero_mul]
    rw [ha, significand_zero, hzero _ (2 ^ 1074)]
  have hge : 2 ^ a.log2 ≤ a := Nat.log2_self_le ha
  unfold significand
  by_cases he : a.log2 ≤ 52
  · rw [if_pos he, Nat.mul_assoc, ← Nat.pow_add, show 52 - a.log2 + (a.log2 + 1022) = 1074 by omega]
  · -- the bits below the significand are zero
    have hdvd : 2 ^ (a.log2 - 52) ∣ a := by
      by_cases hk : a.log2 - 52 ≤ k
      · have hpow : 2 ^ (a.log2 - 52) ∣ m * 2 ^ k := (Nat.pow_dvd_pow 2 hk).mul_left m
        rwa [← hn] at hpow
      · have hpow : 2 ^ a.log2 ≤ 2 ^ (53 + k) := by
          calc 2 ^ a.log2 ≤ m * 2 ^ k := hn ▸ hge
            _ ≤ 2 ^ 53 * 2 ^ k := Nat.mul_le_mul_right _ hm
            _ = 2 ^ (53 + k) := (Nat.pow_add 2 53 k).symm
        have hlog : a.log2 = 53 + k := by
          have := (Nat.pow_le_pow_iff_right (by omega)).mp hpow
          omega
        have ha' : a = 2 ^ (53 + k) := by
          apply Nat.le_antisymm
          · rw [Nat.pow_add]
            exact hn ▸ Nat.mul_le_mul_right _ hm
          · rw [← hlog]
            exact hge
        rw [ha', Nat.log2_two_pow]
        exact Nat.pow_dvd_pow 2 (by omega)
    have hr : a % 2 ^ (a.log2 - 52) = 0 := Nat.mod_eq_zero_of_dvd hdvd
    have hunit := Nat.two_pow_pos (a.log2 - 52)
    rw [if_neg he]
    dsimp only
    rw [hr, if_neg (by omega), show a.log2 + 1022 = a.log2 - 52 + 1074 by omega, Nat.pow_add,
      ← Nat.mul_assoc, Nat.div_mul_cancel hdvd]

/-- An integer with at most 53 significant bits is converted exactly. -/
theorem exact_of_mul_two_pow {n : I64} {m k : Nat} (hm : m ≤ 2 ^ 53)
    (hn : n.1.natAbs = m * 2 ^ k) : Exact n := by
  have hsign : (if n.1 < 0 then -1 else 1) * (n.1.natAbs : Int) = n.1 := by
    split <;> omega
  rw [Exact, (ofInt_spec n).2, significand_exact hm hn, Int.natCast_mul, ← Int.mul_assoc, hsign,
    Int.natCast_pow]
  rfl

section

variable {m n : I64}

theorem two_pow_pos_int : (0 : Int) < 2 ^ 1074 := Int.pow_pos (by decide)

/-- Exactly converted integers are ordered as they were. -/
theorem lt'_ofInt (hm : Exact m) (hn : Exact n) : (ofInt m).lt' (ofInt n) = decide (m.1 < n.1) := by
  rw [lt', isNan_of_isFinite (isFinite_ofInt m), isNan_of_isFinite (isFinite_ofInt n), hm, hn]
  simp only [Bool.not_false, Bool.true_and, decide_eq_decide]
  exact Int.mul_lt_mul_right two_pow_pos_int

theorem eq'_ofInt (hm : Exact m) (hn : Exact n) : (ofInt m).eq' (ofInt n) = decide (m.1 = n.1) := by
  rw [eq', isNan_of_isFinite (isFinite_ofInt m), isNan_of_isFinite (isFinite_ofInt n), hm, hn]
  simp only [Bool.not_false, Bool.true_and, decide_eq_decide]
  exact Int.mul_eq_mul_right_iff (Int.ne_of_gt two_pow_pos_int)

end

/-- Negation turns the order round. -/
theorem lt'_neg (a b : Binary64) : a.neg.lt' b.neg = b.lt' a := by
  rw [lt', lt', isNan_neg, isNan_neg, scaled_neg, scaled_neg, Bool.and_comm (!a.isNan),
    decide_eq_decide.mpr Int.neg_lt_neg_iff]

theorem eq'_neg (a b : Binary64) : a.neg.eq' b.neg = a.eq' b := by
  rw [eq', eq', isNan_neg, isNan_neg, scaled_neg, scaled_neg, decide_eq_decide.mpr Int.neg_inj]

end Binary64

end AgentMail.Lib
