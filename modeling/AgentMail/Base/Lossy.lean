import AgentMail.Base.Bytes

/-!
# Reading bytes as text

`String::from_utf8_lossy`: well-formed UTF-8 is read, and every longest start of a well-formed
character that is cut off, or byte that starts none, becomes one replacement character.
-/

namespace AgentMail.Base

open List

/-- Where a continuation byte has to lie. -/
abbrev ByteRange : Type := UInt8 × UInt8

def ByteRange.holds (r : ByteRange) (b : UInt8) : Bool := r.1 ≤ b && b ≤ r.2

/-- The continuation bytes that a first byte asks for. -/
def continuations (b : UInt8) : Option (List ByteRange) :=
  let any : ByteRange := (0x80, 0xBF)
  if b < 0x80 then some []
  else if b < 0xC2 then none
  else if b < 0xE0 then some [any]
  else if b = 0xE0 then some [(0xA0, 0xBF), any]
  else if b = 0xED then some [(0x80, 0x9F), any]
  else if b < 0xF0 then some [any, any]
  else if b = 0xF0 then some [(0x90, 0xBF), any, any]
  else if b < 0xF4 then some [any, any, any]
  else if b = 0xF4 then some [(0x80, 0x8F), any, any]
  else none

/-- The bytes in front that lie in the ranges, one each. -/
def takeRanges : List ByteRange → Bytes → Bytes
  | r :: ranges, b :: bytes => if r.holds b then b :: takeRanges ranges bytes else []
  | _, _ => []

/-- The bits of a first byte that count, before some continuation bytes. -/
def leadBits (b : UInt8) : Nat → Nat
  | 0 => b.toNat
  | 1 => b.toNat % 32
  | 2 => b.toNat % 16
  | _ => b.toNat % 8

/-- The character of a first byte and its continuation bytes. -/
def codePoint (b : UInt8) (rest : Bytes) : Nat :=
  rest.foldl (fun n c => n * 64 + c.toNat % 64) (leadBits b rest.length)

def replacement : Char := '\uFFFD'

def charOf (n : Nat) : Char := if h : n.isValidChar then Char.ofNatAux n h else replacement

/-- One turn takes at least one byte. -/
def lossyLoop : Nat → Bytes → Text
  | turns + 1, b :: bytes =>
    match continuations b with
    | none => replacement :: lossyLoop turns bytes
    | some ranges =>
      let rest := takeRanges ranges bytes
      (if rest.length = ranges.length then charOf (codePoint b rest) else replacement) ::
        lossyLoop turns (bytes.drop rest.length)
  | _, _ => []

/-- `String::from_utf8_lossy`. -/
def fromUtf8Lossy (bytes : Bytes) : Text := lossyLoop bytes.length bytes

/-! ### Zero bytes -/

theorem length_takeRanges (ranges : List ByteRange) (bytes : Bytes) :
    (takeRanges ranges bytes).length ≤ bytes.length := by
  induction bytes generalizing ranges with
  | nil => cases ranges <;> exact Nat.le_refl 0
  | cons b bytes ih =>
    cases ranges with
    | nil => exact Nat.zero_le _
    | cons r ranges =>
      rw [takeRanges]
      split
      · exact Nat.succ_le_succ (ih ranges)
      · exact Nat.zero_le _

theorem lossyLoop_eq {turns : Nat} {bytes : Bytes} (h : bytes.length ≤ turns) :
    lossyLoop turns bytes = fromUtf8Lossy bytes := by
  rw [fromUtf8Lossy]
  have hloop : ∀ k turns turns' : Nat, ∀ bytes : Bytes, bytes.length ≤ k → bytes.length ≤ turns →
      bytes.length ≤ turns' → lossyLoop turns bytes = lossyLoop turns' bytes := by
    intro k
    induction k with
    | zero =>
      intro turns turns' bytes hk _ _
      rw [length_eq_zero_iff.mp (Nat.le_zero.mp hk)]
      cases turns <;> cases turns' <;> rfl
    | succ k ih =>
      intro turns turns' bytes hk ht ht'
      cases bytes with
      | nil => cases turns <;> cases turns' <;> rfl
      | cons b bytes =>
        rw [length_cons] at hk ht ht'
        obtain ⟨turns, rfl⟩ := Nat.exists_eq_add_of_le' (Nat.le_trans (by omega : 1 ≤ _) ht)
        obtain ⟨turns', rfl⟩ := Nat.exists_eq_add_of_le' (Nat.le_trans (by omega : 1 ≤ _) ht')
        have hrest : ∀ n, (bytes.drop n).length ≤ bytes.length := fun n => by
          rw [length_drop]
          omega
        rw [lossyLoop, lossyLoop]
        cases continuations b with
        | none =>
          dsimp only
          rw [ih turns turns' bytes (by omega) (by omega) (by omega)]
        | some ranges =>
          dsimp only
          have := hrest (takeRanges ranges bytes).length
          rw [ih turns turns' _ (by omega) (by omega) (by omega)]
  exact hloop bytes.length turns bytes.length bytes le_rfl h le_rfl

theorem fromUtf8Lossy_nil : fromUtf8Lossy [] = [] := rfl

theorem fromUtf8Lossy_cons (b : UInt8) (bytes : Bytes) :
    fromUtf8Lossy (b :: bytes) = match continuations b with
      | none => replacement :: fromUtf8Lossy bytes
      | some ranges =>
        let rest := takeRanges ranges bytes
        (if rest.length = ranges.length then charOf (codePoint b rest) else replacement) ::
          fromUtf8Lossy (bytes.drop rest.length) := by
  rw [fromUtf8Lossy, length_cons, lossyLoop]
  cases continuations b with
  | none => rfl
  | some ranges =>
    dsimp only
    rw [lossyLoop_eq]
    rw [length_drop]
    omega

theorem fromUtf8Lossy_zero (bytes : Bytes) :
    fromUtf8Lossy (0 :: bytes) = '\x00' :: fromUtf8Lossy bytes := by
  rw [fromUtf8Lossy_cons]
  rfl

variable {ranges : List ByteRange}

theorem not_holds_zero {b : UInt8} (h : continuations b = some ranges) :
    ∀ r ∈ ranges, r.holds 0 = false := by
  have hall : ∀ ranges' ∈ [[], [(0x80, 0xBF)], [(0xA0, 0xBF), (0x80, 0xBF)],
      [(0x80, 0x9F), (0x80, 0xBF)], [(0x80, 0xBF), (0x80, 0xBF)],
      [(0x90, 0xBF), (0x80, 0xBF), (0x80, 0xBF)], [(0x80, 0xBF), (0x80, 0xBF), (0x80, 0xBF)],
      [(0x80, 0x8F), (0x80, 0xBF), (0x80, 0xBF)]], ∀ r ∈ ranges', ByteRange.holds r 0 = false := by
    decide
  apply hall
  unfold continuations at h
  dsimp only at h
  repeat' split at h
  all_goals
    cases h
    try simp

theorem takeRanges_append_zero (h : ∀ r ∈ ranges, r.holds 0 = false) (front back : Bytes) :
    takeRanges ranges (front ++ 0 :: back) = takeRanges ranges front := by
  induction front generalizing ranges with
  | nil =>
    cases ranges with
    | nil => rfl
    | cons r ranges =>
      rw [nil_append, takeRanges, h r (mem_cons_self ..), if_neg Bool.false_ne_true]
      rfl
  | cons b front ih =>
    cases ranges with
    | nil => rfl
    | cons r ranges =>
      rw [cons_append, takeRanges, takeRanges, ih fun r' hr' => h r' (mem_cons_of_mem r hr')]

/-- A zero byte is a character of its own, and what is around it is read apart. -/
theorem fromUtf8Lossy_append_zero (front back : Bytes) :
    fromUtf8Lossy (front ++ 0 :: back) = fromUtf8Lossy front ++ '\x00' :: fromUtf8Lossy back := by
  have hlong : ∀ k, ∀ front : Bytes, front.length ≤ k →
      fromUtf8Lossy (front ++ 0 :: back) = fromUtf8Lossy front ++ '\x00' :: fromUtf8Lossy back := by
    intro k
    induction k with
    | zero =>
      intro front hk
      rw [length_eq_zero_iff.mp (Nat.le_zero.mp hk)]
      exact fromUtf8Lossy_zero back
    | succ k ih =>
      intro front hk
      cases front with
      | nil => exact fromUtf8Lossy_zero back
      | cons b front =>
        rw [length_cons] at hk
        rw [cons_append, fromUtf8Lossy_cons, fromUtf8Lossy_cons]
        cases hb : continuations b with
        | none =>
          dsimp only
          rw [ih front (by omega), cons_append]
        | some ranges =>
          dsimp only
          rw [takeRanges_append_zero (not_holds_zero hb)]
          have hle := length_takeRanges ranges front
          rw [drop_append_of_le_length hle, ih _ (by rw [length_drop]; omega), cons_append]
  exact hlong front.length front le_rfl

theorem charOf_ne_zero {n : Nat} (h : n ≠ 0) : charOf n ≠ '\x00' := by
  unfold charOf
  by_cases hvalid : n.isValidChar
  · rw [dif_pos hvalid]
    intro heq
    have hnat := congrArg Char.toNat heq
    have hn : (Char.ofNatAux n hvalid).toNat = n := rfl
    rw [hn] at hnat
    exact h hnat
  · rw [dif_neg hvalid]
    decide

theorem foldl_ne_zero {n : Nat} (h : n ≠ 0) (rest : Bytes) :
    rest.foldl (fun n c => n * 64 + c.toNat % 64) n ≠ 0 := by
  induction rest generalizing n with
  | nil => exact h
  | cons c rest ih =>
    rw [foldl_cons]
    apply ih
    omega

/-- The first of the bytes that lie in the ranges lies in the first range. -/
theorem exists_takeRanges {r : ByteRange} {bytes : Bytes}
    (hfull : (takeRanges (r :: ranges) bytes).length = ranges.length + 1) :
    ∃ c rest, takeRanges (r :: ranges) bytes = c :: rest ∧ r.holds c = true := by
  cases bytes with
  | nil => cases hfull
  | cons c bytes =>
    rw [takeRanges] at hfull ⊢
    split at hfull
    · next hc => exact ⟨c, _, by rw [if_pos hc], hc⟩
    · cases hfull

/-- The character of several bytes that a byte leads has a bit in its first or its second byte. -/
def leadsWell (b : UInt8) : Bool :=
  match continuations b with
  | some (r :: ranges) => decide (leadBits b (ranges.length + 1) ≠ 0 ∨ (0x80 < r.1 ∧ r.2 ≤ 0xBF))
  | _ => true

/-- Of a character of several bytes the first or the second sets a bit. -/
theorem bits_of_continuations {b : UInt8} {r : ByteRange}
    (h : continuations b = some (r :: ranges)) :
    leadBits b (ranges.length + 1) ≠ 0 ∨ (0x80 < r.1 ∧ r.2 ≤ 0xBF) := by
  have hall : ∀ n < 256, ∀ r ranges, continuations (UInt8.ofNat n) = some (r :: ranges) →
      leadBits (UInt8.ofNat n) (ranges.length + 1) ≠ 0 ∨ (0x80 < r.1 ∧ r.2 ≤ 0xBF) := by
    have hcheck : ∀ n < 256, leadsWell (UInt8.ofNat n) = true := by decide +kernel
    intro n hn r ranges hranges
    have := hcheck n hn
    rw [leadsWell, hranges] at this
    exact of_decide_eq_true this
  have hb := hall b.toNat b.toNat_lt r ranges
  rw [UInt8.ofNat_toNat] at hb
  exact hb h

/-- Only the zero byte is read as the zero character. -/
theorem codePoint_ne_zero {b : UInt8} {bytes : Bytes} (hb : b ≠ 0)
    (h : continuations b = some ranges) (hfull : (takeRanges ranges bytes).length = ranges.length) :
    codePoint b (takeRanges ranges bytes) ≠ 0 := by
  cases ranges with
  | nil =>
    have hnat : b.toNat ≠ 0 := fun heq => hb (UInt8.toNat_inj.mp heq)
    rw [codePoint, hfull]
    exact foldl_ne_zero hnat _
  | cons r ranges =>
    rw [codePoint, hfull]
    rcases bits_of_continuations h with hlead | ⟨hlow, hhigh⟩
    · exact foldl_ne_zero hlead _
    · obtain ⟨c, rest, hrest, hc⟩ := exists_takeRanges hfull
      rw [ByteRange.holds, Bool.and_eq_true, decide_eq_true_eq, decide_eq_true_eq] at hc
      rw [hrest, foldl_cons]
      apply foldl_ne_zero
      have h₁ := UInt8.lt_iff_toNat_lt.mp hlow
      have h₂ := UInt8.le_iff_toNat_le.mp hhigh
      have h₃ := UInt8.le_iff_toNat_le.mp hc.1
      have h₄ := UInt8.le_iff_toNat_le.mp hc.2
      have h80 : (0x80 : UInt8).toNat = 128 := rfl
      have hBF : (0xBF : UInt8).toNat = 191 := rfl
      omega

theorem zero_notMem_fromUtf8Lossy {bytes : Bytes} (h : 0 ∉ bytes) :
    '\x00' ∉ fromUtf8Lossy bytes := by
  have hlong : ∀ k, ∀ bytes : Bytes, bytes.length ≤ k → 0 ∉ bytes →
      '\x00' ∉ fromUtf8Lossy bytes := by
    intro k
    induction k with
    | zero =>
      intro bytes hk _
      rw [length_eq_zero_iff.mp (Nat.le_zero.mp hk)]
      exact not_mem_nil
    | succ k ih =>
      intro bytes hk h
      cases bytes with
      | nil => exact not_mem_nil
      | cons b bytes =>
        rw [length_cons] at hk
        rw [mem_cons, not_or] at h
        rw [fromUtf8Lossy_cons]
        cases hb : continuations b with
        | none =>
          rw [mem_cons, not_or]
          exact ⟨by decide, ih bytes (by omega) h.2⟩
        | some ranges =>
          dsimp only
          rw [mem_cons, not_or]
          refine ⟨?_, ih _ (by rw [length_drop]; omega) fun hmem =>
            h.2 (mem_of_mem_drop hmem)⟩
          split
          · next hfull => exact (charOf_ne_zero (codePoint_ne_zero (Ne.symm h.1) hb hfull)).symm
          · decide
  exact hlong bytes.length bytes le_rfl h

/-- Text read from bytes is cut where the bytes are. -/
theorem splitOn_fromUtf8Lossy (bytes : Bytes) :
    (fromUtf8Lossy bytes).splitOn '\x00' = (bytes.splitOn 0).map fromUtf8Lossy := by
  have hlong : ∀ k, ∀ bytes : Bytes, bytes.length ≤ k →
      (fromUtf8Lossy bytes).splitOn '\x00' = (bytes.splitOn 0).map fromUtf8Lossy := by
    intro k
    induction k with
    | zero =>
      intro bytes hk
      rw [length_eq_zero_iff.mp (Nat.le_zero.mp hk)]
      rfl
    | succ k ih =>
      intro bytes hk
      by_cases hmem : 0 ∈ bytes
      · obtain ⟨front, back, rfl, hfront⟩ := eq_append_cons_of_mem hmem
        rw [length_append, length_cons] at hk
        rw [fromUtf8Lossy_append_zero, splitOn_append_cons_self_of_not_mem hfront,
          splitOn_append_cons_self_of_not_mem (zero_notMem_fromUtf8Lossy hfront),
          ih back (by omega), map_cons]
      · rw [splitOn_eq_singleton hmem, splitOn_eq_singleton (zero_notMem_fromUtf8Lossy hmem)]
        rfl
  exact hlong bytes.length bytes le_rfl

end AgentMail.Base
