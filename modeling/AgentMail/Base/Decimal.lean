import AgentMail.Base.Json

/-!
# Names of reservation artifacts

`crates/mcp-agent-mail-core/src/reservation_artifact.rs:45–103`: a reservation is archived as
`id-<id>-g<generation>.json`, or as `id-<id>.json` by a database without a generation.
-/

namespace AgentMail.Artifact

open Base

/-- `ParsedReservationArtifact`. -/
structure ParsedReservationArtifact where
  id : Int
  generation : Option Text

/-- An `i64` as `format!` prints it. -/
def intText (n : Int) : Text := if n < 0 then '-' :: natText n.natAbs else natText n.natAbs

/-- `reservation_artifact_filename`. -/
def reservationArtifactFilename (generation : Option Text) (id : Int) : Text :=
  match generation.filter fun g => !g.isEmpty with
  | some g => "id-".toList ++ intText id ++ "-g".toList ++ g ++ ".json".toList
  | none => "id-".toList ++ intText id ++ ".json".toList

/-- `u8::is_ascii_hexdigit`. -/
def isHexDigit (c : Char) : Bool :=
  c.isDigit || ('a' ≤ c && c ≤ 'f') || ('A' ≤ c && c ≤ 'F')

/-- `is_hex_token`. -/
def isHexToken (t : Text) : Bool := !t.isEmpty && t.all isHexDigit

/-- `parse_reservation_artifact_filename`. -/
def parseReservationArtifactFilename (name : Text) : Option ParsedReservationArtifact := do
  let stem ← (stripHead "id-".toList name).bind (stripTail ".json".toList)
  match splitOnce "-g".toList stem with
  | some (idPart, generation) =>
    let id ← parseI64 idPart
    if id ≤ 0 || !isHexToken generation then none else some ⟨id, some generation⟩
  | none =>
    let id ← parseI64 stem
    if id ≤ 0 then none else some ⟨id, none⟩

end AgentMail.Artifact

/-!
## Printed integers are read back
-/

namespace AgentMail.Base

open Artifact

theorem digitVal_digitChar {d : Nat} (h : d < 10) : digitVal (Nat.digitChar d) = some d := by
  have hall : ∀ d < 10, digitVal (Nat.digitChar d) = some d := by decide
  exact hall d h

theorem digitsVal_concat (t : Text) (c : Char) : digitsVal (t ++ [c]) =
    (digitsVal t).bind fun n => (digitVal c).map fun d => 10 * n + d := by
  rw [digitsVal, List.foldl_append]
  rfl

theorem digitsVal_reverse {l : List Nat} (h : ∀ d ∈ l, d < 10) :
    digitsVal (l.map Nat.digitChar).reverse = some (Nat.ofDigits 10 l) := by
  induction l with
  | nil => rfl
  | cons d l ih =>
    rw [List.forall_mem_cons] at h
    rw [List.map_cons, List.reverse_cons, digitsVal_concat, ih h.2, Option.bind_some,
      digitVal_digitChar h.1, Option.map_some, Nat.ofDigits_cons, Nat.add_comm]

theorem digitsVal_natText (n : Nat) : digitsVal (natText n) = some n := by
  unfold natText
  split
  · next h =>
    rw [h]
    rfl
  · rw [digitsVal_reverse fun d hd => Nat.digits_lt_base (by omega) hd, Nat.ofDigits_digits]

theorem natText_ne_nil (n : Nat) : natText n ≠ [] := by
  intro h
  have hval := digitsVal_natText n
  rw [h] at hval
  have hzero : n = 0 := (Option.some.inj hval).symm
  rw [hzero] at h
  cases h

/-- `parse::<i64>()` reads back what `format!` prints. -/
theorem parseI64_intText (n : I64) : parseI64 (intText n.1) = some n.1 := by
  have hrange : (some n.1).filter (fun n => i64Min ≤ n && n ≤ i64Max) = some n.1 := by
    rw [Option.filter_some, decide_eq_true n.2.1, decide_eq_true n.2.2]
    rfl
  have hne := List.isEmpty_eq_false_iff.mpr (natText_ne_nil n.1.natAbs)
  unfold intText
  by_cases h : n.1 < 0
  · have hneg : -(n.1.natAbs : Int) = n.1 := by omega
    rw [if_pos h]
    simp only [parseI64, hne, digitsVal_natText, Bool.false_eq_true, if_false]
    change (some (-(n.1.natAbs : Int))).filter _ = _
    rw [hneg, hrange]
  · have hpos : (n.1.natAbs : Int) = n.1 := by omega
    rw [if_neg h]
    unfold parseI64
    split
    · next hplus =>
      -- a digit is no sign
      have hdigit := isDigit_of_mem_natText (hplus ▸ List.mem_cons_self)
      exact absurd hdigit (by decide)
    · next hminus =>
      have hdigit := isDigit_of_mem_natText (hminus ▸ List.mem_cons_self)
      exact absurd hdigit (by decide)
    · simp only [hne, digitsVal_natText, Bool.false_eq_true, if_false]
      change (some (n.1.natAbs : Int)).filter _ = _
      rw [hpos, hrange]

end AgentMail.Base
