import Mathlib.Algebra.Order.Ring.Int

/-!
# Database values

Timestamps and row ids are `i64` in the source. They are integers here, with the saturating
and checked operations that the source calls spelled out. `DbError` has the variants that the
modelled functions return (`crates/mcp-agent-mail-db/src/error.rs`).
-/

namespace AgentMail.Base

def i64Min : Int := -2 ^ 63

def i64Max : Int := 2 ^ 63 - 1

/-- `i64`, for values whose range matters. -/
abbrev I64 : Type := { n : Int // i64Min ≤ n ∧ n ≤ i64Max }

instance : LawfulBEq I64 := inferInstance

instance : DecidableLE I64 := fun a b => inferInstanceAs (Decidable (a.1 ≤ b.1))

theorem isI64_min : i64Min ≤ i64Min ∧ i64Min ≤ i64Max := by decide

theorem isI64_max : i64Min ≤ i64Max ∧ i64Max ≤ i64Max := by decide

theorem isI64_zero : i64Min ≤ 0 ∧ 0 ≤ i64Max := by decide

theorem isI64_one : i64Min ≤ 1 ∧ 1 ≤ i64Max := by decide

theorem isI64_two : i64Min ≤ 2 ∧ 2 ≤ i64Max := by decide

/-- The integer closest to `n` that an `i64` holds. -/
def clampI64 (n : Int) : Int := max i64Min (min i64Max n)

/-- `i64::saturating_add`. -/
def saturatingAdd (a b : Int) : Int := clampI64 (a + b)

/-- `i64::saturating_sub`. -/
def saturatingSub (a b : Int) : Int := clampI64 (a - b)

/-- `i64::saturating_mul`. -/
def saturatingMul (a b : Int) : Int := clampI64 (a * b)

/-- `i64::checked_add`. -/
def checkedAdd (a b : Int) : Option Int :=
  if i64Min ≤ a + b ∧ a + b ≤ i64Max then some (a + b) else none

/-- The largest `usize`. -/
def usizeMax : Nat := 2 ^ 64 - 1

/-- `usize::saturating_add`. -/
def usizeSaturatingAdd (a b : Nat) : Nat := min usizeMax (a + b)

/-- `usize::saturating_mul`. -/
def usizeSaturatingMul (a b : Nat) : Nat := min usizeMax (a * b)

/-- `DbError`. -/
inductive DbError where
  | sqlite (message : String)
  | internal (message : String)
  | invalidArgument (field message : String)
  deriving DecidableEq

end AgentMail.Base
