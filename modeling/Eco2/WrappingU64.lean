/-
`u64` arithmetic as the release build computes it.

The workspace profile sets no overflow checks, so `+` and `-` wrap modulo
`2 ^ 64`. Lean's `UInt64` operations are these. This file relates them to the
integers they stand for: exactly where nothing wraps, and modulo `2 ^ 64`
always. `CellOp` is one in-place update of a stored `u64`, kept as data so that
a run can say of every such update whether it wrapped.
-/
import Mathlib.Data.Int.ModEq

set_option autoImplicit false

namespace Eco2

namespace U64

/-! ## Addition and subtraction -/

/-- An addition that stays below `2 ^ 64` is exact. -/
theorem toNat_add_of_lt {a b : UInt64} (h : a.toNat + b.toNat < 2 ^ 64) :
    (a + b).toNat = a.toNat + b.toNat := by
  rw [UInt64.toNat_add]
  exact Nat.mod_eq_of_lt h

/-- A subtraction of no more than there is is exact. -/
theorem toNat_sub_add_of_le {a b : UInt64} (h : b ≤ a) : (a - b).toNat + b.toNat = a.toNat := by
  rw [UInt64.toNat_sub_of_le a b h]
  exact Nat.sub_add_cancel (UInt64.le_iff_toNat_le.mp h)

/-- An addition that wraps loses `2 ^ 64`. -/
theorem toNat_add_of_ge {a b : UInt64} (h : 2 ^ 64 ≤ a.toNat + b.toNat) :
    (a + b).toNat + 2 ^ 64 = a.toNat + b.toNat := by
  have ha := a.toNat_lt
  have hb := b.toNat_lt
  rw [UInt64.toNat_add]
  omega

/-- A subtraction of more than there is wraps, and gains `2 ^ 64`. -/
theorem toNat_sub_of_lt {a b : UInt64} (h : a < b) :
    (a - b).toNat + b.toNat = a.toNat + 2 ^ 64 := by
  have hb := b.toNat_lt
  rw [UInt64.lt_iff_toNat_lt] at h
  rw [UInt64.toNat_sub]
  omega

/-- An addition makes more of it if something is added and it does not wrap. -/
theorem lt_add_iff {a b : UInt64} : a < a + b ↔ b ≠ 0 ∧ a.toNat + b.toNat < 2 ^ 64 := by
  have hb := b.toNat_lt
  rw [UInt64.lt_iff_toNat_lt, ne_eq, ← UInt64.toNat_inj, UInt64.toNat_zero]
  by_cases hwrap : a.toNat + b.toNat < 2 ^ 64
  · rw [toNat_add_of_lt hwrap]
    omega
  · have hadd := toNat_add_of_ge (Nat.le_of_not_lt hwrap)
    omega

/-- A subtraction makes more of it if it wraps. -/
theorem lt_sub_iff {a b : UInt64} : a < a - b ↔ a < b := by
  have hb := b.toNat_lt
  by_cases hle : b ≤ a
  · have hsub := toNat_sub_add_of_le hle
    rw [UInt64.le_iff_toNat_le] at hle
    rw [UInt64.lt_iff_toNat_lt, UInt64.lt_iff_toNat_lt]
    omega
  · have hlt := UInt64.not_le.mp hle
    have hsub := toNat_sub_of_lt hlt
    rw [UInt64.lt_iff_toNat_lt] at hlt
    rw [UInt64.lt_iff_toNat_lt, UInt64.lt_iff_toNat_lt]
    omega

/-- An addition stays within a bound of the sum before it if it wraps, or does not pass
the bound. -/
theorem toNat_add_le_iff {a b : UInt64} {max : ℕ} (h : a.toNat ≤ max) :
    (a + b).toNat ≤ max ↔ a.toNat + b.toNat ≤ max ∨ 2 ^ 64 ≤ a.toNat + b.toNat := by
  have hb := b.toNat_lt
  by_cases hwrap : a.toNat + b.toNat < 2 ^ 64
  · rw [toNat_add_of_lt hwrap]
    omega
  · have hadd := toNat_add_of_ge (Nat.le_of_not_lt hwrap)
    omega

/-- A subtraction stays within a bound of the difference before it if it does not wrap,
or the bound leaves room for that. -/
theorem toNat_sub_le_iff {a b : UInt64} {max : ℕ} (h : a.toNat ≤ max) :
    (a - b).toNat ≤ max ↔ b ≤ a ∨ a.toNat + 2 ^ 64 ≤ max + b.toNat := by
  by_cases hle : b ≤ a
  · have hsub := toNat_sub_add_of_le hle
    exact iff_of_true (by omega) (.inl hle)
  · have hsub := toNat_sub_of_lt (UInt64.not_le.mp hle)
    rw [or_iff_right hle]
    omega

/-- Every addition is exact modulo `2 ^ 64`. -/
theorem toNat_add_modEq (a b : UInt64) :
    ((a + b).toNat : ℤ) ≡ a.toNat + b.toNat [ZMOD 2 ^ 64] := by
  rw [UInt64.toNat_add]
  push_cast
  exact Int.mod_modEq _ _

/-- Every subtraction is exact modulo `2 ^ 64`. -/
theorem toNat_sub_modEq (a b : UInt64) :
    ((a - b).toNat : ℤ) ≡ a.toNat - b.toNat [ZMOD 2 ^ 64] := by
  -- adding `b` back is an addition, and wraps to `a` again
  have h := toNat_add_modEq (a - b) b
  rw [UInt64.sub_add_cancel] at h
  have h2 := (h.sub_right (b.toNat : ℤ)).symm
  rwa [add_sub_cancel_right] at h2

/-! ## `saturating_mul` -/

/-- `u64::saturating_mul`. -/
def saturating_mul (a b : UInt64) : UInt64 :=
  if a.toNat * b.toNat < 2 ^ 64 then a * b else UInt64.ofNat (2 ^ 64 - 1)

/-- A product that fits is exact. -/
theorem saturating_mul_of_lt {a b : UInt64} (h : a.toNat * b.toNat < 2 ^ 64) :
    (saturating_mul a b).toNat = a.toNat * b.toNat := by
  rw [saturating_mul, if_pos h, UInt64.toNat_mul]
  exact Nat.mod_eq_of_lt h

/-- A product that does not fit is replaced by `u64::MAX`. -/
theorem saturating_mul_of_ge {a b : UInt64} (h : 2 ^ 64 ≤ a.toNat * b.toNat) :
    (saturating_mul a b).toNat = 2 ^ 64 - 1 := by
  rw [saturating_mul, if_neg (by omega)]
  rfl

/-- The product as integers, cut off at `u64::MAX`. -/
theorem toNat_saturating_mul (a b : UInt64) :
    (saturating_mul a b).toNat = min (a.toNat * b.toNat) (2 ^ 64 - 1) := by
  by_cases hfits : a.toNat * b.toNat < 2 ^ 64
  · rw [saturating_mul_of_lt hfits, min_eq_left (by omega)]
  · rw [saturating_mul_of_ge (Nat.le_of_not_lt hfits), min_eq_right (by omega)]

/-- A product is exact if and only if it fits. -/
theorem saturating_mul_exact_iff {a b : UInt64} :
    (saturating_mul a b).toNat = a.toNat * b.toNat ↔ a.toNat * b.toNat < 2 ^ 64 := by
  rw [toNat_saturating_mul, min_eq_left_iff]
  omega

end U64

/-! ## Updates of stored cells -/

/-- One in-place update `*cell += amount` or `*cell -= amount` of a stored
`u64`, with the value the cell held before. -/
inductive CellOp (K : Type)
  | add (cell : K) (before amount : UInt64)
  | sub (cell : K) (before amount : UInt64)
  deriving DecidableEq, Repr

namespace CellOp

variable {K : Type}

/-- The update did not wrap. -/
def Exact : CellOp K → Prop
  | add _ before amount => before.toNat + amount.toNat < 2 ^ 64
  | sub _ before amount => amount ≤ before

/-- The update is not an addition that wrapped. -/
def NoOverflow : CellOp K → Prop
  | add _ before amount => before.toNat + amount.toNat < 2 ^ 64
  | sub _ _ _ => True

instance : DecidablePred (Exact (K := K))
  | add _ before amount => inferInstanceAs (Decidable (before.toNat + amount.toNat < 2 ^ 64))
  | sub _ before amount => inferInstanceAs (Decidable (amount ≤ before))

instance : DecidablePred (NoOverflow (K := K))
  | add _ before amount => inferInstanceAs (Decidable (before.toNat + amount.toNat < 2 ^ 64))
  | sub _ _ _ => inferInstanceAs (Decidable True)

end CellOp

end Eco2
