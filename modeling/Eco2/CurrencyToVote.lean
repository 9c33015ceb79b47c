/-
`CurrencyToVoteHandler` of `runtime/src/impls.rs`.

Staking and the council elections weigh votes in `u64`, while a balance is a
`u128`. The handler scales a balance down by a factor taken from the total
issuance and casts the quotient, and scales a vote back up by the same factor.

The first section is the scaling by itself, on natural numbers: a total `T` is
scaled down by `max (T / M) 1` so that it may fit below `M`. The factor is itself
rounded down, and where the part that is lost reaches the factor the total is
still too large. The rest is the handler, on 128-bit words.
-/
import Mathlib.Order.Basic
import Mathlib.Algebra.Ring.Nat

set_option autoImplicit false

namespace Eco2

/-! ## Scaling down by a rounded factor -/

section Scaling

variable {M T q x : ℕ}

/-- A multiple and what is left of the total, after division by the factor. -/
theorem mul_add_div_lt_succ (hq : 0 < q) : (M * q + x) / q < M + 1 ↔ x < q := by
  rw [Nat.div_lt_iff_lt_mul hq, Nat.add_mul, Nat.one_mul]
  exact Nat.add_lt_add_iff_left

/-- **What the rounding of the factor costs.** The scaled total stays within the
bound if the total did, or if the rest of its division is smaller than the factor. -/
theorem div_factor_lt_iff (hM : 0 < M) :
    T / max (T / M) 1 < M + 1 ↔ T ≤ M ∨ T % M < T / M := by
  rcases Nat.lt_or_ge T M with hlt | hge
  · have hzero : T / M = 0 := Nat.div_eq_of_lt hlt
    rw [hzero, Nat.max_eq_right (Nat.zero_le 1), Nat.div_one]
    exact iff_of_true (Nat.lt_succ_of_lt hlt) (.inl hlt.le)
  · have hpos : 0 < T / M := Nat.div_pos hge hM
    have hfit : T / (T / M) < M + 1 ↔ T % M < T / M := by
      rw [← mul_add_div_lt_succ (M := M) hpos, Nat.div_add_mod]
    rw [Nat.max_eq_left hpos, hfit]
    refine ⟨.inr, fun h => h.elim (fun hle => ?_) id⟩
    -- the bound itself is one times itself, and leaves nothing
    rw [Nat.le_antisymm hle hge, Nat.mod_self, Nat.div_self hM]
    exact Nat.one_pos

end Scaling

/-! ## The handler -/

/-- `type Balance = u128`. -/
abbrev Balance := BitVec 128

namespace CurrencyToVoteHandler

/-- `u64::max_value() as Balance`. -/
def u64_max_value : Balance := 18446744073709551615

/-- `(total_issuance / u64::max_value() as Balance).max(1)`. -/
def factor (total_issuance : Balance) : Balance :=
  let scale := total_issuance / u64_max_value
  if scale < 1 then 1 else scale

/-- `Convert<Balance, u64>`: `(x / Self::factor()) as u64`. -/
def convert (total_issuance x : Balance) : UInt64 :=
  ⟨(x / factor total_issuance).setWidth 64⟩

/-- `Convert<u128, Balance>`: `x * Self::factor()`. -/
def convert_back (total_issuance : Balance) (x : BitVec 128) : Balance :=
  x * factor total_issuance

/-- A vote as the `u128` that is converted back. -/
def as_u128 (vote : UInt64) : BitVec 128 := vote.toBitVec.setWidth 128

/-! ## What the words stand for -/

variable {T x y : Balance}

theorem toNat_factor : (factor T).toNat = max (T.toNat / (2 ^ 64 - 1)) 1 := by
  have hscale : (T / u64_max_value).toNat = T.toNat / (2 ^ 64 - 1) := BitVec.toNat_udiv
  have hone : (1 : Balance).toNat = 1 := rfl
  unfold factor
  by_cases h : T / u64_max_value < 1
  · rw [if_pos h, hone, Nat.max_eq_right]
    rw [BitVec.lt_def, hscale, hone] at h
    exact h.le
  · rw [if_neg h, hscale, Nat.max_eq_left]
    rw [BitVec.lt_def, hscale, hone] at h
    exact Nat.le_of_not_lt h

theorem factor_pos : 0 < (factor T).toNat := by
  rw [toNat_factor]
  exact Nat.lt_of_lt_of_le Nat.one_pos (Nat.le_max_right _ 1)

/-- The cast keeps the low 64 bits of the quotient. -/
theorem toNat_convert : (convert T x).toNat = x.toNat / (factor T).toNat % 2 ^ 64 := by
  rw [convert, UInt64.toNat_ofBitVec, BitVec.toNat_setWidth, BitVec.toNat_udiv]

theorem toNat_as_u128 (vote : UInt64) : (as_u128 vote).toNat = vote.toNat := by
  rw [as_u128, BitVec.toNat_setWidth, UInt64.toNat_toBitVec]
  exact Nat.mod_eq_of_lt (vote.toNat_lt.trans (by decide))

/-! ## Faithfulness -/

/-- At the total issuance `T` the handler is faithful to every balance within it. -/
structure Faithful (T : Balance) : Prop where
  /-- The quotient fits in `u64`. -/
  fits : ∀ x, x ≤ T → x.toNat / (factor T).toNat < 2 ^ 64
  /-- The conversion does not truncate. -/
  quotient : ∀ x, x ≤ T → (convert T x).toNat = x.toNat / (factor T).toNat
  /-- The conversion is monotone. -/
  monotone : ∀ x y, x ≤ y → y ≤ T → convert T x ≤ convert T y
  /-- Converting back does not overflow. -/
  no_overflow : ∀ x, x ≤ T → (as_u128 (convert T x)).toNat * (factor T).toNat < 2 ^ 128
  /-- Converting back gives no more than the balance, -/
  back_le : ∀ x, x ≤ T → (convert_back T (as_u128 (convert T x))).toNat ≤ x.toNat
  /-- and less than it by less than the factor. -/
  lt_back : ∀ x, x ≤ T →
    x.toNat < (convert_back T (as_u128 (convert T x))).toNat + (factor T).toNat

/-- Whether every quotient fits is a matter of the largest. -/
theorem fits_iff : (∀ x, x ≤ T → x.toNat / (factor T).toNat < 2 ^ 64)
    ↔ T.toNat ≤ 2 ^ 64 - 1 ∨ T.toNat % (2 ^ 64 - 1) < T.toNat / (2 ^ 64 - 1) := by
  have htotal : T.toNat / (factor T).toNat < 2 ^ 64
      ↔ T.toNat ≤ 2 ^ 64 - 1 ∨ T.toNat % (2 ^ 64 - 1) < T.toNat / (2 ^ 64 - 1) := by
    rw [toNat_factor]
    exact div_factor_lt_iff (M := 2 ^ 64 - 1) (by decide)
  rw [← htotal]
  refine ⟨fun h => h T (BitVec.le_refl T), fun h x hx => Nat.lt_of_le_of_lt ?_ h⟩
  exact Nat.div_le_div_right (BitVec.le_def.mp hx)

/-- Everything else follows from the quotients fitting. -/
theorem Faithful.of_fits (hfits : ∀ x, x ≤ T → x.toNat / (factor T).toNat < 2 ^ 64) :
    Faithful T := by
  have hconvert (x : Balance) (hx : x ≤ T) :
      (convert T x).toNat = x.toNat / (factor T).toNat := by
    rw [toNat_convert, Nat.mod_eq_of_lt (hfits x hx)]
  -- the quotient times the factor is the balance without the rest of the division
  have hback (x : Balance) (hx : x ≤ T) :
      (as_u128 (convert T x)).toNat * (factor T).toNat
        = x.toNat / (factor T).toNat * (factor T).toNat := by
    rw [toNat_as_u128, hconvert x hx]
  have hle (x : Balance) :
      x.toNat / (factor T).toNat * (factor T).toNat ≤ x.toNat := Nat.div_mul_le_self _ _
  have hword (x : Balance) (hx : x ≤ T) :
      (convert_back T (as_u128 (convert T x))).toNat
        = x.toNat / (factor T).toNat * (factor T).toNat := by
    rw [convert_back, BitVec.toNat_mul, hback x hx]
    exact Nat.mod_eq_of_lt ((hle x).trans_lt x.isLt)
  exact {
    fits := hfits
    quotient := hconvert
    monotone := fun x y hxy hy => by
      have hx : x ≤ T := BitVec.le_trans hxy hy
      rw [UInt64.le_iff_toNat_le, hconvert x hx, hconvert y hy]
      exact Nat.div_le_div_right (BitVec.le_def.mp hxy)
    no_overflow := fun x hx => by
      rw [hback x hx]
      exact (hle x).trans_lt x.isLt
    back_le := fun x hx => by
      rw [hword x hx]
      exact hle x
    lt_back := fun x hx => by
      rw [hword x hx]
      exact Nat.lt_div_mul_add factor_pos }

/-- **When the conversion is faithful.** Up to `u64::MAX` always, as the factor is
one there; above it the rest of the division of the issuance by `u64::MAX` has to
be smaller than the factor. -/
theorem faithful_iff (T : Balance) :
    Faithful T ↔ T.toNat ≤ 2 ^ 64 - 1 ∨ T.toNat % (2 ^ 64 - 1) < T.toNat / (2 ^ 64 - 1) := by
  rw [← fits_iff]
  exact ⟨Faithful.fits, Faithful.of_fits⟩

/-- One unit above `u64::MAX` the factor is still one, and the whole issuance weighs
nothing. -/
theorem not_faithful_two_pow_64 :
    convert 18446744073709551616 18446744073709551616 = 0
      ∧ convert 18446744073709551616 18446744073709551615 = 18446744073709551615
      ∧ ¬∀ T : Balance, Faithful T := by
  have hzero : convert 18446744073709551616 18446744073709551616 = 0 := by decide
  refine ⟨hzero, by decide, fun hall => ?_⟩
  have hexact := (hall 18446744073709551616).quotient 18446744073709551616 (BitVec.le_refl _)
  rw [hzero] at hexact
  exact absurd hexact (by decide)

/-- Where it is not faithful, some balance within the issuance, worth more votes than
a `u64` holds, weighs nothing. -/
theorem exists_weightless (h : ¬Faithful T) :
    ∃ x, x ≤ T ∧ 2 ^ 64 ≤ x.toNat / (factor T).toNat ∧ convert T x = 0 := by
  have hnot : ¬∀ x, x ≤ T → x.toNat / (factor T).toNat < 2 ^ 64 :=
    fun hfits => h (Faithful.of_fits hfits)
  obtain ⟨y, hnot⟩ := not_forall.mp hnot
  obtain ⟨hy, hlarge⟩ := Classical.not_imp.mp hnot
  -- the first balance whose quotient is cut off
  have hle : 2 ^ 64 * (factor T).toNat ≤ T.toNat :=
    ((Nat.le_div_iff_mul_le factor_pos).mp (Nat.le_of_not_lt hlarge)).trans (BitVec.le_def.mp hy)
  have hword : (BitVec.ofNat 128 (2 ^ 64 * (factor T).toNat)).toNat
      = 2 ^ 64 * (factor T).toNat := by
    rw [BitVec.toNat_ofNat]
    exact Nat.mod_eq_of_lt (hle.trans_lt T.isLt)
  have hquotient : (BitVec.ofNat 128 (2 ^ 64 * (factor T).toNat)).toNat / (factor T).toNat
      = 2 ^ 64 := by
    rw [hword]
    exact Nat.mul_div_cancel _ factor_pos
  refine ⟨BitVec.ofNat 128 (2 ^ 64 * (factor T).toNat), ?_, hquotient.ge, ?_⟩
  · rw [BitVec.le_def, hword]
    exact hle
  · rw [← UInt64.toNat_inj, toNat_convert, hquotient]
    rfl

end CurrencyToVoteHandler

end Eco2
