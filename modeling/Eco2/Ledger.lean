/-
Ledgers: a stored `u64` for each pair of an asset and an account.

Two pallets keep their balances in a map of this shape, and every supply theorem
about them is about `held`, the sum of one asset's balances over all accounts.
The rules here say how `held` answers to writing one cell, first without any
assumption, then exactly for an addition or a subtraction that does not wrap, and
modulo `2 ^ 64` for any of them.
-/
import Eco2.StorageMap
import Eco2.WrappingU64

set_option autoImplicit false
set_option linter.unusedSectionVars false

namespace Eco2

/-- The balances of a pallet, by asset and account. -/
abbrev Ledger (K A : Type) := StorageMap (K × A) UInt64

namespace Ledger

variable {K A : Type} [DecidableEq K] [DecidableEq A]

/-- The balance cell: zero where nothing is stored. -/
def balance (m : Ledger K A) (k : K) (x : A) : UInt64 := (m.get (k, x)).getD 0

/-- The sum of the balances of `k` over all accounts, as an integer. -/
def held (m : Ledger K A) (k : K) : ℕ := m.sum fun key v => if key.1 = k then v.toNat else 0

/-- The weight of a cell in `held`. -/
theorem weight_get (m : Ledger K A) (k : K) (key : K × A) :
    StorageMap.weight (fun key v => if key.1 = k then v.toNat else 0) key (m.get key)
      = if key.1 = k then (m.balance key.1 key.2).toNat else 0 := by
  unfold balance
  cases m.get key with
  | none => simp
  | some v => rfl

/-- `held` is the sum over every account there is. -/
theorem held_eq_finsum (m : Ledger K A) (k : K) : m.held k = ∑ᶠ x, (m.balance k x).toNat := by
  -- only the cells of row `k` have a weight, and each account has one of them
  have hrow : Function.Injective fun x : A => (k, x) := fun x y h => (Prod.mk.inj h).2
  have hsupp : Set.univ ∩ Function.support (fun key : K × A =>
        StorageMap.weight (fun key v => if key.1 = k then UInt64.toNat v else 0) key (m.get key))
      = Set.range (fun x : A => (k, x)) ∩ Function.support (fun key : K × A =>
        StorageMap.weight (fun key v => if key.1 = k then UInt64.toNat v else 0) key
          (m.get key)) := by
    ext key
    simp only [Set.mem_inter_iff, Set.mem_univ, true_and, Function.mem_support, weight_get,
      Set.mem_range]
    constructor
    · intro hkey
      by_cases h : key.1 = k
      · exact ⟨⟨key.2, by rw [← h]⟩, hkey⟩
      · exact absurd (if_neg h) hkey
    · exact And.right
  calc m.held k
      = ∑ᶠ key ∈ Set.univ, StorageMap.weight
          (fun key v => if key.1 = k then UInt64.toNat v else 0) key (m.get key) := by
        rw [held, StorageMap.sum_eq_finsum, finsum_mem_univ]
    _ = ∑ᶠ x, (m.balance k x).toNat := by
        rw [finsum_mem_inter_support_eq _ _ _ hsupp, finsum_mem_range hrow]
        simp only [weight_get, if_true]

/-- Writing one cell changes the sum of its asset, and of no other. -/
theorem held_insert (m : Ledger K A) (k k' : K) (x : A) (v : UInt64) :
    held (m.insert (k, x) v) k' + (if k = k' then (m.balance k x).toNat else 0)
      = m.held k' + if k = k' then v.toNat else 0 := by
  have h := StorageMap.sum_insert m (fun key v => if key.1 = k' then UInt64.toNat v else 0) (k, x) v
  rwa [weight_get] at h

theorem held_insert_of_ne (m : Ledger K A) {k k' : K} (x : A) (v : UInt64) (h : k ≠ k') :
    held (m.insert (k, x) v) k' = m.held k' := by
  have hins := held_insert m k k' x v
  rwa [if_neg h, if_neg h] at hins

theorem held_insert_self (m : Ledger K A) (k : K) (x : A) (v : UInt64) :
    held (m.insert (k, x) v) k + (m.balance k x).toNat = m.held k + v.toNat := by
  have hins := held_insert m k k x v
  rwa [if_pos rfl, if_pos rfl] at hins

/-- One account holds at most what all hold. -/
theorem balance_le_held (m : Ledger K A) (k : K) (x : A) : (m.balance k x).toNat ≤ m.held k := by
  -- emptying the cell takes its balance out of the sum
  have h := held_insert_self m k x 0
  simp only [UInt64.toNat_zero] at h
  omega

/-- Two different accounts hold at most what all hold. -/
theorem balance_add_balance_le_held (m : Ledger K A) (k : K) {x y : A} (h : x ≠ y) :
    (m.balance k x).toNat + (m.balance k y).toNat ≤ m.held k := by
  have hle := StorageMap.weight_add_weight_le_sum m
    (fun key v => if key.1 = k then UInt64.toNat v else 0)
    (show (k, x) ≠ (k, y) from fun hc => h (Prod.mk.inj hc).2)
  rwa [weight_get, weight_get, if_pos rfl, if_pos rfl] at hle

/-! ## Credits and debits -/

/-- Add an amount to one cell. -/
def credit (m : Ledger K A) (k : K) (x : A) (amount : UInt64) : Ledger K A :=
  m.insert (k, x) (m.balance k x + amount)

/-- Subtract an amount from one cell. -/
def debit (m : Ledger K A) (k : K) (x : A) (amount : UInt64) : Ledger K A :=
  m.insert (k, x) (m.balance k x - amount)

section Updates

variable (m : Ledger K A) (k k' : K) {x y : A} {amount : UInt64}

/-- A debit of one account leaves the others alone. -/
theorem balance_debit_of_ne (h : y ≠ x) : (m.debit k x amount).balance k' y = m.balance k' y := by
  unfold debit balance
  rw [StorageMap.get_insert_of_ne _ _ fun hc => h (Prod.mk.inj hc).2]

/-- A credit that does not wrap adds the amount. -/
theorem held_credit (h : (m.balance k x).toNat + amount.toNat < 2 ^ 64) :
    held (m.credit k x amount) k' = m.held k' + if k = k' then amount.toNat else 0 := by
  have hins := held_insert m k k' x (m.balance k x + amount)
  rw [U64.toNat_add_of_lt h] at hins
  unfold credit
  split at hins
  · rw [if_pos ‹_›]
    omega
  · rw [if_neg ‹_›]
    omega

/-- A debit of no more than there is takes the amount away. -/
theorem held_debit (h : amount ≤ m.balance k x) :
    held (m.debit k x amount) k' + (if k = k' then amount.toNat else 0) = m.held k' := by
  have hins := held_insert m k k' x (m.balance k x - amount)
  have hsub := U64.toNat_sub_add_of_le h
  unfold debit
  split at hins
  · rw [if_pos ‹_›]
    omega
  · rw [if_neg ‹_›]
    omega

/-- A transfer that does not wrap keeps the sum. -/
theorem held_transfer (hle : amount ≤ m.balance k x)
    (hlt : ((m.debit k x amount).balance k y).toNat + amount.toNat < 2 ^ 64) :
    held ((m.debit k x amount).credit k y amount) k' = m.held k' := by
  -- what the debit takes the credit gives back, whether or not `x` is `y`
  rw [held_credit _ k k' hlt, held_debit m k k' hle]

/-- A credit never adds more than the amount: one that wraps adds less. -/
theorem held_credit_le (x : A) (amount : UInt64) :
    held (m.credit k x amount) k' ≤ m.held k' + if k = k' then amount.toNat else 0 := by
  have hins := held_insert m k k' x (m.balance k x + amount)
  have hadd : (m.balance k x + amount).toNat ≤ (m.balance k x).toNat + amount.toNat := by
    rw [UInt64.toNat_add]
    exact Nat.mod_le _ _
  unfold credit
  split at hins
  · rw [if_pos ‹_›]
    omega
  · rw [if_neg ‹_›]
    omega

/-- A covered transfer never makes the sum grow. -/
theorem held_transfer_le (hle : amount ≤ m.balance k x) :
    held ((m.debit k x amount).credit k y amount) k' ≤ m.held k' := by
  have hcredit := held_credit_le (m.debit k x amount) k k' y amount
  rwa [held_debit m k k' hle] at hcredit

/-- Every credit adds the amount, modulo `2 ^ 64`. -/
theorem held_credit_modEq (x : A) (amount : UInt64) :
    (held (m.credit k x amount) k' : ℤ)
      ≡ m.held k' + (if k = k' then amount.toNat else 0 : ℕ) [ZMOD 2 ^ 64] := by
  have hins := held_insert m k k' x (m.balance k x + amount)
  unfold credit
  split at hins
  · rw [if_pos ‹_›]
    have hadd := U64.toNat_add_modEq (m.balance k x) amount
    calc (held (m.insert (k, x) (m.balance k x + amount)) k' : ℤ)
        = m.held k' + (m.balance k x + amount).toNat - (m.balance k x).toNat := by omega
      _ ≡ m.held k' + ((m.balance k x).toNat + amount.toNat) - (m.balance k x).toNat
          [ZMOD 2 ^ 64] := (hadd.add_left _).sub_right _
      _ = m.held k' + amount.toNat := by omega
  · rw [Nat.add_zero, Nat.add_zero] at hins
    rw [if_neg ‹_›, hins, Nat.cast_zero, add_zero]

/-- Every debit takes the amount away, modulo `2 ^ 64`. -/
theorem held_debit_modEq (x : A) (amount : UInt64) :
    (held (m.debit k x amount) k' : ℤ)
      ≡ m.held k' - (if k = k' then amount.toNat else 0 : ℕ) [ZMOD 2 ^ 64] := by
  have hins := held_insert m k k' x (m.balance k x - amount)
  unfold debit
  split at hins
  · rw [if_pos ‹_›]
    have hsub := U64.toNat_sub_modEq (m.balance k x) amount
    calc (held (m.insert (k, x) (m.balance k x - amount)) k' : ℤ)
        = m.held k' + (m.balance k x - amount).toNat - (m.balance k x).toNat := by omega
      _ ≡ m.held k' + ((m.balance k x).toNat - amount.toNat) - (m.balance k x).toNat
          [ZMOD 2 ^ 64] := (hsub.add_left _).sub_right _
      _ = m.held k' - amount.toNat := by omega
  · rw [Nat.add_zero, Nat.add_zero] at hins
    rw [if_neg ‹_›, hins, Nat.cast_zero, sub_zero]

/-- Every transfer keeps the sum, modulo `2 ^ 64`. -/
theorem held_transfer_modEq (x y : A) (amount : UInt64) :
    (held ((m.debit k x amount).credit k y amount) k' : ℤ) ≡ m.held k' [ZMOD 2 ^ 64] := by
  have hdebit := held_debit_modEq m k k' x amount
  have hcredit := held_credit_modEq (m.debit k x amount) k k' y amount
  have h := hcredit.trans (hdebit.add_right _)
  rwa [sub_add_cancel] at h

end Updates

end Ledger

end Eco2
