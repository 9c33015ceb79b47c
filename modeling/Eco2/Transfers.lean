/-
Three transfers.

`StandardAssets.transfer` writes the reduced balance it has read and then adds to
the receiver's cell, which may be the same cell. The two `make_transfer` subtract
and add in place, and do neither between an account and itself; the carbon pallet's
`transfer` is its `make_transfer` behind the same two checks. `transfers_agree` says
that on the same balances they leave the same balances, also where the receiver's
balance wraps.
-/
import Eco2.Runtime
import Eco2.Ledger

set_option autoImplicit false
set_option linter.unusedSectionVars false

namespace Eco2

/-! ## What a transfer does to a ledger -/

namespace Ledger

variable {K A : Type} [DecidableEq K] [DecidableEq A]
variable (m : Ledger K A) (k k' : K) (x y z : A) (amount : UInt64)

/-- The ledger after a transfer: a debit, and a credit of what is there then. -/
def transfer : Ledger K A := (m.debit k x amount).credit k y amount

/-- A transfer to oneself leaves every balance as it was. -/
theorem balance_transfer_self : (m.transfer k x x amount).balance k' z = m.balance k' z := by
  unfold transfer credit debit balance
  by_cases h : (k', z) = (k, x)
  · rw [h, StorageMap.get_insert_self, StorageMap.get_insert_self]
    exact UInt64.sub_add_cancel _ _
  · rw [StorageMap.get_insert_of_ne _ _ h, StorageMap.get_insert_of_ne _ _ h]

/-- Only the cells of the sender and of the receiver are written. -/
theorem balance_transfer_of_ne (h : ¬(k' = k ∧ (z = x ∨ z = y))) :
    (m.transfer k x y amount).balance k' z = m.balance k' z := by
  have hx : (k', z) ≠ (k, x) := fun hc => h ⟨(Prod.mk.inj hc).1, .inl (Prod.mk.inj hc).2⟩
  have hy : (k', z) ≠ (k, y) := fun hc => h ⟨(Prod.mk.inj hc).1, .inr (Prod.mk.inj hc).2⟩
  unfold transfer credit debit balance
  rw [StorageMap.get_insert_of_ne _ _ hy, StorageMap.get_insert_of_ne _ _ hx]

/-- Ledgers with the same balances have the same sums. -/
theorem held_congr {m m' : Ledger K A} (k : K)
    (h : ∀ k x, m.balance k x = m'.balance k x) : m.held k = m'.held k := by
  rw [held_eq_finsum, held_eq_finsum]
  exact finsum_congr fun x => congrArg UInt64.toNat (h k x)

/-- A transfer of no more than there is keeps the sums, if the receiver can take it. -/
theorem held_transfer_of_lt (hle : amount ≤ m.balance k x)
    (hlt : (m.balance k y).toNat + amount.toNat < 2 ^ 64) :
    (m.transfer k x y amount).held k' = m.held k' := by
  refine held_transfer m k k' hle ?_
  by_cases hxy : y = x
  · -- to oneself: the debit comes first, so the credit cannot wrap
    subst hxy
    have hcell : (m.debit k y amount).balance k y = m.balance k y - amount := by
      unfold debit balance
      rw [StorageMap.get_insert_self]
      rfl
    rw [hcell, U64.toNat_sub_add_of_le hle]
    exact (m.balance k y).toNat_lt
  · rwa [balance_debit_of_ne m k k hxy]

/-- `m'` is `m` after a transfer of `amount` of `k` from `x` to `y`. -/
structure Transferred (m m' : Ledger K A) (k : K) (x y : A) (amount : UInt64) : Prop where
  /-- To oneself, nothing changes. -/
  self : x = y → ∀ k' z, m'.balance k' z = m.balance k' z
  sender : x ≠ y → m'.balance k x = m.balance k x - amount
  receiver : x ≠ y → m'.balance k y = m.balance k y + amount
  /-- Other identifiers and accounts are untouched. -/
  others : ∀ k' z, ¬(k' = k ∧ (z = x ∨ z = y)) → m'.balance k' z = m.balance k' z
  /-- The sums are kept if the receiver's balance does not wrap. -/
  conserved : (m.balance k y).toNat + amount.toNat < 2 ^ 64 → ∀ k', m'.held k' = m.held k'

theorem transferred_transfer (hle : amount ≤ m.balance k x) :
    Transferred m (m.transfer k x y amount) k x y amount where
  self h k' z := by
    rw [← h]
    exact balance_transfer_self m k k' x z amount
  sender h := by
    have hcell : ((k, x) : K × A) ≠ (k, y) := fun hc => h (Prod.mk.inj hc).2
    unfold transfer credit debit balance
    rw [StorageMap.get_insert_of_ne _ _ hcell, StorageMap.get_insert_self]
    rfl
  receiver h := by
    unfold transfer credit
    rw [balance_debit_of_ne m k k fun hc => h hc.symm]
    unfold balance
    rw [StorageMap.get_insert_self]
    rfl
  others k' z h := balance_transfer_of_ne m k k' x y z amount h
  conserved h k' := held_transfer_of_lt m k k' x y amount hle h

/-- What is said of a transfer is said of the balances only. -/
theorem Transferred.congr {m m' m'' : Ledger K A} {k : K} {x y : A} {amount : UInt64}
    (h : Transferred m m' k x y amount) (hsame : ∀ k z, m''.balance k z = m'.balance k z) :
    Transferred m m'' k x y amount where
  self hxy k' z := (hsame k' z).trans (h.self hxy k' z)
  sender hxy := (hsame k x).trans (h.sender hxy)
  receiver hxy := (hsame k y).trans (h.receiver hxy)
  others k' z hne := (hsame k' z).trans (h.others k' z hne)
  conserved hlt k' := (held_congr k' hsame).trans (h.conserved hlt k')

/-- Doing nothing to oneself leaves the balances that taking and giving back leaves. -/
theorem balance_skip_self (z : A) :
    (if x = y then m else m.transfer k x y amount).balance k' z
      = (m.transfer k x y amount).balance k' z := by
  by_cases h : x = y
  · rw [if_pos h, ← h, balance_transfer_self]
  · rw [if_neg h]

end Ledger

/-! ## The three of them on a ledger -/

section Calls

open Dispatch

variable {AccountId Hash : Type} [DecidableEq AccountId] [DecidableEq Hash]
variable (id : Hash) (sender receiver : AccountId) {amount : UInt64} (c : Ctx AccountId Hash)

theorem ensure_signed_signed_bind {β : Type} {who : AccountId} {c : Ctx AccountId Hash}
    {g : AccountId → Dispatchable AccountId Hash β} :
    (ensure_signed (.signed who) >>= g) c = g who c := rfl

/-- The standard assets' call: a debit and a credit, also to oneself. -/
theorem StandardAssets.transfer_eq_ok (hamount : amount ≠ 0)
    (hbalance : amount ≤ c.world.standard.balance id sender) :
    ∃ c', StandardAssets.transfer (.signed sender) id receiver amount c = .ok () c'
      ∧ c'.world.standard.Balances
        = Ledger.transfer c.world.standard.Balances id sender receiver amount := by
  refine ⟨?left, ?run, ?balances⟩
  case run =>
    rw [StandardAssets.transfer, ensure_signed_signed_bind, read_bind, ensure_bind_of hamount,
      ensure_bind_of hbalance, update_bind, balance_add_bind, timestamp_get_bind]
    rfl
  rfl

/-- The standard assets' public transfer: nothing to oneself. -/
theorem StandardAssets.make_transfer_eq_ok (amount : UInt64) :
    ∃ c', StandardAssets.make_transfer id sender receiver amount c = .ok () c'
      ∧ c'.world.standard.Balances
        = if sender = receiver then c.world.standard.Balances
          else Ledger.transfer c.world.standard.Balances id sender receiver amount := by
  unfold StandardAssets.make_transfer
  by_cases h : sender = receiver
  · rw [if_neg (not_not.mpr h), if_pos h]
    exact ⟨c, rfl, rfl⟩
  · rw [if_pos h, if_neg h]
    exact ⟨_, rfl, rfl⟩

/-- The carbon assets' call: its `make_transfer`, which does nothing to oneself. -/
theorem CarbonAssets.transfer_eq_ok (hamount : amount ≠ 0)
    (hbalance : amount ≤ c.world.carbon.balance id sender) :
    ∃ c', CarbonAssets.transfer (.signed sender) id receiver amount c = .ok () c'
      ∧ c'.world.carbon.Balances
        = if sender = receiver then c.world.carbon.Balances
          else Ledger.transfer c.world.carbon.Balances id sender receiver amount := by
  refine ⟨?left, ?run, ?balances⟩
  case run =>
    rw [CarbonAssets.transfer, ensure_signed_signed_bind, get_balance, read_bind,
      ensure_bind_of hamount, ensure_bind_of hbalance, make_transfer_bind, timestamp_get_bind]
    rfl
  by_cases h : sender = receiver
  · rw [if_pos h, h]
    exact congrArg Storage.Balances (move_self _ _ _ _)
  · rw [if_neg h]
    exact congrArg Storage.Balances (if_pos h)

/-! ## Agreement -/

/-- The world with one ledger for both pallets. -/
def World.with_balances (w : World AccountId Hash) (m : Ledger Hash AccountId) :
    World AccountId Hash :=
  { w with carbon := { w.carbon with Balances := m }
           standard := { w.standard with Balances := m } }

/-- On the ledger `m` all three transfers succeed, leave the same balances, and leave what
a transfer leaves. -/
def TransfersAgree (w : World AccountId Hash) (now : Moment) (m : Ledger Hash AccountId)
    (id : Hash) (sender receiver : AccountId) (amount : UInt64) : Prop :=
  ∃ c₁ c₂ c₃ : Ctx AccountId Hash,
    StandardAssets.transfer (.signed sender) id receiver amount ⟨w.with_balances m, now, [], []⟩
        = .ok () c₁
      ∧ StandardAssets.make_transfer id sender receiver amount ⟨w.with_balances m, now, [], []⟩
        = .ok () c₂
      ∧ CarbonAssets.transfer (.signed sender) id receiver amount
          ⟨w.with_balances m, now, [], []⟩ = .ok () c₃
      ∧ (∀ a x, c₂.world.standard.balance a x = c₁.world.standard.balance a x
        ∧ c₃.world.carbon.balance a x = c₁.world.standard.balance a x)
      ∧ Ledger.Transferred m c₁.world.standard.Balances id sender receiver amount
      ∧ Ledger.Transferred m c₂.world.standard.Balances id sender receiver amount
      ∧ Ledger.Transferred m c₃.world.carbon.Balances id sender receiver amount

/-- **The transfers agree**, on every ledger and for every covered amount: also to
oneself, and also where the receiver's balance wraps. -/
theorem transfers_agree (w : World AccountId Hash) (now : Moment) (m : Ledger Hash AccountId)
    (id : Hash) (sender receiver : AccountId) (amount : UInt64) (hamount : 0 < amount)
    (hbalance : amount ≤ m.balance id sender) :
    TransfersAgree w now m id sender receiver amount := by
  have hne : amount ≠ 0 := UInt64.pos_iff_ne_zero.mp hamount
  obtain ⟨c₁, hrun₁, hledger₁⟩ := StandardAssets.transfer_eq_ok id sender receiver
    ⟨w.with_balances m, now, [], []⟩ hne hbalance
  obtain ⟨c₂, hrun₂, hledger₂⟩ := StandardAssets.make_transfer_eq_ok id sender receiver
    ⟨w.with_balances m, now, [], []⟩ amount
  obtain ⟨c₃, hrun₃, hledger₃⟩ := CarbonAssets.transfer_eq_ok id sender receiver
    ⟨w.with_balances m, now, [], []⟩ hne hbalance
  have htransferred : Ledger.Transferred m c₁.world.standard.Balances id sender receiver
      amount := by
    rw [hledger₁]
    exact Ledger.transferred_transfer m id sender receiver amount hbalance
  -- the other two do nothing to oneself, which leaves the same balances
  have hsame₂ (a : Hash) (x : AccountId) :
      Ledger.balance c₂.world.standard.Balances a x
        = Ledger.balance c₁.world.standard.Balances a x := by
    rw [hledger₁, hledger₂]
    exact Ledger.balance_skip_self m id a sender receiver amount x
  have hsame₃ (a : Hash) (x : AccountId) :
      Ledger.balance c₃.world.carbon.Balances a x
        = Ledger.balance c₁.world.standard.Balances a x := by
    rw [hledger₁, hledger₃]
    exact Ledger.balance_skip_self m id a sender receiver amount x
  exact ⟨c₁, c₂, c₃, hrun₁, hrun₂, hrun₃, fun a x => ⟨hsame₂ a x, hsame₃ a x⟩, htransferred,
    htransferred.congr hsame₂, htransferred.congr hsame₃⟩

/-- Five units, of which three are sent to an account whose balance wraps on it. -/
theorem transfers_agree_wrap :
    (0 : UInt64) < 3
      ∧ TransfersAgree (genesis fun _ => 0) 0
          ((StorageMap.empty.insert (0, 1) 5).insert (0, 2) 18446744073709551615) 0 1 2 3 :=
  ⟨by decide, transfers_agree _ _ _ _ _ _ _ (by decide) (by decide)⟩

end Calls

end Eco2
