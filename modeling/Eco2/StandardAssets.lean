/-
`pallets/standard-assets/src/lib.rs`: the four dispatchables, what each of them
can do, and the public transfer.

The pallet keeps a balance for each pair of asset and account and a total supply
for each asset, in two separate maps. `issue` overwrites both cells of a freshly
derived identifier, and `mint` adds to both cells of any identifier the caller
names.
-/
import Eco2.Storage

set_option autoImplicit false
set_option linter.unusedSectionVars false

open Eco2.Dispatch

namespace Eco2.StandardAssets

variable {AccountId Hash : Type} [DecidableEq AccountId] [DecidableEq Hash]

/-! ## The storage items -/

section Items

/-- A write to the pallet's own storage. -/
def update (f : Storage AccountId Hash → Storage AccountId Hash) :
    Dispatchable AccountId Hash Unit :=
  write fun w => { w with standard := f w.standard }

/-- `s` with the balance cell of `who` set to `value`. -/
def Storage.set_balance (s : Storage AccountId Hash) (id : Hash) (who : AccountId)
    (value : UInt64) : Storage AccountId Hash :=
  { s with Balances := s.Balances.insert (id, who) value }

/-- `s` with the total supply of `id` set to `value`. -/
def Storage.set_total_supply (s : Storage AccountId Hash) (id : Hash) (value : UInt64) :
    Storage AccountId Hash :=
  { s with TotalSupply := s.TotalSupply.insert id value }

/-- `<Balances<T>>::mutate((id, who), |balance| *balance += amount)`. -/
def balance_add (id : Hash) (who : AccountId) (amount : UInt64) :
    Dispatchable AccountId Hash Unit :=
  modify fun c =>
    let before := c.world.standard.balance id who
    { c with
      world := { c.world with standard := c.world.standard.set_balance id who (before + amount) }
      ops := c.ops ++ [.standard (.add (.balance id who) before amount)] }

/-- `<Balances<T>>::mutate((id, who), |balance| *balance -= amount)`. -/
def balance_sub (id : Hash) (who : AccountId) (amount : UInt64) :
    Dispatchable AccountId Hash Unit :=
  modify fun c =>
    let before := c.world.standard.balance id who
    { c with
      world := { c.world with standard := c.world.standard.set_balance id who (before - amount) }
      ops := c.ops ++ [.standard (.sub (.balance id who) before amount)] }

/-- `<TotalSupply<T>>::mutate(id, |total_supply| *total_supply += amount)`. -/
def total_supply_add (id : Hash) (amount : UInt64) : Dispatchable AccountId Hash Unit :=
  modify fun c =>
    let before := c.world.standard.total_supply id
    { c with
      world := { c.world with standard := c.world.standard.set_total_supply id (before + amount) }
      ops := c.ops ++ [.standard (.add (.total_supply id) before amount)] }

/-- `<TotalSupply<T>>::mutate(id, |total_supply| *total_supply -= amount)`. -/
def total_supply_sub (id : Hash) (amount : UInt64) : Dispatchable AccountId Hash Unit :=
  modify fun c =>
    let before := c.world.standard.total_supply id
    { c with
      world := { c.world with standard := c.world.standard.set_total_supply id (before - amount) }
      ops := c.ops ++ [.standard (.sub (.total_supply id) before amount)] }

end Items

/-! ## The dispatchables -/

section Dispatchables

variable (T : Trait AccountId Hash)

def issue (origin : Origin AccountId) (symbol name : Bytes) (decimals : UInt8)
    (max_supply first_supply : UInt64) : Dispatchable AccountId Hash Unit := do
  let origin ← ensure_signed origin
  let asset_id := T.hash_of (.ecrc10 origin symbol name decimals max_supply first_supply)
  let known ← read fun w => w.standard.AssetInfos.contains_key asset_id
  ensure (!known) (.standardAssets .DuplicatedKey)
  let asset_info : ECRC10 := { symbol, name, decimals, max_supply }
  update fun s => { s with AssetInfos := s.AssetInfos.insert asset_id asset_info }
  -- two inserts: whatever was minted under the identifier is not looked at
  update fun s => s.set_balance asset_id origin first_supply
  update fun s => s.set_total_supply asset_id first_supply
  let now ← timestamp_get
  deposit_event
    (.standardAssets (.NewAsset asset_id symbol origin first_supply decimals now))

def transfer (origin : Origin AccountId) (id : Hash) (target : AccountId) (amount : UInt64) :
    Dispatchable AccountId Hash Unit := do
  let origin ← ensure_signed origin
  let origin_balance ← read fun w => w.standard.balance id origin
  ensure (amount ≠ 0) (.standardAssets .AmountZero)
  ensure (origin_balance ≥ amount) (.standardAssets .BalanceLow)
  -- written before the addition, which so adds to the reduced cell if sent to oneself
  update fun s => s.set_balance id origin (origin_balance - amount)
  balance_add id target amount
  let now ← timestamp_get
  deposit_event (.standardAssets (.Transferred id origin target amount now))

/-- Nothing is checked about the caller or the identifier. -/
def mint (origin : Origin AccountId) (id : Hash) (amount : UInt64) :
    Dispatchable AccountId Hash Unit := do
  let origin ← ensure_signed origin
  balance_add id origin amount
  total_supply_add id amount
  deposit_event (.standardAssets (.Minted id origin amount))

def burn (origin : Origin AccountId) (id : Hash) (amount : UInt64) :
    Dispatchable AccountId Hash Unit := do
  ensure (amount > 0) (.standardAssets .AmountZero)
  let origin ← ensure_signed origin
  let origin_balance ← read fun w => w.standard.balance id origin
  ensure (origin_balance ≥ amount) (.standardAssets .BalanceLow)
  -- the balance is checked, the total supply is not
  update fun s => s.set_balance id origin (origin_balance - amount)
  total_supply_sub id amount
  deposit_event (.standardAssets (.Burned id origin amount))

/-- The public transfer. The subtraction is not checked. -/
def make_transfer (asset_id : Hash) (from_ to_ : AccountId) (amount : UInt64) :
    Dispatchable AccountId Hash Unit := do
  if from_ ≠ to_ then
    balance_sub asset_id from_ amount
    balance_add asset_id to_ amount
  else
    pure ()

/-- The calls of the pallet, in the order of `decl_module!`. -/
inductive Call (AccountId Hash : Type)
  | issue (symbol name : Bytes) (decimals : UInt8) (max_supply first_supply : UInt64)
  | transfer (id : Hash) (target : AccountId) (amount : UInt64)
  | mint (id : Hash) (amount : UInt64)
  | burn (id : Hash) (amount : UInt64)

def Call.dispatch (origin : Origin AccountId) :
    Call AccountId Hash → Dispatchable AccountId Hash Unit
  | .issue symbol name decimals max_supply first_supply =>
      StandardAssets.issue T origin symbol name decimals max_supply first_supply
  | .transfer id target amount => StandardAssets.transfer origin id target amount
  | .mint id amount => StandardAssets.mint origin id amount
  | .burn id amount => StandardAssets.burn origin id amount

end Dispatchables

/-! ## Reading cells after a write -/

section Cells

variable (s : Storage AccountId Hash) (id id' : Hash) (who who' : AccountId) (value : UInt64)

theorem balance_set_balance :
    (s.set_balance id who value).balance id' who'
      = if id' = id ∧ who' = who then value else s.balance id' who' := by
  simp only [Storage.balance, Storage.set_balance, StorageMap.get_insert, Prod.mk.injEq]
  by_cases h : id' = id ∧ who' = who
  · rw [if_pos h, if_pos h]
    rfl
  · rw [if_neg h, if_neg h]

@[simp] theorem total_supply_set_balance :
    (s.set_balance id who value).total_supply id' = s.total_supply id' := rfl

theorem total_supply_set_total_supply :
    (s.set_total_supply id value).total_supply id'
      = if id' = id then value else s.total_supply id' := by
  simp only [Storage.total_supply, Storage.set_total_supply, StorageMap.get_insert]
  by_cases h : id' = id
  · rw [if_pos h, if_pos h]
    rfl
  · rw [if_neg h, if_neg h]

end Cells

/-! ## The successful outcomes -/

/-- `Step T origin now s call s' events ops`: the call succeeds on `s`, leaves
`s'`, deposits `events` and updates cells by `ops`. -/
inductive Step (T : Trait AccountId Hash) (origin : Origin AccountId) (now : Moment)
    (s : Storage AccountId Hash) : Call AccountId Hash → Storage AccountId Hash →
    List (Event AccountId Hash) → List (CellOp (Cell AccountId Hash)) → Prop
  | issue (who : AccountId) (symbol name : Bytes) (decimals : UInt8)
      (max_supply first_supply : UInt64) (asset_id : Hash)
      (horigin : origin = .signed who)
      (hid : asset_id = T.hash_of (.ecrc10 who symbol name decimals max_supply first_supply))
      (hfresh : s.AssetInfos.get asset_id = none) :
      Step T origin now s (.issue symbol name decimals max_supply first_supply)
        (({ s with
          AssetInfos := s.AssetInfos.insert asset_id
            { symbol, name, decimals, max_supply } }.set_balance asset_id who
              first_supply).set_total_supply asset_id first_supply)
        [.NewAsset asset_id symbol who first_supply decimals now] []
  | transfer (who : AccountId) (id : Hash) (target : AccountId) (amount : UInt64)
      (s₁ : Storage AccountId Hash)
      (horigin : origin = .signed who)
      (hamount : amount ≠ 0)
      (hbalance : amount ≤ s.balance id who)
      (hs₁ : s₁ = s.set_balance id who (s.balance id who - amount)) :
      Step T origin now s (.transfer id target amount)
        (s₁.set_balance id target (s₁.balance id target + amount))
        [.Transferred id who target amount now]
        [.add (.balance id target) (s₁.balance id target) amount]
  | mint (who : AccountId) (id : Hash) (amount : UInt64)
      (horigin : origin = .signed who) :
      Step T origin now s (.mint id amount)
        ((s.set_balance id who (s.balance id who + amount)).set_total_supply id
          (s.total_supply id + amount))
        [.Minted id who amount]
        [.add (.balance id who) (s.balance id who) amount,
          .add (.total_supply id) (s.total_supply id) amount]
  | burn (who : AccountId) (id : Hash) (amount : UInt64)
      (horigin : origin = .signed who)
      (hamount : 0 < amount)
      (hbalance : amount ≤ s.balance id who) :
      Step T origin now s (.burn id amount)
        ((s.set_balance id who (s.balance id who - amount)).set_total_supply id
          (s.total_supply id - amount))
        [.Burned id who amount]
        [.sub (.total_supply id) (s.total_supply id) amount]

section Primitives

variable {β : Type} {g : Unit → Dispatchable AccountId Hash β} {c : Ctx AccountId Hash}

theorem update_bind {f : Storage AccountId Hash → Storage AccountId Hash} :
    (update f >>= g) c
      = g () { c with world := { c.world with standard := f c.world.standard } } := rfl

theorem balance_add_bind {id : Hash} {who : AccountId} {amount : UInt64} :
    (balance_add id who amount >>= g) c
      = g () { c with
          world := { c.world with standard :=
            (c.world.standard.set_balance id who (c.world.standard.balance id who + amount)) }
          ops := c.ops ++ [.standard (.add (.balance id who)
            (c.world.standard.balance id who) amount)] } := rfl

theorem total_supply_add_bind {id : Hash} {amount : UInt64} :
    (total_supply_add id amount >>= g) c
      = g () { c with
          world := { c.world with standard :=
            (c.world.standard.set_total_supply id (c.world.standard.total_supply id + amount)) }
          ops := c.ops ++ [.standard (.add (.total_supply id)
            (c.world.standard.total_supply id) amount)] } := rfl

theorem total_supply_sub_bind {id : Hash} {amount : UInt64} :
    (total_supply_sub id amount >>= g) c
      = g () { c with
          world := { c.world with standard :=
            (c.world.standard.set_total_supply id (c.world.standard.total_supply id - amount)) }
          ops := c.ops ++ [.standard (.sub (.total_supply id)
            (c.world.standard.total_supply id) amount)] } := rfl

end Primitives

/-- A call that returns `Ok` has made a step. -/
theorem step_of_ok {T : Trait AccountId Hash} {origin : Origin AccountId}
    {call : Call AccountId Hash} {c c' : Ctx AccountId Hash} {u : Unit}
    (h : call.dispatch T origin c = .ok u c') :
    ∃ s' events ops, Step T origin c.now c.world.standard call s' events ops
      ∧ c' = { world := { c.world with standard := s' }, now := c.now
               events := c.events ++ events.map .standardAssets
               ops := c.ops ++ ops.map .standard } := by
  cases call with
  | issue symbol name decimals max_supply first_supply =>
    simp only [Call.dispatch, StandardAssets.issue, ensure_signed_bind_eq_ok, read_bind,
      ensure_bind_eq_ok, Bool.not_eq_true', StorageMap.contains_key_eq_false, update_bind,
      timestamp_get_bind, deposit_event_eq_ok] at h
    obtain ⟨who, rfl, hfresh, rfl⟩ := h
    exact ⟨_, _, _, .issue who symbol name decimals max_supply first_supply _ rfl rfl hfresh,
      by simp⟩
  | transfer id target amount =>
    simp only [Call.dispatch, StandardAssets.transfer, ensure_signed_bind_eq_ok, read_bind,
      ensure_bind_eq_ok, update_bind, balance_add_bind, timestamp_get_bind,
      deposit_event_eq_ok] at h
    obtain ⟨who, rfl, hamount, hbalance, rfl⟩ := h
    exact ⟨_, _, _, .transfer who id target amount _ rfl hamount hbalance rfl, by simp⟩
  | mint id amount =>
    simp only [Call.dispatch, StandardAssets.mint, ensure_signed_bind_eq_ok, balance_add_bind,
      total_supply_add_bind, total_supply_set_balance, deposit_event_eq_ok] at h
    obtain ⟨who, rfl, rfl⟩ := h
    exact ⟨_, _, _, .mint who id amount rfl, by simp⟩
  | burn id amount =>
    simp only [Call.dispatch, StandardAssets.burn, ensure_bind_eq_ok, ensure_signed_bind_eq_ok,
      read_bind, update_bind, total_supply_sub_bind, total_supply_set_balance,
      deposit_event_eq_ok] at h
    obtain ⟨hamount, who, rfl, hbalance, rfl⟩ := h
    exact ⟨_, _, _, .burn who id amount rfl hamount hbalance, by simp⟩

/-! ## The failures -/

/-- A call that returns `Err` has changed nothing. -/
theorem atomic_dispatch (T : Trait AccountId Hash) (origin : Origin AccountId)
    (call : Call AccountId Hash) : Atomic (call.dispatch T origin) := by
  cases call with
  | issue symbol name decimals max_supply first_supply =>
    refine Atomic.check (readOnly_ensure_signed _) fun who => ?_
    refine Atomic.check (readOnly_read _) fun known => ?_
    refine Atomic.check (readOnly_ensure _ _) fun _ => Infallible.atomic ?_
    exact (infallible_write _).bind fun _ => (infallible_write _).bind fun _ =>
      (infallible_write _).bind fun _ => infallible_stamp _
  | transfer id target amount =>
    refine Atomic.check (readOnly_ensure_signed _) fun who => ?_
    refine Atomic.check (readOnly_read _) fun origin_balance => ?_
    refine Atomic.check (readOnly_ensure _ _) fun _ => ?_
    refine Atomic.check (readOnly_ensure _ _) fun _ => Infallible.atomic ?_
    exact (infallible_write _).bind fun _ => (infallible_modify _).bind fun _ =>
      infallible_stamp _
  | mint id amount =>
    refine Atomic.check (readOnly_ensure_signed _) fun who => Infallible.atomic ?_
    exact (infallible_modify _).bind fun _ => (infallible_modify _).bind fun _ =>
      infallible_deposit_event _
  | burn id amount =>
    refine Atomic.check (readOnly_ensure _ _) fun _ => ?_
    refine Atomic.check (readOnly_ensure_signed _) fun who => ?_
    refine Atomic.check (readOnly_read _) fun origin_balance => ?_
    refine Atomic.check (readOnly_ensure _ _) fun _ => Infallible.atomic ?_
    exact (infallible_write _).bind fun _ => (infallible_modify _).bind fun _ =>
      infallible_deposit_event _

end Eco2.StandardAssets
