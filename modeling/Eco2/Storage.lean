/-
The data model: records, storage items, events, errors and origins of the three
custom pallets, and the context their dispatchables run in.

Everything that `decl_storage!`, `decl_event!` and `decl_error!` declare in
`pallets/carbon-assets`, `pallets/carbon-exchange` and `pallets/standard-assets`
is here under the source's names; the dispatchables are in the files named after
the pallets. The account and hash types stay parameters, as they are in the
pallets' `Trait`s.

What lies outside the repository enters through `Trait`: the hash of an encoded
tuple, the account of the exchange pot, and `pallet_balances`' `transfer`. The
first two are never assumed to be anything in particular; what the documentation
of `pallet_balances` 2.0 promises about the third is `TransferDocumented`, and
the theorems that need it say so.
-/
import Eco2.StorageMap
import Eco2.WrappingU64
import Eco2.Dispatch

set_option autoImplicit false

namespace Eco2

/-- `Vec<u8>`. -/
abbrev Bytes := List UInt8

/-- `pallet_timestamp`'s moment, milliseconds since the epoch. -/
abbrev Moment := UInt64

/-! ## What the pallets take from outside the repository -/

/-- The tuples that are hashed into identifiers, one constructor for each tag. -/
inductive Preimage (AccountId Hash : Type)
  /-- `(b"project", &sender, &symbol, max_supply, &additional)` -/
  | project (sender : AccountId) (symbol : Bytes) (max_supply : UInt64) (additional : Bytes)
  /-- `(b"asset", &sender, project_id, &vintage, initial_supply, &additional)` -/
  | asset (sender : AccountId) (project_id : Hash) (vintage : Bytes) (initial_supply : UInt64)
      (additional : Bytes)
  /-- `(b"issue", &sender, asset_id, amount, &additional)` -/
  | issue (sender : AccountId) (asset_id : Hash) (amount : UInt64) (additional : Bytes)
  /-- `(b"burn", &sender, asset_id, amount, &additional)` -/
  | burn (sender : AccountId) (asset_id : Hash) (amount : UInt64) (additional : Bytes)
  /-- `(b"order", &maker, asset_id, money_id, price, amount, direction, salt)` -/
  | order (maker : AccountId) (asset_id money_id : Hash) (price amount : UInt64)
      (direction : UInt8) (salt : UInt64)
  /-- `(b"ECRC10", &origin, &symbol, &name, decimals, max_supply, first_supply)` -/
  | ecrc10 (origin : AccountId) (symbol name : Bytes) (decimals : UInt8)
      (max_supply first_supply : UInt64)

/-- The associated items of the pallets' `Trait`s that the repository does not
define. A native balance is a `u128`; it is a natural number here, since no total
issuance reaches `2 ^ 128`. -/
structure Trait (AccountId Hash : Type) where
  /-- `T::Hashing::hash_of`. -/
  hash_of : Preimage AccountId Hash → Hash
  /-- `T::Hash::default()`, the zero hash. -/
  default_hash : Hash
  /-- `PALLET_ID.into_account()` of the exchange pallet. -/
  pot_account_id : AccountId
  /-- `pallet_balances::transfer` on the free balances: `none` is `Err`. -/
  transfer : (AccountId → ℕ) → AccountId → AccountId → ℕ → Option (AccountId → ℕ)

/-- `ExistentialDeposit` of `runtime/src/lib.rs`. -/
def ExistentialDeposit : ℕ := 500

/-- What a sender is left with after paying: a remainder below the existential
deposit is reaped, and burned since `DustRemoval = ()`. -/
def reaped (balance : ℕ) : ℕ := if balance < ExistentialDeposit then 0 else balance

/-- What `pallet_balances` 2.0 documents about a successful `transfer`. -/
structure TransferDocumented {AccountId : Type}
    (transfer : (AccountId → ℕ) → AccountId → AccountId → ℕ → Option (AccountId → ℕ)) :
    Prop where
  /-- Nothing happens for value zero or to oneself. -/
  noop : ∀ b src dst value, value = 0 ∨ src = dst → transfer b src dst value = some b
  /-- The sender had the funds. -/
  funds : ∀ b src dst value b', value ≠ 0 → src ≠ dst → transfer b src dst value = some b' →
    value ≤ b src
  /-- The receiver ends at the existential deposit or above. -/
  alive : ∀ b src dst value b', value ≠ 0 → src ≠ dst → transfer b src dst value = some b' →
    ExistentialDeposit ≤ b dst + value
  /-- The sender pays exactly the value, and is reaped below the existential deposit. -/
  sender : ∀ b src dst value b', value ≠ 0 → src ≠ dst → transfer b src dst value = some b' →
    b' src = reaped (b src - value)
  /-- The receiver is credited exactly the value. -/
  receiver : ∀ b src dst value b', value ≠ 0 → src ≠ dst → transfer b src dst value = some b' →
    b' dst = b dst + value
  /-- Nobody else is touched. -/
  others : ∀ b src dst value b', transfer b src dst value = some b' →
    ∀ x, x ≠ src → x ≠ dst → b' x = b x

/-! ## Origins and errors -/

/-- `frame_system::RawOrigin`. -/
inductive RawOrigin (AccountId : Type)
  | Root
  | Signed (who : AccountId)
  | None
  deriving DecidableEq

/-- `pallet_collective::RawOrigin`: a motion carried by `n` of `m` members, or one member. -/
inductive CollectiveOrigin (AccountId : Type)
  | Members (n m : ℕ)
  | Member (who : AccountId)
  deriving DecidableEq

/-- The runtime's `Origin`. -/
inductive Origin (AccountId : Type)
  | system (o : RawOrigin AccountId)
  | council (o : CollectiveOrigin AccountId)
  | carbonCommittee (o : CollectiveOrigin AccountId)
  deriving DecidableEq

/-- `Origin::signed(who)`. -/
@[match_pattern] abbrev Origin.signed {AccountId : Type} (who : AccountId) : Origin AccountId :=
  .system (.Signed who)

/-- Who signs is not one who does not sign. -/
theorem Origin.signer_ne {AccountId : Type} {origin : Origin AccountId} {who x : AccountId}
    (horigin : origin = .signed who) (hx : origin ≠ .signed x) : who ≠ x :=
  fun hc => hx (hc ▸ horigin)

namespace CarbonAssets

/-- `decl_error!` of the pallet. -/
inductive Error
  | InvalidIndex
  | StorageOverflow
  | DuplicatedKey
  | AlreadyApproved
  | ProjectNotApproved
  | PermissionDenied
  | OverIssueLimit
  | AssetNotApproved
  | AmountZero
  | BalanceLow
  deriving DecidableEq, Repr

end CarbonAssets

namespace CarbonExchange

/-- `decl_error!` of the pallet. -/
inductive Error
  | InvalidIndex
  | AssetNotExist
  | InvalidMoneyID
  | InvalidDirection
  | DuplicatedKey
  | StorageOverflow
  | InsuffientMoney
  | InsuffientAsset
  | InsuffientPotAsset
  | PriceZero
  | InvalidAmount
  | AmountZero
  | AmountHigh
  | PermissionDenied
  deriving DecidableEq, Repr

end CarbonExchange

namespace StandardAssets

/-- `decl_error!` of the pallet. -/
inductive Error
  | AmountZero
  | BalanceLow
  | BalanceZero
  | DuplicatedKey
  deriving DecidableEq, Repr

end StandardAssets

/-- `DispatchError`: a bad origin or a module's error. `pallet_balances` has its
own errors, which nothing in the repository distinguishes. -/
inductive DispatchError
  | BadOrigin
  | carbonAssets (e : CarbonAssets.Error)
  | carbonExchange (e : CarbonExchange.Error)
  | standardAssets (e : StandardAssets.Error)
  | balances
  deriving DecidableEq, Repr

/-! ## `pallets/carbon-assets` -/

namespace CarbonAssets

structure CarbonProject (AccountId : Type) where
  symbol : Bytes
  max_supply : UInt64
  total_supply : UInt64
  status : UInt8
  owner : AccountId
  deriving DecidableEq

structure CarbonAsset (Hash : Type) where
  project_id : Hash
  vintage : Bytes
  initial_supply : UInt64
  total_supply : UInt64
  status : UInt8
  deriving DecidableEq

structure IssueInfo (Hash : Type) where
  asset_id : Hash
  amount : UInt64
  status : UInt8
  additional : Bytes
  deriving DecidableEq

structure BurnInfo (Hash : Type) where
  asset_id : Hash
  amount : UInt64
  status : UInt8
  additional : Bytes
  deriving DecidableEq

/-- `decl_storage!` of the pallet. -/
structure Storage (AccountId Hash : Type) where
  ProjectAdditionals : StorageMap Hash Bytes
  Projects : StorageMap Hash (CarbonProject AccountId)
  AssetAdditionals : StorageMap Hash Bytes
  Assets : StorageMap Hash (CarbonAsset Hash)
  Issues : StorageMap Hash (IssueInfo Hash)
  Burns : StorageMap Hash (BurnInfo Hash)
  Balances : StorageMap (Hash × AccountId) UInt64

/-- `decl_event!` of the pallet. -/
inductive Event (AccountId Hash : Type)
  | ProjectSubmited (project_id : Hash) (owner : AccountId) (symbol : Bytes) (now : Moment)
  | ProjectApproved (project_id : Hash)
  | AssetSubmited (project_id asset_id : Hash) (symbol vintage : Bytes) (owner : AccountId)
      (now : Moment)
  | AssetApproved (asset_id : Hash)
  | IssueSubmited (issue_id asset_id : Hash) (owner : AccountId) (amount : UInt64) (now : Moment)
  | IssueApproved (issue_id : Hash)
  | BurnSubmited (burn_id asset_id : Hash) (owner : AccountId) (amount : UInt64) (now : Moment)
  | BurnApproved (burn_id : Hash)
  | Transferred (asset_id : Hash) (from_ to_ : AccountId) (amount : UInt64) (now : Moment)
  | Neutralized (asset_id : Hash) (owner : AccountId) (amount : UInt64) (now : Moment)
  deriving DecidableEq

/-- Storage before any call. -/
def Storage.empty {AccountId Hash : Type} : Storage AccountId Hash :=
  { ProjectAdditionals := .empty, Projects := .empty, AssetAdditionals := .empty,
    Assets := .empty, Issues := .empty, Burns := .empty, Balances := .empty }

/-- `get_balance`: a `u64` item answers zero where nothing is stored. -/
def Storage.balance {AccountId Hash : Type} (s : Storage AccountId Hash) (asset_id : Hash)
    (account : AccountId) : UInt64 :=
  (s.Balances.get (asset_id, account)).getD 0

end CarbonAssets

/-! ## `pallets/carbon-exchange` -/

namespace CarbonExchange

structure Order (AccountId Hash : Type) where
  asset_id : Hash
  money_id : Hash
  maker : AccountId
  amount : UInt64
  price : UInt64
  left_amount : UInt64
  direction : UInt8
  locked_balance : UInt64
  salt : UInt64
  deriving DecidableEq

/-- `enum Direction`. -/
inductive Direction
  | ASK
  | BID
  deriving DecidableEq, Repr

/-- `direction as u8`. -/
def Direction.as_u8 : Direction → UInt8
  | ASK => 0
  | BID => 1

/-- `decl_event!` of the pallet. -/
inductive Event (AccountId Hash : Type)
  | NewOrder (order_id : Hash) (maker : AccountId) (asset_id money_id : Hash) (direction : UInt8)
      (now : Moment)
  | NewDeal (order_id asset_id money_id : Hash) (maker taker : AccountId) (price amount : UInt64)
      (direction : UInt8) (now : Moment)
  | OrderFinished (order_id : Hash)
  | OrderCanceled (order_id : Hash)
  deriving DecidableEq

end CarbonExchange

/-! ## `pallets/standard-assets` -/

namespace StandardAssets

structure ECRC10 where
  symbol : Bytes
  name : Bytes
  decimals : UInt8
  max_supply : UInt64
  deriving DecidableEq

/-- `decl_storage!` of the pallet. -/
structure Storage (AccountId Hash : Type) where
  AssetInfos : StorageMap Hash ECRC10
  Balances : StorageMap (Hash × AccountId) UInt64
  TotalSupply : StorageMap Hash UInt64

/-- `decl_event!` of the pallet. -/
inductive Event (AccountId Hash : Type)
  | NewAsset (asset_id : Hash) (symbol : Bytes) (owner : AccountId) (first_supply : UInt64)
      (decimals : UInt8) (now : Moment)
  | Transferred (asset_id : Hash) (from_ to_ : AccountId) (amount : UInt64) (now : Moment)
  | Minted (asset_id : Hash) (owner : AccountId) (amount : UInt64)
  | Burned (asset_id : Hash) (owner : AccountId) (amount : UInt64)
  deriving DecidableEq

/-- A stored `u64` of the pallet: a balance or a total supply. -/
inductive Cell (AccountId Hash : Type)
  | balance (id : Hash) (who : AccountId)
  | total_supply (id : Hash)
  deriving DecidableEq

def Storage.empty {AccountId Hash : Type} : Storage AccountId Hash :=
  { AssetInfos := .empty, Balances := .empty, TotalSupply := .empty }

/-- `balance`: zero where nothing is stored. -/
def Storage.balance {AccountId Hash : Type} (s : Storage AccountId Hash) (id : Hash)
    (who : AccountId) : UInt64 :=
  (s.Balances.get (id, who)).getD 0

/-- `total_supply`: zero where nothing is stored. -/
def Storage.total_supply {AccountId Hash : Type} (s : Storage AccountId Hash) (id : Hash) :
    UInt64 :=
  (s.TotalSupply.get id).getD 0

end StandardAssets

/-! ## The chain -/

/-- The part of the chain's storage the custom pallets read and write. -/
structure World (AccountId Hash : Type) where
  carbon : CarbonAssets.Storage AccountId Hash
  standard : StandardAssets.Storage AccountId Hash
  Orders : StorageMap Hash (CarbonExchange.Order AccountId Hash)
  native : AccountId → ℕ

/-- The runtime's `Event`, as far as the custom pallets deposit any. -/
inductive Event (AccountId Hash : Type)
  | carbonAssets (e : CarbonAssets.Event AccountId Hash)
  | carbonExchange (e : CarbonExchange.Event AccountId Hash)
  | standardAssets (e : StandardAssets.Event AccountId Hash)
  deriving DecidableEq

/-- A primitive operation of a call on stored money: an in-place update of a
carbon balance or of a cell of the standard assets, a call of the carbon pallet's
`make_transfer` with the balance it found, or a native payment that went through.
The calls record them in order and no call reads them; they are there so that a
statement about a run can speak of the additions and payments it made. -/
inductive Op (AccountId Hash : Type)
  | carbon (op : CellOp (Hash × AccountId))
  | make_transfer (asset_id : Hash) (from_ to_ : AccountId) (from_balance amount : UInt64)
  | standard (op : CellOp (StandardAssets.Cell AccountId Hash))
  | payment (src dst : AccountId) (value : ℕ)
  deriving DecidableEq

namespace Op

variable {AccountId Hash : Type}

/-- The operation is not an addition to a carbon balance that wraps. -/
def CarbonNoOverflow : Op AccountId Hash → Prop
  | carbon op => op.NoOverflow
  | _ => True

/-- The operation is not an update of a carbon balance that wraps. -/
def CarbonExact : Op AccountId Hash → Prop
  | carbon op => op.Exact
  | _ => True

/-- The operation is not an addition to a cell of the standard assets that wraps. -/
def StandardNoOverflow : Op AccountId Hash → Prop
  | standard op => op.NoOverflow
  | _ => True

instance : DecidablePred (@CarbonNoOverflow AccountId Hash)
  | carbon op => inferInstanceAs (Decidable op.NoOverflow)
  | standard _ => isTrue trivial
  | make_transfer _ _ _ _ _ => isTrue trivial
  | payment _ _ _ => isTrue trivial

instance : DecidablePred (@CarbonExact AccountId Hash)
  | carbon op => inferInstanceAs (Decidable op.Exact)
  | standard _ => isTrue trivial
  | make_transfer _ _ _ _ _ => isTrue trivial
  | payment _ _ _ => isTrue trivial

instance : DecidablePred (@StandardNoOverflow AccountId Hash)
  | carbon _ => isTrue trivial
  | standard op => inferInstanceAs (Decidable op.NoOverflow)
  | make_transfer _ _ _ _ _ => isTrue trivial
  | payment _ _ _ => isTrue trivial

end Op

/-- What a dispatchable runs in: storage, the block's timestamp, the events it
has deposited so far, and the operations it has performed so far. -/
structure Ctx (AccountId Hash : Type) where
  world : World AccountId Hash
  now : Moment
  events : List (Event AccountId Hash)
  ops : List (Op AccountId Hash)

/-- A dispatchable, or a part of one. An error keeps the writes made before it. -/
abbrev Dispatchable (AccountId Hash α : Type) :=
  EStateM DispatchError (Ctx AccountId Hash) α

section Prelude

open Dispatch

variable {AccountId Hash α β : Type}

/-- Reading storage. -/
def read (f : World AccountId Hash → α) : Dispatchable AccountId Hash α := do
  let c ← get
  return f c.world

/-- Writing storage. -/
def write (f : World AccountId Hash → World AccountId Hash) : Dispatchable AccountId Hash Unit :=
  modify fun c => { c with world := f c.world }

/-- Recording an operation. -/
def record (op : World AccountId Hash → Op AccountId Hash) : Dispatchable AccountId Hash Unit :=
  modify fun c => { c with ops := c.ops ++ [op c.world] }

/-- `ensure_signed`. -/
def ensure_signed (origin : Origin AccountId) : Dispatchable AccountId Hash AccountId :=
  match origin with
  | .signed who => pure who
  | _ => throw .BadOrigin

/-- `T::ApproveOrigin::ensure_origin`: the root origin, or a motion of the carbon
committee carried by more than half of its members. -/
def ApproveOrigin.ensure_origin (origin : Origin AccountId) : Dispatchable AccountId Hash Unit :=
  match origin with
  | .system .Root => pure ()
  -- `EnsureProportionMoreThan<_1, _2>`: strictly more than half
  | .carbonCommittee (.Members n m) => ensure (n * 2 > 1 * m) .BadOrigin
  | _ => throw .BadOrigin

/-- The origins `ApproveOrigin` lets through. -/
def ApproveOrigin.Allows : Origin AccountId → Prop
  | .system .Root => True
  | .carbonCommittee (.Members n m) => n * 2 > 1 * m
  | _ => False

/-- `<pallet_timestamp::Module<T>>::get()`. -/
def timestamp_get : Dispatchable AccountId Hash Moment := do
  let c ← get
  return c.now

/-- `deposit_event`. -/
def deposit_event (e : Event AccountId Hash) : Dispatchable AccountId Hash Unit :=
  modify fun c => { c with events := c.events ++ [e] }

/-- `<pallet_balances::Module<T>>::transfer(origin, dest, value)`. -/
def balances_transfer (T : Trait AccountId Hash) (origin : Origin AccountId) (dest : AccountId)
    (value : ℕ) : Dispatchable AccountId Hash Unit := do
  let transactor ← ensure_signed origin
  let c ← get
  let native ← ok_or (T.transfer c.world.native transactor dest value) .balances
  modify fun c =>
    { c with world := { c.world with native }, ops := c.ops ++ [.payment transactor dest value] }

theorem read_bind {f : World AccountId Hash → α} {g : α → Dispatchable AccountId Hash β}
    {c : Ctx AccountId Hash} : (read f >>= g) c = g (f c.world) c := rfl

theorem record_bind {op : World AccountId Hash → Op AccountId Hash}
    {g : Unit → Dispatchable AccountId Hash β} {c : Ctx AccountId Hash} :
    (record op >>= g) c = g () { c with ops := c.ops ++ [op c.world] } := rfl

theorem timestamp_get_bind {g : Moment → Dispatchable AccountId Hash β}
    {c : Ctx AccountId Hash} : (timestamp_get >>= g) c = g c.now c := rfl

theorem deposit_event_bind {e : Event AccountId Hash} {g : Unit → Dispatchable AccountId Hash β}
    {c : Ctx AccountId Hash} :
    (deposit_event e >>= g) c = g () { c with events := c.events ++ [e] } := rfl

theorem deposit_event_eq_ok {e : Event AccountId Hash} {c c' : Ctx AccountId Hash} {u : Unit} :
    deposit_event e c = .ok u c' ↔ { c with events := c.events ++ [e] } = c' :=
  modify_eq_ok

theorem ensure_signed_bind_eq_ok {origin : Origin AccountId}
    {g : AccountId → Dispatchable AccountId Hash β} {c c' : Ctx AccountId Hash} {b : β} :
    (ensure_signed origin >>= g) c = .ok b c'
      ↔ ∃ who, origin = .signed who ∧ g who c = .ok b c' := by
  rcases origin with (_ | who | _) | _ | _
  case system.Signed =>
    constructor
    · exact fun hok => ⟨who, rfl, hok⟩
    · rintro ⟨who', horigin, hok⟩
      cases horigin
      exact hok
  all_goals exact iff_of_false (fun hok => nomatch hok) fun ⟨_, horigin, _⟩ => nomatch horigin

theorem ensure_origin_bind_eq_ok {origin : Origin AccountId}
    {g : Unit → Dispatchable AccountId Hash β} {c c' : Ctx AccountId Hash} {b : β} :
    (ApproveOrigin.ensure_origin origin >>= g) c = .ok b c'
      ↔ ApproveOrigin.Allows origin ∧ g () c = .ok b c' := by
  rcases origin with (_ | _ | _) | _ | (_ | _)
  case system.Root => exact (and_iff_right trivial).symm
  case carbonCommittee.Members => exact ensure_bind_eq_ok
  all_goals exact iff_of_false (fun hok => nomatch hok) fun hok => hok.1.elim

/-- A native transfer that goes through. -/
theorem balances_transfer_eq_ok {T : Trait AccountId Hash} {origin : Origin AccountId}
    {dst : AccountId} {value : ℕ} {c c' : Ctx AccountId Hash} {u : Unit}
    (h : balances_transfer T origin dst value c = .ok u c') :
    ∃ src, origin = .signed src ∧ ∃ native, T.transfer c.world.native src dst value = some native
      ∧ c' = { c with world := { c.world with native }
                      ops := c.ops ++ [.payment src dst value] } := by
  simp only [balances_transfer, ensure_signed_bind_eq_ok, get_bind, ok_or_bind_eq_ok,
    modify_eq_ok] at h
  obtain ⟨src, horigin, native, hnative, rfl⟩ := h
  exact ⟨src, horigin, native, hnative, rfl⟩

/-- A native transfer that goes through, and what follows it. -/
theorem balances_transfer_bind_eq_ok {T : Trait AccountId Hash} {src dst : AccountId} {value : ℕ}
    {g : Unit → Dispatchable AccountId Hash β} {c c' : Ctx AccountId Hash} {b : β} :
    (balances_transfer T (.signed src) dst value >>= g) c = .ok b c'
      ↔ ∃ native, T.transfer c.world.native src dst value = some native
        ∧ g () { c with world := { c.world with native }
                        ops := c.ops ++ [.payment src dst value] } = .ok b c' := by
  simp only [balances_transfer, bind_assoc, ensure_signed_bind_eq_ok, get_bind,
    ok_or_bind_eq_ok, modify_bind]
  constructor
  · -- the origin is signed by `src`, so `ensure_signed` answers it
    rintro ⟨who, horigin, native, hn, hg⟩
    cases horigin
    exact ⟨native, hn, hg⟩
  · rintro ⟨native, hn, hg⟩
    exact ⟨src, rfl, native, hn, hg⟩

theorem ensure_signed_bind_eq_error {origin : Origin AccountId}
    {g : AccountId → Dispatchable AccountId Hash β} {c c' : Ctx AccountId Hash}
    {e : DispatchError} (h : (ensure_signed origin >>= g) c = .error e c') :
    c' = c ∨ ∃ who, origin = .signed who ∧ g who c = .error e c' := by
  rcases origin with (_ | who | _) | _ | _
  case system.Signed => exact .inr ⟨who, rfl, h⟩
  all_goals
    cases h
    exact .inl rfl

/-- A run that fails with another error than `BadOrigin` is signed. -/
theorem ensure_signed_bind_eq_error_of_ne {origin : Origin AccountId}
    {g : AccountId → Dispatchable AccountId Hash β} {c c' : Ctx AccountId Hash}
    {e : DispatchError} (he : e ≠ .BadOrigin) (h : (ensure_signed origin >>= g) c = .error e c') :
    ∃ who, origin = .signed who ∧ g who c = .error e c' := by
  rcases origin with (_ | who | _) | _ | _
  case system.Signed => exact ⟨who, rfl, h⟩
  all_goals
    cases h
    exact absurd rfl he

/-- A run that fails with another error than `BadOrigin` has passed `ApproveOrigin`. -/
theorem of_ensure_origin_bind_error {origin : Origin AccountId}
    {g : Unit → Dispatchable AccountId Hash β} {c c' : Ctx AccountId Hash} {e : DispatchError}
    (h : (ApproveOrigin.ensure_origin origin >>= g) c = .error e c') (he : e ≠ .BadOrigin) :
    g () c = .error e c' := by
  rcases origin with (_ | _ | _) | _ | (_ | _)
  case system.Root => exact h
  case carbonCommittee.Members =>
    rcases ensure_bind_eq_error.mp h with ⟨-, hbad, -⟩ | ⟨-, hg⟩
    · exact absurd hbad.symm he
    · exact hg
  all_goals
    cases h
    exact absurd rfl he

/-- A native transfer in front of a run that fails: it is refused, or what follows it fails. -/
theorem balances_transfer_bind_eq_error {T : Trait AccountId Hash} {src dst : AccountId}
    {value : ℕ} {g : Unit → Dispatchable AccountId Hash β} {c c' : Ctx AccountId Hash}
    {e : DispatchError} :
    (balances_transfer T (.signed src) dst value >>= g) c = .error e c'
      ↔ (T.transfer c.world.native src dst value = none ∧ .balances = e ∧ c = c')
        ∨ ∃ native, T.transfer c.world.native src dst value = some native
          ∧ g () { c with world := { c.world with native }
                          ops := c.ops ++ [.payment src dst value] } = .error e c' := by
  simp only [balances_transfer, bind_assoc, ensure_signed, pure_bind, get_bind,
    ok_or_bind_eq_error, modify_bind]

theorem readOnly_read (f : World AccountId Hash → α) : ReadOnly (read f) :=
  ReadOnly.bind readOnly_get fun _ => readOnly_pure _

theorem infallible_write (f : World AccountId Hash → World AccountId Hash) :
    Infallible (write f) :=
  infallible_modify _

theorem infallible_record (op : World AccountId Hash → Op AccountId Hash) :
    Infallible (record op) :=
  infallible_modify _

theorem readOnly_ensure_signed (origin : Origin AccountId) :
    ReadOnly (ensure_signed origin : Dispatchable AccountId Hash AccountId) := by
  rcases origin with (_ | w | _) | _ | _
  case system.Signed => exact readOnly_pure w
  all_goals exact readOnly_throw _

theorem readOnly_ensure_origin (origin : Origin AccountId) :
    ReadOnly (ApproveOrigin.ensure_origin origin : Dispatchable AccountId Hash Unit) := by
  rcases origin with (_ | _ | _) | _ | (_ | _)
  case system.Root => exact readOnly_pure ()
  case carbonCommittee.Members => exact readOnly_ensure _ _
  all_goals exact readOnly_throw _

theorem infallible_timestamp_get :
    Infallible (timestamp_get : Dispatchable AccountId Hash Moment) :=
  Infallible.bind infallible_get fun _ => infallible_pure _

theorem infallible_deposit_event (e : Event AccountId Hash) :
    Infallible (deposit_event e : Dispatchable AccountId Hash Unit) :=
  infallible_modify _

/-- The tail of most calls: the timestamp is read and an event deposited. -/
theorem infallible_stamp (event : Moment → Event AccountId Hash) :
    Infallible (timestamp_get >>= fun now => deposit_event (event now)) :=
  infallible_timestamp_get.bind fun _ => infallible_deposit_event _

/-- A native transfer that fails changes nothing. -/
theorem atomic_balances_transfer (T : Trait AccountId Hash) (origin : Origin AccountId)
    (dst : AccountId) (value : ℕ) :
    Atomic (balances_transfer T origin dst value : Dispatchable AccountId Hash Unit) :=
  Atomic.check (readOnly_ensure_signed origin) fun _ =>
    Atomic.check readOnly_get fun _ =>
      Atomic.check (readOnly_ok_or _ _) fun _ => (infallible_modify _).atomic

end Prelude

end Eco2
