/-
`pallets/carbon-exchange/src/lib.rs`: the three dispatchables of the order book.

The exchange holds what live orders offer in one account, the pot: the carbon
units of every ask order and the native money of every bid order. It moves carbon
units with `make_transfer`, which never fails and never checks, and native money
with `pallet_balances`' `transfer`, which may refuse. The two legs of a trade
stand in the order of the source: an ask pays first and delivers second, a bid
delivers first and pays second.
-/
import Eco2.CarbonStep

set_option autoImplicit false

open Eco2.Dispatch

namespace Eco2.CarbonExchange

variable {AccountId Hash : Type} [DecidableEq AccountId] [DecidableEq Hash]

section Dispatchables

variable (T : Trait AccountId Hash)

def get_order (order_id : Hash) :
    Dispatchable AccountId Hash (Option (Order AccountId Hash)) :=
  read fun w => w.Orders.get order_id

def insert_order (order_id : Hash) (order : Order AccountId Hash) :
    Dispatchable AccountId Hash Unit :=
  write fun w => { w with Orders := w.Orders.insert order_id order }

def remove_order (order_id : Hash) : Dispatchable AccountId Hash Unit :=
  write fun w => { w with Orders := w.Orders.remove order_id }

def make_order (origin : Origin AccountId) (asset_id money_id : Hash) (price amount : UInt64)
    (direction : UInt8) (salt : UInt64) : Dispatchable AccountId Hash Unit := do
  let maker ← ensure_signed origin
  ensure (money_id = T.default_hash) (.carbonExchange .InvalidMoneyID)
  ensure (price > 0) (.carbonExchange .PriceZero)
  ensure (amount > 0) (.carbonExchange .AmountZero)
  let has_asset ← CarbonAssets.has_asset asset_id
  ensure has_asset (.carbonExchange .AssetNotExist)
  let order_id := T.hash_of (.order maker asset_id money_id price amount direction salt)
  let known ← read fun w => w.Orders.contains_key order_id
  ensure (!known) (.carbonExchange .DuplicatedKey)
  let pot_account := T.pot_account_id
  let locked_balance : UInt64 ←
    -- an ask locks its units, a bid its money
    if direction = Direction.ASK.as_u8 then do
      let asset_balance ← CarbonAssets.balance asset_id maker
      ensure (asset_balance ≥ amount) (.carbonExchange .InsuffientAsset)
      CarbonAssets.make_transfer asset_id maker pot_account amount
      pure 0
    else if direction = Direction.BID.as_u8 then do
      let locked_balance := U64.saturating_mul amount price
      balances_transfer T origin pot_account locked_balance.toNat
      pure locked_balance
    else
      throw (.carbonExchange .InvalidDirection)
  let order : Order AccountId Hash :=
    { asset_id, money_id, price, amount, direction, maker, left_amount := amount,
      locked_balance, salt }
  insert_order order_id order
  let now ← timestamp_get
  deposit_event (.carbonExchange (.NewOrder order_id maker asset_id money_id direction now))

def take_order (origin : Origin AccountId) (order_id : Hash) (amount : UInt64) :
    Dispatchable AccountId Hash Unit := do
  let taker ← ensure_signed origin
  let order ← ok_or (← get_order order_id) (.carbonExchange .InvalidIndex)
  ensure (order.left_amount ≥ amount) (.carbonExchange .AmountHigh)
  let asset_id := order.asset_id
  let money_id := order.money_id
  let price := order.price
  let direction := order.direction
  let maker := order.maker
  -- each take multiplies and saturates for itself
  let money_amount := U64.saturating_mul amount price
  let pot_account := T.pot_account_id
  let order : Order AccountId Hash ←
    if direction = Direction.ASK.as_u8 then do
      let pot_asset_balance ← CarbonAssets.balance asset_id pot_account
      ensure (pot_asset_balance ≥ amount) (.carbonExchange .InsuffientPotAsset)
      -- the taker pays, then is handed the units
      balances_transfer T origin maker money_amount.toNat
      CarbonAssets.make_transfer asset_id pot_account taker amount
      pure order
    else do
      let asset_balance ← CarbonAssets.balance asset_id taker
      ensure (asset_balance ≥ amount) (.carbonExchange .InsuffientAsset)
      -- the taker hands the units over, then is paid
      CarbonAssets.make_transfer asset_id taker maker amount
      balances_transfer T (.signed pot_account) taker money_amount.toNat
      pure { order with locked_balance := order.locked_balance - money_amount }
  let order := { order with left_amount := order.left_amount - amount }
  -- a take of zero also comes this way, and leaves the order as it is
  if order.left_amount > 0 then
    insert_order order_id order
  else
    remove_order order_id
    deposit_event (.carbonExchange (.OrderFinished order_id))
  let now ← timestamp_get
  deposit_event (.carbonExchange
    (.NewDeal order_id asset_id money_id maker taker price amount direction now))

def cancel_order (origin : Origin AccountId) (order_id : Hash) :
    Dispatchable AccountId Hash Unit := do
  let sender ← ensure_signed origin
  let order ← ok_or (← get_order order_id) (.carbonExchange .InvalidIndex)
  ensure (order.maker = sender) (.carbonExchange .PermissionDenied)
  let pot_account := T.pot_account_id
  -- an ask gives back the units left, a bid the money still locked
  if order.direction = Direction.ASK.as_u8 then
    CarbonAssets.make_transfer order.asset_id pot_account sender order.left_amount
  else
    balances_transfer T (.signed pot_account) sender order.locked_balance.toNat
  remove_order order_id
  deposit_event (.carbonExchange (.OrderCanceled order_id))

/-- The calls of the pallet, in the order of `decl_module!`. -/
inductive Call (Hash : Type)
  | make_order (asset_id money_id : Hash) (price amount : UInt64) (direction : UInt8)
      (salt : UInt64)
  | take_order (order_id : Hash) (amount : UInt64)
  | cancel_order (order_id : Hash)

def Call.dispatch (origin : Origin AccountId) : Call Hash → Dispatchable AccountId Hash Unit
  | .make_order asset_id money_id price amount direction salt =>
      CarbonExchange.make_order T origin asset_id money_id price amount direction salt
  | .take_order order_id amount => CarbonExchange.take_order T origin order_id amount
  | .cancel_order order_id => CarbonExchange.cancel_order T origin order_id

end Dispatchables

end Eco2.CarbonExchange
