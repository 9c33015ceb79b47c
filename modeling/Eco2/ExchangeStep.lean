/-
What a call of `pallets/carbon-exchange` can do.

`Step` lists the successful outcomes, split by direction. A call that fails has
changed nothing, with one exception: a take of a bid order hands the carbon over
before the native money is paid, so it fails with that leg done when the payment
is refused. `dispatch_error` says that these are the only two possibilities.
-/
import Eco2.CarbonExchange

set_option autoImplicit false
set_option linter.unusedSectionVars false
set_option linter.unusedSimpArgs false

open Eco2.Dispatch

namespace Eco2

namespace CarbonAssets

variable {AccountId Hash : Type} [DecidableEq AccountId] [DecidableEq Hash]

/-- `has_asset` on storage. -/
def Storage.has_asset (s : Storage AccountId Hash) (asset_id : Hash) : Bool :=
  match s.Assets.get asset_id with
  | some val => val.status == 1
  | none => false

/-- The asset is stored with status 1. -/
def Storage.Approved (s : Storage AccountId Hash) (asset_id : Hash) : Prop :=
  ∃ asset, s.Assets.get asset_id = some asset ∧ asset.status = 1

theorem has_asset_iff {s : Storage AccountId Hash} {asset_id : Hash} :
    s.has_asset asset_id = true ↔ s.Approved asset_id := by
  unfold Storage.has_asset Storage.Approved
  cases s.Assets.get asset_id with
  | none => simp
  | some asset => simp

theorem has_asset_bind {β : Type} {asset_id : Hash} {g : Bool → Dispatchable AccountId Hash β}
    {c : Ctx AccountId Hash} :
    (has_asset asset_id >>= g) c = g (c.world.carbon.has_asset asset_id) c := by
  unfold has_asset get_asset Storage.has_asset
  rw [bind_assoc, read_bind]
  cases c.world.carbon.Assets.get asset_id <;> rfl

theorem readOnly_has_asset (asset_id : Hash) :
    ReadOnly (has_asset asset_id : Dispatchable AccountId Hash Bool) := by
  refine (readOnly_read _).bind fun asset => ?_
  cases asset with
  | none => exact readOnly_pure _
  | some val => exact readOnly_pure _

theorem readOnly_balance (asset_id : Hash) (account : AccountId) :
    ReadOnly (balance asset_id account : Dispatchable AccountId Hash UInt64) :=
  readOnly_read fun w => w.carbon.balance asset_id account

end CarbonAssets

namespace CarbonExchange

open CarbonAssets

variable {AccountId Hash : Type} [DecidableEq AccountId] [DecidableEq Hash]

/-! ## What a take leaves of the order -/

/-- The order map after a take: the order is written back while something is
left of it, and removed otherwise. -/
def settle (orders : StorageMap Hash (Order AccountId Hash)) (order_id : Hash)
    (order : Order AccountId Hash) : StorageMap Hash (Order AccountId Hash) :=
  if order.left_amount > 0 then orders.insert order_id order else orders.remove order_id

/-- The events of a take that has gone through. -/
def take_events (order_id : Hash) (order : Order AccountId Hash) (deal : Event AccountId Hash) :
    List (Event AccountId Hash) :=
  if order.left_amount > 0 then [deal] else [.OrderFinished order_id, deal]

/-- The event of a take of `amount` of the order. -/
def Order.new_deal (order : Order AccountId Hash) (order_id : Hash) (taker : AccountId)
    (amount : UInt64) (now : Moment) : Event AccountId Hash :=
  .NewDeal order_id order.asset_id order.money_id order.maker taker order.price amount
    order.direction now

/-- The order after `amount` of it has been taken, its lock reduced by `money`. -/
def Order.taken (order : Order AccountId Hash) (amount money : UInt64) : Order AccountId Hash :=
  { order with
    left_amount := order.left_amount - amount
    locked_balance := order.locked_balance - money }

theorem taken_zero (order : Order AccountId Hash) (amount : UInt64) :
    order.taken amount 0 = { order with left_amount := order.left_amount - amount } := by
  rw [Order.taken, UInt64.sub_zero]

/-! ## The successful outcomes -/

/-- `Step T origin now w call w' events ops`: the call succeeds on `w`, leaves
`w'`, deposits `events` and performs `ops`. -/
inductive Step (T : Trait AccountId Hash) (origin : Origin AccountId) (now : Moment)
    (w : World AccountId Hash) : Call Hash → World AccountId Hash →
    List (Event AccountId Hash) → List (Op AccountId Hash) → Prop
  | make_ask (maker : AccountId) (asset_id money_id : Hash) (price amount : UInt64)
      (salt : UInt64) (order_id : Hash)
      (horigin : origin = .signed maker)
      (hmoney : money_id = T.default_hash)
      (hprice : 0 < price)
      (hamount : 0 < amount)
      (hasset : w.carbon.Approved asset_id)
      (hid : order_id = T.hash_of (.order maker asset_id money_id price amount 0 salt))
      (hfresh : w.Orders.get order_id = none)
      (hbalance : amount ≤ w.carbon.balance asset_id maker) :
      Step T origin now w (.make_order asset_id money_id price amount 0 salt)
        { w with
          carbon := w.carbon.move asset_id maker T.pot_account_id amount
          Orders := w.Orders.insert order_id
            { asset_id, money_id, maker, amount, price, left_amount := amount, direction := 0,
              locked_balance := 0, salt } }
        [.NewOrder order_id maker asset_id money_id 0 now]
        (w.carbon.move_ops asset_id maker T.pot_account_id amount)
  | make_bid (maker : AccountId) (asset_id money_id : Hash) (price amount : UInt64)
      (salt : UInt64) (order_id : Hash) (native : AccountId → ℕ)
      (horigin : origin = .signed maker)
      (hmoney : money_id = T.default_hash)
      (hprice : 0 < price)
      (hamount : 0 < amount)
      (hasset : w.carbon.Approved asset_id)
      (hid : order_id = T.hash_of (.order maker asset_id money_id price amount 1 salt))
      (hfresh : w.Orders.get order_id = none)
      (hnative : T.transfer w.native maker T.pot_account_id
        (U64.saturating_mul amount price).toNat = some native) :
      Step T origin now w (.make_order asset_id money_id price amount 1 salt)
        { w with
          native
          Orders := w.Orders.insert order_id
            { asset_id, money_id, maker, amount, price, left_amount := amount, direction := 1,
              locked_balance := U64.saturating_mul amount price, salt } }
        [.NewOrder order_id maker asset_id money_id 1 now]
        [.payment maker T.pot_account_id (U64.saturating_mul amount price).toNat]
  | take_ask (taker : AccountId) (order_id : Hash) (amount : UInt64)
      (order : Order AccountId Hash) (native : AccountId → ℕ)
      (horigin : origin = .signed taker)
      (horder : w.Orders.get order_id = some order)
      (hleft : amount ≤ order.left_amount)
      (hdirection : order.direction = 0)
      (hpot : amount ≤ w.carbon.balance order.asset_id T.pot_account_id)
      (hnative : T.transfer w.native taker order.maker
        (U64.saturating_mul amount order.price).toNat = some native) :
      Step T origin now w (.take_order order_id amount)
        { w with
          native
          carbon := w.carbon.move order.asset_id T.pot_account_id taker amount
          Orders := settle w.Orders order_id (order.taken amount 0) }
        (take_events order_id (order.taken amount 0) (order.new_deal order_id taker amount now))
        (.payment taker order.maker (U64.saturating_mul amount order.price).toNat
          :: w.carbon.move_ops order.asset_id T.pot_account_id taker amount)
  | take_bid (taker : AccountId) (order_id : Hash) (amount : UInt64)
      (order : Order AccountId Hash) (native : AccountId → ℕ)
      (horigin : origin = .signed taker)
      (horder : w.Orders.get order_id = some order)
      (hleft : amount ≤ order.left_amount)
      (hdirection : order.direction ≠ 0)
      (hbalance : amount ≤ w.carbon.balance order.asset_id taker)
      (hnative : T.transfer w.native T.pot_account_id taker
        (U64.saturating_mul amount order.price).toNat = some native) :
      Step T origin now w (.take_order order_id amount)
        { w with
          native
          carbon := w.carbon.move order.asset_id taker order.maker amount
          Orders := settle w.Orders order_id
            (order.taken amount (U64.saturating_mul amount order.price)) }
        (take_events order_id (order.taken amount (U64.saturating_mul amount order.price))
          (order.new_deal order_id taker amount now))
        (w.carbon.move_ops order.asset_id taker order.maker amount
          ++ [.payment T.pot_account_id taker (U64.saturating_mul amount order.price).toNat])
  | cancel_ask (order_id : Hash) (order : Order AccountId Hash)
      (horigin : origin = .signed order.maker)
      (horder : w.Orders.get order_id = some order)
      (hdirection : order.direction = 0) :
      Step T origin now w (.cancel_order order_id)
        { w with
          carbon := w.carbon.move order.asset_id T.pot_account_id order.maker order.left_amount
          Orders := w.Orders.remove order_id }
        [.OrderCanceled order_id]
        (w.carbon.move_ops order.asset_id T.pot_account_id order.maker order.left_amount)
  | cancel_bid (order_id : Hash) (order : Order AccountId Hash) (native : AccountId → ℕ)
      (horigin : origin = .signed order.maker)
      (horder : w.Orders.get order_id = some order)
      (hdirection : order.direction ≠ 0)
      (hnative : T.transfer w.native T.pot_account_id order.maker order.locked_balance.toNat
        = some native) :
      Step T origin now w (.cancel_order order_id)
        { w with native, Orders := w.Orders.remove order_id }
        [.OrderCanceled order_id]
        [.payment T.pot_account_id order.maker order.locked_balance.toNat]

section Primitives

variable {β : Type} {g : Unit → Dispatchable AccountId Hash β} {c : Ctx AccountId Hash}

theorem insert_order_bind {order_id : Hash} {order : Order AccountId Hash} :
    (insert_order order_id order >>= g) c
      = g () { c with world :=
          { c.world with Orders := c.world.Orders.insert order_id order } } := rfl

theorem remove_order_bind {order_id : Hash} :
    (remove_order order_id >>= g) c
      = g () { c with world :=
          { c.world with Orders := c.world.Orders.remove order_id } } := rfl

/-- The end of a take: the order is settled and the deal announced. -/
theorem settle_of_ok (order_id : Hash) (order : Order AccountId Hash)
    (deal : Moment → Event AccountId Hash) {c' : Ctx AccountId Hash} {u : Unit}
    (h : (if order.left_amount > 0 then do
        insert_order order_id order
        let now ← timestamp_get
        deposit_event (.carbonExchange (deal now))
      else do
        remove_order order_id
        deposit_event (.carbonExchange (.OrderFinished order_id))
        let now ← timestamp_get
        deposit_event (.carbonExchange (deal now)) :
          Dispatchable AccountId Hash Unit) c = .ok u c') :
    c' = { c with
      world := { c.world with Orders := settle c.world.Orders order_id order }
      events := c.events ++ (take_events order_id order (deal c.now)).map .carbonExchange } := by
  unfold settle take_events
  by_cases hleft : order.left_amount > 0
  · simp only [if_pos hleft, insert_order_bind, timestamp_get_bind, deposit_event_eq_ok] at h ⊢
    exact h.symm
  · simp only [if_neg hleft, remove_order_bind, deposit_event_bind, timestamp_get_bind,
      deposit_event_eq_ok, List.append_assoc] at h ⊢
    exact h.symm

end Primitives

/-- A call that returns `Ok` has made a step. -/
theorem step_of_ok {T : Trait AccountId Hash} {origin : Origin AccountId} {call : Call Hash}
    {c c' : Ctx AccountId Hash} {u : Unit} (h : call.dispatch T origin c = .ok u c') :
    ∃ w' events ops, Step T origin c.now c.world call w' events ops
      ∧ c' = { world := w', now := c.now
               events := c.events ++ events.map .carbonExchange
               ops := c.ops ++ ops } := by
  cases call with
  | make_order asset_id money_id price amount direction salt =>
    simp only [Call.dispatch, CarbonExchange.make_order, ensure_signed_bind_eq_ok,
      ensure_bind_eq_ok, has_asset_bind, has_asset_iff, read_bind, Bool.not_eq_true',
      StorageMap.contains_key_eq_false] at h
    obtain ⟨maker, rfl, hmoney, hprice, hamount, hasset, hfresh, h⟩ := h
    -- the three branches of `make_order`: `ASK`, `BID`, and the error for anything else
    by_cases hask : direction = Direction.ASK.as_u8
    · have hdirection : direction = 0 := hask
      simp only [if_pos hask, CarbonAssets.balance, get_balance, read_bind, ensure_bind_eq_ok,
        make_transfer_bind, pure_bind, insert_order_bind, timestamp_get_bind,
        deposit_event_eq_ok] at h
      obtain ⟨hbalance, rfl⟩ := h
      subst hdirection
      exact ⟨_, _, _, .make_ask maker asset_id money_id price amount salt _ rfl hmoney hprice
        hamount hasset rfl hfresh hbalance, by simp⟩
    · by_cases hbid : direction = Direction.BID.as_u8
      · have hdirection : direction = 1 := hbid
        simp only [if_neg hask, if_pos hbid, balances_transfer_bind_eq_ok, pure_bind,
          insert_order_bind, timestamp_get_bind, deposit_event_eq_ok] at h
        obtain ⟨native, hnative, rfl⟩ := h
        subst hdirection
        exact ⟨_, _, _, .make_bid maker asset_id money_id price amount salt _ native rfl hmoney
          hprice hamount hasset rfl hfresh hnative, by simp⟩
      · -- a direction that is neither is refused
        rw [if_neg hask, if_neg hbid] at h
        cases h
  | take_order order_id amount =>
    simp only [Call.dispatch, CarbonExchange.take_order, ensure_signed_bind_eq_ok, get_order,
      read_bind, ok_or_bind_eq_ok, ensure_bind_eq_ok] at h
    obtain ⟨taker, rfl, order, horder, hleft, h⟩ := h
    by_cases hask : order.direction = Direction.ASK.as_u8
    · simp only [if_pos hask, CarbonAssets.balance, get_balance, read_bind, ensure_bind_eq_ok,
        balances_transfer_bind_eq_ok, make_transfer_bind, pure_bind] at h
      obtain ⟨hpot, native, hnative, h⟩ := h
      refine ⟨_, _, _, .take_ask taker order_id amount order native rfl horder hleft hask hpot
        hnative, ?_⟩
      -- an ask order keeps its lock, which is a lock reduced by zero
      rw [taken_zero, settle_of_ok order_id { order with left_amount := order.left_amount - amount }
        (order.new_deal order_id taker amount) h, List.append_assoc, List.singleton_append]
    · simp only [if_neg hask, CarbonAssets.balance, get_balance, bind_assoc, read_bind,
        ensure_bind_eq_ok, balances_transfer_bind_eq_ok, make_transfer_bind, pure_bind] at h
      obtain ⟨hbalance, native, hnative, h⟩ := h
      refine ⟨_, _, _, .take_bid taker order_id amount order native rfl horder hleft hask hbalance
        hnative, ?_⟩
      rw [settle_of_ok order_id (order.taken amount (U64.saturating_mul amount order.price))
        (order.new_deal order_id taker amount) h, List.append_assoc]
  | cancel_order order_id =>
    simp only [Call.dispatch, CarbonExchange.cancel_order, ensure_signed_bind_eq_ok, get_order,
      read_bind, ok_or_bind_eq_ok, ensure_bind_eq_ok] at h
    obtain ⟨sender, rfl, order, horder, rfl, h⟩ := h
    by_cases hask : order.direction = Direction.ASK.as_u8
    · simp only [if_pos hask, make_transfer_bind, remove_order_bind, deposit_event_eq_ok] at h
      subst h
      exact ⟨_, _, _, .cancel_ask order_id order rfl horder hask, by simp⟩
    · simp only [if_neg hask, balances_transfer_bind_eq_ok, remove_order_bind,
        deposit_event_eq_ok] at h
      obtain ⟨native, hnative, rfl⟩ := h
      exact ⟨_, _, _, .cancel_bid order_id order native rfl horder hask hnative, by simp⟩

/-! ## The failures -/

/-- `HalfTake T origin w call w' ops`: the call takes a bid order, passes every
check, hands the carbon over, and is refused the native money. The carbon stays
handed over. -/
inductive HalfTake (T : Trait AccountId Hash) (origin : Origin AccountId)
    (w : World AccountId Hash) : Call Hash → World AccountId Hash →
    List (Op AccountId Hash) → Prop
  | take_bid (taker : AccountId) (order_id : Hash) (amount : UInt64)
      (order : Order AccountId Hash)
      (horigin : origin = .signed taker)
      (horder : w.Orders.get order_id = some order)
      (hleft : amount ≤ order.left_amount)
      (hdirection : order.direction ≠ 0)
      (hbalance : amount ≤ w.carbon.balance order.asset_id taker)
      (hrefused : T.transfer w.native T.pot_account_id taker
        (U64.saturating_mul amount order.price).toNat = none) :
      HalfTake T origin w (.take_order order_id amount)
        { w with carbon := w.carbon.move order.asset_id taker order.maker amount }
        (w.carbon.move_ops order.asset_id taker order.maker amount)

/-- All that the exchange ever does to the carbon pallet is to move units. -/
theorem Step.carbon {T : Trait AccountId Hash} {origin : Origin AccountId} {now : Moment}
    {w w' : World AccountId Hash} {call : Call Hash} {events : List (Event AccountId Hash)}
    {ops : List (Op AccountId Hash)} (h : Step T origin now w call w' events ops) :
    w'.carbon = w.carbon ∨ ∃ asset_id from_ to_ amount,
      w'.carbon = w.carbon.move asset_id from_ to_ amount := by
  cases h with
  | make_ask => exact .inr ⟨_, _, _, _, rfl⟩
  | make_bid => exact .inl rfl
  | take_ask => exact .inr ⟨_, _, _, _, rfl⟩
  | take_bid => exact .inr ⟨_, _, _, _, rfl⟩
  | cancel_ask => exact .inr ⟨_, _, _, _, rfl⟩
  | cancel_bid => exact .inl rfl

theorem HalfTake.carbon {T : Trait AccountId Hash} {origin : Origin AccountId}
    {w w' : World AccountId Hash} {call : Call Hash} {ops : List (Op AccountId Hash)}
    (h : HalfTake T origin w call w' ops) :
    ∃ asset_id from_ to_ amount, w'.carbon = w.carbon.move asset_id from_ to_ amount := by
  cases h with
  | take_bid => exact ⟨_, _, _, _, rfl⟩

/-- What follows the two legs of a take cannot fail. -/
theorem infallible_settle (order_id : Hash) (order : Order AccountId Hash)
    (deal : Moment → Event AccountId Hash) :
    Infallible (if order.left_amount > 0 then do
        insert_order order_id order
        let now ← timestamp_get
        deposit_event (.carbonExchange (deal now))
      else do
        remove_order order_id
        deposit_event (.carbonExchange (.OrderFinished order_id))
        let now ← timestamp_get
        deposit_event (.carbonExchange (deal now)) : Dispatchable AccountId Hash Unit) := by
  by_cases hleft : order.left_amount > 0
  · rw [if_pos hleft]
    exact (infallible_write _).bind fun _ => infallible_stamp _
  · rw [if_neg hleft]
    exact (infallible_write _).bind fun _ => (infallible_deposit_event _).bind fun _ =>
      infallible_stamp _

/-- Every check of `make_order` stands before its one transfer, and nothing after
the transfer can fail. -/
theorem atomic_make_order (T : Trait AccountId Hash) (origin : Origin AccountId)
    (asset_id money_id : Hash) (price amount : UInt64) (direction : UInt8) (salt : UInt64) :
    Atomic (make_order T origin asset_id money_id price amount direction salt) := by
  refine Atomic.check (readOnly_ensure_signed _) fun maker => ?_
  refine Atomic.check (readOnly_ensure _ _) fun _ => ?_
  refine Atomic.check (readOnly_ensure _ _) fun _ => ?_
  refine Atomic.check (readOnly_ensure _ _) fun _ => ?_
  refine Atomic.check (readOnly_has_asset _) fun has_asset => ?_
  refine Atomic.check (readOnly_ensure _ _) fun _ => ?_
  refine Atomic.check (readOnly_read _) fun known => ?_
  refine Atomic.check (readOnly_ensure _ _) fun _ => ?_
  by_cases hask : direction = Direction.ASK.as_u8
  · simp only [if_pos hask, pure_bind]
    refine Atomic.check (readOnly_balance _ _) fun asset_balance => ?_
    refine Atomic.check (readOnly_ensure _ _) fun _ => Infallible.atomic ?_
    -- the carbon transfer cannot fail, so it needs no rollback
    exact (infallible_make_transfer _ _ _ _).bind fun _ => (infallible_write _).bind fun _ =>
      infallible_stamp _
  · by_cases hbid : direction = Direction.BID.as_u8
    · simp only [if_neg hask, if_pos hbid, pure_bind]
      refine Atomic.commit (atomic_balances_transfer _ _ _ _) fun _ => ?_
      exact (infallible_write _).bind fun _ => infallible_stamp _
    · simp only [if_neg hask, if_neg hbid]
      exact (readOnly_throw _).atomic

/-- `cancel_order` makes one transfer, after its checks and before its writes. -/
theorem atomic_cancel_order (T : Trait AccountId Hash) (origin : Origin AccountId)
    (order_id : Hash) : Atomic (cancel_order T origin order_id) := by
  refine Atomic.check (readOnly_ensure_signed _) fun sender => ?_
  refine Atomic.check (readOnly_read _) fun found => ?_
  refine Atomic.check (readOnly_ok_or _ _) fun order => ?_
  refine Atomic.check (readOnly_ensure _ _) fun _ => ?_
  have hwrites : Infallible (remove_order order_id >>= fun _ =>
      (deposit_event (.carbonExchange (.OrderCanceled order_id)) :
        Dispatchable AccountId Hash Unit)) :=
    (infallible_write _).bind fun _ => infallible_deposit_event _
  by_cases hask : order.direction = Direction.ASK.as_u8
  · simp only [if_pos hask]
    exact ((infallible_make_transfer _ _ _ _).bind fun _ => hwrites).atomic
  · simp only [if_neg hask]
    exact (atomic_balances_transfer _ _ _ _).commit fun _ => hwrites

/-- A call that returns `Err` has changed nothing, or is a half-done take. -/
theorem dispatch_error {T : Trait AccountId Hash} {origin : Origin AccountId} {call : Call Hash}
    {c c' : Ctx AccountId Hash} {e : DispatchError}
    (h : call.dispatch T origin c = .error e c') :
    c' = c ∨ ∃ w' ops, HalfTake T origin c.world call w' ops
      ∧ c' = { c with world := w', ops := c.ops ++ ops } := by
  cases call with
  | make_order asset_id money_id price amount direction salt =>
    exact .inl (atomic_make_order T origin asset_id money_id price amount direction salt c e c' h)
  | take_order order_id amount =>
    simp only [Call.dispatch, CarbonExchange.take_order] at h
    rcases ensure_signed_bind_eq_error h with hbad | ⟨taker, rfl, h⟩
    · exact .inl hbad
    simp only [get_order, read_bind, ok_or_bind_eq_error, ensure_bind_eq_error] at h
    rcases h with ⟨-, -, hc⟩ | ⟨order, horder, ⟨-, -, hc⟩ | ⟨hleft, h⟩⟩
    · exact .inl hc.symm
    · exact .inl hc.symm
    by_cases hask : order.direction = Direction.ASK.as_u8
    · -- an ask: a refused payment comes before any write
      simp only [if_pos hask, CarbonAssets.balance, get_balance, bind_assoc, read_bind,
        ensure_bind_eq_error, balances_transfer_bind_eq_error, make_transfer_bind, pure_bind] at h
      rcases h with ⟨-, -, hc⟩ | ⟨hpot, ⟨-, -, hc⟩ | ⟨native, hnative, h⟩⟩
      · exact .inl hc.symm
      · exact .inl hc.symm
      · exact absurd h (infallible_settle order_id
          { order with left_amount := order.left_amount - amount }
          (order.new_deal order_id taker amount) _ _ _)
    · -- a bid: a refused payment comes after the units have moved
      simp only [if_neg hask, CarbonAssets.balance, get_balance, bind_assoc, read_bind,
        ensure_bind_eq_error, balances_transfer_bind_eq_error, make_transfer_bind, pure_bind] at h
      rcases h with ⟨-, -, hc⟩ | ⟨hbalance, ⟨hrefused, -, rfl⟩ | ⟨native, hnative, h⟩⟩
      · exact .inl hc.symm
      · exact .inr ⟨_, _, .take_bid taker order_id amount order rfl horder hleft hask hbalance
          hrefused, rfl⟩
      · exact absurd h (infallible_settle order_id
          (order.taken amount (U64.saturating_mul amount order.price))
          (order.new_deal order_id taker amount) _ _ _)
  | cancel_order order_id =>
    exact .inl (atomic_cancel_order T origin order_id c e c' h)

/-- The half-done take does happen where its checks pass and the payment is refused. -/
theorem dispatch_of_halfTake {T : Trait AccountId Hash} {origin : Origin AccountId}
    {call : Call Hash} {c : Ctx AccountId Hash} {w' : World AccountId Hash}
    {ops : List (Op AccountId Hash)} (h : HalfTake T origin c.world call w' ops) :
    call.dispatch T origin c = .error .balances { c with world := w', ops := c.ops ++ ops } := by
  cases h with
  | take_bid taker order_id amount order horigin horder hleft hdirection hbalance hrefused =>
    subst horigin
    have hbid : ¬order.direction = Direction.ASK.as_u8 := hdirection
    simp only [Call.dispatch, CarbonExchange.take_order, ensure_signed, pure_bind, get_order,
      read_bind, ok_or_bind_eq_error, ensure_bind_eq_error]
    refine .inr ⟨order, horder, .inr ⟨hleft, ?_⟩⟩
    simp only [if_neg hbid, CarbonAssets.balance, get_balance, bind_assoc, read_bind,
      ensure_bind_eq_error, balances_transfer_bind_eq_error, make_transfer_bind, pure_bind]
    exact .inr ⟨hbalance, .inl ⟨hrefused, trivial, trivial⟩⟩

/-- A take is refused for want of units in the pot only if they are wanting. -/
theorem insuffientPotAsset_of_dispatch {T : Trait AccountId Hash} {origin : Origin AccountId}
    {id : Hash} {amount : UInt64}
    {c c' : Ctx AccountId Hash}
    (h : take_order T origin id amount c = .error (.carbonExchange .InsuffientPotAsset) c') :
    ∃ order, c.world.Orders.get id = some order ∧ order.direction = 0
      ∧ ¬amount ≤ c.world.carbon.balance order.asset_id T.pot_account_id := by
  rcases origin with (_ | taker | _) | _ | _
  case system.Signed =>
    simp (disch := decide) only [take_order, ensure_signed, pure_bind, get_order, read_bind,
      ok_or_bind_eq_error, ensure_bind_eq_error_of_ne] at h
    rcases h with ⟨-, he, -⟩ | ⟨order, horder, -, h⟩
    · cases he
    refine ⟨order, horder, ?_⟩
    by_cases hask : order.direction = Direction.ASK.as_u8
    · simp only [if_pos hask, CarbonAssets.balance, get_balance, read_bind, ensure_bind_eq_error,
        balances_transfer_bind_eq_error, make_transfer_bind] at h
      rcases h with ⟨hpot, -, -⟩ | ⟨-, ⟨-, he, -⟩ | ⟨native, -, h⟩⟩
      · exact ⟨hask, hpot⟩
      · cases he
      · exact absurd h (infallible_settle id
          { order with left_amount := order.left_amount - amount }
          (order.new_deal id taker amount) _ _ _)
    · -- a bid order asks the taker's balance, never the pot's
      simp (disch := decide) only [if_neg hask, CarbonAssets.balance, get_balance, read_bind,
        ensure_bind_eq_error_of_ne, balances_transfer_bind_eq_error, make_transfer_bind] at h
      rcases h with ⟨-, ⟨-, he, -⟩ | ⟨native, -, h⟩⟩
      · cases he
      · exact absurd h (infallible_settle id
          (order.taken amount (U64.saturating_mul amount order.price))
          (order.new_deal id taker amount) _ _ _)
  all_goals cases h

/-- The maker's cancellation of a live bid order goes through where the refund does. -/
theorem dispatch_of_cancel_bid {T : Trait AccountId Hash} {id : Hash}
    {order : Order AccountId Hash} {c : Ctx AccountId Hash} {native : AccountId → ℕ}
    (horder : c.world.Orders.get id = some order) (hbid : order.direction ≠ 0)
    (hnative : T.transfer c.world.native T.pot_account_id order.maker order.locked_balance.toNat
      = some native) :
    cancel_order T (.signed order.maker) id c = .ok () { c with
      world := { c.world with native, Orders := c.world.Orders.remove id }
      events := c.events ++ [.carbonExchange (.OrderCanceled id)]
      ops := c.ops ++ [.payment T.pot_account_id order.maker order.locked_balance.toNat] } := by
  have hdirection : ¬order.direction = Direction.ASK.as_u8 := hbid
  simp only [cancel_order, ensure_signed, pure_bind, get_order, read_bind, ok_or_bind_eq_ok,
    ensure_bind_eq_ok]
  refine ⟨order, horder, rfl, ?_⟩
  simp only [if_neg hdirection, balances_transfer_bind_eq_ok, remove_order_bind,
    deposit_event_eq_ok]
  exact ⟨native, hnative, rfl⟩

/-- A covered take of a live bid order goes through where the payment does. -/
theorem dispatch_of_take_bid {T : Trait AccountId Hash} {id : Hash} {taker : AccountId}
    {amount : UInt64} {order : Order AccountId Hash} {c : Ctx AccountId Hash}
    {native : AccountId → ℕ} (horder : c.world.Orders.get id = some order)
    (hbid : order.direction ≠ 0) (hleft : amount ≤ order.left_amount)
    (hbalance : amount ≤ c.world.carbon.balance order.asset_id taker)
    (hnative : T.transfer c.world.native T.pot_account_id taker
      (U64.saturating_mul amount order.price).toNat = some native) :
    ∃ c', take_order T (.signed taker) id amount c = .ok () c' := by
  have hdirection : ¬order.direction = Direction.ASK.as_u8 := hbid
  -- past the payment nothing can fail, whatever is left of the order
  obtain ⟨u, c', hrest⟩ := (infallible_settle id
    (order.taken amount (U64.saturating_mul amount order.price))
    (order.new_deal id taker amount)).eq_ok
      { c with
        world := { c.world with
          carbon := c.world.carbon.move order.asset_id taker order.maker amount
          native }
        ops := c.ops ++ c.world.carbon.move_ops order.asset_id taker order.maker amount
          ++ [.payment T.pot_account_id taker (U64.saturating_mul amount order.price).toNat] }
  simp only [take_order, ensure_signed, pure_bind, get_order, read_bind, ok_or_bind_eq_ok,
    ensure_bind_eq_ok]
  refine ⟨c', order, horder, hleft, ?_⟩
  simp only [if_neg hdirection, CarbonAssets.balance, get_balance, bind_assoc, read_bind,
    ensure_bind_eq_ok, make_transfer_bind, balances_transfer_bind_eq_ok, pure_bind]
  exact ⟨hbalance, native, hnative, hrest⟩

/-- The maker's cancellation of a live ask order goes through. -/
theorem dispatch_of_cancel_ask {T : Trait AccountId Hash} {id : Hash}
    {order : Order AccountId Hash} {c : Ctx AccountId Hash}
    (horder : c.world.Orders.get id = some order) (hask : order.direction = 0) :
    cancel_order T (.signed order.maker) id c = .ok () { c with
      world := { c.world with
        carbon := c.world.carbon.move order.asset_id T.pot_account_id order.maker order.left_amount
        Orders := c.world.Orders.remove id }
      events := c.events ++ [.carbonExchange (.OrderCanceled id)]
      ops := c.ops ++ c.world.carbon.move_ops order.asset_id T.pot_account_id order.maker
        order.left_amount } := by
  have hdirection : order.direction = Direction.ASK.as_u8 := hask
  simp only [cancel_order, ensure_signed, pure_bind, get_order, read_bind, ok_or_bind_eq_ok,
    ensure_bind_eq_ok]
  refine ⟨order, horder, rfl, ?_⟩
  simp only [if_pos hdirection, make_transfer_bind, remove_order_bind,
    deposit_event_eq_ok]

end CarbonExchange

end Eco2
