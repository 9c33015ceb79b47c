/-
All or nothing.

An exchange call makes a carbon transfer that cannot fail and a native transfer
that can. `make_order` and `cancel_order` make one of the two, and `take_order`
pays before it delivers when the order is an ask. For a bid it delivers first, so
a refused payment leaves the carbon delivered and unpaid. `all_or_nothing_iff`
says that an exchange call is atomic except exactly there. The calls of the two
asset pallets check everything before they write anything, and are atomic without
an exception (`asset_calls_all_or_nothing`).
-/
import Eco2.Runtime
import Mathlib.Tactic.SplitIfs

set_option autoImplicit false
set_option linter.unusedSectionVars false

namespace Eco2

open CarbonExchange

variable {AccountId Hash : Type} [DecidableEq AccountId] [DecidableEq Hash]
variable {T : Trait AccountId Hash}

/-! ## The asset pallets -/

/-- If the call failed, it has changed no storage and deposited no event. -/
def NoTrace (t : Applied AccountId Hash) : Prop :=
  ¬t.Succeeded → t.post = t.pre ∧ t.output.events = []

/-- A dispatchable that keeps its state when it fails leaves no trace of a failure. -/
theorem noTrace_of_atomic {w : World AccountId Hash} {x : Extrinsic AccountId Hash}
    (h : Dispatch.Atomic (x.call.dispatch T x.origin)) : NoTrace ((runtime T).fire w x) := by
  intro hfailed
  cases hdispatch : x.call.dispatch T x.origin ⟨w, x.now, [], []⟩ with
  | ok u c =>
    rw [fire_of_ok T hdispatch] at hfailed
    exact absurd rfl hfailed
  | error e c =>
    obtain rfl := h _ e c hdispatch
    simp [Machine.fire, runtime, apply_extrinsic, hdispatch]

/-- **The asset pallets are all or nothing.** In any state, from any origin, with any
arguments: a call of the carbon assets or of the standard assets that fails has changed
nothing and deposited nothing. -/
theorem asset_calls_all_or_nothing (T : Trait AccountId Hash) (w : World AccountId Hash)
    (origin : Origin AccountId) (now : Moment) :
    (∀ call : CarbonAssets.Call AccountId Hash,
      NoTrace ((runtime T).fire w ⟨origin, now, .carbonAssets call⟩))
      ∧ ∀ call : StandardAssets.Call AccountId Hash,
        NoTrace ((runtime T).fire w ⟨origin, now, .standardAssets call⟩) := by
  constructor
  · intro call
    exact noTrace_of_atomic (CarbonAssets.atomic_dispatch T origin call)
  · intro call
    exact noTrace_of_atomic (StandardAssets.atomic_dispatch T origin call)

/-- A second approval of the executable chain's asset, and a transfer of more than there
is, fail and leave no trace. -/
theorem asset_calls_all_or_nothing_opening :
    let w := (runtime devnet).final (genesis fun _ => 0) devnet_opening
    let again := (runtime devnet).fire w
      ⟨.system .Root, 0, .carbonAssets (.approve_asset devnet_asset)⟩
    let beyond := (runtime devnet).fire w
      ⟨.signed 1, 0, .standardAssets (.transfer devnet_asset 2 1)⟩
    (again.post = w ∧ again.output.events = []) ∧ beyond.post = w
      ∧ beyond.output.events = [] :=
  ⟨(asset_calls_all_or_nothing devnet _ _ _).1 _ (by decide),
    (asset_calls_all_or_nothing devnet _ _ _).2 _ (by decide)⟩

/-! ## The exchange -/

/-- If the call failed, then orders, carbon balances and native balances are what
they were before. -/
def AllOrNothing (t : Applied AccountId Hash) : Prop :=
  ¬t.Succeeded →
    t.post.Orders = t.pre.Orders
      ∧ (∀ asset_id account,
        t.post.carbon.balance asset_id account = t.pre.carbon.balance asset_id account)
      ∧ t.post.native = t.pre.native

/-- The extrinsic sells a positive amount into somebody else's bid order, passes
every check of `take_order`, and cannot be paid out of the pot. -/
structure Unpayable (T : Trait AccountId Hash) (w : World AccountId Hash)
    (x : Extrinsic AccountId Hash) (taker : AccountId) (order_id : Hash) (amount : UInt64)
    (order : Order AccountId Hash) : Prop where
  horigin : x.origin = .signed taker
  hcall : x.call = .carbonExchange (.take_order order_id amount)
  horder : w.Orders.get order_id = some order
  hbid : order.direction ≠ 0
  hleft : amount ≤ order.left_amount
  hbalance : amount ≤ w.carbon.balance order.asset_id taker
  hamount : amount ≠ 0
  hmaker : taker ≠ order.maker
  hrefused : T.transfer w.native T.pot_account_id taker
    (U64.saturating_mul amount order.price).toNat = none

/-- A transfer of a positive amount to somebody else changes the sender's balance. -/
theorem balance_move_ne {s : CarbonAssets.Storage AccountId Hash} {asset_id : Hash}
    {from_ to_ : AccountId} {amount : UInt64} (hamount : amount ≠ 0) (hne : from_ ≠ to_) :
    (s.move asset_id from_ to_ amount).balance asset_id from_ ≠ s.balance asset_id from_ := by
  rw [CarbonAssets.balance_move s asset_id asset_id from_ amount hne, if_neg fun h => hne h.2,
    if_pos ⟨rfl, rfl⟩]
  intro hsame
  -- adding the amount back gives the balance before, so the amount was zero
  have hsum := UInt64.sub_add_cancel (s.balance asset_id from_) amount
  rw [hsame] at hsum
  exact hamount (UInt64.add_eq_left.mp hsum)

/-- A transfer of nothing changes no balance. -/
theorem balance_move_zero (s : CarbonAssets.Storage AccountId Hash) (asset_id asset_id' : Hash)
    (from_ to_ account : AccountId) :
    (s.move asset_id from_ to_ 0).balance asset_id' account = s.balance asset_id' account := by
  by_cases hne : from_ = to_
  · rw [hne, CarbonAssets.move_self]
  · rw [CarbonAssets.balance_move s asset_id asset_id' account 0 hne, UInt64.add_zero,
      UInt64.sub_zero]
    split_ifs with hto hfrom
    · rw [hto.1, hto.2]
    · rw [hfrom.1, hfrom.2]
    · rfl

/-- The half-done take of an unpayable sale. -/
theorem fire_of_unpayable {w : World AccountId Hash} {x : Extrinsic AccountId Hash}
    {taker : AccountId} {order_id : Hash} {amount : UInt64} {order : Order AccountId Hash}
    (h : Unpayable T w x taker order_id amount order) :
    ¬Applied.Succeeded ((runtime T).fire w x)
      ∧ ((runtime T).fire w x).post.carbon
        = w.carbon.move order.asset_id taker order.maker amount := by
  obtain ⟨origin, now, call⟩ := x
  obtain rfl : call = _ := h.hcall
  have hhalf : HalfTake T origin w (.take_order order_id amount) _ _ :=
    .take_bid taker order_id amount order h.horigin h.horder h.hleft h.hbid h.hbalance h.hrefused
  have hdispatch := dispatch_of_halfTake (c := ⟨w, now, [], []⟩) hhalf
  simp [Applied.Succeeded, Machine.fire, runtime, apply_extrinsic, Call.dispatch, hdispatch]

/-- **All or nothing.** An exchange call that fails has changed nothing, except
exactly when it sells into a bid order that the pot cannot pay. -/
theorem all_or_nothing_iff (w : World AccountId Hash) (origin : Origin AccountId) (now : Moment)
    (call : CarbonExchange.Call Hash) :
    AllOrNothing ((runtime T).fire w ⟨origin, now, .carbonExchange call⟩)
      ↔ ¬∃ taker order_id amount order,
        Unpayable T w ⟨origin, now, .carbonExchange call⟩ taker order_id amount order := by
  constructor
  · -- an unpayable sale has taken units from the taker
    rintro hatomic ⟨taker, order_id, amount, order, h⟩
    obtain ⟨hfailed, hmoved⟩ := fire_of_unpayable h
    obtain ⟨-, hbalances, -⟩ := hatomic hfailed
    have hsame := hbalances order.asset_id taker
    rw [hmoved, Machine.fire_pre] at hsame
    exact balance_move_ne h.hamount h.hmaker hsame
  · intro hpayable
    have h := outcome_of_fire T w ⟨origin, now, .carbonExchange call⟩
    have hpre : ((runtime T).fire w ⟨origin, now, .carbonExchange call⟩).pre = w := rfl
    have hinput : ((runtime T).fire w ⟨origin, now, .carbonExchange call⟩).input
      = ⟨origin, now, .carbonExchange call⟩ := rfl
    generalize (runtime T).fire w ⟨origin, now, .carbonExchange call⟩ = t at h hpre hinput ⊢
    intro hfailed
    cases h with
    | refused w x e => exact ⟨rfl, fun _ _ => rfl, rfl⟩
    | carbonAssets => exact absurd rfl hfailed
    | carbonExchange => exact absurd rfl hfailed
    | standardAssets => exact absurd rfl hfailed
    | balances_transfer => exact absurd rfl hfailed
    | half_take w' origin' now' call' w'' e ops hhalf =>
      subst hpre
      cases hinput
      cases hhalf with
      | take_bid taker order_id amount order horigin horder hleft hdirection hbalance hrefused =>
        refine ⟨rfl, fun asset_id account => ?_, rfl⟩
        -- a half-done take is harmless if it moves nothing, or to the taker himself
        by_cases hamount : amount = 0
        · rw [hamount]
          exact balance_move_zero _ _ _ _ _ _
        by_cases hmaker : taker = order.maker
        · rw [hmaker, CarbonAssets.move_self]
        · exact absurd ⟨taker, order_id, amount, order, horigin, rfl, horder, hdirection, hleft,
            hbalance, hamount, hmaker, hrefused⟩ hpayable

/-- Account 2, with money, bids one a unit; account 1, without any, sells it a unit. -/
def devnet_cheap_bid : List (Extrinsic ℕ (List ℕ)) :=
  devnet_opening ++ [⟨.signed 2, 0, .carbonExchange (.make_order devnet_asset [] 1 600 1 0)⟩]

def devnet_poor_sale : Extrinsic ℕ (List ℕ) :=
  ⟨.signed 1, 0, .carbonExchange
    (.take_order (Preimage.encode (.order 2 devnet_asset [] 1 600 1 0)) 1)⟩

/-- **A failing take delivers.** In a state reached from genesis, a seller whose
account would stay below the existential deposit loses the unit and is not paid. -/
theorem poor_sale_delivers :
    TransferDocumented devnet.transfer
    ∧ (runtime devnet).Run (fun _ => True) (genesis fun x => if x = 2 then 10000 else 0)
      ((runtime devnet).trace (genesis fun x => if x = 2 then 10000 else 0) devnet_cheap_bid)
      ((runtime devnet).final (genesis fun x => if x = 2 then 10000 else 0) devnet_cheap_bid)
    ∧ ¬AllOrNothing ((runtime devnet).fire
      ((runtime devnet).final (genesis fun x => if x = 2 then 10000 else 0) devnet_cheap_bid)
      devnet_poor_sale) := by
  refine ⟨transferDocumented_documented_transfer, devnet_run _ _, fun hatomic => ?_⟩
  obtain ⟨-, hbalances, -⟩ := hatomic (by decide)
  exact absurd (hbalances devnet_asset 1) (by decide)

end Eco2
