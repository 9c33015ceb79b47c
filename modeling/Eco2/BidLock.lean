/-
The lock of a bid order.

`make_order` locks `amount.saturating_mul(price)` in the pot, every take releases
`amount.saturating_mul(price)` of its own amount, and `cancel_order` refunds what
is left of the lock. The two sides agree as long as the order's own product is a
`u64`: then no multiplication ever saturates, the lock is `left_amount * price` at
every moment, and what was paid in is what is paid out. Where the product is not a
`u64` the lock is short from the start.
-/
import Eco2.OrderBook

set_option autoImplicit false
set_option linter.unusedSectionVars false

namespace Eco2

open CarbonExchange

variable {AccountId Hash : Type} [DecidableEq AccountId] [DecidableEq Hash]
variable {T : Trait AccountId Hash}

/-! ## Exact locks -/

/-- The whole order is worth a `u64`. -/
def CarbonExchange.Order.Fits (order : Order AccountId Hash) : Prop :=
  order.amount.toNat * order.price.toNat < 2 ^ 64

/-- What the exchange treats as a bid: any direction other than `ASK`. -/
def CarbonExchange.Order.IsBid (order : Order AccountId Hash) : Prop := order.direction ≠ 0

/-- The lock is worth exactly what is left of the order. -/
def CarbonExchange.Order.ExactLock (order : Order AccountId Hash) : Prop :=
  order.locked_balance.toNat = order.left_amount.toNat * order.price.toNat

/-- Every bid order whose worth is a `u64` has an exact lock. -/
def LocksExact (w : World AccountId Hash) : Prop :=
  ∀ id order, w.Orders.get id = some order → order.IsBid → order.Fits → order.ExactLock

/-- A part of an order that fits is worth exactly amount times price. -/
theorem released_toNat {order : Order AccountId Hash} {amount : UInt64} (hbid : order.IsBid)
    (hfits : order.Fits) (hle : amount ≤ order.amount) :
    (order.released amount).toNat = amount.toNat * order.price.toNat := by
  -- no part of an order that fits can saturate
  have hpart : amount.toNat * order.price.toNat ≤ order.amount.toNat * order.price.toNat :=
    Nat.mul_le_mul_right _ (UInt64.le_iff_toNat_le.mp hle)
  rw [Order.released, if_neg hbid, U64.saturating_mul_of_lt (lt_of_le_of_lt hpart hfits)]

/-- A take releases no more than is locked, and keeps the lock exact. -/
theorem exactLock_taken {order : Order AccountId Hash} {amount : UInt64} (hbid : order.IsBid)
    (hfits : order.Fits) (hlock : order.ExactLock) (hwhole : order.left_amount ≤ order.amount)
    (hleft : amount ≤ order.left_amount) :
    order.released amount ≤ order.locked_balance
      ∧ (order.taken amount (order.released amount)).ExactLock := by
  have hreleased := released_toNat hbid hfits (UInt64.le_trans hleft hwhole)
  have hle : order.released amount ≤ order.locked_balance := by
    rw [UInt64.le_iff_toNat_le, hreleased, hlock]
    exact Nat.mul_le_mul_right _ (UInt64.le_iff_toNat_le.mp hleft)
  refine ⟨hle, ?_⟩
  have hlocked := U64.toNat_sub_add_of_le hle
  have hamount := U64.toNat_sub_add_of_le hleft
  show (order.locked_balance - order.released amount).toNat
    = (order.left_amount - amount).toNat * order.price.toNat
  -- `left * price` splits into what is taken and what stays
  rw [hlock, hreleased, ← hamount, Nat.add_mul] at hlocked
  exact Nat.add_right_cancel hlocked

/-- At its creation the lock of a bid order is exact if and only if the order fits. -/
theorem Made.exactLock_iff {t : Applied AccountId Hash} {id : Hash} {order : Order AccountId Hash}
    (hmade : Made T t id order) (hbid : order.IsBid) : order.ExactLock ↔ order.Fits := by
  obtain ⟨hask, -⟩ | ⟨-, hlocked⟩ := hmade.lock
  · exact absurd hask hbid
  unfold Order.ExactLock Order.Fits
  rw [hlocked, hmade.left]
  -- where the product saturates, the lock is `2 ^ 64 - 1` and the worth is more
  by_cases hfits : order.amount.toNat * order.price.toNat < 2 ^ 64
  · exact iff_of_true (U64.saturating_mul_of_lt hfits) hfits
  · rw [U64.saturating_mul_of_ge (Nat.le_of_not_lt hfits)]
    exact iff_of_false (by omega) hfits

/-- Every transition keeps the locks exact. -/
theorem LocksExact.outcome {t : Applied AccountId Hash} (hlocks : LocksExact t.pre)
    (hbook : WellFormedBook T t.pre) (h : Outcome T t) : LocksExact t.post := by
  intro id order horder hbid hfits
  rcases order_origin h horder with ⟨hold, -⟩ | ⟨-, hmade⟩ |
    ⟨old, taker, amount, hold, htakes, -, rfl⟩
  · exact hlocks id order hold hbid hfits
  · exact (hmade.exactLock_iff hbid).mpr hfits
  · -- a take changes neither the direction nor the worth of the whole order
    have hbid' : old.IsBid := hbid
    have hfits' : old.Fits := hfits
    exact (exactLock_taken hbid' hfits' (hlocks id old hold hbid' hfits')
      (hbook id old hold).left_le htakes.left).2

/-- The locks are exact in every state reached from an empty order book. -/
theorem LocksExact.run {allowed : Applied AccountId Hash → Prop} {w₀ w : World AccountId Hash}
    {tr : List (Applied AccountId Hash)} (hempty : w₀.Orders = .empty)
    (hrun : (runtime T).Run allowed w₀ tr w) : LocksExact w := by
  apply hrun.invariant (I := fun _ w => LocksExact w)
  · exact forall_orders_of_empty hempty
  intro tr w x hrun hlocks _
  exact LocksExact.outcome (t := (runtime T).fire w x) hlocks (.run hempty hrun)
    (outcome_of_fire T w x)

/-! ## Payments -/

/-- What an operation pays out of the account. -/
def Op.paid_from (account : AccountId) : Op AccountId Hash → ℕ
  | .payment src _ value => if src = account then value else 0
  | _ => 0

/-- What an operation pays into the account. -/
def Op.paid_to (account : AccountId) : Op AccountId Hash → ℕ
  | .payment _ dst value => if dst = account then value else 0
  | _ => 0

/-- The native money a transition pays out of the pot. -/
def Applied.paid_out (T : Trait AccountId Hash) (t : Applied AccountId Hash) : ℕ :=
  (t.output.ops.map (Op.paid_from T.pot_account_id)).sum

/-- The native money a transition pays into the pot. -/
def Applied.paid_in (T : Trait AccountId Hash) (t : Applied AccountId Hash) : ℕ :=
  (t.output.ops.map (Op.paid_to T.pot_account_id)).sum

/-- The native money a transition pays out of the pot on behalf of the order. -/
def Applied.paid_out_for (T : Trait AccountId Hash) (id : Hash) (t : Applied AccountId Hash) : ℕ :=
  if named_order T t.input = some id then t.paid_out T else 0

theorem paid_from_move_ops (s : CarbonAssets.Storage AccountId Hash) (asset_id : Hash)
    (from_ to_ account : AccountId) (amount : UInt64) :
    ((s.move_ops asset_id from_ to_ amount).map (Op.paid_from account)).sum = 0 := by
  unfold CarbonAssets.Storage.move_ops
  split <;> rfl

/-- The creation of a bid order pays its lock into the pot. -/
theorem Made.paid_in {t : Applied AccountId Hash} {id : Hash} {order : Order AccountId Hash}
    (h : Outcome T t) (hmade : Made T t id order) (hbid : order.IsBid) :
    t.paid_in T = order.locked_balance.toNat := by
  obtain ⟨hask, -⟩ | ⟨hdirection, hlocked⟩ := hmade.lock
  · exact absurd hask hbid
  obtain ⟨events, hstep⟩ := exchange_step_of_call h hmade.call hmade.succeeded
  unfold Applied.paid_in
  rw [hlocked]
  rw [hdirection] at hstep
  generalize t.post = w', t.output.ops = ops at hstep ⊢
  cases hstep with
  | make_bid => simp [Op.paid_to]

/-- A take of a bid order pays what it releases of the lock. -/
theorem Takes.paid_out {t : Applied AccountId Hash} {id : Hash} {order : Order AccountId Hash}
    {taker : AccountId} {amount : UInt64} (h : Outcome T t)
    (hpre : t.pre.Orders.get id = some order) (htakes : Takes t id order taker amount)
    (hbid : order.IsBid) : t.paid_out T = (order.released amount).toNat := by
  obtain ⟨events, hstep⟩ := exchange_step_of_call h htakes.call htakes.succeeded
  rw [Order.released, if_neg hbid]
  unfold Applied.paid_out
  generalize t.post = w', t.output.ops = ops at hstep ⊢
  cases hstep with
  -- the order found is the one in the map, and that is a bid
  | take_ask taker order_id amount order' native horigin horder hleft hdirection =>
    cases hpre.symm.trans horder
    exact absurd hdirection hbid
  | take_bid taker order_id amount order' native horigin horder =>
    cases hpre.symm.trans horder
    simp [paid_from_move_ops, Op.paid_from]

/-- The cancellation of a bid order refunds the lock. -/
theorem Cancels.paid_out {t : Applied AccountId Hash} {id : Hash} {order : Order AccountId Hash}
    (h : Outcome T t) (hpre : t.pre.Orders.get id = some order) (hcancels : Cancels t id order)
    (hbid : order.IsBid) : t.paid_out T = order.locked_balance.toNat := by
  obtain ⟨events, hstep⟩ := exchange_step_of_call h hcancels.call hcancels.succeeded
  unfold Applied.paid_out
  generalize t.post = w', t.output.ops = ops at hstep ⊢
  cases hstep with
  | cancel_ask order_id order' horigin horder hdirection =>
    cases hpre.symm.trans horder
    exact absurd hdirection hbid
  | cancel_bid order_id order' native horigin horder =>
    cases hpre.symm.trans horder
    simp [Op.paid_from]

/-- A call that fails pays nothing out of the pot. -/
theorem paid_out_of_failed {t : Applied AccountId Hash} (h : Outcome T t) (hfail : ¬t.Succeeded) :
    t.paid_out T = 0 := by
  cases h with
  | refused => rfl
  | half_take w origin now call w' e ops hhalf =>
    cases hhalf with
    | take_bid => exact paid_from_move_ops _ _ _ _ _ _
  | carbonAssets => exact absurd rfl hfail
  | carbonExchange => exact absurd rfl hfail
  | standardAssets => exact absurd rfl hfail
  | balances_transfer => exact absurd rfl hfail

/-- A transition that has nothing to do with an order pays nothing for it. -/
theorem Untouched.paid_out_for {t : Applied AccountId Hash} {id : Hash} (h : Outcome T t)
    (hkept : Untouched T t id) : t.paid_out_for T id = 0 := by
  unfold Applied.paid_out_for
  split
  · exact paid_out_of_failed h fun hok => hkept.other hok ‹_›
  · rfl

/-! ## An order from its creation on -/

/-- What is locked under the identifier `id`. -/
def locked_of (w : World AccountId Hash) (id : Hash) : ℕ :=
  (w.Orders.get id).elim 0 fun order => order.locked_balance.toNat

/-- What the slot holds, if anything, is a bid order that fits. -/
def FittingBid (w : World AccountId Hash) (id : Hash) : Prop :=
  ∀ order, w.Orders.get id = some order → order.IsBid ∧ order.Fits

/-- What a transition releases of a lock it pays out, to the unit. -/
theorem locked_of_outcome {t : Applied AccountId Hash} {id : Hash} (h : Outcome T t)
    (hbook : WellFormedBook T t.pre) (hlocks : LocksExact t.pre) (hbid : FittingBid t.pre id)
    (honce : ¬t.Creates id) :
    locked_of t.pre id = t.paid_out_for T id + locked_of t.post id ∧ FittingBid t.post id := by
  unfold locked_of FittingBid at *
  cases hpre : t.pre.Orders.get id with
  -- an empty slot stays empty, since nothing is created
  | none =>
    have hslot := order_step h id
    rw [hpre] at hslot
    generalize t.post.Orders.get id = after at hslot ⊢
    cases hslot with
    | kept slot hkept => exact ⟨by rw [hkept.paid_out_for h]; rfl, nofun⟩
    | made order hmade =>
      exact absurd ⟨_, _, _, _, _, hmade.events ▸ List.mem_singleton.mpr rfl⟩ honce
  | some order =>
    obtain ⟨hbid, hfits⟩ := hbid order hpre
    have hlock := hlocks id order hpre hbid hfits
    have hwhole := (hbook id order hpre).left_le
    rcases order_fate h hpre with ⟨hpost, hkept⟩ | ⟨taker, amount, htakes, -, hpost⟩ |
      ⟨taker, htakes, hpost⟩ | ⟨hcancels, hpost⟩
    · rw [hpost, hkept.paid_out_for h]
      exact ⟨(Nat.zero_add _).symm, fun order' heq => Option.some.inj heq ▸ ⟨hbid, hfits⟩⟩
    · obtain ⟨hle, -⟩ := exactLock_taken hbid hfits hlock hwhole htakes.left
      rw [hpost, Applied.paid_out_for, if_pos (named_order_of_take htakes.call),
        htakes.paid_out h hpre hbid]
      refine ⟨?_, fun order' heq => Option.some.inj heq ▸ ⟨hbid, hfits⟩⟩
      have hsub := U64.toNat_sub_add_of_le hle
      show order.locked_balance.toNat
        = (order.released amount).toNat + (order.locked_balance - order.released amount).toNat
      omega
    · -- the last take releases the worth of all that is left, which is the whole lock
      have hreleased := released_toNat hbid hfits hwhole
      rw [hpost, Applied.paid_out_for, if_pos (named_order_of_take htakes.call),
        htakes.paid_out h hpre hbid, hreleased, ← hlock]
      exact ⟨rfl, nofun⟩
    · rw [hpost, Applied.paid_out_for, if_pos (named_order_of_cancel hcancels.call),
        hcancels.paid_out h hpre hbid]
      exact ⟨rfl, nofun⟩

/-- What the creation of a bid order has paid into the pot is what has been paid
out for it since, and what is still locked. -/
theorem paid_in_eq {allowed : Applied AccountId Hash → Prop} {w₀ w : World AccountId Hash}
    {tr₁ tr₂ : List (Applied AccountId Hash)} {t : Applied AccountId Hash}
    (hempty : w₀.Orders = .empty) (hrun : (runtime T).Run allowed w₀ (tr₁ ++ t :: tr₂) w)
    {id : Hash} {order : Order AccountId Hash} (hpre : t.pre.Orders.get id = none)
    (hpost : t.post.Orders.get id = some order) (hbid : order.IsBid) (hfits : order.Fits)
    (honce : ∀ u ∈ tr₂, ¬u.Creates id) :
    t.paid_in T = (tr₂.map (Applied.paid_out_for T id)).sum + locked_of w id := by
  obtain ⟨hbefore, hfire, hok, hafter⟩ := hrun.split
  have h : Outcome T t := hfire ▸ outcome_of_fire T t.pre t.input
  have hpaid : t.paid_in T = locked_of t.post id := by
    rcases order_origin h hpost with ⟨hold, -⟩ | ⟨-, hmade⟩ | ⟨old, taker, amount, hold, -⟩
    · cases hpre.symm.trans hold
    · rw [hmade.paid_in h hbid, locked_of, hpost]
      rfl
    · cases hpre.symm.trans hold
  have hbook : WellFormedBook T t.post := (WellFormedBook.run hempty hbefore).outcome h
  have hlocks : LocksExact t.post :=
    (LocksExact.run hempty hbefore).outcome (.run hempty hbefore) h
  -- the history from the creation on is a run of its own, started at the order
  have hafter' : (runtime T).Run (fun u : Applied AccountId Hash => ¬u.Creates id) t.post tr₂ w :=
    hafter.restrict honce
  have hinvariant := hafter'.invariant
    (I := fun tr₂ w => WellFormedBook T w ∧ LocksExact w ∧ FittingBid w id
      ∧ t.paid_in T = (tr₂.map (Applied.paid_out_for T id)).sum + locked_of w id)
    ⟨hbook, hlocks, fun order' heq => Option.some.inj (hpost.symm.trans heq) ▸ ⟨hbid, hfits⟩,
      by rw [hpaid]; exact (Nat.zero_add _).symm⟩ ?_
  · exact hinvariant.2.2.2
  · rintro tr u x - ⟨hbook, hlocks, hfitting, hsum⟩ hnew
    have hout := outcome_of_fire T u x
    obtain ⟨hreleased, hfitting'⟩ := locked_of_outcome hout hbook hlocks hfitting hnew
    refine ⟨hbook.outcome hout, hlocks.outcome hbook hout, hfitting', ?_⟩
    simp only [List.map_append, List.sum_append, List.map_cons, List.map_nil, List.sum_cons,
      List.sum_nil]
    rw [Machine.fire_pre] at hreleased
    omega

/-- **Bid locks.** In every state reached from an empty order book, under any
calls: the lock of every bid order that fits a `u64` is `left_amount * price`; no
take of such an order releases more than is locked; what its creation paid into
the pot is what takes and the refund have paid out, and what is still locked; and
at the creation of any bid order the lock is exact only if the order fits. -/
theorem bid_locks {w₀ w : World AccountId Hash} {tr : List (Applied AccountId Hash)}
    (hempty : w₀.Orders = .empty) (hrun : (runtime T).Run (fun _ => True) w₀ tr w) :
    (∀ id order, w.Orders.get id = some order → order.IsBid → order.Fits → order.ExactLock)
    ∧ (∀ t ∈ tr, ∀ id amount order, t.pre.Orders.get id = some order → order.IsBid →
      order.Fits → t.input.call = .carbonExchange (.take_order id amount) → t.Succeeded →
      U64.saturating_mul amount order.price ≤ order.locked_balance)
    ∧ (∀ tr₁ t tr₂, tr = tr₁ ++ t :: tr₂ → ∀ id order, t.pre.Orders.get id = none →
      t.post.Orders.get id = some order → order.IsBid → order.Fits →
      (∀ u ∈ tr₂, ¬u.Creates id) →
      t.paid_in T = (tr₂.map (Applied.paid_out_for T id)).sum + locked_of w id)
    ∧ ∀ t ∈ tr, ∀ id order, t.pre.Orders.get id = none → t.post.Orders.get id = some order →
      order.IsBid → (order.ExactLock ↔ order.Fits) := by
  refine ⟨LocksExact.run hempty hrun, ?_, ?_, ?_⟩
  · intro t ht id amount order hpre hbid hfits hcall hok
    obtain ⟨tr₁, hbefore, -, -⟩ := hrun.of_mem ht
    obtain ⟨taker, htakes⟩ := takes_of_call (outcome_of_mem hrun ht) hpre hcall hok
    have hlock := LocksExact.run hempty hbefore id order hpre hbid hfits
    have hwhole := (WellFormedBook.run hempty hbefore id order hpre).left_le
    have hle := (exactLock_taken hbid hfits hlock hwhole htakes.left).1
    rwa [Order.released, if_neg hbid] at hle
  · rintro tr₁ t tr₂ rfl id order hpre hpost hbid hfits honce
    exact paid_in_eq hempty hrun hpre hpost hbid hfits honce
  · intro t ht id order hpre hpost hbid
    rcases order_origin (outcome_of_mem hrun ht) hpost with ⟨hold, -⟩ | ⟨-, hmade⟩ |
      ⟨old, taker, amount, hold, -⟩
    · cases hpre.symm.trans hold
    · exact hmade.exactLock_iff hbid
    · cases hpre.symm.trans hold

/-- Account 2 bids for three units on the executable chain, and account 1 sells it one. -/
def devnet_bid : List ℕ := Preimage.encode (.order 2 devnet_asset [] 200 3 1 0)

def devnet_bid_taken : List (Extrinsic ℕ (List ℕ)) :=
  devnet_opening ++
    [⟨.signed 2, 0, .carbonExchange (.make_order devnet_asset [] 200 3 1 0)⟩,
      ⟨.signed 1, 0, .carbonExchange (.take_order devnet_bid 1)⟩]

theorem bid_locks_bid_taken :
    ({ asset_id := devnet_asset, money_id := [], maker := 2, amount := 3, price := 200,
       left_amount := 2, direction := 1, locked_balance := 400, salt := 0 } :
      Order ℕ (List ℕ)).ExactLock :=
  (bid_locks rfl (devnet_run (fun _ => 1000) devnet_bid_taken)).1 devnet_bid _ (by decide)
    (by simp [Order.IsBid]) (by simp [Order.Fits])

/-- A bid order of `2 ^ 32` units at price `2 ^ 32`, worth one more than a `u64` can lock. -/
def devnet_large_bid : List (Extrinsic ℕ (List ℕ)) :=
  devnet_opening ++
    [⟨.signed 2, 0, .carbonExchange (.make_order devnet_asset [] 4294967296 4294967296 1 0)⟩]

/-- **The lock of a large bid order is short**, from its creation on. -/
theorem large_bid_lock_short :
    (runtime devnet).Run (fun _ => True) (genesis fun _ => 2 ^ 70)
      ((runtime devnet).trace (genesis fun _ => 2 ^ 70) devnet_large_bid)
      ((runtime devnet).final (genesis fun _ => 2 ^ 70) devnet_large_bid)
    ∧ ∃ id order,
      ((runtime devnet).final (genesis fun _ => 2 ^ 70) devnet_large_bid).Orders.get id = some order
        ∧ order.direction = Direction.BID.as_u8
        ∧ order.locked_balance.toNat ≠ order.left_amount.toNat * order.price.toNat :=
  ⟨devnet_run _ _, Preimage.encode (.order 2 devnet_asset [] 4294967296 4294967296 1 0),
    { asset_id := devnet_asset, money_id := [], maker := 2, amount := 4294967296,
      price := 4294967296, left_amount := 4294967296, direction := 1,
      locked_balance := 18446744073709551615, salt := 0 },
    by decide, rfl, by decide⟩

end Eco2
