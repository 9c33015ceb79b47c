/-
Withdrawing and filling bid orders.

The pot is one account for all bid orders, and its payouts go through a transfer
that may refuse. With the existential deposit in it from the start, on top of all
locks, no payout is ever refused and none reaps it: `Endowed` is kept by every
transition, and it leaves every live bid order its money, whoever else has been
paid before.
-/
import Eco2.NativeEscrow

set_option autoImplicit false
set_option linter.unusedSectionVars false

namespace Eco2

open CarbonExchange

variable {AccountId Hash : Type} [DecidableEq AccountId] [DecidableEq Hash]
variable {T : Trait AccountId Hash}

/-! ## The endowment -/

/-- `transfer` of `pallet_balances` 2.0 fails for nothing but missing funds, a payee
that would stay below the existential deposit, or a balance beyond a `u128`, which
no total issuance reaches. -/
structure TransferAccepts
    (transfer : (AccountId → ℕ) → AccountId → AccountId → ℕ → Option (AccountId → ℕ)) : Prop where
  accepts : ∀ b src dst value, value ≠ 0 → src ≠ dst → value ≤ b src →
    ExistentialDeposit ≤ b dst + value → ∃ b', transfer b src dst value = some b'

/-- The pot does not sign, and the bid orders made fit a `u64`. -/
structure BidsEscrowed (T : Trait AccountId Hash) (t : Applied AccountId Hash) : Prop where
  outside : t.input.origin ≠ .signed T.pot_account_id
  fits : ∀ asset_id money_id price amount salt, t.Succeeded →
    t.input.call = .carbonExchange
      (.make_order asset_id money_id price amount Direction.BID.as_u8 salt) →
    amount.toNat * price.toNat < 2 ^ 64

/-- The pot holds the existential deposit on top of all locks. -/
def Endowed (T : Trait AccountId Hash) (w : World AccountId Hash) : Prop :=
  ExistentialDeposit + locked w ≤ w.native T.pot_account_id

/-! ## One transition -/

theorem BidBook.outcome {t : Applied AccountId Hash} (hbook : BidBook T t.pre)
    (h : Outcome T t) (hok : BidsEscrowed T t) : BidBook T t.post where
  book := hbook.book.outcome h
  locks := hbook.locks.outcome hbook.book h
  maker _ _ horder := maker_ne_outcome hbook.maker h hok.outside horder
  fits id order horder hbid := by
    rcases order_origin h horder with ⟨hold, -⟩ | ⟨-, hmade⟩ | ⟨old, taker, amount, hold, -, -, rfl⟩
    · exact hbook.fits id order hold hbid
    · -- what is no ask order was made as a bid order
      obtain ⟨hask, -⟩ | ⟨hdirection, -⟩ := hmade.lock
      · exact absurd hask hbid
      · have hcall := hmade.call
        rw [hdirection] at hcall
        exact hok.fits _ _ _ _ _ hmade.succeeded hcall
    · exact hbook.fits id old hold hbid

/-- Every transition keeps the pot endowed. -/
theorem Endowed.outcome (hT : TransferDocumented T.transfer) {t : Applied AccountId Hash}
    (hendowed : Endowed T t.pre) (h : Outcome T t) (hbook : BidBook T t.pre)
    (hok : BidsEscrowed T t) : Endowed T t.post := by
  unfold Endowed at hendowed ⊢
  cases pot_step hT h hbook hok.outside with
  | gained hpayout hgain => omega
  | paid dst hs hne hnative hle hlocked =>
    -- after the payout the pot holds the deposit and the other locks, so it is not reaped
    have halive : ExistentialDeposit
        ≤ t.pre.native T.pot_account_id - payout t.pre t.input.call := by
      omega
    have hcovered : locked t.pre ≤ t.pre.native T.pot_account_id := by omega
    by_cases hzero : payout t.pre t.input.call = 0
    · rw [hzero] at hnative hlocked
      have hsame := (hT.noop _ _ _ _ (.inl rfl)).symm.trans hnative
      rw [hlocked, ← Option.some.inj hsame]
      exact hendowed
    · rw [hT.sender _ _ _ _ _ hzero hne hnative, reaped, if_neg (Nat.not_lt.mpr halive), hlocked]
      omega

/-! ## A whole run -/

section Run

variable {w₀ w : World AccountId Hash} {tr : List (Applied AccountId Hash)}

theorem BidBook.run (hempty : w₀.Orders = .empty)
    (hrun : (runtime T).Run (BidsEscrowed T) w₀ tr w) : BidBook T w := by
  apply hrun.state_invariant
  · exact ⟨forall_orders_of_empty hempty, forall_orders_of_empty hempty,
      forall_orders_of_empty hempty, forall_orders_of_empty hempty⟩
  intro w x hbook hok
  exact BidBook.outcome (t := (runtime T).fire w x) hbook (outcome_of_fire T w x) hok

/-- The pot stays endowed. -/
theorem Endowed.run (hT : TransferDocumented T.transfer) (hempty : w₀.Orders = .empty)
    (hpot : ExistentialDeposit ≤ w₀.native T.pot_account_id)
    (hrun : (runtime T).Run (BidsEscrowed T) w₀ tr w) : Endowed T w := by
  apply hrun.invariant (I := fun _ w => Endowed T w)
  · show ExistentialDeposit + locked w₀ ≤ _
    rw [locked, hempty]
    exact hpot
  intro tr w x hrun hendowed hok
  exact Endowed.outcome (t := (runtime T).fire w x) hT hendowed (outcome_of_fire T w x)
    (.run hempty hrun) hok

/-- A payment of no more than is locked, to an account that exists, goes through. -/
theorem payout_accepted (hT : TransferDocumented T.transfer) (hA : TransferAccepts T.transfer)
    (hendowed : Endowed T w) {dst : AccountId} {value : ℕ} (hne : T.pot_account_id ≠ dst)
    (hle : value ≤ locked w) (hdst : ExistentialDeposit ≤ w.native dst) :
    ∃ native, T.transfer w.native T.pot_account_id dst value = some native := by
  unfold Endowed at hendowed
  by_cases hzero : value = 0
  · exact ⟨w.native, hT.noop _ _ _ _ (.inl hzero)⟩
  · apply hA.accepts _ _ _ _ hzero hne
    · omega
    · omega

end Run

/-! ## The payouts -/

/-- What the maker's cancellation of a bid order does. -/
structure BidRefunded (t : Applied AccountId Hash) (id : Hash)
    (order : Order AccountId Hash) : Prop where
  succeeded : t.Succeeded
  removed : t.post.Orders = t.pre.Orders.remove id
  maker : t.post.native order.maker
    = t.pre.native order.maker + order.left_amount.toNat * order.price.toNat

/-- What a take of `amount` of a bid order does for the taker. -/
structure BidPaid (t : Applied AccountId Hash) (order : Order AccountId Hash)
    (taker : AccountId) (amount : UInt64) : Prop where
  succeeded : t.Succeeded
  taker : t.post.native taker = t.pre.native taker + amount.toNat * order.price.toNat

/-- The maker of a live bid order can withdraw it. -/
theorem bid_refunded (hT : TransferDocumented T.transfer) (hA : TransferAccepts T.transfer)
    {w : World AccountId Hash} (hbook : BidBook T w) (hendowed : Endowed T w) {id : Hash}
    {order : Order AccountId Hash} (horder : w.Orders.get id = some order) (hbid : order.IsBid)
    (hmaker : ExistentialDeposit ≤ w.native order.maker) (now : Moment) :
    BidRefunded ((runtime T).fire w
      ⟨.signed order.maker, now, .carbonExchange (.cancel_order id)⟩) id order := by
  have hne := hbook.maker id order horder
  have hlock := hbook.locks id order horder hbid (hbook.fits id order horder hbid)
  -- the lock of the order is part of what the pot covers
  have hle := bid_lock_le_locked horder
  rw [bid_lock_of_bid hbid] at hle
  obtain ⟨native, hnative⟩ := payout_accepted hT hA hendowed hne.symm hle hmaker
  have hfire := fire_of_ok T
    (x := ⟨.signed order.maker, now, .carbonExchange (.cancel_order id)⟩)
    (dispatch_of_cancel_bid (c := ⟨w, now, [], []⟩) horder hbid hnative)
  rw [hfire]
  refine ⟨rfl, rfl, ?_⟩
  show native order.maker = _
  rw [transfer_receiver hT hne.symm hnative, hlock]

/-- Who holds the units asked for can fill a live bid order. -/
theorem bid_paid (hT : TransferDocumented T.transfer) (hA : TransferAccepts T.transfer)
    {w : World AccountId Hash} (hbook : BidBook T w) (hendowed : Endowed T w) {id : Hash}
    {order : Order AccountId Hash} {taker : AccountId} {amount : UInt64}
    (horder : w.Orders.get id = some order) (hbid : order.IsBid)
    (hne : taker ≠ T.pot_account_id) (htaker : ExistentialDeposit ≤ w.native taker)
    (hleft : amount ≤ order.left_amount)
    (hbalance : amount ≤ w.carbon.balance order.asset_id taker) (now : Moment) :
    BidPaid ((runtime T).fire w
      ⟨.signed taker, now, .carbonExchange (.take_order id amount)⟩) order taker amount := by
  have hfits := hbook.fits id order horder hbid
  have hlock := hbook.locks id order horder hbid hfits
  have hwhole := (hbook.book id order horder).left_le
  have hle := (locked_settle_bid horder hbid hfits hlock hwhole hleft).2
  have hworth := released_toNat hbid hfits (UInt64.le_trans hleft hwhole)
  obtain ⟨native, hnative⟩ := payout_accepted hT hA hendowed hne.symm hle htaker
  rw [Order.released, if_neg hbid] at hnative hworth
  obtain ⟨c, hdispatch⟩ := dispatch_of_take_bid (T := T) (c := ⟨w, now, [], []⟩) horder hbid hleft
    hbalance hnative
  have hfire := fire_of_ok T
    (x := ⟨.signed taker, now, .carbonExchange (.take_order id amount)⟩) hdispatch
  have hout := outcome_of_fire T w ⟨.signed taker, now, .carbonExchange (.take_order id amount)⟩
  rw [hfire] at hout ⊢
  refine ⟨rfl, ?_⟩
  -- what the call has done is read from its step
  obtain ⟨events, hstep⟩ := exchange_step_of_call hout rfl rfl
  change c.world.native taker = w.native taker + _
  change CarbonExchange.Step T _ now w _ c.world events c.ops at hstep
  generalize c.world = w', c.ops = ops at hstep ⊢
  cases hstep with
  | take_ask taker' id' amount' order' native' horigin' horder' hleft' hask =>
    cases horder.symm.trans horder'
    exact absurd hask hbid
  | take_bid taker' id' amount' order' native' horigin' horder' hleft' hbid' hbalance' hnative' =>
    cases horder.symm.trans horder'
    cases horigin'
    show native' taker = w.native taker + _
    rw [transfer_receiver hT hne.symm hnative', hworth]

/-- **Bid payouts.** In a run from an empty order book and a pot that holds the
existential deposit, in which the pot does not sign and the bid orders made fit a
`u64`, in every state reached: the maker of a live bid order can cancel it and gets
back what is left of it at its price; and whoever holds the units can take of it and
is paid its price. -/
theorem bid_payouts (hT : TransferDocumented T.transfer) (hA : TransferAccepts T.transfer)
    {w₀ w : World AccountId Hash} {tr : List (Applied AccountId Hash)}
    (hempty : w₀.Orders = .empty) (hpot : ExistentialDeposit ≤ w₀.native T.pot_account_id)
    (hrun : (runtime T).Run (BidsEscrowed T) w₀ tr w) :
    (∀ id order now, w.Orders.get id = some order → order.direction = Direction.BID.as_u8 →
      ExistentialDeposit ≤ w.native order.maker →
      BidRefunded ((runtime T).fire w
        ⟨.signed order.maker, now, .carbonExchange (.cancel_order id)⟩) id order)
    ∧ ∀ id order taker amount now, w.Orders.get id = some order →
      order.direction = Direction.BID.as_u8 → taker ≠ T.pot_account_id →
      ExistentialDeposit ≤ w.native taker → amount ≤ order.left_amount →
      amount ≤ w.carbon.balance order.asset_id taker →
      BidPaid ((runtime T).fire w
        ⟨.signed taker, now, .carbonExchange (.take_order id amount)⟩) order taker amount := by
  have hbook := BidBook.run hempty hrun
  have hendowed := Endowed.run hT hempty hpot hrun
  have hbid {order : Order AccountId Hash} (h : order.direction = Direction.BID.as_u8) :
      order.IsBid := by
    unfold Order.IsBid
    rw [h]
    decide
  constructor
  · intro id order now horder hdirection hmaker
    exact bid_refunded hT hA hbook hendowed horder (hbid hdirection) hmaker now
  · intro id order taker amount now horder hdirection hne htaker hleft hbalance
    exact bid_paid hT hA hbook hendowed horder (hbid hdirection) hne htaker hleft hbalance now

/-- The executable `transfer` refuses nothing else. -/
theorem transferAccepts_documented_transfer :
    TransferAccepts (@documented_transfer AccountId _) where
  accepts _ _ _ _ hvalue hne hfunds halive :=
    ⟨_, (documented_transfer_eq_some hvalue hne).mpr ⟨⟨hfunds, halive⟩, rfl⟩⟩

/-- What `devnet_bid_taken` leaves of the bid order. -/
def devnet_bid_rest : Order ℕ (List ℕ) :=
  { asset_id := devnet_asset, money_id := [], maker := 2, amount := 3, price := 200,
    left_amount := 2, direction := 1, locked_balance := 400, salt := 0 }

theorem bid_payouts_bid_taken :
    BidRefunded ((runtime devnet).fire
        ((runtime devnet).final (genesis fun _ => 2000) devnet_bid_taken)
        ⟨.signed 2, 0, .carbonExchange (.cancel_order devnet_bid)⟩) devnet_bid devnet_bid_rest
    ∧ BidPaid ((runtime devnet).fire
        ((runtime devnet).final (genesis fun _ => 2000) devnet_bid_taken)
        ⟨.signed 1, 0, .carbonExchange (.take_order devnet_bid 2)⟩) devnet_bid_rest 1 2 := by
  have hrun := escrowed_devnet_bid_taken fun _ => 2000
  have hpayouts := bid_payouts transferDocumented_documented_transfer
    transferAccepts_documented_transfer rfl (by decide) (hrun.mono fun t hok =>
      ⟨hok.outside, fun a m p n s => hok.fits a m p n _ s⟩)
  constructor
  · exact hpayouts.1 devnet_bid devnet_bid_rest 0 (by decide) rfl (by decide)
  · exact hpayouts.2 devnet_bid devnet_bid_rest 1 2 0 (by decide) rfl (by decide) (by decide)
      (by decide) (by decide)

end Eco2
