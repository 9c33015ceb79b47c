/-
The exchange as a market.

The source keeps what is offered in one account, moves units and money in and out of it,
and keeps the orders in a map next to it. `market` looks past the pot: what the pot holds
for an order is its maker's. Seen so, a run of the chain is a run of a market of standing
offers (`market_refined`): trades are between maker and taker at the price of the order,
and the rest is what the signer of a call gives away, what approvals issue, and the dust
that a payment leaves of an account that falls below the existential deposit.
-/
import Eco2.Market
import Eco2.WindUp
import Eco2.ThirdParty

set_option autoImplicit false
set_option linter.unusedSectionVars false

namespace Eco2

open CarbonExchange Market

variable {AccountId Hash : Type} [DecidableEq AccountId] [DecidableEq Hash]
variable {T : Trait AccountId Hash}

/-! ## What the chain keeps -/

/-- The offer that an order is. -/
def CarbonExchange.Order.offer (order : Order AccountId Hash) : Offer AccountId Hash where
  maker := order.maker
  asset := order.asset_id
  side := if order.direction = 0 then .sell else .buy
  price := order.price.toNat
  left := order.left_amount.toNat

/-- The units that accounts hold. -/
def holdings (s : CarbonAssets.Storage AccountId Hash) : Hash × AccountId → ℤ :=
  fun k => ((s.balance k.1 k.2).toNat : ℤ)

/-- The native money that they hold. -/
def cash (native : AccountId → ℕ) : AccountId → ℤ := fun x => (native x : ℤ)

theorem holdings_nonneg (s : CarbonAssets.Storage AccountId Hash) (k : Hash × AccountId) :
    0 ≤ holdings s k :=
  Int.natCast_nonneg _

theorem cash_nonneg (native : AccountId → ℕ) (x : AccountId) : 0 ≤ cash native x :=
  Int.natCast_nonneg _

/-- The market that the chain keeps, with the pot for escrow. -/
def market (T : Trait AccountId Hash) (w : World AccountId Hash) : Market AccountId Hash Hash :=
  escrowed T.pot_account_id (holdings w.carbon) (cash w.native) (w.Orders.map Order.offer)

/-! ## What its transitions post -/

/-- What a payment leaves of an account below the existential deposit. -/
def dust (native : AccountId → ℕ) (src dst : AccountId) (value : ℕ) : ℕ :=
  if value = 0 ∨ src = dst then 0 else native src - value - reaped (native src - value)

/-- Units that are issued go to the owner of the asset's project. -/
def CarbonAssets.Storage.issued (s : CarbonAssets.Storage AccountId Hash) (asset_id : Hash)
    (amount : UInt64) : List (Entry AccountId Hash) :=
  match s.Assets.get asset_id with
  | some asset =>
      match s.Projects.get asset.project_id with
      | some project => [.issue asset_id project.owner amount.toNat]
      | none => []
  | none => []

/-- What a successful call of the carbon pallet posts. -/
def CarbonAssets.Call.entries (s : CarbonAssets.Storage AccountId Hash)
    (origin : Origin AccountId) :
    CarbonAssets.Call AccountId Hash → List (Entry AccountId Hash)
  | .approve_asset asset_id =>
      match s.Assets.get asset_id with
      | some asset => s.issued asset_id asset.initial_supply
      | none => []
  | .approve_issue issue_id =>
      match s.Issues.get issue_id with
      | some issue_info => s.issued issue_info.asset_id issue_info.amount
      | none => []
  | .submit_burn asset_id amount _ =>
      match origin with
      | .signed sender => [.retire asset_id sender amount.toNat]
      | _ => []
  | .transfer asset_id to_ amount =>
      match origin with
      | .signed sender => [.gift asset_id sender to_ amount.toNat]
      | _ => []
  | .neutralize asset_id amount _ =>
      match origin with
      | .signed sender => [.retire asset_id sender amount.toNat]
      | _ => []
  | _ => []

/-- What a successful call of the exchange posts. -/
def CarbonExchange.Call.entries (T : Trait AccountId Hash) (w : World AccountId Hash)
    (origin : Origin AccountId) : CarbonExchange.Call Hash → List (Entry AccountId Hash)
  | .make_order _ _ price amount direction _ =>
      match origin with
      | .signed maker =>
          if direction = Direction.BID.as_u8 then
            [.loss maker (dust w.native maker T.pot_account_id (amount.toNat * price.toNat))]
          else []
      | _ => []
  | .take_order order_id amount =>
      match origin, w.Orders.get order_id with
      | .signed taker, some order =>
          order.offer.trade taker amount.toNat ::
            if order.direction = 0 then
              [.loss taker (dust w.native taker order.maker (amount.toNat * order.price.toNat))]
            else []
      | _, _ => []
  | .cancel_order _ => []

/-- What a transition posts. A failed take of a bid order gives its units away. -/
def Applied.entries (T : Trait AccountId Hash) (t : Applied AccountId Hash) :
    List (Entry AccountId Hash) :=
  match t.output.result with
  | .ok () =>
      match t.input.call with
      | .carbonAssets call => call.entries t.pre.carbon t.input.origin
      | .carbonExchange call => call.entries T t.pre t.input.origin
      | .standardAssets _ => []
      | .balances_transfer dest value =>
          match t.input.origin with
          | .signed src => [.payment src dest value, .loss src (dust t.pre.native src dest value)]
          | _ => []
  | .error _ =>
      match t.output.ops with
      | .make_transfer asset_id from_ to_ _ amount :: _ => [.gift asset_id from_ to_ amount.toNat]
      | _ => []

section Takes

variable {w : World AccountId Hash} {id : Hash} {order : Order AccountId Hash}

theorem entries_take_ask (horder : w.Orders.get id = some order) (hask : order.direction = 0)
    (taker : AccountId) (amount : UInt64) :
    (CarbonExchange.Call.take_order id amount).entries T w (.signed taker)
      = [order.offer.trade taker amount.toNat,
        .loss taker (dust w.native taker order.maker (amount.toNat * order.price.toNat))] := by
  simp only [CarbonExchange.Call.entries, horder, if_pos hask]

theorem entries_take_bid (horder : w.Orders.get id = some order) (hbid : order.direction ≠ 0)
    (taker : AccountId) (amount : UInt64) :
    (CarbonExchange.Call.take_order id amount).entries T w (.signed taker)
      = [order.offer.trade taker amount.toNat] := by
  simp only [CarbonExchange.Call.entries, horder, if_neg hbid]

end Takes

/-! ## Units and money after a call -/

section Accounts

variable {s : CarbonAssets.Storage AccountId Hash} {a : Hash} {x y : AccountId} {n : UInt64}

theorem holdings_set_balance (s : CarbonAssets.Storage AccountId Hash) (a : Hash) (x : AccountId)
    (v : UInt64) : holdings (s.set_balance a x v)
      = holdings s + Pi.single (a, x) ((v.toNat : ℤ) - (s.balance a x).toNat) := by
  funext ⟨b, y⟩
  rw [Pi.add_apply, Pi.single_apply]
  unfold holdings
  rw [CarbonAssets.balance_set_balance]
  by_cases h : b = a ∧ y = x
  · obtain ⟨rfl, rfl⟩ := h
    rw [if_pos ⟨rfl, rfl⟩, if_pos rfl]
    exact (add_sub_cancel _ _).symm
  · rw [if_neg h, if_neg fun hc => h (Prod.mk.inj hc), add_zero]

theorem holdings_credit (hlt : (s.balance a x).toNat + n.toNat < 2 ^ 64) :
    holdings (s.credit a x n) = holdings s + Pi.single (a, x) (n.toNat : ℤ) := by
  have hset := holdings_set_balance s a x (s.balance a x + n)
  rw [U64.toNat_add_of_lt hlt, Nat.cast_add, add_sub_cancel_left] at hset
  exact hset

theorem holdings_debit (hle : n ≤ s.balance a x) :
    holdings (s.debit a x n) = holdings s - Pi.single (a, x) (n.toNat : ℤ) := by
  have hset := holdings_set_balance s a x (s.balance a x - n)
  have hsub := U64.toNat_sub_add_of_le hle
  have hneg : ((s.balance a x - n).toNat : ℤ) - (s.balance a x).toNat = -(n.toNat : ℤ) := by omega
  rw [hneg, Pi.single_neg, ← sub_eq_add_neg] at hset
  exact hset

/-- A transfer of the carbon pallet moves units. -/
theorem holdings_move (hle : n ≤ s.balance a x) (hheld : s.held a < 2 ^ 64) :
    holdings (s.move a x y n)
      = holdings s + Market.move (a, x) (a, y) n.toNat := by
  unfold Market.move
  by_cases hne : x = y
  · rw [hne, CarbonAssets.move_self, sub_self, add_zero]
  · have hlt := CarbonAssets.add_lt_of_le_balance hne hle hheld
    have hsame : (s.debit a x n).balance a y = s.balance a y :=
      CarbonAssets.balance_set_balance_of_ne _ _ _ _ fun hc => hne hc.2.symm
    rw [← hsame] at hlt
    unfold CarbonAssets.Storage.move
    rw [if_pos hne, holdings_credit hlt, holdings_debit hle]
    abel

end Accounts

section Payments

variable {native native' : AccountId → ℕ} {src dst : AccountId} {value : ℕ}

/-- A payment moves money, and the dust of the sender is lost. -/
theorem cash_transfer (hT : TransferDocumented T.transfer)
    (h : T.transfer native src dst value = some native') :
    cash native' = cash native + Market.move src dst value
      - Pi.single src (dust native src dst value : ℤ) := by
  by_cases hnoop : value = 0 ∨ src = dst
  · have hsame := Option.some.inj ((hT.noop native src dst value hnoop).symm.trans h)
    have hmoved : Market.move src dst value = 0 := by
      rcases hnoop with rfl | rfl
      · exact move_zero _ _
      · exact move_self _ _
    unfold dust
    rw [← hsame, hmoved, if_pos hnoop, Nat.cast_zero, Pi.single_zero, add_zero, sub_zero]
  · obtain ⟨hvalue, hne⟩ := not_or.mp hnoop
    have hfunds := hT.funds _ _ _ _ _ hvalue hne h
    unfold dust Market.move
    rw [if_neg hnoop]
    funext x
    simp only [Pi.sub_apply, Pi.add_apply, Pi.single_apply]
    unfold cash
    by_cases hsrc : x = src
    · subst hsrc
      have hreaped : reaped (native x - value) ≤ native x - value := by
        unfold reaped
        split <;> omega
      rw [if_neg hne, if_pos rfl, if_pos rfl, hT.sender _ _ _ _ _ hvalue hne h]
      omega
    · rw [if_neg hsrc, if_neg hsrc]
      by_cases hdst : x = dst
      · subst hdst
        rw [if_pos rfl, hT.receiver _ _ _ _ _ hvalue hne h]
        omega
      · rw [if_neg hdst, hT.others _ _ _ _ _ h x hsrc hdst]
        omega

/-- The sender has what it pays and what it loses. -/
theorem dust_le (hT : TransferDocumented T.transfer)
    (h : T.transfer native src dst value = some native') (hne : src ≠ dst) :
    value + dust native src dst value ≤ native src := by
  unfold dust
  by_cases hvalue : value = 0
  · rw [if_pos (.inl hvalue)]
    omega
  · have hfunds := hT.funds _ _ _ _ _ hvalue hne h
    rw [if_neg (not_or.mpr ⟨hvalue, hne⟩)]
    omega

/-- What the sender has left covers what it loses of it. -/
theorem loss_covered (hT : TransferDocumented T.transfer)
    (h : T.transfer native src dst value = some native') :
    (dust native src dst value : ℤ) ≤ (cash native + Market.move src dst value) src := by
  by_cases hne : src = dst
  · unfold dust
    rw [if_pos (.inr hne), hne, move_self, add_zero]
    exact cash_nonneg native dst
  · have hdust := dust_le hT h hne
    rw [Pi.add_apply, move_src _ hne]
    unfold cash
    omega

/-- An account that stays at the existential deposit loses nothing. -/
theorem dust_eq_zero (halive : ExistentialDeposit ≤ native src - value) :
    dust native src dst value = 0 := by
  unfold dust reaped
  rw [if_neg (Nat.not_lt.mpr halive), Nat.sub_self, ite_self]

end Payments

/-! ## Offers and orders -/

section Offers

variable {order : Order AccountId Hash} {n : ℕ} {x : AccountId}

theorem side_of_ask (hask : order.direction = 0) : order.offer.side = .sell := if_pos hask

theorem side_of_bid (hbid : order.direction ≠ 0) : order.offer.side = .buy := if_neg hbid

/-- The order map after a take, as a map of offers. -/
theorem map_settle {orders : StorageMap Hash (Order AccountId Hash)} {id : Hash}
    {amount : UInt64} (hleft : amount ≤ order.left_amount) (money : UInt64) :
    (settle orders id (order.taken amount money)).map Order.offer
      = reduce (orders.map Order.offer) id order.offer amount.toNat := by
  have hsub := U64.toNat_sub_add_of_le hleft
  have hrest : (order.taken amount money).offer
      = order.offer.part (order.offer.left - amount.toNat) := by
    have hrest' : (order.left_amount - amount).toNat = order.left_amount.toNat - amount.toNat := by
      omega
    unfold Offer.part Order.offer
    rw [← hrest']
    rfl
  have hiff : (order.taken amount money).left_amount > 0 ↔ amount.toNat < order.offer.left := by
    change 0 < order.left_amount - amount ↔ amount.toNat < order.left_amount.toNat
    rw [UInt64.lt_iff_toNat_lt, UInt64.toNat_zero]
    omega
  unfold settle reduce
  by_cases hmore : amount.toNat < order.offer.left
  · rw [if_pos hmore, if_pos (hiff.mpr hmore), StorageMap.map_insert, hrest]
  · rw [if_neg hmore, if_neg (mt hiff.mp hmore), StorageMap.map_remove]

end Offers

/-! ## One transition -/

/-- The pot does not sign, the orders made fit a `u64`, no asset has more units than a `u64`
can count, and no addition to a balance overflows. -/
structure Orderly (T : Trait AccountId Hash) (t : Applied AccountId Hash) : Prop
    extends Escrowed T t, Potted T t where
  no_overflow : CarbonNoOverflow t

/-- What holds before every transition. -/
structure InOrder (T : Trait AccountId Hash) (w : World AccountId Hash) : Prop where
  book : EscrowBook T w
  endowed : Endowed T w
  bounded : ∀ a, w.carbon.held a < 2 ^ 64
  registered : Registered w

/-- What a call of the carbon pallet posts. -/
theorem CarbonAssets.Step.posted {origin : Origin AccountId} {now : Moment}
    {s s' : CarbonAssets.Storage AccountId Hash} {call : CarbonAssets.Call AccountId Hash}
    {events : List (CarbonAssets.Event AccountId Hash)} {ops : List (Op AccountId Hash)}
    (h : CarbonAssets.Step T origin now s call s' events ops) (hreg : CarbonAssets.Registry s)
    (hheld : ∀ a, s.held a < 2 ^ 64) (hno : ∀ op ∈ ops, op.CarbonNoOverflow) {p : AccountId}
    (houtside : origin ≠ .signed p) (money : AccountId → ℤ)
    (offers : StorageMap Hash (Offer AccountId Hash)) :
    (escrowed p (holdings s) money offers).Steps (call.entries s origin)
      (escrowed p (holdings s') money offers) := by
  cases h with
  | submit_project => exact .nil
  | approve_project => exact .nil
  | submit_asset => exact .nil
  | submit_issue => exact .nil
  | approve_burn => exact .nil
  | approve_asset asset_id asset project horigin hasset hstatus hproject hlimit =>
    -- nobody holds units of the asset before
    have hnone : s.balance asset_id project.owner = 0 := hreg.unapproved _ _ fun happroved => by
      rw [happroved.status_eq hasset] at hstatus
      cases hstatus
    have hentries : (Call.approve_asset asset_id).entries s origin
        = [.issue asset_id project.owner asset.initial_supply.toNat] := by
      simp only [Call.entries, Storage.issued, hasset, hproject]
    have hset := holdings_set_balance s asset_id project.owner asset.initial_supply
    rw [hnone, UInt64.toNat_zero, Nat.cast_zero, sub_zero] at hset
    rw [hentries]
    exact (hset ▸ step_issue asset_id project.owner asset.initial_supply.toNat).steps
  | approve_issue issue_id issue_info asset project horigin hissue hstatus hasset hproject hlimit =>
    have hentries : (Call.approve_issue issue_id).entries s origin
        = [.issue issue_info.asset_id project.owner issue_info.amount.toNat] := by
      simp only [Call.entries, Storage.issued, hissue, hasset, hproject]
    have hlt : (s.balance issue_info.asset_id project.owner).toNat + issue_info.amount.toNat
        < 2 ^ 64 := hno _ List.mem_cons_self
    have hcredit := holdings_credit hlt
    rw [hentries]
    exact (hcredit ▸ step_issue issue_info.asset_id project.owner issue_info.amount.toNat).steps
  | submit_burn sender asset_id amount additional asset project burn_id horigin hasset hstatus
      hproject howner hid hfresh hbalance =>
    subst horigin
    have hsender := Origin.signer_ne rfl houtside
    have hle : (amount.toNat : ℤ) ≤ holdings s (asset_id, sender) :=
      Int.ofNat_le.mpr (UInt64.le_iff_toNat_le.mp hbalance)
    have hdebit := holdings_debit hbalance
    exact (hdebit ▸ step_retire hsender hle).steps
  | transfer sender asset_id to_ amount horigin hamount hbalance =>
    subst horigin
    have hsender := Origin.signer_ne rfl houtside
    have hle : (amount.toNat : ℤ) ≤ holdings s (asset_id, sender) :=
      Int.ofNat_le.mpr (UInt64.le_iff_toNat_le.mp hbalance)
    rw [holdings_move hbalance (hheld asset_id)]
    exact (step_gift to_ hsender hle).steps
  | neutralize sender asset_id amount additional horigin hamount hbalance =>
    subst horigin
    have hsender := Origin.signer_ne rfl houtside
    have hle : (amount.toNat : ℤ) ≤ holdings s (asset_id, sender) :=
      Int.ofNat_le.mpr (UInt64.le_iff_toNat_le.mp hbalance)
    have hdebit := holdings_debit hbalance
    exact (hdebit ▸ step_retire hsender hle).steps

/-! ## The calls of the exchange -/

section Calls

variable {s : CarbonAssets.Storage AccountId Hash} {native native' : AccountId → ℕ}
  {orders : StorageMap Hash (Order AccountId Hash)} {id : Hash} {p : AccountId}
  {taker : AccountId} {amount : UInt64}

theorem offer_of_order {order : Order AccountId Hash} (horder : orders.get id = some order) :
    (orders.map Order.offer).get id = some order.offer :=
  congrArg (Option.map Order.offer) horder

theorem no_offer_of_order (hfresh : orders.get id = none) :
    (orders.map Order.offer).get id = none :=
  congrArg (Option.map Order.offer) hfresh

/-- A new ask order. -/
theorem ask_placed (order : Order AccountId Hash) (hask : order.direction = 0)
    (hfresh : orders.get id = none) (hmaker : order.maker ≠ p)
    (hle : order.left_amount ≤ s.balance order.asset_id order.maker)
    (hheld : s.held order.asset_id < 2 ^ 64) :
    (escrowed p (holdings s) (cash native) (orders.map Order.offer)).Step []
      (escrowed p (holdings (s.move order.asset_id order.maker p order.left_amount)) (cash native)
        ((orders.insert id order).map Order.offer)) := by
  have hle' : (order.offer.left : ℤ) ≤ holdings s (order.offer.asset, order.offer.maker) :=
    Int.ofNat_le.mpr (UInt64.le_iff_toNat_le.mp hle)
  rw [holdings_move hle hheld, StorageMap.map_insert]
  exact step_place_sell (side_of_ask hask) (no_offer_of_order hfresh) hmaker hle' (cash_nonneg _ _)

/-- A new bid order. -/
theorem bid_placed (hT : TransferDocumented T.transfer) (order : Order AccountId Hash)
    (hbid : order.direction ≠ 0) (hfresh : orders.get id = none) (hmaker : order.maker ≠ p)
    (hnative : T.transfer native order.maker p (order.offer.left * order.offer.price)
      = some native') :
    (escrowed p (holdings s) (cash native) (orders.map Order.offer)).Steps
      [.loss order.maker (dust native order.maker p (order.offer.left * order.offer.price))]
      (escrowed p (holdings s) (cash native') ((orders.insert id order).map Order.offer)) := by
  have hdust := dust_le hT hnative hmaker
  have hle : ((order.offer.left * order.offer.price : ℕ) : ℤ) ≤ cash native order.offer.maker :=
    Int.ofNat_le.mpr ((Nat.le_add_right _ _).trans hdust)
  rw [StorageMap.map_insert, cash_transfer hT hnative]
  exact (step_place_buy (side_of_bid hbid) (no_offer_of_order hfresh) hmaker
    (holdings_nonneg _ _) hle).steps.trans (step_loss hmaker (loss_covered hT hnative)).steps

/-- A take of an ask order. -/
theorem ask_accepted (hT : TransferDocumented T.transfer) (order : Order AccountId Hash)
    (hask : order.direction = 0) (horder : orders.get id = some order)
    (hleft : amount ≤ order.left_amount) (htaker : taker ≠ p)
    (hle : amount ≤ s.balance order.asset_id p) (hheld : s.held order.asset_id < 2 ^ 64)
    (hnative : T.transfer native taker order.maker (amount.toNat * order.offer.price)
      = some native') :
    (escrowed p (holdings s) (cash native) (orders.map Order.offer)).Steps
      [order.offer.trade taker amount.toNat,
        .loss taker (dust native taker order.maker (amount.toNat * order.offer.price))]
      (escrowed p (holdings (s.move order.asset_id p taker amount)) (cash native')
        ((settle orders id (order.taken amount 0)).map Order.offer)) := by
  have hpays : taker ≠ order.offer.maker →
      ((amount.toNat * order.offer.price : ℕ) : ℤ) ≤ cash native taker := by
    intro hne
    exact Int.ofNat_le.mpr ((Nat.le_add_right _ _).trans (dust_le hT hnative hne))
  rw [map_settle hleft, holdings_move hle hheld, cash_transfer hT hnative]
  exact (step_accept_sell (side_of_ask hask) (offer_of_order horder)
    (UInt64.le_iff_toNat_le.mp hleft) htaker hpays).steps.trans
      (step_loss htaker (loss_covered hT hnative)).steps

/-- A take of a bid order. -/
theorem bid_accepted (order : Order AccountId Hash) (hbid : order.direction ≠ 0)
    (horder : orders.get id = some order)
    (hleft : amount ≤ order.left_amount) (htaker : taker ≠ p)
    (hle : amount ≤ s.balance order.asset_id taker) (hheld : s.held order.asset_id < 2 ^ 64)
    (money : UInt64)
    (hnative : cash native' = cash native
      + Market.move p taker (amount.toNat * order.offer.price)) :
    (escrowed p (holdings s) (cash native) (orders.map Order.offer)).Step
      [order.offer.trade taker amount.toNat]
      (escrowed p (holdings (s.move order.asset_id taker order.maker amount)) (cash native')
        ((settle orders id (order.taken amount money)).map Order.offer)) := by
  have hgives : taker ≠ order.offer.maker →
      (amount.toNat : ℤ) ≤ holdings s (order.offer.asset, taker) := by
    intro _
    exact Int.ofNat_le.mpr (UInt64.le_iff_toNat_le.mp hle)
  rw [map_settle hleft, holdings_move hle hheld, hnative]
  exact step_accept_buy (side_of_bid hbid) (offer_of_order horder)
    (UInt64.le_iff_toNat_le.mp hleft) htaker hgives

/-- The cancellation of an ask order. -/
theorem ask_withdrawn (order : Order AccountId Hash) (hask : order.direction = 0)
    (horder : orders.get id = some order)
    (hle : order.left_amount ≤ s.balance order.asset_id p)
    (hheld : s.held order.asset_id < 2 ^ 64) :
    (escrowed p (holdings s) (cash native) (orders.map Order.offer)).Step []
      (escrowed p (holdings (s.move order.asset_id p order.maker order.left_amount)) (cash native)
        ((orders.remove id).map Order.offer)) := by
  rw [StorageMap.map_remove, holdings_move hle hheld]
  exact step_withdraw_sell (side_of_ask hask) (offer_of_order horder)

/-- The cancellation of a bid order. -/
theorem bid_withdrawn (order : Order AccountId Hash) (hbid : order.direction ≠ 0)
    (horder : orders.get id = some order)
    (hnative : cash native' = cash native
      + Market.move p order.maker (order.offer.left * order.offer.price)) :
    (escrowed p (holdings s) (cash native) (orders.map Order.offer)).Step []
      (escrowed p (holdings s) (cash native') ((orders.remove id).map Order.offer)) := by
  rw [StorageMap.map_remove, hnative]
  exact step_withdraw_buy (side_of_bid hbid) (offer_of_order horder)

end Calls

/-- The pot is not reaped by what it pays out, so nothing of it is lost. -/
theorem Endowed.cash_payout (hT : TransferDocumented T.transfer) {w : World AccountId Hash}
    (hendowed : Endowed T w) {dst : AccountId} {value : ℕ} {native : AccountId → ℕ}
    (hle : value ≤ locked w)
    (hnative : T.transfer w.native T.pot_account_id dst value = some native) :
    cash native = cash w.native + Market.move T.pot_account_id dst value := by
  unfold Endowed at hendowed
  have halive : ExistentialDeposit ≤ w.native T.pot_account_id - value := by omega
  have hpaid := cash_transfer hT hnative
  rwa [dust_eq_zero halive, Nat.cast_zero, Pi.single_zero, sub_zero] at hpaid

/-- A part of a live order is worth exactly its price. -/
theorem EscrowBook.worth {w : World AccountId Hash} (h : EscrowBook T w) {id : Hash}
    {order : Order AccountId Hash} (horder : w.Orders.get id = some order) {amount : UInt64}
    (hleft : amount ≤ order.left_amount) :
    (U64.saturating_mul amount order.price).toNat = amount.toNat * order.price.toNat := by
  have hwhole := UInt64.le_trans hleft (h.book id order horder).left_le
  refine U64.saturating_mul_of_lt (lt_of_le_of_lt ?_ (h.fits id order horder))
  exact Nat.mul_le_mul_right _ (UInt64.le_iff_toNat_le.mp hwhole)

/-- What a call of the exchange posts. -/
theorem CarbonExchange.Step.posted (hT : TransferDocumented T.transfer)
    {origin : Origin AccountId} {now : Moment} {w w' : World AccountId Hash}
    {call : CarbonExchange.Call Hash} {events : List (CarbonExchange.Event AccountId Hash)}
    {ops : List (Op AccountId Hash)} (h : CarbonExchange.Step T origin now w call w' events ops)
    (hin : InOrder T w) (hcovered : (market T w).Covered)
    (hfits : ∀ a m price amount d s, call = .make_order a m price amount d s →
      amount.toNat * price.toNat < 2 ^ 64)
    (houtside : origin ≠ .signed T.pot_account_id) :
    (market T w).Steps (call.entries T w origin) (market T w') := by
  cases h with
  | make_ask maker asset_id money_id price amount salt order_id horigin hmoney hprice hamount
      hasset hid hfresh hbalance =>
    subst horigin
    have hmaker := Origin.signer_ne rfl houtside
    exact (ask_placed
      { asset_id, money_id, maker, amount, price, left_amount := amount, direction := 0,
        locked_balance := 0, salt }
      rfl hfresh hmaker hbalance (hin.bounded asset_id)).steps
  | make_bid maker asset_id money_id price amount salt order_id native horigin hmoney hprice
      hamount hasset hid hfresh hnative =>
    subst horigin
    have hmaker := Origin.signer_ne rfl houtside
    have hlock := U64.saturating_mul_of_lt (hfits _ _ _ _ _ _ rfl)
    exact bid_placed hT
      { asset_id, money_id, maker, amount, price, left_amount := amount, direction := 1,
        locked_balance := U64.saturating_mul amount price, salt }
      (show (1 : UInt8) ≠ 0 by decide) hfresh hmaker (hlock ▸ hnative)
  | take_ask taker order_id amount order native horigin horder hleft hdirection hpot hnative =>
    subst horigin
    have htaker := Origin.signer_ne rfl houtside
    have hworth := hin.book.worth horder hleft
    rw [entries_take_ask horder hdirection]
    exact ask_accepted hT order hdirection horder hleft htaker hpot (hin.bounded _)
      (hworth ▸ hnative)
  | take_bid taker order_id amount order native horigin horder hleft hdirection hbalance hnative =>
    subst horigin
    have htaker := Origin.signer_ne rfl houtside
    have hworth := hin.book.worth horder hleft
    have hfit := hin.book.fits order_id order horder
    have hreleased : order.released amount = U64.saturating_mul amount order.price :=
      if_neg hdirection
    have hle := (locked_settle_bid horder hdirection hfit
      (hin.book.locks order_id order horder hdirection hfit)
      (hin.book.book order_id order horder).left_le hleft).2
    rw [hreleased, hworth] at hle
    rw [hworth] at hnative
    rw [entries_take_bid horder hdirection]
    exact (bid_accepted order hdirection horder hleft htaker hbalance (hin.bounded _)
      (U64.saturating_mul amount order.price) (hin.endowed.cash_payout hT hle hnative)).steps
  | cancel_ask order_id order horigin horder hdirection =>
    -- the market is covered, so the pot has what the order offers
    have hpot := hcovered.units_le (offer_of_order horder)
    rw [side_of_ask hdirection] at hpot
    exact (ask_withdrawn order hdirection horder
      (UInt64.le_iff_toNat_le.mpr (Int.ofNat_le.mp hpot)) (hin.bounded _)).steps
  | cancel_bid order_id order native horigin horder hdirection hnative =>
    have hlock : order.locked_balance.toNat = order.left_amount.toNat * order.price.toNat :=
      hin.book.locks order_id order horder hdirection (hin.book.fits order_id order horder)
    have hle := bid_lock_le_locked horder
    rw [bid_lock_of_bid hdirection, hlock] at hle
    rw [hlock] at hnative
    exact (bid_withdrawn order hdirection horder (hin.endowed.cash_payout hT hle hnative)).steps

/-- What a transition posts. -/
theorem Outcome.posted (hT : TransferDocumented T.transfer) {t : Applied AccountId Hash}
    (h : Outcome T t) (hin : InOrder T t.pre) (hcovered : (market T t.pre).Covered)
    (hok : Orderly T t) : (market T t.pre).Steps (t.entries T) (market T t.post) := by
  have houtside := hok.outside
  cases h with
  | refused => exact .nil
  | standardAssets => exact .nil
  | carbonAssets w origin now call s' events ops hstep =>
    exact hstep.posted hin.registered.carbon hin.bounded hok.no_overflow houtside _ _
  | carbonExchange w origin now call w' events ops hstep =>
    refine hstep.posted hT hin hcovered ?_ houtside
    intro a m price amount d s hcall
    exact hok.fits a m price amount d s rfl (congrArg Call.carbonExchange hcall)
  | half_take w origin now call w' e ops hhalf =>
    cases hhalf with
    | take_bid taker order_id amount order horigin horder hleft hdirection hbalance hrefused =>
      subst horigin
      have htaker := Origin.signer_ne rfl houtside
      have hle : (amount.toNat : ℤ) ≤ holdings w.carbon (order.asset_id, taker) :=
        Int.ofNat_le.mpr (UInt64.le_iff_toNat_le.mp hbalance)
      unfold market
      rw [holdings_move hbalance (hin.bounded order.asset_id)]
      exact (step_gift order.maker htaker hle).steps
  | balances_transfer w src now dest value native hnative =>
    have hsrc := Origin.signer_ne rfl houtside
    have hle : src ≠ dest → (value : ℤ) ≤ cash w.native src := by
      intro hne
      exact Int.ofNat_le.mpr ((Nat.le_add_right _ _).trans (dust_le hT hnative hne))
    unfold market
    rw [cash_transfer hT hnative]
    exact (step_payment hsrc hle).steps.trans (step_loss hsrc (loss_covered hT hnative)).steps

/-! ## A whole run -/

section Run

variable {native : AccountId → ℕ} {w : World AccountId Hash} {tr : List (Applied AccountId Hash)}

theorem InOrder.run (hT : TransferDocumented T.transfer)
    (hpot : ExistentialDeposit ≤ native T.pot_account_id)
    (hrun : (runtime T).Run (Orderly T) (genesis native) tr w) : InOrder T w where
  book := .run rfl (hrun.mono fun _ h => h.toEscrowed)
  endowed := .run hT rfl hpot (hrun.mono fun _ h =>
    ⟨h.outside, fun a m price amount s => h.fits a m price amount _ s⟩)
  bounded := bounded_run (hrun.mono fun _ h => h.toPotted)
  registered := Registered.run hrun

/-- At first there are no units and no offers. -/
theorem market_genesis (native : AccountId → ℕ) :
    market T (genesis native) = { units := 0, money := cash native, offers := .empty } := by
  have hunits : (market T (genesis native)).units = 0 :=
    (sub_zero (0 + 0 : Hash × AccountId → ℤ)).trans (add_zero 0)
  have hmoney : (market T (genesis native)).money = cash native :=
    (sub_zero (cash native + 0)).trans (add_zero _)
  have hoffers : (market T (genesis native)).offers = .empty := StorageMap.ext_get fun _ => rfl
  rw [← hunits, ← hmoney, ← hoffers]

theorem covered_genesis (native : AccountId → ℕ) : (market T (genesis native)).Covered := by
  rw [market_genesis]
  constructor
  · exact (sub_zero (0 : Hash × AccountId → ℤ)).symm.le
  · exact fun x => (cash_nonneg native x).trans_eq (sub_zero _).symm

/-- A run of the chain is a run of the market. -/
theorem market_run (hT : TransferDocumented T.transfer)
    (hpot : ExistentialDeposit ≤ native T.pot_account_id)
    (hrun : (runtime T).Run (Orderly T) (genesis native) tr w) :
    (market T (genesis native)).Steps (tr.flatMap (Applied.entries T)) (market T w) := by
  apply hrun.invariant (I := fun tr w =>
    (market T (genesis native)).Steps (tr.flatMap (Applied.entries T)) (market T w))
  · exact .nil
  intro tr w x hrun ih hok
  rw [List.flatMap_append, List.flatMap_singleton]
  have hcovered := ih.covered (covered_genesis native)
  exact ih.trans ((outcome_of_fire T w x).posted hT (.run hT hpot hrun) hcovered hok)

/-- The state of the market that a state of the chain stands for: its offers are the live
orders, all of them covered, and what an account holds is what it owns and has not offered. -/
structure StandsFor (T : Trait AccountId Hash) (w : World AccountId Hash)
    (m : Market AccountId Hash Hash) : Prop where
  offers : ∀ id, m.offers.get id = (w.Orders.get id).map Order.offer
  covered : m.Covered
  units : ∀ a x, x ≠ T.pot_account_id → m.free_units (a, x) = (w.carbon.balance a x).toNat
  money : ∀ x, x ≠ T.pot_account_id → m.free_money x = w.native x

/-- **The exchange is a market.** In a run from a pot that holds the existential deposit,
in which the pot does not sign, the orders made fit a `u64`, no asset has more units than a
`u64` can count and no addition to a balance overflows: a market of standing offers, to
which every call posts what it says, leads from one without units and offers to one that
the state reached stands for. -/
theorem market_refined (hT : TransferDocumented T.transfer)
    (hpot : ExistentialDeposit ≤ native T.pot_account_id)
    (hrun : (runtime T).Run (Orderly T) (genesis native) tr w) :
    ∃ m, Market.Steps { units := 0, money := cash native, offers := .empty }
        (tr.flatMap (Applied.entries T)) m ∧ StandsFor T w m := by
  have hsteps := market_run hT hpot hrun
  refine ⟨market T w, ?_, ?_⟩
  · rwa [market_genesis] at hsteps
  · constructor
    case offers => exact fun _ => rfl
    case covered => exact hsteps.covered (covered_genesis native)
    case units => exact fun a x hx => free_units_of_ne a hx
    case money => exact fun x hx => free_money_of_ne hx

end Run

/-- Account 1 fills a third of account 2's bid. -/
theorem orderly_devnet_bid_taken :
    (runtime devnet).Run (Orderly devnet) (genesis fun _ => 2000)
      ((runtime devnet).trace (genesis fun _ => 2000) devnet_bid_taken)
      ((runtime devnet).final (genesis fun _ => 2000) devnet_bid_taken) := by
  have hescrowed := escrowed_devnet_bid_taken fun _ => 2000
  have htotal : ∀ t ∈ (runtime devnet).trace (genesis fun _ => 2000) devnet_bid_taken,
      (t.post.carbon.Balances.sum fun _ v => v.toNat) < 2 ^ 64 := by decide
  have hno : ∀ t ∈ (runtime devnet).trace (genesis fun _ => 2000) devnet_bid_taken,
      CarbonNoOverflow t := by decide
  refine hescrowed.restrict fun t ht => ⟨?_, fun a => ?_, hno t ht⟩
  · obtain ⟨-, -, -, hok⟩ := hescrowed.of_mem ht
    exact hok
  · exact (held_le_total t.post.carbon a).trans_lt (htotal t ht)

/-- What is posted: the units of the asset, and a unit for its price. -/
theorem market_refined_bid_taken :
    ∃ m, Market.Steps { units := 0, money := cash fun _ => 2000, offers := .empty }
        [.issue devnet_asset 1 5, .loss 2 0, .trade devnet_asset 1 2 1 200] m
      ∧ StandsFor devnet ((runtime devnet).final (genesis fun _ => 2000) devnet_bid_taken) m := by
  have hentries : ((runtime devnet).trace (genesis fun _ => 2000) devnet_bid_taken).flatMap
      (Applied.entries devnet)
      = [.issue devnet_asset 1 5, .loss 2 0, .trade devnet_asset 1 2 1 200] := by decide
  rw [← hentries]
  exact market_refined transferDocumented_documented_transfer (by decide) orderly_devnet_bid_taken

end Eco2
