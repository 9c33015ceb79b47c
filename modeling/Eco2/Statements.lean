/-
Statements of account.

What an account owns is what it holds and what its orders have in the pot. Over a run it
is what the entries say that the calls have posted to it; and what is posted by the call
of another takes nothing from it, but for the trades of its own orders, at their prices.
-/
import Eco2.MarketRefinement

set_option autoImplicit false
set_option linter.unusedSectionVars false

namespace Eco2

open CarbonExchange Market

variable {AccountId Hash : Type} [DecidableEq AccountId] [DecidableEq Hash]
variable {T : Trait AccountId Hash}

/-! ## What an account owns -/

/-- The units that an account holds, and what is left of its ask orders. -/
def owned (w : World AccountId Hash) (a : Hash) (x : AccountId) : ℕ :=
  (w.carbon.balance a x).toNat + w.Orders.sum fun _ order => order.returned a x

/-- The native money that it holds, and what its bid orders have locked. -/
def owned_money (w : World AccountId Hash) (x : AccountId) : ℕ :=
  w.native x + w.Orders.sum fun _ order => order.refund x

section Owned

variable {w : World AccountId Hash} {x : AccountId}

/-- What an order promises as an offer is what its cancellation brings. -/
theorem units_offer (order : Order AccountId Hash) (a : Hash) (x : AccountId) :
    order.offer.units (a, x) = order.returned a x := by
  have hunits : order.offer.side.units order.offer.left = order.offered order.asset_id := by
    by_cases hask : order.direction = 0
    · rw [offered_of_ask hask, if_pos rfl, side_of_ask hask]
      rfl
    · rw [offered_of_bid hask, side_of_bid hask]
      rfl
  unfold Offer.units Order.returned
  rw [hunits, Pi.single_apply]
  change (if (a, x) = (order.asset_id, order.maker) then _ else _) = _
  by_cases hmaker : order.maker = x
  · rw [if_pos hmaker]
    by_cases hasset : order.asset_id = a
    · rw [if_pos (congrArg₂ Prod.mk hasset.symm hmaker.symm), hasset]
    · have hnone : order.offered a = 0 := if_neg fun hc => hasset hc.2
      rw [if_neg fun hc => hasset (Prod.mk.inj hc).1.symm, hnone, Nat.cast_zero]
  · rw [if_neg hmaker, if_neg fun hc => hmaker (Prod.mk.inj hc).2.symm, Nat.cast_zero]

theorem money_offer {order : Order AccountId Hash} (hlock : order.IsBid → order.ExactLock)
    (x : AccountId) : order.offer.money x = order.refund x := by
  have hmoney : order.offer.side.money (order.offer.left * order.offer.price) = order.bid_lock := by
    by_cases hask : order.direction = 0
    · rw [bid_lock_of_ask hask, side_of_ask hask]
      rfl
    · rw [bid_lock_of_bid hask, side_of_bid hask, hlock hask]
      rfl
  unfold Offer.money
  rw [Pi.single_apply, hmoney]
  unfold Order.refund
  by_cases hmaker : order.maker = x
  · rw [if_pos hmaker]
    exact if_pos hmaker.symm
  · rw [if_neg hmaker]
    exact if_neg (Ne.symm hmaker)

/-- The market knows what an account owns. -/
theorem market_units (hx : x ≠ T.pot_account_id) (a : Hash) :
    (market T w).units (a, x) = owned w a x := by
  have hfree : (market T w).free_units (a, x) = holdings w.carbon (a, x) := free_units_of_ne a hx
  have hpromised : promised_units (w.Orders.map Order.offer) (a, x)
      = w.Orders.sum fun _ order => (order.returned a x : ℤ) := by
    unfold promised_units
    rw [StorageMap.sum_apply, StorageMap.sum_map]
    exact StorageMap.sum_congr fun _ order _ => units_offer order a x
  unfold owned
  rw [Nat.cast_add, StorageMap.natCast_sum, ← hpromised]
  exact sub_eq_iff_eq_add.mp hfree

theorem market_money (hx : x ≠ T.pot_account_id)
    (hlocks : ∀ id order, w.Orders.get id = some order → order.IsBid → order.ExactLock) :
    (market T w).money x = owned_money w x := by
  have hfree : (market T w).free_money x = cash w.native x := free_money_of_ne hx
  have hpromised : promised_money (w.Orders.map Order.offer) x
      = w.Orders.sum fun _ order => (order.refund x : ℤ) := by
    unfold promised_money
    rw [StorageMap.sum_apply, StorageMap.sum_map]
    exact StorageMap.sum_congr fun id order horder => money_offer (hlocks id order horder) x
  unfold owned_money
  rw [Nat.cast_add, StorageMap.natCast_sum, ← hpromised]
  exact sub_eq_iff_eq_add.mp hfree

end Owned

/-! ## What the calls of others post -/

/-- The entry takes nothing from the account. -/
def Market.Entry.Spares (e : Entry AccountId Hash) (x : AccountId) : Prop :=
  (∀ a, 0 ≤ e.units (a, x)) ∧ 0 ≤ e.money x

/-- The entry is the trade that a take of a live order of the account makes. -/
inductive TradesFor (t : Applied AccountId Hash) (x : AccountId) : Entry AccountId Hash → Prop
  | take (id : Hash) (order : Order AccountId Hash) (taker : AccountId) (amount : UInt64)
      (horder : t.pre.Orders.get id = some order) (hmaker : order.maker = x)
      (horigin : t.input.origin = .signed taker)
      (hcall : t.input.call = .carbonExchange (.take_order id amount))
      (hleft : amount ≤ order.left_amount) :
      TradesFor t x (order.offer.trade taker amount.toNat)

section Others

variable {x src dst : AccountId} {a : Hash} {n : ℕ}

theorem single_nonneg {K : Type} [DecidableEq K] (k : K) (n : ℕ) (i : K) :
    0 ≤ (Pi.single k (n : ℤ) : K → ℤ) i :=
  (Pi.single_nonneg.mpr (Int.natCast_nonneg n) : (0 : K → ℤ) ≤ Pi.single k (n : ℤ)) i

theorem move_nonneg_of_ne {K : Type} [DecidableEq K] {k l i : K} (n : ℕ) (hi : i ≠ k) :
    0 ≤ Market.move k l n i := by
  unfold Market.move
  rw [Pi.sub_apply, Pi.single_eq_of_ne hi, sub_zero]
  exact single_nonneg l n i

theorem spares_gift (hx : src ≠ x) : (Entry.gift a src dst n).Spares x :=
  ⟨fun _ => move_nonneg_of_ne n fun hc => hx (Prod.mk.inj hc).2.symm, le_rfl⟩

theorem spares_payment (hx : src ≠ x) : (Entry.payment src dst n : Entry AccountId Hash).Spares x :=
  ⟨fun _ => le_rfl, move_nonneg_of_ne n hx.symm⟩

theorem spares_issue : (Entry.issue a dst n).Spares x :=
  ⟨fun b => single_nonneg (a, dst) n (b, x), le_rfl⟩

theorem spares_retire (hx : src ≠ x) : (Entry.retire a src n).Spares x := by
  refine ⟨fun b => ?_, le_rfl⟩
  change 0 ≤ -(Pi.single (a, src) (n : ℤ) : Hash × AccountId → ℤ) (b, x)
  rw [Pi.single_eq_of_ne fun hc => hx (Prod.mk.inj hc).2.symm, neg_zero]

theorem spares_loss (hx : src ≠ x) : (Entry.loss src n : Entry AccountId Hash).Spares x := by
  refine ⟨fun _ => le_rfl, ?_⟩
  change 0 ≤ -(Pi.single src (n : ℤ) : AccountId → ℤ) x
  rw [Pi.single_eq_of_ne hx.symm, neg_zero]

/-- A trade takes from its seller and its buyer only. -/
theorem spares_trade (order : Order AccountId Hash) (hmaker : order.maker ≠ x) (htaker : src ≠ x) :
    (order.offer.trade src n).Spares x := by
  unfold Offer.trade
  cases order.offer.side with
  | sell =>
    exact ⟨fun _ => move_nonneg_of_ne _ fun hc => hmaker (Prod.mk.inj hc).2.symm,
      move_nonneg_of_ne _ htaker.symm⟩
  | buy =>
    exact ⟨fun _ => move_nonneg_of_ne _ fun hc => htaker (Prod.mk.inj hc).2.symm,
      move_nonneg_of_ne _ hmaker.symm⟩

end Others

/-- A call of the carbon pallet takes from nobody but its signer. -/
theorem CarbonAssets.Step.spares {origin : Origin AccountId} {now : Moment}
    {s s' : CarbonAssets.Storage AccountId Hash} {call : CarbonAssets.Call AccountId Hash}
    {events : List (CarbonAssets.Event AccountId Hash)} {ops : List (Op AccountId Hash)}
    (h : CarbonAssets.Step T origin now s call s' events ops) {x : AccountId}
    (hx : origin ≠ .signed x) {e : Entry AccountId Hash} (he : e ∈ call.entries s origin) :
    e.Spares x := by
  cases h with
  | submit_project => cases he
  | approve_project => cases he
  | submit_asset => cases he
  | submit_issue => cases he
  | approve_burn => cases he
  | approve_asset asset_id asset project horigin hasset hstatus hproject =>
    simp only [Call.entries, Storage.issued, hasset, hproject, List.mem_singleton] at he
    exact he ▸ spares_issue
  | approve_issue issue_id issue_info asset project horigin hissue hstatus hasset hproject =>
    simp only [Call.entries, Storage.issued, hissue, hasset, hproject, List.mem_singleton] at he
    exact he ▸ spares_issue
  | submit_burn sender asset_id amount additional asset project burn_id horigin =>
    subst horigin
    obtain rfl := List.mem_singleton.mp he
    exact spares_retire (Origin.signer_ne rfl hx)
  | transfer sender asset_id to_ amount horigin =>
    subst horigin
    obtain rfl := List.mem_singleton.mp he
    exact spares_gift (Origin.signer_ne rfl hx)
  | neutralize sender asset_id amount additional horigin =>
    subst horigin
    obtain rfl := List.mem_singleton.mp he
    exact spares_retire (Origin.signer_ne rfl hx)

/-- The call of another takes nothing from an account but for a trade of its order. -/
theorem Outcome.spares {t : Applied AccountId Hash} (h : Outcome T t) {x : AccountId}
    (hx : t.input.origin ≠ .signed x) {e : Entry AccountId Hash} (he : e ∈ t.entries T) :
    e.Spares x ∨ TradesFor t x e := by
  cases h with
  | refused => cases he
  | standardAssets => cases he
  | carbonAssets w origin now call s' events ops hstep =>
    exact .inl (hstep.spares hx he)
  | half_take w origin now call w' e' ops hhalf =>
    cases hhalf with
    | take_bid taker order_id amount order horigin =>
      obtain rfl := List.mem_singleton.mp he
      exact .inl (spares_gift (Origin.signer_ne horigin hx))
  | balances_transfer w src now dest value native hnative =>
    have hsrc : src ≠ x := Origin.signer_ne rfl hx
    rcases List.mem_cons.mp he with rfl | he
    · exact .inl (spares_payment hsrc)
    · obtain rfl := List.mem_singleton.mp he
      exact .inl (spares_loss hsrc)
  | carbonExchange w origin now call w' events ops hstep =>
    cases hstep with
    | make_ask maker asset_id money_id price amount salt order_id horigin =>
      subst horigin
      cases he
    | make_bid maker asset_id money_id price amount salt order_id native horigin =>
      subst horigin
      obtain rfl := List.mem_singleton.mp he
      exact .inl (spares_loss (Origin.signer_ne rfl hx))
    | take_ask taker order_id amount order native horigin horder hleft hdirection =>
      subst horigin
      have htaker : taker ≠ x := Origin.signer_ne rfl hx
      change e ∈ (Call.take_order order_id amount).entries T w (.signed taker) at he
      rw [entries_take_ask horder hdirection] at he
      rcases List.mem_cons.mp he with rfl | he
      · by_cases hmaker : order.maker = x
        · exact .inr (.take order_id order taker amount horder hmaker rfl rfl hleft)
        · exact .inl (spares_trade order hmaker htaker)
      · obtain rfl := List.mem_singleton.mp he
        exact .inl (spares_loss htaker)
    | take_bid taker order_id amount order native horigin horder hleft hdirection =>
      subst horigin
      have htaker : taker ≠ x := Origin.signer_ne rfl hx
      change e ∈ (Call.take_order order_id amount).entries T w (.signed taker) at he
      rw [entries_take_bid horder hdirection] at he
      obtain rfl := List.mem_singleton.mp he
      by_cases hmaker : order.maker = x
      · exact .inr (.take order_id order taker amount horder hmaker rfl rfl hleft)
      · exact .inl (spares_trade order hmaker htaker)
    | cancel_ask => cases he
    | cancel_bid => cases he

/-! ## Whole runs -/

/-- What the entries post to an account, added up. -/
theorem sum_posted {K : Type} (f : Entry AccountId Hash → K → ℤ) (es : List (Entry AccountId Hash))
    (k : K) : (es.map f).sum k = (es.map fun e => f e k).sum := by
  have hsum := map_list_sum (Pi.evalAddMonoidHom (fun _ : K => ℤ) k) (es.map f)
  rwa [List.map_map] at hsum

section Run

variable {native : AccountId → ℕ} {w : World AccountId Hash} {tr : List (Applied AccountId Hash)}

/-- **Statements of account.** In every run in which the exchange is a market, and for every
account but the pot: the units and the money that it owns, in its own hands and in its
orders, are what the entries of the run have posted to it; and every entry posted by the
call of another either takes nothing from it or trades one of its live orders at its price. -/
theorem account_statement (hT : TransferDocumented T.transfer)
    (hpot : ExistentialDeposit ≤ native T.pot_account_id)
    (hrun : (runtime T).Run (Orderly T) (genesis native) tr w) {x : AccountId}
    (hx : x ≠ T.pot_account_id) :
    (∀ a, (owned w a x : ℤ)
      = ((tr.flatMap (Applied.entries T)).map fun e => e.units (a, x)).sum)
    ∧ (owned_money w x : ℤ)
      = native x + ((tr.flatMap (Applied.entries T)).map fun e => e.money x).sum
    ∧ ∀ t ∈ tr, t.input.origin ≠ .signed x → ∀ e ∈ t.entries T, e.Spares x ∨ TradesFor t x e := by
  have hin := InOrder.run hT hpot hrun
  have hlocks (id : Hash) (order : Order AccountId Hash) (horder : w.Orders.get id = some order)
      (hbid : order.IsBid) : order.ExactLock :=
    hin.book.locks id order horder hbid (hin.book.fits id order horder)
  have hsteps := market_run hT hpot hrun
  refine ⟨fun a => ?_, ?_, fun t ht hother e he => (outcome_of_mem hrun ht).spares hother he⟩
  · have hstart : (market T (genesis native)).units (a, x) = 0 := market_units hx a
    have hunits := congrFun hsteps.units (a, x)
    rw [Pi.add_apply, hstart, zero_add, sum_posted, market_units hx] at hunits
    exact hunits
  · have hstart : (market T (genesis native)).money x = native x :=
      market_money hx (forall_orders_of_empty rfl)
    have hmoney := congrFun hsteps.money x
    rw [Pi.add_apply, hstart, sum_posted, market_money hx hlocks] at hmoney
    exact hmoney

end Run

/-- Account 2 has paid 200 for the unit it holds, and has 400 locked for two more. -/
theorem account_statement_bid_taken :
    owned ((runtime devnet).final (genesis fun _ => 2000) devnet_bid_taken) devnet_asset 2 = 1
    ∧ owned_money ((runtime devnet).final (genesis fun _ => 2000) devnet_bid_taken) 2 = 1800 := by
  obtain ⟨hunits, hmoney, -⟩ := account_statement transferDocumented_documented_transfer
    (by decide) orderly_devnet_bid_taken (show 2 ≠ devnet.pot_account_id by decide)
  have hentries : ((runtime devnet).trace (genesis fun _ => 2000) devnet_bid_taken).flatMap
      (Applied.entries devnet)
      = [.issue devnet_asset 1 5, .loss 2 0, .trade devnet_asset 1 2 1 200] := by decide
  have hunits' := hunits devnet_asset
  rw [hentries] at hunits' hmoney
  constructor
  · exact Int.ofNat_inj.mp (hunits'.trans (by decide))
  · exact Int.ofNat_inj.mp (hmoney.trans (by decide))

end Eco2
