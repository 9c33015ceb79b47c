/-
The carbon units in the pot.

One balance for each asset backs the ask orders of all makers. `make_transfer`
subtracts from it without a check, so that what is taken out of it is covered is
not something the calls see to, it is an invariant of the whole chain: the pot's
balance is what the live ask orders have left, and what people have sent it for
nothing. `potted` says so, and the checks and transfers of the exchange follow.
-/
import Eco2.Conservation

set_option autoImplicit false
set_option linter.unusedSectionVars false

namespace Eco2

open CarbonExchange

variable {AccountId Hash : Type} [DecidableEq AccountId] [DecidableEq Hash]
variable {T : Trait AccountId Hash}

/-! ## What the pot holds, and for whom -/

/-- The units of the asset that a live order offers. -/
def CarbonExchange.Order.offered (a : Hash) (order : Order AccountId Hash) : ℕ :=
  if order.direction = 0 ∧ order.asset_id = a then order.left_amount.toNat else 0

/-- The sum of `left_amount` over the live ask orders of the asset. -/
def offered (w : World AccountId Hash) (a : Hash) : ℕ := w.Orders.sum fun _ order => order.offered a

/-- The amount of `a` that a transfer of the carbon pallet sends to `x`. -/
def sent_to (x : AccountId) (a : Hash) (_s : CarbonAssets.Storage AccountId Hash) :
    CarbonAssets.Call AccountId Hash → ℕ
  | .transfer asset_id to_ amount => if asset_id = a ∧ to_ = x then amount.toNat else 0
  | _ => 0

/-- The pot does not sign, and no asset has more units than a `u64` can count. -/
structure Potted (T : Trait AccountId Hash) (t : Applied AccountId Hash) : Prop where
  outside : t.input.origin ≠ .signed T.pot_account_id
  bounded : ∀ a, t.post.carbon.held a < 2 ^ 64

/-- The pot made no order and owns no project. -/
structure PotOutside (T : Trait AccountId Hash) (w : World AccountId Hash) : Prop where
  maker : ∀ id order, w.Orders.get id = some order → order.maker ≠ T.pot_account_id
  owner : ∀ p project, w.carbon.Projects.get p = some project → project.owner ≠ T.pot_account_id

/-! ## One transition -/

namespace CarbonAssets

variable {origin : Origin AccountId} {now : Moment} {s s' : Storage AccountId Hash}
  {call : Call AccountId Hash} {events : List (Event AccountId Hash)}
  {ops : List (Op AccountId Hash)} {x : AccountId}

/-- Who does not sign does not come to own a project. -/
theorem Step.owner_ne (h : Step T origin now s call s' events ops) (hx : origin ≠ .signed x)
    (howner : ∀ p project, s.Projects.get p = some project → project.owner ≠ x) :
    ∀ p project, s'.Projects.get p = some project → project.owner ≠ x := by
  have hinsert (id : Hash) (project : CarbonProject AccountId) (hid : project.owner ≠ x) :
      ∀ p other, (s.Projects.insert id project).get p = some other → other.owner ≠ x := by
    intro p other hother
    by_cases hp : p = id
    · subst hp
      cases (StorageMap.get_insert_self _ _ _).symm.trans hother
      exact hid
    · exact howner p other ((StorageMap.get_insert_of_ne _ _ hp).symm.trans hother)
  cases h with
  | submit_project sender symbol max_supply additional project_id horigin =>
    exact hinsert _ _ (Origin.signer_ne horigin hx)
  | approve_project project_id project horigin hproject =>
    exact hinsert _ _ (howner _ project hproject)
  | approve_issue issue_id issue_info asset project horigin hissue hstatus hasset hproject =>
    exact hinsert _ _ (howner _ project hproject)
  | approve_burn burn_id burn_info asset project horigin hburn hstatus hasset hproject =>
    exact hinsert _ _ (howner _ project hproject)
  | transfer sender asset_id to_ amount =>
    rw [move_Projects]
    exact howner
  | _ => exact howner

/-- What a sender has, a receiver can be sent, while all units are within a `u64`. -/
theorem add_lt_of_le_balance {a : Hash} {y : AccountId} {amount : UInt64} (hne : y ≠ x)
    (hle : amount ≤ s.balance a y) (hheld : s.held a < 2 ^ 64) :
    (s.balance a x).toNat + amount.toNat < 2 ^ 64 := by
  have hboth : (s.balance a y).toNat + (s.balance a x).toNat ≤ s.held a :=
    Ledger.balance_add_balance_le_held s.Balances a hne
  rw [UInt64.le_iff_toNat_le] at hle
  omega

/-- All that a call of the pallet does to the balances of somebody who neither signs
nor owns a project is to send him units. -/
theorem Step.balance_outside (h : Step T origin now s call s' events ops)
    (hx : origin ≠ .signed x)
    (howner : ∀ p project, s.Projects.get p = some project → project.owner ≠ x)
    (hheld : ∀ a, s.held a < 2 ^ 64) (a : Hash) :
    (s'.balance a x).toNat = (s.balance a x).toNat + sent_to x a s call := by
  cases h with
  -- the calls that write balances write the signer's or a project owner's
  | approve_asset asset_id asset project horigin hasset hstatus hproject =>
    have hne := howner _ _ hproject
    rw [balance_set_balance_of_ne _ _ _ _ fun hc => hne hc.2.symm]
    rfl
  | approve_issue issue_id issue_info asset project horigin hissue hstatus hasset hproject =>
    have hne := howner _ _ hproject
    rw [Storage.credit, balance_set_balance_of_ne _ _ _ _ fun hc => hne hc.2.symm]
    rfl
  | submit_burn sender asset_id amount additional asset project burn_id horigin =>
    have hne := Origin.signer_ne horigin hx
    rw [Storage.debit, balance_set_balance_of_ne _ _ _ _ fun hc => hne hc.2.symm]
    rfl
  | neutralize sender asset_id amount additional horigin =>
    have hne := Origin.signer_ne horigin hx
    rw [Storage.debit, balance_set_balance_of_ne _ _ _ _ fun hc => hne hc.2.symm]
    rfl
  | transfer sender asset_id to_ amount horigin hamount hbalance =>
    have hne := Origin.signer_ne horigin hx
    -- only here can `x` be at the receiving end
    by_cases hto : to_ = x
    · subst hto
      rw [balance_move_to s asset_id a hne (add_lt_of_le_balance hne hbalance (hheld asset_id))]
      simp [sent_to]
    · rw [balance_move_of_ne _ _ _ _ _ (Ne.symm hne) (Ne.symm hto)]
      simp [sent_to, hto]
  | _ => rfl

end CarbonAssets

/-- Who does not sign does not come to have made an order or to own a project. -/
theorem PotOutside.outcome {t : Applied AccountId Hash} (hout : PotOutside T t.pre)
    (h : Outcome T t) (hok : Potted T t) : PotOutside T t.post where
  maker _ _ horder := maker_ne_outcome hout.maker h hok.outside horder
  owner := by
    cases h.carbon with
    | call origin now call events hinput hflow hstep =>
      have houtside := hok.outside
      rw [hinput] at houtside
      exact hstep.owner_ne houtside hout.owner
    | moved asset_id from_ to_ amount hflow hmove =>
      rw [hmove, CarbonAssets.move_Projects]
      exact hout.owner
    | idle hflow hsame =>
      rw [hsame]
      exact hout.owner

section Offers

variable {orders : StorageMap Hash (Order AccountId Hash)} {order : Order AccountId Hash}

/-- A bid order offers nothing. -/
theorem offered_of_bid (hbid : order.direction ≠ 0) (a : Hash) : order.offered a = 0 :=
  if_neg fun hc => hbid hc.1

/-- An ask order offers what is left of it. -/
theorem offered_of_ask (hask : order.direction = 0) (a : Hash) :
    order.offered a = if order.asset_id = a then order.left_amount.toNat else 0 := by
  by_cases ha : order.asset_id = a
  · rw [if_pos ha]
    exact if_pos ⟨hask, ha⟩
  · rw [if_neg ha]
    exact if_neg fun hc => ha hc.2

/-- What a live ask order has left is part of what is offered. -/
theorem left_le_offered {w : World AccountId Hash} {id : Hash}
    (horder : w.Orders.get id = some order) (hask : order.direction = 0) :
    order.left_amount.toNat ≤ offered w order.asset_id := by
  have hle : order.offered order.asset_id ≤ offered w order.asset_id :=
    StorageMap.le_sum (fun _ other => other.offered order.asset_id) horder
  rwa [offered_of_ask hask, if_pos rfl] at hle

/-- Taking part of an ask order takes it off the offer. -/
theorem offered_settle_ask {id : Hash} {amount : UInt64} (horder : orders.get id = some order)
    (hask : order.direction = 0) (hleft : amount ≤ order.left_amount) (a : Hash) :
    ((settle orders id (order.taken amount 0)).sum fun _ other => other.offered a)
        + (if order.asset_id = a then amount.toNat else 0)
      = orders.sum fun _ other => other.offered a := by
  have hsum := sum_settle (fun _ other => other.offered a) horder (order.taken amount 0)
  have hsub := U64.toNat_sub_add_of_le hleft
  have htaken : (if 0 < (order.taken amount 0).left_amount then (order.taken amount 0).offered a
      else 0) = if order.asset_id = a then (order.left_amount - amount).toNat else 0 := by
    have hask' : (order.taken amount 0).direction = 0 := hask
    by_cases hmore : 0 < order.left_amount - amount
    · rw [if_pos (show 0 < (order.taken amount 0).left_amount from hmore)]
      exact offered_of_ask hask' a
    · rw [if_neg (show ¬0 < (order.taken amount 0).left_amount from hmore),
        eq_left_of_not_pos hleft hmore, UInt64.sub_self, UInt64.toNat_zero, ite_self]
  rw [htaken, offered_of_ask hask] at hsum
  split at hsum
  · rw [if_pos ‹_›]
    omega
  · rw [if_neg ‹_›]
    omega

/-- Taking a bid order leaves the offer alone. -/
theorem offered_settle_bid {id : Hash} (amount money : UInt64)
    (horder : orders.get id = some order) (hbid : order.direction ≠ 0) (a : Hash) :
    ((settle orders id (order.taken amount money)).sum fun _ other => other.offered a)
      = orders.sum fun _ other => other.offered a := by
  have hsum := sum_settle (fun _ other => other.offered a) horder (order.taken amount money)
  have hbid' : (order.taken amount money).direction ≠ 0 := hbid
  rwa [offered_of_bid hbid, offered_of_bid hbid', ite_self, Nat.add_zero, Nat.add_zero] at hsum

end Offers

/-- The pot answers every call of the exchange with what it does to the offers. -/
theorem CarbonExchange.Step.pot {origin : Origin AccountId} {now : Moment}
    {w w' : World AccountId Hash} {call : CarbonExchange.Call Hash}
    {events : List (CarbonExchange.Event AccountId Hash)} {ops : List (Op AccountId Hash)}
    (h : Step T origin now w call w' events ops) (houtside : origin ≠ .signed T.pot_account_id)
    (hout : PotOutside T w) (hheld : ∀ a, w.carbon.held a < 2 ^ 64)
    (hcover : ∀ a, offered w a ≤ (w.carbon.balance a T.pot_account_id).toNat) (a : Hash) :
    (w'.carbon.balance a T.pot_account_id).toNat + offered w a
      = (w.carbon.balance a T.pot_account_id).toNat + offered w' a := by
  unfold offered at hcover ⊢
  cases h with
  -- a new ask order puts into the pot what it offers
  | make_ask maker asset_id money_id price amount salt order_id horigin hmoney hprice hamount
      hasset hid hfresh hbalance =>
    have hmaker := Origin.signer_ne horigin houtside
    have hlt := CarbonAssets.add_lt_of_le_balance hmaker hbalance (hheld asset_id)
    have hpot := CarbonAssets.balance_move_to w.carbon asset_id a hmaker hlt
    have hsum := StorageMap.sum_insert_of_none (fun _ other => Order.offered a other)
      { asset_id, money_id, maker, amount, price, left_amount := amount, direction := 0,
        locked_balance := 0, salt } hfresh
    rw [offered_of_ask rfl] at hsum
    dsimp only at hpot hsum ⊢
    omega
  | make_bid maker asset_id money_id price amount salt order_id native horigin hmoney hprice
      hamount hasset hid hfresh hnative =>
    have hsum := StorageMap.sum_insert_of_none (fun _ other => Order.offered a other)
      { asset_id, money_id, maker, amount, price, left_amount := amount, direction := 1,
        locked_balance := U64.saturating_mul amount price, salt } hfresh
    rw [offered_of_bid (show (1 : UInt8) ≠ 0 by decide)] at hsum
    dsimp only at hsum ⊢
    omega
  -- a take takes out of the pot what it takes off the offer
  | take_ask taker order_id amount order native horigin horder hleft hdirection hpot hnative =>
    have htaker := Origin.signer_ne horigin houtside
    have hfrom := CarbonAssets.balance_move_from w.carbon order.asset_id a htaker.symm hpot
    have hsum := offered_settle_ask horder hdirection hleft a
    dsimp only at hfrom hsum ⊢
    omega
  -- units of a bid go from the taker to the maker, past the pot
  | take_bid taker order_id amount order native horigin horder hleft hdirection hbalance hnative =>
    have htaker := Origin.signer_ne horigin houtside
    have hmaker := hout.maker order_id order horder
    have hsame := CarbonAssets.balance_move_of_ne w.carbon order.asset_id a T.pot_account_id
      amount htaker.symm hmaker.symm
    have hsum := offered_settle_bid amount (U64.saturating_mul amount order.price) horder
      hdirection a
    dsimp only at hsame hsum ⊢
    rw [hsame, hsum]
  | cancel_ask order_id order horigin horder hdirection =>
    have hmaker := hout.maker order_id order horder
    -- nothing checks this subtraction: it is covered because the offer is
    have hleft : order.left_amount ≤ w.carbon.balance order.asset_id T.pot_account_id :=
      UInt64.le_iff_toNat_le.mpr ((left_le_offered horder hdirection).trans (hcover _))
    have hfrom := CarbonAssets.balance_move_from w.carbon order.asset_id a hmaker.symm hleft
    have hsum := StorageMap.sum_remove w.Orders (fun _ other => Order.offered a other) order_id
    rw [horder, StorageMap.weight_some, offered_of_ask hdirection] at hsum
    dsimp only at hfrom hsum ⊢
    omega
  | cancel_bid order_id order native horigin horder hdirection hnative =>
    have hsum := StorageMap.sum_remove w.Orders (fun _ other => Order.offered a other) order_id
    rw [horder, StorageMap.weight_some, offered_of_bid hdirection] at hsum
    dsimp only at hsum ⊢
    omega

/-- The pot answers every transition with what it does to the offers, and keeps what
it is sent. -/
theorem Outcome.pot {t : Applied AccountId Hash} (h : Outcome T t) (hout : PotOutside T t.pre)
    (hok : Potted T t) (hheld : ∀ a, t.pre.carbon.held a < 2 ^ 64)
    (hcover : ∀ a, offered t.pre a ≤ (t.pre.carbon.balance a T.pot_account_id).toNat) (a : Hash) :
    (t.post.carbon.balance a T.pot_account_id).toNat + offered t.pre a
      = (t.pre.carbon.balance a T.pot_account_id).toNat + offered t.post a
        + t.flow (sent_to T.pot_account_id a) := by
  have houtside := hok.outside
  cases h with
  | refused => rfl
  | standardAssets => rfl
  | balances_transfer => rfl
  | carbonAssets w origin now call s' events ops hstep =>
    have hbalance := hstep.balance_outside houtside hout.owner hheld a
    exact (congrArg (· + offered w a) hbalance).trans (Nat.add_right_comm _ _ _)
  | half_take w origin now call w' e ops hhalf =>
    cases hhalf with
    | take_bid taker order_id amount order horigin horder =>
      have htaker := Origin.signer_ne horigin houtside
      have hmaker := hout.maker order_id order horder
      have hsame := CarbonAssets.balance_move_of_ne w.carbon order.asset_id a T.pot_account_id
        amount htaker.symm hmaker.symm
      exact congrArg (fun v => UInt64.toNat v + offered w a) hsame
  | carbonExchange w origin now call w' events ops hstep =>
    exact hstep.pot houtside hout hheld hcover a

/-! ## The checks and the transfers of the exchange -/

/-- Every transfer of the carbon pallet moves what there is. -/
theorem Outcome.make_transfer_le {t : Applied AccountId Hash} (h : Outcome T t)
    (hcover : ∀ a, offered t.pre a ≤ (t.pre.carbon.balance a T.pot_account_id).toNat)
    {a : Hash} {from_ to_ : AccountId} {from_balance amount : UInt64}
    (hop : Op.make_transfer a from_ to_ from_balance amount ∈ t.output.ops) :
    amount ≤ from_balance := by
  -- a transfer records one `make_transfer`; the rest of its record are cell updates
  have hmove {s : CarbonAssets.Storage AccountId Hash} {asset_id : Hash} {src dst : AccountId}
      {n : UInt64} (hle : n ≤ s.balance asset_id src)
      (hop : Op.make_transfer a from_ to_ from_balance amount ∈ s.move_ops asset_id src dst n) :
      amount ≤ from_balance := by
    unfold CarbonAssets.Storage.move_ops at hop
    rcases List.mem_cons.mp hop with heq | hop
    · cases heq
      exact hle
    · split at hop <;> simp at hop
  cases h with
  | refused => cases hop
  | standardAssets => simp at hop
  | balances_transfer => simp at hop
  | carbonAssets w origin now call s' events ops hstep =>
    cases hstep with
    | transfer sender asset_id to_ amount' horigin hamount hbalance => exact hmove hbalance hop
    | _ => simp at hop
  | half_take w origin now call w' e ops hhalf =>
    cases hhalf with
    | take_bid taker order_id amount' order horigin horder hleft hdirection hbalance =>
      exact hmove hbalance hop
  | carbonExchange w origin now call w' events ops hstep =>
    cases hstep with
    | make_ask maker asset_id money_id price amount' salt order_id horigin hmoney hprice hamount
        hasset hid hfresh hbalance => exact hmove hbalance hop
    | make_bid => simp at hop
    | take_ask taker order_id amount' order native horigin horder hleft hdirection hpot =>
      rcases List.mem_cons.mp hop with heq | hop
      · cases heq
      · exact hmove hpot hop
    | take_bid taker order_id amount' order native horigin horder hleft hdirection hbalance =>
      rcases List.mem_append.mp hop with hop | hop
      · exact hmove hbalance hop
      · simp at hop
    | cancel_ask order_id order horigin horder hdirection =>
      have hleft : order.left_amount ≤ w.carbon.balance order.asset_id T.pot_account_id :=
        UInt64.le_iff_toNat_le.mpr ((left_le_offered horder hdirection).trans (hcover _))
      exact hmove hleft hop
    | cancel_bid => simp at hop

/-! ## A whole run -/

variable {native : AccountId → ℕ} {w : World AccountId Hash} {tr : List (Applied AccountId Hash)}

/-- The units of an asset stay within a `u64`. -/
theorem bounded_run (hrun : (runtime T).Run (Potted T) (genesis native) tr w) :
    ∀ a, w.carbon.held a < 2 ^ 64 :=
  hrun.state_invariant (I := fun w => ∀ a, w.carbon.held a < 2 ^ 64)
    (fun _ => Nat.two_pow_pos 64) fun _ _ _ hok => hok.bounded

/-- The pot makes no order and owns no project. -/
theorem PotOutside.run (hrun : (runtime T).Run (Potted T) (genesis native) tr w) :
    PotOutside T w :=
  hrun.state_invariant ⟨(fun _ _ h => nomatch h), fun _ _ h => nomatch h⟩ fun w x hout hok =>
    PotOutside.outcome (t := (runtime T).fire w x) hout (outcome_of_fire T w x) hok

/-- The pot holds what is offered and what it was sent. -/
theorem potted (hrun : (runtime T).Run (Potted T) (genesis native) tr w) :
    ∀ a, (w.carbon.balance a T.pot_account_id).toNat
      = offered w a + total_flow (sent_to T.pot_account_id a) tr := by
  apply hrun.invariant (I := fun tr w => ∀ a, (w.carbon.balance a T.pot_account_id).toNat
    = offered w a + total_flow (sent_to T.pot_account_id a) tr)
  · intro a
    rfl
  intro tr w x hrun ih hok a
  have hcover : ∀ a, offered w a ≤ (w.carbon.balance a T.pot_account_id).toNat := by
    intro a
    rw [ih a]
    exact Nat.le_add_right _ _
  have hpot := (outcome_of_fire T w x).pot (.run hrun) hok (bounded_run hrun) hcover a
  have ha := ih a
  rw [total_flow_snoc]
  rw [Machine.fire_pre] at hpot
  omega

/-- What is offered is covered by the pot. -/
theorem offered_le (hrun : (runtime T).Run (Potted T) (genesis native) tr w) (a : Hash) :
    offered w a ≤ (w.carbon.balance a T.pot_account_id).toNat := by
  rw [potted hrun a]
  exact Nat.le_add_right _ _

/-- What is left of a live ask order is in the pot. -/
theorem left_le_pot (hrun : (runtime T).Run (Potted T) (genesis native) tr w) {id : Hash}
    {order : Order AccountId Hash} (horder : w.Orders.get id = some order)
    (hask : order.direction = 0) :
    order.left_amount ≤ w.carbon.balance order.asset_id T.pot_account_id :=
  UInt64.le_iff_toNat_le.mpr ((left_le_offered horder hask).trans (offered_le hrun _))

/-- What the maker's cancellation of an ask order does. -/
structure AskReturned (T : Trait AccountId Hash) (t : Applied AccountId Hash) (id : Hash)
    (order : Order AccountId Hash) : Prop where
  succeeded : t.Succeeded
  removed : t.post.Orders = t.pre.Orders.remove id
  maker : (t.post.carbon.balance order.asset_id order.maker).toNat
    = (t.pre.carbon.balance order.asset_id order.maker).toNat + order.left_amount.toNat
  pot : (t.post.carbon.balance order.asset_id T.pot_account_id).toNat + order.left_amount.toNat
    = (t.pre.carbon.balance order.asset_id T.pot_account_id).toNat

/-- **Carbon escrow.** In a run from genesis in which the pot does not sign and no
asset has more units than a `u64` can count, in every state reached: the pot holds
what live ask orders have left and what it was sent; no take of what is left of a
live order fails for want of units in the pot; every transfer made moved what there
was; and the maker of a live ask order can cancel it and gets back what is left. -/
theorem pot_escrow (hrun : (runtime T).Run (Potted T) (genesis native) tr w) :
    (∀ a, (w.carbon.balance a T.pot_account_id).toNat
      = offered w a + total_flow (sent_to T.pot_account_id a) tr)
    ∧ (∀ id order amount x, w.Orders.get id = some order → amount ≤ order.left_amount →
      x.call = .carbonExchange (.take_order id amount) →
      ((runtime T).fire w x).output.result ≠ .error (.carbonExchange .InsuffientPotAsset))
    ∧ (∀ t ∈ tr, ∀ a from_ to_ from_balance amount,
      Op.make_transfer a from_ to_ from_balance amount ∈ t.output.ops → amount ≤ from_balance)
    ∧ ∀ id order x, w.Orders.get id = some order → order.direction = 0 →
      x.origin = .signed order.maker → x.call = .carbonExchange (.cancel_order id) →
      AskReturned T ((runtime T).fire w x) id order := by
  refine ⟨potted hrun, ?_, fun t ht a from_ to_ from_balance amount hop => ?_, ?_⟩
  · -- if the check failed, the pot would hold less than the order has left
    intro id order amount x horder hleft hcall hresult
    obtain ⟨origin, now, call⟩ := x
    obtain rfl : call = _ := hcall
    simp only [Machine.fire, runtime, apply_extrinsic, Call.dispatch,
      CarbonExchange.Call.dispatch] at hresult
    cases hdispatch : take_order T origin id amount ⟨w, now, [], []⟩ with
    | ok u c =>
      rw [hdispatch] at hresult
      cases hresult
    | error e c =>
      rw [hdispatch] at hresult
      cases hresult
      obtain ⟨order', horder', hask, hwanting⟩ := insuffientPotAsset_of_dispatch hdispatch
      cases horder.symm.trans horder'
      exact hwanting (UInt64.le_trans hleft (left_le_pot hrun horder hask))
  · obtain ⟨tr₁, hbefore, -, -⟩ := hrun.of_mem ht
    exact (outcome_of_mem hrun ht).make_transfer_le (offered_le hbefore) hop
  · intro id order x horder hask horigin hcall
    obtain ⟨origin, now, call⟩ := x
    obtain rfl : origin = _ := horigin
    obtain rfl : call = _ := hcall
    have hmaker := (PotOutside.run hrun).maker id order horder
    have hleft := left_le_pot hrun horder hask
    have hlt := CarbonAssets.add_lt_of_le_balance hmaker.symm hleft (bounded_run hrun _)
    have hdispatch := dispatch_of_cancel_ask (T := T) (c := ⟨w, now, [], []⟩) horder hask
    have hto := CarbonAssets.balance_move_to w.carbon order.asset_id order.asset_id hmaker.symm hlt
    have hfrom := CarbonAssets.balance_move_from w.carbon order.asset_id order.asset_id
      hmaker.symm hleft
    rw [if_pos rfl] at hto hfrom
    constructor <;>
      simp only [Applied.Succeeded, Machine.fire, runtime, apply_extrinsic, Call.dispatch,
        CarbonExchange.Call.dispatch, hdispatch]
    · exact hto
    · exact hfrom

/-! ## On the executable chain -/

/-- What is held of one asset is part of all balances. -/
theorem held_le_total (s : CarbonAssets.Storage AccountId Hash) (a : Hash) :
    s.held a ≤ s.Balances.sum fun _ v => v.toNat := by
  refine StorageMap.sum_le_sum fun key v _ => ?_
  split
  · exact le_rfl
  · exact Nat.zero_le _

/-- An ask order of three units, one of them taken, and one unit sent to the pot. -/
def devnet_pot : List (Extrinsic ℕ (List ℕ)) :=
  devnet_partial_fill ++ [⟨.signed 1, 0, .carbonAssets (.transfer devnet_asset 0 1)⟩]

/-- The pot does not sign any of it. -/
theorem potted_devnet_pot :
    (runtime devnet).Run (Potted devnet) (genesis fun _ => 1000)
      ((runtime devnet).trace (genesis fun _ => 1000) devnet_pot)
      ((runtime devnet).final (genesis fun _ => 1000) devnet_pot) := by
  have houtside : ∀ t ∈ (runtime devnet).trace (genesis fun _ => 1000) devnet_pot,
      t.input.origin ≠ .signed 0 := by decide
  have htotal : ∀ t ∈ (runtime devnet).trace (genesis fun _ => 1000) devnet_pot,
      (t.post.carbon.Balances.sum fun _ v => v.toNat) < 2 ^ 64 := by decide
  exact (devnet_run _ _).restrict fun t ht =>
    ⟨houtside t ht, fun a => (held_le_total t.post.carbon a).trans_lt (htotal t ht)⟩

/-- Two units left of the order, and one sent. -/
theorem pot_escrow_partial_fill :
    (((runtime devnet).final (genesis fun _ => 1000) devnet_pot).carbon.balance
      devnet_asset 0).toNat = 2 + 1 := by
  have hpot := (pot_escrow potted_devnet_pot).1 devnet_asset
  have hoffered : offered ((runtime devnet).final (genesis fun _ => 1000) devnet_pot) devnet_asset
      = 2 := by decide
  have hsent : total_flow (sent_to 0 devnet_asset)
      ((runtime devnet).trace (genesis fun _ => 1000) devnet_pot) = 1 := by decide
  exact hpot.trans (congrArg₂ (· + ·) hoffered hsent)

end Eco2
