/-
Delivery against payment.

A take moves units one way and money the other, and the two branches of
`take_order` are the same movement with the roles exchanged: `Delivers` names the
four roles and says it once. The integers are exact under two conditions only. The
product of amount and price is a `u64`, for `saturating_mul` cuts it off there; and
the units fit into the buyer's balance, for `balance_add` wraps. So the price of a
fill does not depend on how it is split as long as the whole of it fits, and does
where it does not.
-/
import Eco2.NativeEscrow

set_option autoImplicit false
set_option linter.unusedSectionVars false

namespace Eco2

open CarbonExchange

variable {AccountId Hash : Type} [DecidableEq AccountId] [DecidableEq Hash]
variable {T : Trait AccountId Hash}

/-! ## The parties to a take -/

/-- Who is paid by a take. -/
def CarbonExchange.Order.seller (order : Order AccountId Hash) (taker : AccountId) : AccountId :=
  if order.direction = 0 then order.maker else taker

/-- Who receives the units of a take. -/
def CarbonExchange.Order.buyer (order : Order AccountId Hash) (taker : AccountId) : AccountId :=
  if order.direction = 0 then taker else order.maker

/-- Whose balance pays for a take: a bid order has put its money into the pot. -/
def CarbonExchange.Order.payer (T : Trait AccountId Hash) (order : Order AccountId Hash)
    (taker : AccountId) : AccountId :=
  if order.direction = 0 then taker else T.pot_account_id

/-- Whose balance gives the units of a take: an ask order has put them into the pot. -/
def CarbonExchange.Order.giver (T : Trait AccountId Hash) (order : Order AccountId Hash)
    (taker : AccountId) : AccountId :=
  if order.direction = 0 then T.pot_account_id else taker

section Parties

variable {order : Order AccountId Hash} {taker : AccountId}

theorem payer_ne_seller (hmaker : taker ≠ order.maker) (hpot : taker ≠ T.pot_account_id) :
    order.payer T taker ≠ order.seller taker := by
  unfold Order.payer Order.seller
  split
  · exact hmaker
  · exact hpot.symm

theorem giver_ne_buyer (hmaker : taker ≠ order.maker) (hpot : taker ≠ T.pot_account_id) :
    order.giver T taker ≠ order.buyer taker := by
  unfold Order.giver Order.buyer
  split
  · exact hpot.symm
  · exact hmaker

/-- Nobody but the taker, the maker and the pot is a party to a take. -/
theorem not_party {x : AccountId} (htaker : x ≠ taker) (hmaker : x ≠ order.maker)
    (hpot : x ≠ T.pot_account_id) :
    x ≠ order.seller taker ∧ x ≠ order.buyer taker ∧ x ≠ order.payer T taker
      ∧ x ≠ order.giver T taker := by
  unfold Order.seller Order.buyer Order.payer Order.giver
  split <;> exact ⟨‹_›, ‹_›, ‹_›, ‹_›⟩

end Parties

/-! ## Both branches at once -/

/-- What a successful take does, whichever the direction of its order. -/
structure Delivers (T : Trait AccountId Hash) (t : Applied AccountId Hash) (id : Hash)
    (order : Order AccountId Hash) (taker : AccountId) (amount : UInt64) : Prop where
  payment : T.transfer t.pre.native (order.payer T taker) (order.seller taker)
    (U64.saturating_mul amount order.price).toNat = some t.post.native
  units : t.post.carbon
    = t.pre.carbon.move order.asset_id (order.giver T taker) (order.buyer taker) amount
  enough : amount ≤ t.pre.carbon.balance order.asset_id (order.giver T taker)
  left : amount ≤ order.left_amount
  slot : t.post.Orders.get id
    = if 0 < order.left_amount - amount then some (order.taken amount (order.released amount))
      else none

/-- Every successful take delivers. -/
theorem delivers_of_call {t : Applied AccountId Hash} (h : Outcome T t) {id : Hash}
    {order : Order AccountId Hash} {taker : AccountId} {amount : UInt64}
    (hpre : t.pre.Orders.get id = some order) (horigin : t.input.origin = .signed taker)
    (hcall : t.input.call = .carbonExchange (.take_order id amount)) (hok : t.Succeeded) :
    Delivers T t id order taker amount := by
  obtain ⟨events, hstep⟩ := exchange_step_of_call h hcall hok
  rw [horigin] at hstep
  generalize hpost : t.post = w', t.output.ops = ops at hstep
  cases hstep with
  | take_ask taker' order_id amount order' native hsigned horder hleft hdirection henough hnative =>
    cases hpre.symm.trans horder
    cases hsigned
    constructor
    case payment => rwa [hpost, Order.payer, Order.seller, if_pos hdirection, if_pos hdirection]
    case units => rw [hpost, Order.giver, Order.buyer, if_pos hdirection, if_pos hdirection]
    case enough => rwa [Order.giver, if_pos hdirection]
    case left => exact hleft
    case slot =>
      rw [hpost, Order.released, if_pos hdirection]
      exact (get_settle t.pre.Orders id id _).trans (if_pos rfl)
  | take_bid taker' order_id amount order' native hsigned horder hleft hdirection henough hnative =>
    cases hpre.symm.trans horder
    cases hsigned
    constructor
    case payment => rwa [hpost, Order.payer, Order.seller, if_neg hdirection, if_neg hdirection]
    case units => rw [hpost, Order.giver, Order.buyer, if_neg hdirection, if_neg hdirection]
    case enough => rwa [Order.giver, if_neg hdirection]
    case left => exact hleft
    case slot =>
      rw [hpost, Order.released, if_neg hdirection]
      exact (get_settle t.pre.Orders id id _).trans (if_pos rfl)

/-! ## One take -/

/-- What a payer is left with: paying nothing leaves a balance alone, even a small one. -/
def charged (balance value : ℕ) : ℕ := if value = 0 then balance else reaped (balance - value)

/-- The payer of a payment had the money, and is left with the rest. -/
theorem transfer_sender {transfer : (AccountId → ℕ) → AccountId → AccountId → ℕ →
      Option (AccountId → ℕ)} (hT : TransferDocumented transfer) {b b' : AccountId → ℕ}
    {src dst : AccountId} {value : ℕ} (hne : src ≠ dst)
    (h : transfer b src dst value = some b') :
    value ≤ b src ∧ b' src = charged (b src) value := by
  unfold charged
  by_cases hvalue : value = 0
  · cases (hT.noop b src dst value (.inl hvalue)).symm.trans h
    rw [if_pos hvalue, hvalue]
    exact ⟨Nat.zero_le _, rfl⟩
  · rw [if_neg hvalue]
    exact ⟨hT.funds b src dst value b' hvalue hne h, hT.sender b src dst value b' hvalue hne h⟩

/-- What is left of the order stored under the identifier. -/
def left_of (w : World AccountId Hash) (id : Hash) : ℕ :=
  (w.Orders.get id).elim 0 fun order => order.left_amount.toNat

/-- The take delivers `amount` units against `amount * price` in money, as integers. -/
structure ExactDelivery (T : Trait AccountId Hash) (t : Applied AccountId Hash) (id : Hash)
    (order : Order AccountId Hash) (taker : AccountId) (amount : UInt64) : Prop where
  /-- The seller is paid the exact price, -/
  paid : t.post.native (order.seller taker)
    = t.pre.native (order.seller taker) + amount.toNat * order.price.toNat
  /-- by the payer, who had the money -/
  funded : amount.toNat * order.price.toNat ≤ t.pre.native (order.payer T taker)
  /-- and is left with the rest of it. -/
  charged : t.post.native (order.payer T taker)
    = charged (t.pre.native (order.payer T taker)) (amount.toNat * order.price.toNat)
  /-- The buyer receives the units, and no units of any other asset, -/
  delivered : ∀ a, (t.post.carbon.balance a (order.buyer taker)).toNat
    = (t.pre.carbon.balance a (order.buyer taker)).toNat
      + if order.asset_id = a then amount.toNat else 0
  /-- which the giver loses. -/
  given : ∀ a, (t.post.carbon.balance a (order.giver T taker)).toNat
      + (if order.asset_id = a then amount.toNat else 0)
    = (t.pre.carbon.balance a (order.giver T taker)).toNat
  /-- So much less is left of the order. -/
  left : left_of t.post id + amount.toNat = order.left_amount.toNat
  /-- Nobody else is touched. -/
  others : ∀ x, x ≠ taker → x ≠ order.maker → x ≠ T.pot_account_id →
    (∀ a, t.post.carbon.balance a x = t.pre.carbon.balance a x) ∧ t.post.native x = t.pre.native x

/-- The price is a `u64`, and the buyer has room for the units. -/
def TakeFits (t : Applied AccountId Hash) (order : Order AccountId Hash) (taker : AccountId)
    (amount : UInt64) : Prop :=
  amount.toNat * order.price.toNat < 2 ^ 64
    ∧ (t.pre.carbon.balance order.asset_id (order.buyer taker)).toNat + amount.toNat < 2 ^ 64

section OneTake

variable {t : Applied AccountId Hash} {id : Hash} {order : Order AccountId Hash}
  {taker : AccountId} {amount : UInt64}

/-- What is left after a take, whether the order is written back or removed. -/
theorem Delivers.left_of_eq (h : Delivers T t id order taker amount) :
    left_of t.post id + amount.toNat = order.left_amount.toNat := by
  have hsub := U64.toNat_sub_add_of_le h.left
  unfold left_of
  rw [h.slot]
  by_cases hmore : 0 < order.left_amount - amount
  · rw [if_pos hmore]
    exact hsub
  · rw [if_neg hmore, eq_left_of_not_pos h.left hmore]
    exact Nat.zero_add _

/-- A take delivers exactly if and only if it fits. -/
theorem Delivers.exact_iff (hT : TransferDocumented T.transfer)
    (h : Delivers T t id order taker amount) (hmaker : taker ≠ order.maker)
    (hpot : taker ≠ T.pot_account_id) :
    ExactDelivery T t id order taker amount ↔ TakeFits t order taker amount := by
  have hmoney : order.payer T taker ≠ order.seller taker := payer_ne_seller hmaker hpot
  have hunits : order.giver T taker ≠ order.buyer taker := giver_ne_buyer hmaker hpot
  have hreceived := transfer_receiver hT hmoney h.payment
  obtain ⟨hfunded, hcharged⟩ := transfer_sender hT hmoney h.payment
  constructor
  · intro hexact
    constructor
    · -- what was received is the product cut off, so the cut has not been felt
      have hprice := hreceived.symm.trans hexact.paid
      exact U64.saturating_mul_exact_iff.mp (Nat.add_left_cancel hprice)
    · have hroom := hexact.delivered order.asset_id
      rw [if_pos rfl] at hroom
      rw [← hroom]
      exact UInt64.toNat_lt _
  · rintro ⟨hprice, hroom⟩
    rw [U64.saturating_mul_of_lt hprice] at hreceived hfunded hcharged
    refine ⟨hreceived, hfunded, hcharged, ?_, ?_, h.left_of_eq, ?_⟩
    · intro a
      rw [h.units]
      exact CarbonAssets.balance_move_to _ _ _ hunits hroom
    · intro a
      rw [h.units]
      exact CarbonAssets.balance_move_from _ _ _ hunits h.enough
    · intro x htaker hxmaker hxpot
      obtain ⟨hseller, hbuyer, hpayer, hgiver⟩ := not_party htaker hxmaker hxpot
      refine ⟨fun a => ?_, hT.others _ _ _ _ _ h.payment x hpayer hseller⟩
      rw [h.units]
      exact CarbonAssets.balance_move_of_ne _ _ _ _ _ hgiver hbuyer

end OneTake

/-! ## Filling an order -/

/-- What the seller of the order is paid by the transition. -/
def Applied.proceeds (t : Applied AccountId Hash) (id : Hash) : ℕ :=
  match t.input.origin, t.input.call, t.pre.Orders.get id with
  | .signed taker, .carbonExchange (.take_order order_id _), some order =>
      if order_id = id then
        t.post.native (order.seller taker) - t.pre.native (order.seller taker)
      else 0
  | _, _, _ => 0

/-- What the sellers of the order are paid over a history. -/
def total_proceeds (tr : List (Applied AccountId Hash)) (id : Hash) : ℕ :=
  (tr.map fun t => t.proceeds id).sum

/-- Neither the maker of the order nor the pot takes from it. -/
def OutsideTaker (T : Trait AccountId Hash) (id : Hash) (order : Order AccountId Hash)
    (t : Applied AccountId Hash) : Prop :=
  ∀ taker amount, t.input.origin = .signed taker →
    t.input.call = .carbonExchange (.take_order id amount) →
    taker ≠ order.maker ∧ taker ≠ T.pot_account_id

/-- The order stored under the identifier, if any, was made as this one. -/
def MadeAs (w : World AccountId Hash) (id : Hash) (order : Order AccountId Hash) : Prop :=
  ∀ order', w.Orders.get id = some order' → order'.maker = order.maker
    ∧ order'.direction = order.direction ∧ order'.price = order.price

/-- A transition that does not make the order anew leaves it made as it was. -/
theorem MadeAs.outcome {t : Applied AccountId Hash} {id : Hash} {order : Order AccountId Hash}
    (hmade : MadeAs t.pre id order) (h : Outcome T t) (honce : ¬t.Creates id) :
    MadeAs t.post id order := by
  intro order' hpost
  rcases order_origin h hpost with ⟨hold, -⟩ | ⟨-, hnew⟩ | ⟨old, taker, amount, hold, -, -, rfl⟩
  · exact hmade order' hold
  · exact absurd ⟨_, _, _, _, _, hnew.events ▸ List.mem_singleton.mpr rfl⟩ honce
  · exact hmade old hold

/-- A transition takes from the order, or deals nothing in it and is no successful
take of it. -/
theorem takes_or_idle {t : Applied AccountId Hash} (h : Outcome T t) (id : Hash) :
    (∃ order taker amount, t.pre.Orders.get id = some order ∧ Takes t id order taker amount)
      ∨ t.dealt id = 0
        ∧ ∀ amount, t.Succeeded → t.input.call ≠ .carbonExchange (.take_order id amount) := by
  have hslot := order_step h id
  generalize t.pre.Orders.get id = before, t.post.Orders.get id = after at hslot ⊢
  cases hslot with
  | kept slot hkept =>
    exact .inr ⟨hkept.quiet.dealt_eq, fun amount hok hcall =>
      hkept.other hok (named_order_of_take hcall)⟩
  | made order hmade =>
    refine .inr ⟨?_, fun amount _ hcall => by cases hmade.call.symm.trans hcall⟩
    simp [Applied.dealt, hmade.events, Event.deal]
  | taken order taker amount htakes => exact .inl ⟨order, taker, amount, rfl, htakes⟩
  | finished order taker htakes => exact .inl ⟨order, taker, order.left_amount, rfl, htakes⟩
  | cancelled order hcancels =>
    refine .inr ⟨?_, fun amount _ hcall => by cases hcancels.call.symm.trans hcall⟩
    simp [Applied.dealt, hcancels.events, Event.deal]

/-- A call that fails moves no native money. -/
theorem native_of_failed {t : Applied AccountId Hash} (h : Outcome T t) (hfail : ¬t.Succeeded) :
    t.post.native = t.pre.native := by
  cases h with
  | refused => rfl
  | half_take w origin now call w' e ops hhalf =>
    cases hhalf with
    | take_bid => rfl
  | carbonAssets => exact absurd rfl hfail
  | carbonExchange => exact absurd rfl hfail
  | standardAssets => exact absurd rfl hfail
  | balances_transfer => exact absurd rfl hfail

/-- What is no successful take pays no seller. -/
theorem proceeds_eq_zero {t : Applied AccountId Hash} (h : Outcome T t) {id : Hash}
    (hidle : ∀ amount, t.Succeeded → t.input.call ≠ .carbonExchange (.take_order id amount)) :
    t.proceeds id = 0 := by
  unfold Applied.proceeds
  split
  next taker order_id amount order horigin hcall hpre =>
    by_cases hid : order_id = id
    · rw [hid] at hcall
      rw [native_of_failed h fun hok => hidle amount hok hcall, Nat.sub_self, ite_self]
    · exact if_neg hid
  next => rfl

/-- What a transition pays the seller of an order is what it deals in it, at the
order's price and cut off at `u64::MAX`. -/
theorem proceeds_eq (hT : TransferDocumented T.transfer) {t : Applied AccountId Hash}
    (h : Outcome T t) {id : Hash} {order : Order AccountId Hash} (hmade : MadeAs t.pre id order)
    (htaker : OutsideTaker T id order t) :
    t.proceeds id = min (t.dealt id * order.price.toNat) (2 ^ 64 - 1) := by
  rcases takes_or_idle h id with ⟨order', taker, amount, hpre, htakes⟩ | ⟨hdealt, hidle⟩
  · obtain ⟨hsame, -, hprice⟩ := hmade order' hpre
    obtain ⟨hmaker, hpot⟩ := htaker taker amount htakes.origin htakes.call
    rw [← hsame] at hmaker
    have hdelivers := delivers_of_call h hpre htakes.origin htakes.call htakes.succeeded
    have hpaid := transfer_receiver hT (payer_ne_seller hmaker hpot) hdelivers.payment
    rw [htakes.dealt_eq, ← hprice, ← U64.toNat_saturating_mul]
    simp only [Applied.proceeds, htakes.origin, htakes.call, hpre, if_true, hpaid]
    exact Nat.add_sub_cancel_left _ _
  · rw [proceeds_eq_zero h hidle, hdealt, Nat.zero_mul]
    rfl

theorem sum_min_le (l : List ℕ) (max : ℕ) : (l.map (min · max)).sum ≤ l.sum := by
  have hle := List.sum_le_sum (l := l) (f := (min · max)) (g := id) fun _ _ => min_le_left _ _
  rwa [List.map_id] at hle

/-- Values cut off one by one have the sum of the whole values if and only if none
has been cut. -/
theorem sum_min_eq_iff (l : List ℕ) (max : ℕ) :
    (l.map (min · max)).sum = l.sum ↔ ∀ x ∈ l, x ≤ max := by
  induction l with
  | nil => simp
  | cons x l ih =>
    have hhead := min_le_left x max
    have htail := sum_min_le l max
    rw [List.map_cons, List.sum_cons, List.sum_cons, List.forall_mem_cons, ← ih, ← min_eq_left_iff]
    omega

/-- A stretch of history that begins with the order in the book: the order is not
made anew, and neither its maker nor the pot takes from it. -/
structure Filling (T : Trait AccountId Hash) (w₀ : World AccountId Hash) (id : Hash)
    (order : Order AccountId Hash) (tr : List (Applied AccountId Hash)) : Prop where
  stored : w₀.Orders.get id = some order
  once : ∀ t ∈ tr, ¬t.Creates id
  outside : ∀ t ∈ tr, OutsideTaker T id order t

section Run

variable {w₀ w : World AccountId Hash} {tr : List (Applied AccountId Hash)} {id : Hash}
  {order : Order AccountId Hash}

theorem MadeAs.of_stored (hstored : w₀.Orders.get id = some order) : MadeAs w₀ id order :=
  fun _ hget => Option.some.inj (hstored.symm.trans hget) ▸ ⟨rfl, rfl, rfl⟩

/-- Every transition of the stretch finds the order made as it was. -/
theorem Filling.madeAs {allowed : Applied AccountId Hash → Prop} (h : Filling T w₀ id order tr)
    (hrun : (runtime T).Run allowed w₀ tr w) {t : Applied AccountId Hash} (ht : t ∈ tr) :
    MadeAs t.pre id order := by
  obtain ⟨tr₁, hbefore, -, -⟩ := (hrun.restrict h.once).of_mem ht
  apply hbefore.state_invariant (I := fun w => MadeAs w id order)
  · exact .of_stored h.stored
  intro w x hmade honce
  exact MadeAs.outcome (t := (runtime T).fire w x) hmade (outcome_of_fire T w x) honce

/-- What the sellers of the order are paid, take by take. -/
theorem Filling.total_proceeds_eq {allowed : Applied AccountId Hash → Prop}
    (hT : TransferDocumented T.transfer) (h : Filling T w₀ id order tr)
    (hrun : (runtime T).Run allowed w₀ tr w) :
    total_proceeds tr id
      = ((tr.map fun t => t.dealt id * order.price.toNat).map (min · (2 ^ 64 - 1))).sum := by
  unfold total_proceeds
  rw [List.map_map]
  refine congrArg List.sum (List.map_congr_left fun t ht => ?_)
  exact proceeds_eq hT (outcome_of_mem hrun ht) (h.madeAs hrun ht) (h.outside t ht)

theorem total_dealt_mul (tr : List (Applied AccountId Hash)) (id : Hash) (price : ℕ) :
    total_dealt tr id * price = (tr.map fun t => t.dealt id * price).sum :=
  (List.sum_map_mul_right ..).symm

/-- The takes of an order cost its price for every unit if and only if the price of
each of them is a `u64`. -/
theorem Filling.price_exact_iff {allowed : Applied AccountId Hash → Prop}
    (hT : TransferDocumented T.transfer) (h : Filling T w₀ id order tr)
    (hrun : (runtime T).Run allowed w₀ tr w) :
    total_proceeds tr id = total_dealt tr id * order.price.toNat
      ↔ ∀ t ∈ tr, t.dealt id * order.price.toNat < 2 ^ 64 := by
  rw [h.total_proceeds_eq hT hrun, total_dealt_mul, sum_min_eq_iff, List.forall_mem_map]
  refine forall₂_congr fun t _ => ?_
  omega

/-- The units dealt in one transition are part of all that are dealt. -/
theorem dealt_le_total {t : Applied AccountId Hash} (ht : t ∈ tr) :
    t.dealt id ≤ total_dealt tr id :=
  List.le_sum_of_mem (List.mem_map_of_mem ht)

end Run

/-- **Delivery against exact payment.** In every run, from whatever state: a
successful take by somebody other than the maker and the pot delivers exactly if and
only if its price is a `u64` and the buyer has room for the units. Over a stretch of
history the takes of an order cost its price for every unit if and only if each of
them costs a `u64`, and if all of them together cost a `u64`, they cost what a single
take of as much costs. -/
theorem exact_delivery_iff (hT : TransferDocumented T.transfer) {w₀ w : World AccountId Hash}
    {tr : List (Applied AccountId Hash)} (hrun : (runtime T).Run (fun _ => True) w₀ tr w) :
    (∀ t ∈ tr, ∀ id order taker amount, t.pre.Orders.get id = some order →
      t.input.origin = .signed taker → t.input.call = .carbonExchange (.take_order id amount) →
      taker ≠ order.maker → taker ≠ T.pot_account_id → t.Succeeded →
      (ExactDelivery T t id order taker amount ↔ TakeFits t order taker amount))
    ∧ ∀ id order, Filling T w₀ id order tr →
      (total_proceeds tr id = total_dealt tr id * order.price.toNat
        ↔ ∀ t ∈ tr, t.dealt id * order.price.toNat < 2 ^ 64)
      ∧ ∀ x amount, x.call = .carbonExchange (.take_order id amount) →
        OutsideTaker T id order ((runtime T).fire w₀ x) →
        Applied.Succeeded ((runtime T).fire w₀ x) →
        amount.toNat = total_dealt tr id → amount.toNat * order.price.toNat < 2 ^ 64 →
        total_proceeds tr id = Applied.proceeds ((runtime T).fire w₀ x) id := by
  refine ⟨?_, fun id order hfill => ⟨hfill.price_exact_iff hT hrun, ?_⟩⟩
  · intro t ht id order taker amount hpre horigin hcall hmaker hpot hok
    have h := outcome_of_mem hrun ht
    exact (delivers_of_call h hpre horigin hcall hok).exact_iff hT hmaker hpot
  · intro x amount hcall houtside hok hall hfits
    have h := outcome_of_fire T w₀ x
    obtain ⟨taker, htakes⟩ := takes_of_call h hfill.stored hcall hok
    -- no part of a fill that costs a `u64` costs more than that
    have hparts : ∀ t ∈ tr, t.dealt id * order.price.toNat < 2 ^ 64 := fun t ht =>
      lt_of_le_of_lt (Nat.mul_le_mul_right _ (dealt_le_total ht)) (hall ▸ hfits)
    rw [(hfill.price_exact_iff hT hrun).mpr hparts,
      proceeds_eq hT h (.of_stored hfill.stored) houtside, htakes.dealt_eq, ← hall]
    omega

/-- The order of which account 2 takes one unit in `devnet_partial_fill`. -/
def devnet_asked : Order ℕ (List ℕ) where
  asset_id := devnet_asset
  money_id := []
  maker := 1
  amount := 3
  price := 200
  left_amount := 3
  direction := 0
  locked_balance := 0
  salt := 0

theorem exact_delivery_partial_fill :
    ExactDelivery devnet (((runtime devnet).trace (genesis fun _ => 1000)
      devnet_partial_fill).getLast (List.cons_ne_nil _ _)) devnet_ask devnet_asked 2 1 :=
  ((exact_delivery_iff transferDocumented_documented_transfer
      (devnet_run (fun _ => 1000) devnet_partial_fill)).1 _ (List.getLast_mem _) devnet_ask
    devnet_asked 2 1 (by decide) rfl rfl (by decide) (by decide) (by decide)).mpr
    ⟨by decide, by decide⟩

/-- Account 1 asks for `2 ^ 63` a unit, for two units, on the executable chain. -/
def devnet_dear_asked : Order ℕ (List ℕ) :=
  { devnet_asked with amount := 2, price := 9223372036854775808, left_amount := 2 }

def devnet_dear_ask : List ℕ :=
  Preimage.encode (.order 1 devnet_asset [] devnet_dear_asked.price 2 0 0)

/-- The calls that lead to that order. -/
def devnet_dear_opening : List (Extrinsic ℕ (List ℕ)) :=
  devnet_opening ++
    [⟨.signed 1, 0, .carbonExchange (.make_order devnet_asset [] devnet_dear_asked.price 2 0 0)⟩]

/-- Account 2 takes an amount of it. -/
def devnet_dear_take (amount : UInt64) : Extrinsic ℕ (List ℕ) :=
  ⟨.signed 2, 0, .carbonExchange (.take_order devnet_dear_ask amount)⟩

def devnet_dear_book : World ℕ (List ℕ) :=
  (runtime devnet).final (genesis fun _ => 2 ^ 70) devnet_dear_opening

/-- **A dear take is paid short.** Two units at price `2 ^ 63` cost `2 ^ 64` taken one by
one, as they should, and one less taken together. -/
theorem dear_take_paid_short :
    TransferDocumented devnet.transfer
    ∧ (∃ tr, (runtime devnet).Run (fun _ => True) (genesis fun _ => 2 ^ 70) tr devnet_dear_book)
    ∧ devnet_dear_book.Orders.get devnet_dear_ask = some devnet_dear_asked
    ∧ Applied.Succeeded ((runtime devnet).fire devnet_dear_book (devnet_dear_take 2))
    ∧ ¬ExactDelivery devnet ((runtime devnet).fire devnet_dear_book (devnet_dear_take 2))
      devnet_dear_ask devnet_dear_asked 2 2
    ∧ Applied.proceeds ((runtime devnet).fire devnet_dear_book (devnet_dear_take 2))
      devnet_dear_ask = 2 ^ 64 - 1
    ∧ total_proceeds ((runtime devnet).trace devnet_dear_book
      [devnet_dear_take 1, devnet_dear_take 1]) devnet_dear_ask = 2 ^ 64 := by
  refine ⟨transferDocumented_documented_transfer, ⟨_, devnet_run _ devnet_dear_opening⟩, ?_, ?_,
    fun hexact => ?_, ?_, ?_⟩
  · decide
  · decide
  · exact absurd hexact.paid (by decide)
  · decide
  · decide

end Eco2
