/-
The life of an order.

A slot of the order map is a small state machine of its own: empty, then an order
that shrinks with every take, then empty again. `OrderStep` is that machine, and
`order_step` says that every transition of the chain moves every slot along it.
All that is said about orders in this development, here and in the escrow files,
is said by cases on `OrderStep`.
-/
import Eco2.Registry

set_option autoImplicit false
set_option linter.unusedSectionVars false

namespace Eco2

open CarbonExchange

variable {AccountId Hash : Type} [DecidableEq AccountId] [DecidableEq Hash]
variable {T : Trait AccountId Hash}

/-! ## Events about an order -/

/-- The order an event of the exchange is about. -/
def CarbonExchange.Event.order_id : CarbonExchange.Event AccountId Hash → Hash
  | .NewOrder order_id .. => order_id
  | .NewDeal order_id .. => order_id
  | .OrderFinished order_id => order_id
  | .OrderCanceled order_id => order_id

/-- The transition deposits no event about the order. -/
def Applied.Quiet (t : Applied AccountId Hash) (id : Hash) : Prop :=
  ∀ e, Event.carbonExchange e ∈ t.output.events → e.order_id ≠ id

/-- The amount an event reports as dealt in the order. -/
def Event.deal (id : Hash) : Event AccountId Hash → ℕ
  | .carbonExchange (.NewDeal order_id _ _ _ _ _ amount _ _) =>
      if order_id = id then amount.toNat else 0
  | _ => 0

/-- The amounts of the `NewDeal` events of the order in one transition. -/
def Applied.dealt (t : Applied AccountId Hash) (id : Hash) : ℕ :=
  (t.output.events.map (Event.deal id)).sum

/-- The transition deposits a `NewOrder` event of the order. -/
def Applied.Creates (t : Applied AccountId Hash) (id : Hash) : Prop :=
  ∃ maker asset_id money_id direction now,
    Event.carbonExchange (.NewOrder id maker asset_id money_id direction now) ∈ t.output.events

theorem Applied.Quiet.dealt_eq {t : Applied AccountId Hash} {id : Hash} (h : t.Quiet id) :
    t.dealt id = 0 := by
  refine List.sum_eq_zero fun n hn => ?_
  obtain ⟨e, he, rfl⟩ := List.mem_map.mp hn
  unfold Event.deal
  split
  · exact if_neg (h _ he)
  · rfl

theorem Applied.Quiet.not_creates {t : Applied AccountId Hash} {id : Hash} (h : t.Quiet id) :
    ¬t.Creates id := fun ⟨_, _, _, _, _, he⟩ => h _ he rfl

/-! ## What a transition does to one slot -/

/-- The order a call of the exchange names: the one it makes, takes or cancels. -/
def named_order (T : Trait AccountId Hash) (x : Extrinsic AccountId Hash) : Option Hash :=
  match x.origin, x.call with
  | .signed maker, .carbonExchange (.make_order asset_id money_id price amount direction salt) =>
      some (T.hash_of (.order maker asset_id money_id price amount direction salt))
  | _, .carbonExchange (.take_order order_id _) => some order_id
  | _, .carbonExchange (.cancel_order order_id) => some order_id
  | _, _ => none

theorem named_order_of_take {x : Extrinsic AccountId Hash} {id : Hash} {amount : UInt64}
    (hcall : x.call = .carbonExchange (.take_order id amount)) : named_order T x = some id := by
  unfold named_order
  split <;> simp_all

theorem named_order_of_cancel {x : Extrinsic AccountId Hash} {id : Hash}
    (hcall : x.call = .carbonExchange (.cancel_order id)) : named_order T x = some id := by
  unfold named_order
  split <;> simp_all

/-- The transition has nothing to do with the order: no event is about it, and a
call that names it has failed. -/
structure Untouched (T : Trait AccountId Hash) (t : Applied AccountId Hash) (id : Hash) : Prop where
  quiet : t.Quiet id
  other : t.Succeeded → named_order T t.input ≠ some id

/-- The calls of the other pallets name no order. -/
theorem Untouched.of_other_pallet {t : Applied AccountId Hash} {id : Hash}
    (hevents : ∀ e, Event.carbonExchange e ∉ t.output.events)
    (hcall : ∀ call, t.input.call ≠ .carbonExchange call) : Untouched T t id where
  quiet e he := absurd he (hevents e)
  other _ := by
    unfold named_order
    -- three cases are calls of the exchange, the last is everything else
    split
    · exact absurd ‹_› (hcall _)
    · exact absurd ‹_› (hcall _)
    · exact absurd ‹_› (hcall _)
    · exact nofun

/-- The transition makes the order, under the identifier `id`. -/
structure Made (T : Trait AccountId Hash) (t : Applied AccountId Hash) (id : Hash)
    (order : Order AccountId Hash) : Prop where
  origin : t.input.origin = .signed order.maker
  call : t.input.call = .carbonExchange (.make_order order.asset_id order.money_id order.price
    order.amount order.direction order.salt)
  succeeded : t.Succeeded
  events : t.output.events = [.carbonExchange (.NewOrder id order.maker order.asset_id
    order.money_id order.direction t.input.now)]
  hash : id = T.hash_of (.order order.maker order.asset_id order.money_id order.price
    order.amount order.direction order.salt)
  money : order.money_id = T.default_hash
  price : 0 < order.price
  amount : 0 < order.amount
  left : order.left_amount = order.amount
  asset : t.pre.carbon.Approved order.asset_id
  lock : (order.direction = 0 ∧ order.locked_balance = 0)
    ∨ (order.direction = 1
      ∧ order.locked_balance = U64.saturating_mul order.amount order.price)

/-- What a take of `amount` releases of the order's lock: nothing of an ask order. -/
def CarbonExchange.Order.released (order : Order AccountId Hash) (amount : UInt64) : UInt64 :=
  if order.direction = 0 then 0 else U64.saturating_mul amount order.price

/-- The transition is a successful take of `amount` of the order. -/
structure Takes (t : Applied AccountId Hash) (id : Hash) (order : Order AccountId Hash)
    (taker : AccountId) (amount : UInt64) : Prop where
  origin : t.input.origin = .signed taker
  call : t.input.call = .carbonExchange (.take_order id amount)
  succeeded : t.Succeeded
  left : amount ≤ order.left_amount
  events : t.output.events = (take_events id (order.taken amount (order.released amount))
    (order.new_deal id taker amount t.input.now)).map .carbonExchange

/-- The transition is a successful cancellation of the order by its maker. -/
structure Cancels (t : Applied AccountId Hash) (id : Hash) (order : Order AccountId Hash) :
    Prop where
  origin : t.input.origin = .signed order.maker
  call : t.input.call = .carbonExchange (.cancel_order id)
  succeeded : t.Succeeded
  events : t.output.events = [.carbonExchange (.OrderCanceled id)]

/-- What a transition can do to the slot `id` of the order map. -/
inductive OrderStep (T : Trait AccountId Hash) (t : Applied AccountId Hash) (id : Hash) :
    Option (Order AccountId Hash) → Option (Order AccountId Hash) → Prop
  | kept (slot : Option (Order AccountId Hash)) (hkept : Untouched T t id) :
      OrderStep T t id slot slot
  | made (order : Order AccountId Hash) (hmade : Made T t id order) :
      OrderStep T t id none (some order)
  | taken (order : Order AccountId Hash) (taker : AccountId) (amount : UInt64)
      (htakes : Takes t id order taker amount) (hmore : 0 < order.left_amount - amount) :
      OrderStep T t id (some order) (some (order.taken amount (order.released amount)))
  -- the last take and the cancellation both leave the slot empty
  | finished (order : Order AccountId Hash) (taker : AccountId)
      (htakes : Takes t id order taker order.left_amount) :
      OrderStep T t id (some order) none
  | cancelled (order : Order AccountId Hash) (hcancels : Cancels t id order) :
      OrderStep T t id (some order) none

theorem get_settle (orders : StorageMap Hash (Order AccountId Hash)) (order_id id : Hash)
    (order : Order AccountId Hash) :
    (settle orders order_id order).get id
      = if id = order_id then (if 0 < order.left_amount then some order else none)
        else orders.get id := by
  unfold settle
  by_cases hleft : 0 < order.left_amount
  · rw [if_pos hleft, if_pos hleft, StorageMap.get_insert]
  · rw [if_neg hleft, if_neg hleft, StorageMap.get_remove]

/-- There is nothing to show about the orders of an empty book. -/
theorem forall_orders_of_empty {w : World AccountId Hash} (hempty : w.Orders = .empty)
    {P : Hash → Order AccountId Hash → Prop} (id : Hash) (order : Order AccountId Hash)
    (horder : w.Orders.get id = some order) : P id order := by
  rw [hempty] at horder
  cases horder

/-- Settling an order exchanges its weight for that of what is left of it. -/
theorem sum_settle {orders : StorageMap Hash (Order AccountId Hash)} {order_id : Hash}
    {order : Order AccountId Hash} (f : Hash → Order AccountId Hash → ℕ)
    (hget : orders.get order_id = some order) (order' : Order AccountId Hash) :
    (settle orders order_id order').sum f + f order_id order
      = orders.sum f + if 0 < order'.left_amount then f order_id order' else 0 := by
  unfold settle
  by_cases hleft : 0 < order'.left_amount
  · have hins := StorageMap.sum_insert orders f order_id order'
    rw [hget, StorageMap.weight_some] at hins
    rw [if_pos hleft, if_pos hleft, hins]
  · have hrem := StorageMap.sum_remove orders f order_id
    rw [hget, StorageMap.weight_some] at hrem
    rw [if_neg hleft, if_neg hleft, hrem, Nat.add_zero]

/-- The events of the exchange calls are all about one order. -/
theorem quiet_of_ne {t : Applied AccountId Hash} {order_id id : Hash}
    {events : List (CarbonExchange.Event AccountId Hash)}
    (hevents : t.output.events = events.map .carbonExchange)
    (hone : ∀ e ∈ events, e.order_id = order_id) (hne : id ≠ order_id) : t.Quiet id := by
  intro e he hid
  rw [hevents] at he
  obtain ⟨e', he', heq⟩ := List.mem_map.mp he
  cases heq
  exact hne (hid.symm.trans (hone _ he'))

theorem order_id_of_mem_take_events {order_id : Hash} {order : Order AccountId Hash}
    {deal e : CarbonExchange.Event AccountId Hash} (hdeal : deal.order_id = order_id)
    (he : e ∈ take_events order_id order deal) : e.order_id = order_id := by
  unfold take_events at he
  split at he
  · rw [List.mem_singleton.mp he, hdeal]
  · rcases List.mem_cons.mp he with rfl | he
    · rfl
    · rw [List.mem_singleton.mp he, hdeal]

/-- A take of no more than is left either leaves something or takes all. -/
theorem eq_left_of_not_pos {left amount : UInt64} (hle : amount ≤ left)
    (h : ¬0 < left - amount) : amount = left := by
  -- `left - amount` does not wrap, so it is zero only where the two are equal
  have hsub := U64.toNat_sub_add_of_le hle
  rw [UInt64.lt_iff_toNat_lt, UInt64.toNat_zero] at h
  exact UInt64.toNat_inj.mp (by omega)

/-- A successful take moves its order along. -/
private theorem OrderStep.of_takes {t : Applied AccountId Hash} {id : Hash}
    {order : Order AccountId Hash} (taker : AccountId) {amount : UInt64}
    (h : Takes t id order taker amount) :
    OrderStep T t id (some order)
      (if 0 < (order.taken amount (order.released amount)).left_amount then
        some (order.taken amount (order.released amount)) else none) := by
  -- the branch of the source: write the order back, or remove it
  by_cases hmore : 0 < order.left_amount - amount
  · rw [if_pos (show 0 < (order.taken amount (order.released amount)).left_amount from hmore)]
    exact .taken order taker amount h hmore
  · rw [if_neg (show ¬0 < (order.taken amount (order.released amount)).left_amount from hmore)]
    obtain rfl := eq_left_of_not_pos h.left hmore
    exact .finished order taker h

/-- **One transition, one slot.** Every transition of the chain moves every slot
of the order map along its life. -/
theorem order_step {t : Applied AccountId Hash} (h : Outcome T t) (id : Hash) :
    OrderStep T t id (t.pre.Orders.get id) (t.post.Orders.get id) := by
  cases h with
  | refused w x e => exact .kept _ ⟨fun e he => (nomatch he), fun hok => nomatch hok⟩
  | carbonAssets w origin now call s' events ops hstep =>
    exact .kept _ (.of_other_pallet (by simp) (by simp))
  -- units have moved, but the order map is as it was
  | half_take w origin now call w' e ops hhalf =>
    cases hhalf with
    | take_bid => exact .kept _ ⟨fun e he => (nomatch he), fun hok => nomatch hok⟩
  | standardAssets w origin now call s' events ops hstep =>
    exact .kept _ (.of_other_pallet (by simp) (by simp))
  | balances_transfer w src now dest value native hnative =>
    exact .kept _ (.of_other_pallet (by simp) (by simp))
  | carbonExchange w origin now call w' events ops hstep =>
    cases hstep with
    | make_ask maker asset_id money_id price amount salt order_id horigin hmoney hprice hamount
        hasset hid hfresh hbalance =>
      -- in each step: the slot the call is about, and any other
      by_cases hslot : id = order_id
      · subst hslot
        simp only [hfresh, StorageMap.get_insert_self]
        exact .made _ ⟨horigin, rfl, rfl, rfl, hid, hmoney, hprice, hamount, rfl, hasset,
          .inl ⟨rfl, rfl⟩⟩
      · simp only [StorageMap.get_insert_of_ne _ _ hslot]
        refine .kept _ ⟨quiet_of_ne rfl (by simp [Event.order_id]) hslot, fun _ hnamed => ?_⟩
        rw [horigin] at hnamed
        exact hslot ((Option.some.inj hnamed).symm.trans hid.symm)
    | make_bid maker asset_id money_id price amount salt order_id native horigin hmoney hprice
        hamount hasset hid hfresh hnative =>
      by_cases hslot : id = order_id
      · subst hslot
        simp only [hfresh, StorageMap.get_insert_self]
        exact .made _ ⟨horigin, rfl, rfl, rfl, hid, hmoney, hprice, hamount, rfl, hasset,
          .inr ⟨rfl, rfl⟩⟩
      · simp only [StorageMap.get_insert_of_ne _ _ hslot]
        refine .kept _ ⟨quiet_of_ne rfl (by simp [Event.order_id]) hslot, fun _ hnamed => ?_⟩
        rw [horigin] at hnamed
        exact hslot ((Option.some.inj hnamed).symm.trans hid.symm)
    | take_ask taker order_id amount order native horigin horder hleft hdirection hpot hnative =>
      have hreleased : order.taken amount 0 = order.taken amount (order.released amount) := by
        rw [Order.released, if_pos hdirection]
      by_cases hslot : id = order_id
      · subst hslot
        simp only [get_settle, if_true, horder, hreleased]
        refine .of_takes taker ?_
        exact ⟨horigin, rfl, rfl, hleft, rfl⟩
      · simp only [get_settle, if_neg hslot]
        exact .kept _ ⟨quiet_of_ne rfl (fun e => order_id_of_mem_take_events rfl) hslot,
          fun _ hnamed => hslot
            (Option.some.inj ((named_order_of_take rfl).symm.trans hnamed)).symm⟩
    | take_bid taker order_id amount order native horigin horder hleft hdirection hbalance
        hnative =>
      have hreleased : order.taken amount (U64.saturating_mul amount order.price)
          = order.taken amount (order.released amount) := by
        rw [Order.released, if_neg hdirection]
      by_cases hslot : id = order_id
      · subst hslot
        simp only [get_settle, if_true, horder, hreleased]
        refine .of_takes taker ?_
        exact ⟨horigin, rfl, rfl, hleft, rfl⟩
      · simp only [get_settle, if_neg hslot]
        exact .kept _ ⟨quiet_of_ne rfl (fun e => order_id_of_mem_take_events rfl) hslot,
          fun _ hnamed => hslot
            (Option.some.inj ((named_order_of_take rfl).symm.trans hnamed)).symm⟩
    | cancel_ask order_id order horigin horder hdirection =>
      by_cases hslot : id = order_id
      · subst hslot
        simp only [horder, StorageMap.get_remove_self]
        exact .cancelled _ ⟨horigin, rfl, rfl, rfl⟩
      · simp only [StorageMap.get_remove_of_ne _ hslot]
        exact .kept _ ⟨quiet_of_ne rfl (by simp [Event.order_id]) hslot,
          fun _ hnamed => hslot
            (Option.some.inj ((named_order_of_cancel rfl).symm.trans hnamed)).symm⟩
    | cancel_bid order_id order native horigin horder hdirection hnative =>
      by_cases hslot : id = order_id
      · subst hslot
        simp only [horder, StorageMap.get_remove_self]
        exact .cancelled _ ⟨horigin, rfl, rfl, rfl⟩
      · simp only [StorageMap.get_remove_of_ne _ hslot]
        exact .kept _ ⟨quiet_of_ne rfl (by simp [Event.order_id]) hslot,
          fun _ hnamed => hslot
            (Option.some.inj ((named_order_of_cancel rfl).symm.trans hnamed)).symm⟩

/-- Where an order in the map comes from. -/
theorem order_origin {t : Applied AccountId Hash} (h : Outcome T t) {id : Hash}
    {order : Order AccountId Hash} (hpost : t.post.Orders.get id = some order) :
    (t.pre.Orders.get id = some order ∧ Untouched T t id)
      ∨ (t.pre.Orders.get id = none ∧ Made T t id order)
      ∨ ∃ old taker amount, t.pre.Orders.get id = some old ∧ Takes t id old taker amount
        ∧ 0 < old.left_amount - amount ∧ order = old.taken amount (old.released amount) := by
  have hslot := order_step h id
  rw [hpost] at hslot
  generalize t.pre.Orders.get id = before at hslot ⊢
  cases hslot with
  | kept slot hkept => exact .inl ⟨rfl, hkept⟩
  | made order hmade => exact .inr (.inl ⟨rfl, hmade⟩)
  | taken old taker amount htakes hmore =>
    exact .inr (.inr ⟨old, taker, amount, rfl, htakes, hmore, rfl⟩)

/-- Who does not sign does not come to have made an order. -/
theorem maker_ne_outcome {t : Applied AccountId Hash} {x : AccountId}
    (hmaker : ∀ id order, t.pre.Orders.get id = some order → order.maker ≠ x)
    (h : Outcome T t) (hx : t.input.origin ≠ .signed x) {id : Hash}
    {order : Order AccountId Hash} (horder : t.post.Orders.get id = some order) :
    order.maker ≠ x := by
  rcases order_origin h horder with ⟨hold, -⟩ | ⟨-, hmade⟩ | ⟨old, taker, amount, hold, -, -, rfl⟩
  · exact hmaker id order hold
  · exact Origin.signer_ne hmade.origin hx
  · -- taking an order does not change its maker
    exact hmaker id old hold

/-- What becomes of an order in the map. -/
theorem order_fate {t : Applied AccountId Hash} (h : Outcome T t) {id : Hash}
    {order : Order AccountId Hash} (hpre : t.pre.Orders.get id = some order) :
    (t.post.Orders.get id = some order ∧ Untouched T t id)
      ∨ (∃ taker amount, Takes t id order taker amount ∧ 0 < order.left_amount - amount
        ∧ t.post.Orders.get id = some (order.taken amount (order.released amount)))
      ∨ (∃ taker, Takes t id order taker order.left_amount ∧ t.post.Orders.get id = none)
      ∨ (Cancels t id order ∧ t.post.Orders.get id = none) := by
  have hslot := order_step h id
  rw [hpre] at hslot
  generalize t.post.Orders.get id = after at hslot ⊢
  cases hslot with
  | kept slot hkept => exact .inl ⟨rfl, hkept⟩
  | taken order taker amount htakes hmore =>
    exact .inr (.inl ⟨taker, amount, htakes, hmore, rfl⟩)
  | finished order taker htakes => exact .inr (.inr (.inl ⟨taker, htakes, rfl⟩))
  | cancelled order hcancels => exact .inr (.inr (.inr ⟨hcancels, rfl⟩))

/-! ## The registry of the chain -/

/-- The registry of the carbon pallet, and orders of approved assets only. -/
structure Registered (w : World AccountId Hash) : Prop where
  carbon : CarbonAssets.Registry w.carbon
  order_asset : ∀ id order, w.Orders.get id = some order → w.carbon.Approved order.asset_id

theorem Registered.of_genesis (native : AccountId → ℕ) :
    Registered (genesis native : World AccountId Hash) where
  carbon := .empty
  order_asset _ _ h := nomatch h

/-- Every transition of the chain keeps the registry. -/
theorem Registered.outcome {t : Applied AccountId Hash} (hreg : Registered t.pre)
    (h : Outcome T t) : Registered t.post where
  carbon := by
    have hcarbon := hreg.carbon
    cases h with
    | refused w x e => exact hcarbon
    | carbonAssets w origin now call s' events ops hstep => exact hcarbon.step hstep
    | standardAssets => exact hcarbon
    | balances_transfer => exact hcarbon
    | half_take w origin now call w' e ops hhalf =>
      cases hhalf with
      -- the order vouches for its asset, approved since it was made
      | take_bid taker order_id amount order horigin horder =>
        exact hcarbon.move (hreg.order_asset order_id order horder) _ _ _
    | carbonExchange w origin now call w' events ops hstep =>
      cases hstep with
      | make_ask maker asset_id money_id price amount salt order_id horigin hmoney hprice hamount
          hasset => exact hcarbon.move hasset _ _ _
      | make_bid => exact hcarbon
      | take_ask taker order_id amount order native horigin horder =>
        exact hcarbon.move (hreg.order_asset order_id order horder) _ _ _
      | take_bid taker order_id amount order native horigin horder =>
        exact hcarbon.move (hreg.order_asset order_id order horder) _ _ _
      | cancel_ask order_id order horigin horder =>
        exact hcarbon.move (hreg.order_asset order_id order horder) _ _ _
      | cancel_bid => exact hcarbon
  order_asset id order horder := by
    rcases order_origin h horder with ⟨hold, -⟩ | ⟨-, hmade⟩ | ⟨old, taker, amount, hold, -, -, rfl⟩
    · exact h.approved (hreg.order_asset id order hold)
    · exact h.approved hmade.asset
    · exact h.approved (hreg.order_asset id old hold)

/-- The registry holds in every state reached. -/
theorem Registered.run {allowed : Applied AccountId Hash → Prop} {native : AccountId → ℕ}
    {tr : List (Applied AccountId Hash)} {w : World AccountId Hash}
    (hrun : (runtime T).Run allowed (genesis native) tr w) : Registered w :=
  hrun.state_invariant (.of_genesis native) fun w x hreg _ =>
    Registered.outcome (t := (runtime T).fire w x) hreg (outcome_of_fire T w x)

/-! ## The order book invariant -/

/-- What is true of an order in the map. -/
structure WellFormed (T : Trait AccountId Hash) (w : World AccountId Hash) (id : Hash)
    (order : Order AccountId Hash) : Prop where
  left_pos : 0 < order.left_amount
  left_le : order.left_amount ≤ order.amount
  price : 0 < order.price
  direction : order.direction = 0 ∨ order.direction = 1
  money : order.money_id = T.default_hash
  asset : w.carbon.Approved order.asset_id
  hash : id = T.hash_of (.order order.maker order.asset_id order.money_id order.price
    order.amount order.direction order.salt)

/-- Every order in the map is well formed. -/
def WellFormedBook (T : Trait AccountId Hash) (w : World AccountId Hash) : Prop :=
  ∀ id order, w.Orders.get id = some order → WellFormed T w id order

theorem Made.wellFormed {t : Applied AccountId Hash} {id : Hash} {order : Order AccountId Hash}
    (h : Outcome T t) (hmade : Made T t id order) : WellFormed T t.post id order where
  left_pos := by rw [hmade.left]; exact hmade.amount
  left_le := by rw [hmade.left]; exact UInt64.le_refl _
  price := hmade.price
  direction := hmade.lock.imp And.left And.left
  money := hmade.money
  asset := h.approved hmade.asset
  hash := hmade.hash

/-- Every transition keeps the book well formed. -/
theorem WellFormedBook.outcome {t : Applied AccountId Hash} (hbook : WellFormedBook T t.pre)
    (h : Outcome T t) : WellFormedBook T t.post := by
  intro id order horder
  rcases order_origin h horder with ⟨hold, -⟩ | ⟨-, hmade⟩ |
    ⟨old, taker, amount, hold, htakes, hmore, rfl⟩
  · have hwf := hbook id order hold
    exact { hwf with asset := h.approved hwf.asset }
  · exact hmade.wellFormed h
  · have hwf := hbook id old hold
    -- what is left only shrinks; the other fields are not written
    have hle : old.left_amount - amount ≤ old.left_amount := by
      have hsub := U64.toNat_sub_add_of_le htakes.left
      exact UInt64.le_iff_toNat_le.mpr (by omega)
    exact { hwf with
      left_pos := hmore
      left_le := UInt64.le_trans hle hwf.left_le
      asset := h.approved hwf.asset }

/-- The book is well formed in every state reached from an empty one. -/
theorem WellFormedBook.run {allowed : Applied AccountId Hash → Prop} {w₀ w : World AccountId Hash}
    {tr : List (Applied AccountId Hash)} (hempty : w₀.Orders = .empty)
    (hrun : (runtime T).Run allowed w₀ tr w) : WellFormedBook T w := by
  apply hrun.state_invariant
  · exact forall_orders_of_empty hempty
  intro w x hbook _
  exact WellFormedBook.outcome (t := (runtime T).fire w x) hbook (outcome_of_fire T w x)

/-! ## Fill accounting -/

theorem Takes.dealt_eq {t : Applied AccountId Hash} {id : Hash} {order : Order AccountId Hash}
    {taker : AccountId} {amount : UInt64} (h : Takes t id order taker amount) :
    t.dealt id = amount.toNat := by
  unfold Applied.dealt
  rw [h.events]
  unfold take_events
  split <;> simp [Event.deal, Order.new_deal]

theorem Takes.not_creates {t : Applied AccountId Hash} {id : Hash} {order : Order AccountId Hash}
    {taker : AccountId} {amount : UInt64} (h : Takes t id order taker amount) :
    ¬t.Creates id := by
  rintro ⟨maker, asset_id, money_id, direction, now, he⟩
  rw [h.events] at he
  unfold take_events at he
  split at he <;> simp [Order.new_deal] at he

/-- The amounts dealt in the order over a history. -/
def total_dealt (tr : List (Applied AccountId Hash)) (id : Hash) : ℕ :=
  (tr.map fun t => t.dealt id).sum

/-- The order was made in the history with the fields it has now, and what is
missing from it has been dealt since. -/
def FilledSince (tr : List (Applied AccountId Hash)) (id : Hash) (order : Order AccountId Hash) :
    Prop :=
  ∃ tr₁ t tr₂, tr = tr₁ ++ t :: tr₂
    ∧ t.input.origin = .signed order.maker
    ∧ t.input.call = .carbonExchange (.make_order order.asset_id order.money_id order.price
        order.amount order.direction order.salt)
    ∧ t.Succeeded ∧ t.Creates id ∧ (∀ u ∈ tr₂, ¬u.Creates id)
    ∧ order.amount.toNat - order.left_amount.toNat = total_dealt tr₂ id
    ∧ order.left_amount ≤ order.amount

/-- One more transition that does not make the order anew. -/
theorem FilledSince.snoc {tr : List (Applied AccountId Hash)} {id : Hash}
    {order : Order AccountId Hash} (h : FilledSince tr id order) (t : Applied AccountId Hash)
    (hcreates : ¬t.Creates id) (left : UInt64) (locked : UInt64)
    (hleft : left.toNat + t.dealt id = order.left_amount.toNat) :
    FilledSince (tr ++ [t]) id
      { order with left_amount := left, locked_balance := locked } := by
  obtain ⟨tr₁, t₀, tr₂, rfl, horigin, hcall, hok, hcreated, hlatest, hfill, hle⟩ := h
  rw [UInt64.le_iff_toNat_le] at hle
  refine ⟨tr₁, t₀, tr₂ ++ [t], by simp, horigin, hcall, hok, hcreated, ?_, ?_, ?_⟩
  · intro u hu
    rcases List.mem_append.mp hu with hu | hu
    · exact hlatest u hu
    · rwa [List.mem_singleton.mp hu]
  · unfold total_dealt at hfill ⊢
    simp only [List.map_append, List.sum_append, List.map_cons, List.map_nil, List.sum_cons,
      List.sum_nil]
    omega
  · exact UInt64.le_iff_toNat_le.mpr (by show left.toNat ≤ order.amount.toNat; omega)

theorem FilledSince.run {allowed : Applied AccountId Hash → Prop} {w₀ w : World AccountId Hash}
    {tr : List (Applied AccountId Hash)} (hempty : w₀.Orders = .empty)
    (hrun : (runtime T).Run allowed w₀ tr w) :
    ∀ id order, w.Orders.get id = some order → FilledSince tr id order := by
  apply hrun.invariant (I := fun tr w => ∀ id order, w.Orders.get id = some order →
    FilledSince tr id order)
  · exact forall_orders_of_empty hempty
  intro tr w x _ ih _ id order horder
  have h := outcome_of_fire T w x
  rcases order_origin h horder with ⟨hold, hkept⟩ | ⟨-, hmade⟩ |
    ⟨old, taker, amount, hold, htakes, hmore, rfl⟩
  · -- untouched: no deal of it, and no new order under its identifier
    have hfilled := ih id order hold
    exact hfilled.snoc _ hkept.quiet.not_creates order.left_amount order.locked_balance
      (by rw [hkept.quiet.dealt_eq, Nat.add_zero])
  · -- just made: nothing dealt since, and all of it left
    refine ⟨tr, _, [], rfl, hmade.origin, hmade.call, hmade.succeeded, ?_, by simp, ?_,
      by rw [hmade.left]; exact UInt64.le_refl _⟩
    · exact ⟨_, _, _, _, _, by rw [hmade.events]; exact List.mem_singleton.mpr rfl⟩
    · rw [hmade.left, Nat.sub_self]
      rfl
  · -- taken: the one `NewDeal` event reports what left the order
    have hfilled := ih id old hold
    refine hfilled.snoc _ htakes.not_creates _ _ ?_
    rw [htakes.dealt_eq]
    exact U64.toNat_sub_add_of_le htakes.left

/-! ## How an order leaves the map -/

/-- The transition takes all that is left of the order. -/
def FillsUp (t : Applied AccountId Hash) (id : Hash) (order : Order AccountId Hash) : Prop :=
  ∃ taker, t.input.origin = .signed taker
    ∧ t.input.call = .carbonExchange (.take_order id order.left_amount) ∧ t.Succeeded

/-- The maker of the order cancels it. -/
def MakerCancels (t : Applied AccountId Hash) (id : Hash) (order : Order AccountId Hash) : Prop :=
  t.input.origin = .signed order.maker
    ∧ t.input.call = .carbonExchange (.cancel_order id) ∧ t.Succeeded

theorem Made.named {t : Applied AccountId Hash} {id : Hash} {order : Order AccountId Hash}
    (h : Made T t id order) : named_order T t.input = some id := by
  unfold named_order
  rw [h.origin, h.call, h.hash]

/-- A successful call to take an order in the map is a take of it. -/
theorem takes_of_call {t : Applied AccountId Hash} (h : Outcome T t) {id : Hash} {amount : UInt64}
    {order : Order AccountId Hash} (hpre : t.pre.Orders.get id = some order)
    (hcall : t.input.call = .carbonExchange (.take_order id amount)) (hok : t.Succeeded) :
    ∃ taker, Takes t id order taker amount := by
  rcases order_fate h hpre with ⟨-, hkept⟩ | ⟨taker, amount', htakes, -⟩ | ⟨taker, htakes, -⟩ |
    ⟨hcancels, -⟩
  · exact absurd (named_order_of_take hcall) (hkept.other hok)
  · cases hcall.symm.trans htakes.call
    exact ⟨taker, htakes⟩
  · cases hcall.symm.trans htakes.call
    exact ⟨taker, htakes⟩
  · cases hcall.symm.trans hcancels.call

/-- A transition leaves the orders it does not name as they are. -/
theorem orders_get_of_not_named {t : Applied AccountId Hash} (h : Outcome T t) {id : Hash}
    (hnamed : named_order T t.input ≠ some id) :
    t.post.Orders.get id = t.pre.Orders.get id := by
  have hslot := order_step h id
  generalize t.pre.Orders.get id = before at hslot ⊢
  generalize t.post.Orders.get id = after at hslot ⊢
  cases hslot with
  | kept => rfl
  | made order hmade => exact absurd hmade.named hnamed
  | taken order taker amount htakes => exact absurd (named_order_of_take htakes.call) hnamed
  | finished order taker htakes => exact absurd (named_order_of_take htakes.call) hnamed
  | cancelled order hcancels => exact absurd (named_order_of_cancel hcancels.call) hnamed

/-- **An order leaves the map** exactly when a take brings it to zero or its maker
cancels it. -/
theorem removed_iff {t : Applied AccountId Hash} (h : Outcome T t) {id : Hash}
    {order : Order AccountId Hash} (hpre : t.pre.Orders.get id = some order) :
    t.post.Orders.get id = none ↔ FillsUp t id order ∨ MakerCancels t id order := by
  rcases order_fate h hpre with ⟨hpost, hkept⟩ | ⟨taker, amount, htakes, hmore, hpost⟩ |
    ⟨taker, htakes, hpost⟩ | ⟨hcancels, hpost⟩
  · rw [hpost]
    refine iff_of_false nofun ?_
    rintro (⟨taker, -, hcall, hok⟩ | ⟨-, hcall, hok⟩)
    · exact hkept.other hok (named_order_of_take hcall)
    · exact hkept.other hok (named_order_of_cancel hcall)
  · rw [hpost]
    refine iff_of_false nofun ?_
    rintro (⟨taker', -, hcall, -⟩ | ⟨-, hcall, -⟩)
    · -- a take that leaves something is not one of all that was left
      cases htakes.call.symm.trans hcall
      rw [UInt64.sub_self] at hmore
      exact UInt64.lt_irrefl _ hmore
    · cases htakes.call.symm.trans hcall
  · exact iff_of_true hpost (.inl ⟨taker, htakes.origin, htakes.call, htakes.succeeded⟩)
  · exact iff_of_true hpost (.inr ⟨hcancels.origin, hcancels.call, hcancels.succeeded⟩)

/-- An event that a take or a cancellation ends an order's life with is deposited
once if it does, and not at all if it does not. -/
theorem closing_events {t : Applied AccountId Hash} (h : Outcome T t) {id : Hash}
    {order : Order AccountId Hash} (hpre : t.pre.Orders.get id = some order) :
    (FillsUp t id order →
        t.output.events.count (.carbonExchange (.OrderFinished id)) = 1)
      ∧ (¬FillsUp t id order →
        t.output.events.count (.carbonExchange (.OrderFinished id)) = 0)
      ∧ (MakerCancels t id order →
        t.output.events.count (.carbonExchange (.OrderCanceled id)) = 1)
      ∧ (¬MakerCancels t id order →
        t.output.events.count (.carbonExchange (.OrderCanceled id)) = 0) := by
  have hremoved := removed_iff h hpre
  rcases order_fate h hpre with ⟨hpost, hkept⟩ | ⟨taker, amount, htakes, hmore, hpost⟩ |
    ⟨taker, htakes, hpost⟩ | ⟨hcancels, hpost⟩
  · have hstays : ¬(FillsUp t id order ∨ MakerCancels t id order) := by
      rw [← hremoved, hpost]
      exact Option.some_ne_none _
    refine ⟨fun hc => absurd (.inl hc) hstays, fun _ => ?_, fun hc => absurd (.inr hc) hstays,
      fun _ => ?_⟩
    · exact List.count_eq_zero_of_not_mem fun he => hkept.quiet _ he rfl
    · exact List.count_eq_zero_of_not_mem fun he => hkept.quiet _ he rfl
  · have hstays : ¬(FillsUp t id order ∨ MakerCancels t id order) := by
      rw [← hremoved, hpost]
      exact Option.some_ne_none _
    -- a partial take announces the deal and nothing else
    have hevents : t.output.events
        = [.carbonExchange (order.new_deal id taker amount t.input.now)] := by
      rw [htakes.events, take_events,
        if_pos (show (order.taken amount (order.released amount)).left_amount > 0 from hmore)]
      rfl
    rw [hevents]
    refine ⟨fun hc => absurd (.inl hc) hstays, fun _ => ?_, fun hc => absurd (.inr hc) hstays,
      fun _ => ?_⟩ <;> simp [Order.new_deal]
  · have hfills : FillsUp t id order :=
      ⟨taker, htakes.origin, htakes.call, htakes.succeeded⟩
    have hcancels : ¬MakerCancels t id order := by
      rintro ⟨-, hcall, -⟩
      cases htakes.call.symm.trans hcall
    have hevents : t.output.events = [.carbonExchange (.OrderFinished id),
        .carbonExchange (order.new_deal id taker order.left_amount t.input.now)] := by
      have hnone : ¬(order.taken order.left_amount
          (order.released order.left_amount)).left_amount > 0 := by simp [Order.taken]
      rw [htakes.events, take_events, if_neg hnone]
      rfl
    rw [hevents]
    refine ⟨fun _ => ?_, fun hc => absurd hfills hc, fun hc => absurd hc hcancels, fun _ => ?_⟩ <;>
      simp [Order.new_deal]
  · have hcancel : MakerCancels t id order :=
      ⟨hcancels.origin, hcancels.call, hcancels.succeeded⟩
    have hfills : ¬FillsUp t id order := by
      rintro ⟨taker, -, hcall, -⟩
      cases hcancels.call.symm.trans hcall
    rw [hcancels.events]
    refine ⟨fun hc => absurd hc hfills, fun _ => ?_, fun _ => ?_, fun hc => absurd hcancel hc⟩ <;>
      simp

/-! ## The book over a whole run -/

/-- In every state reached from genesis the order book is well formed and its
orders have been filled by exactly what has been dealt since they were made; and
every transition of the run has removed an order only by filling it up or by its
maker's cancellation, with the one event of that, and has left alone what it did
not name. -/
theorem order_book_invariant {native : AccountId → ℕ} {tr : List (Applied AccountId Hash)}
    {w : World AccountId Hash}
    (hrun : (runtime T).Run (fun _ => True) (genesis native) tr w) :
    (∀ id order, w.Orders.get id = some order →
      WellFormed T w id order ∧ FilledSince tr id order)
    ∧ (∀ t ∈ tr, ∀ id order, t.pre.Orders.get id = some order →
      (t.post.Orders.get id = none ↔ FillsUp t id order ∨ MakerCancels t id order)
      ∧ (FillsUp t id order →
        t.output.events.count (.carbonExchange (.OrderFinished id)) = 1)
      ∧ (¬FillsUp t id order →
        t.output.events.count (.carbonExchange (.OrderFinished id)) = 0)
      ∧ (MakerCancels t id order →
        t.output.events.count (.carbonExchange (.OrderCanceled id)) = 1)
      ∧ (¬MakerCancels t id order →
        t.output.events.count (.carbonExchange (.OrderCanceled id)) = 0))
    ∧ ∀ t ∈ tr, ∀ id, named_order T t.input ≠ some id →
      t.post.Orders.get id = t.pre.Orders.get id := by
  refine ⟨fun id order horder => ⟨?_, ?_⟩, fun t ht id order hpre => ⟨?_, ?_⟩,
    fun t ht id hnamed => ?_⟩
  · exact WellFormedBook.run rfl hrun id order horder
  · exact FilledSince.run rfl hrun id order horder
  · exact removed_iff (outcome_of_mem hrun ht) hpre
  · exact closing_events (outcome_of_mem hrun ht) hpre
  · exact orders_get_of_not_named (outcome_of_mem hrun ht) hnamed

/-- An ask order of three units on the executable chain, one unit of it taken. -/
def devnet_ask : List ℕ := Preimage.encode (.order 1 devnet_asset [] 200 3 0 0)

def devnet_partial_fill : List (Extrinsic ℕ (List ℕ)) :=
  devnet_opening ++
    [⟨.signed 1, 0, .carbonExchange (.make_order devnet_asset [] 200 3 0 0)⟩,
      ⟨.signed 2, 0, .carbonExchange (.take_order devnet_ask 1)⟩]

theorem order_book_invariant_partial_fill :
    FilledSince ((runtime devnet).trace (genesis fun _ => 1000) devnet_partial_fill) devnet_ask
      { asset_id := devnet_asset, money_id := [], maker := 1, amount := 3, price := 200,
        left_amount := 2, direction := 0, locked_balance := 0, salt := 0 } :=
  ((order_book_invariant (devnet_run (fun _ => 1000) devnet_partial_fill)).1 devnet_ask _
    (by decide)).2

end Eco2
