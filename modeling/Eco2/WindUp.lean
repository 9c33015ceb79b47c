/-
Winding up the order book.

What the pot holds for others is what it gives back. In a state of the chain, let the
makers cancel their orders one after the other, in any order: every cancellation goes
through, the book is empty in the end, each maker has back the units of its ask orders
and the money that its bid orders have locked, and the pot is left with what it had on
top of its escrow. `Covered` is what a state has to meet for that, and each cancellation
keeps it; so no maker need fear to be the last.

A refund to an account below the existential deposit may be refused by the native
pallet, so a maker of a bid order has to reach the deposit with what it gets.
-/
import Eco2.BidPayout
import Eco2.CarbonEscrow

set_option autoImplicit false
set_option linter.unusedSectionVars false

namespace Eco2

open CarbonExchange

variable {AccountId Hash : Type} [DecidableEq AccountId] [DecidableEq Hash]
variable {T : Trait AccountId Hash}

/-! ## What is given back -/

/-- The native money that the cancellation of an order brings an account. -/
def CarbonExchange.Order.refund (x : AccountId) (order : Order AccountId Hash) : ℕ :=
  if order.maker = x then order.bid_lock else 0

/-- The units of the asset that it brings an account. -/
def CarbonExchange.Order.returned (a : Hash) (x : AccountId) (order : Order AccountId Hash) : ℕ :=
  if order.maker = x then order.offered a else 0

/-- The maker cancels the order. -/
def cancellation (now : Moment) (id : Hash) (order : Order AccountId Hash) :
    Extrinsic AccountId Hash :=
  ⟨.signed order.maker, now, .carbonExchange (.cancel_order id)⟩

/-- What a cancellation leaves. -/
structure Returned (T : Trait AccountId Hash) (w w' : World AccountId Hash) (id : Hash)
    (order : Order AccountId Hash) : Prop where
  orders : w'.Orders = w.Orders.remove id
  native : ∀ x, x ≠ T.pot_account_id → w'.native x = w.native x + order.refund x
  native_pot : w'.native T.pot_account_id + order.bid_lock = w.native T.pot_account_id
  units : ∀ a x, x ≠ T.pot_account_id →
    (w'.carbon.balance a x).toNat = (w.carbon.balance a x).toNat + order.returned a x
  units_pot : ∀ a, (w'.carbon.balance a T.pot_account_id).toNat + order.offered a
    = (w.carbon.balance a T.pot_account_id).toNat
  held : ∀ a, w'.carbon.held a = w.carbon.held a

/-! ## States in which all orders are covered -/

/-- The pot covers all orders, in native money and in units. -/
structure Covered (T : Trait AccountId Hash) (w : World AccountId Hash) : Prop where
  bids : BidBook T w
  endowed : Endowed T w
  units : ∀ a, offered w a ≤ (w.carbon.balance a T.pot_account_id).toNat
  bounded : ∀ a, w.carbon.held a < 2 ^ 64

/-- The pot does not sign, the bid orders made fit a `u64`, and no asset has more units than
a `u64` can count. -/
structure Backed (T : Trait AccountId Hash) (t : Applied AccountId Hash) : Prop
    extends BidsEscrowed T t, Potted T t

theorem Covered.run (hT : TransferDocumented T.transfer) {native : AccountId → ℕ}
    {tr : List (Applied AccountId Hash)} {w : World AccountId Hash}
    (hpot : ExistentialDeposit ≤ native T.pot_account_id)
    (hrun : (runtime T).Run (Backed T) (genesis native) tr w) : Covered T w where
  bids := .run rfl (hrun.mono fun _ h => h.toBidsEscrowed)
  endowed := .run hT rfl hpot (hrun.mono fun _ h => h.toBidsEscrowed)
  units := offered_le (hrun.mono fun _ h => h.toPotted)
  bounded := bounded_run (hrun.mono fun _ h => h.toPotted)

section Cancel

variable {w : World AccountId Hash} {id : Hash} {order : Order AccountId Hash}

theorem refund_of_ask (hask : order.direction = 0) (x : AccountId) : order.refund x = 0 := by
  unfold Order.refund
  rw [bid_lock_of_ask hask, ite_self]

theorem returned_of_bid (hbid : order.IsBid) (a : Hash) (x : AccountId) :
    order.returned a x = 0 := by
  unfold Order.returned
  rw [offered_of_bid hbid, ite_self]

/-- The units of an ask order come back. -/
theorem Covered.returned_ask (h : Covered T w) (horder : w.Orders.get id = some order)
    (hask : order.direction = 0) : Returned T w
      { w with
        carbon := w.carbon.move order.asset_id T.pot_account_id order.maker order.left_amount
        Orders := w.Orders.remove id } id order := by
  have hmaker := (h.bids.maker id order horder).symm
  have hleft : order.left_amount ≤ w.carbon.balance order.asset_id T.pot_account_id :=
    UInt64.le_iff_toNat_le.mpr ((left_le_offered horder hask).trans (h.units _))
  have hlt := CarbonAssets.add_lt_of_le_balance hmaker hleft (h.bounded _)
  constructor
  case orders => rfl
  case native =>
    intro x _
    rw [refund_of_ask hask, Nat.add_zero]
  case native_pot => rw [bid_lock_of_ask hask, Nat.add_zero]
  case units =>
    intro a x hx
    unfold Order.returned
    by_cases hxm : order.maker = x
    · subst hxm
      rw [if_pos rfl, offered_of_ask hask]
      exact CarbonAssets.balance_move_to w.carbon order.asset_id a hmaker hlt
    · rw [if_neg hxm, Nat.add_zero]
      exact congrArg UInt64.toNat
        (CarbonAssets.balance_move_of_ne w.carbon order.asset_id a x order.left_amount hx
          (Ne.symm hxm))
  case units_pot =>
    intro a
    rw [offered_of_ask hask]
    exact CarbonAssets.balance_move_from w.carbon order.asset_id a hmaker hleft
  case held => exact fun a => CarbonAssets.held_move w.carbon a order.asset_id hleft (h.bounded _)

/-- The refund of a bid order goes through, where its maker exists with it. -/
theorem Covered.refund_accepted (hT : TransferDocumented T.transfer)
    (hA : TransferAccepts T.transfer) (h : Covered T w) (horder : w.Orders.get id = some order)
    (hmaker : ExistentialDeposit ≤ w.native order.maker + order.bid_lock) :
    ∃ native, T.transfer w.native T.pot_account_id order.maker order.bid_lock = some native := by
  have hendowed := h.endowed
  have hle := bid_lock_le_locked horder
  unfold Endowed at hendowed
  by_cases hzero : order.bid_lock = 0
  · exact ⟨w.native, hT.noop _ _ _ _ (.inl hzero)⟩
  · refine hA.accepts _ _ _ _ hzero (h.bids.maker id order horder).symm ?_ hmaker
    omega

/-- The money of a bid order comes back. -/
theorem Covered.returned_bid (hT : TransferDocumented T.transfer) (h : Covered T w)
    (horder : w.Orders.get id = some order) (hbid : order.IsBid) {native : AccountId → ℕ}
    (hnative : T.transfer w.native T.pot_account_id order.maker order.bid_lock = some native) :
    Returned T w { w with native, Orders := w.Orders.remove id } id order := by
  have hmaker := (h.bids.maker id order horder).symm
  constructor
  case orders => rfl
  case native =>
    intro x hx
    unfold Order.refund
    by_cases hxm : order.maker = x
    · subst hxm
      rw [if_pos rfl]
      exact transfer_receiver hT hmaker hnative
    · rw [if_neg hxm, Nat.add_zero]
      exact hT.others _ _ _ _ _ hnative x hx (Ne.symm hxm)
  case native_pot =>
    have hendowed := h.endowed
    have hle := bid_lock_le_locked horder
    unfold Endowed at hendowed
    change native T.pot_account_id + _ = _
    by_cases hzero : order.bid_lock = 0
    · rw [hzero] at hnative ⊢
      rw [← Option.some.inj ((hT.noop _ _ _ _ (.inl rfl)).symm.trans hnative), Nat.add_zero]
    · -- the deposit stays, so the pot is not reaped
      rw [hT.sender _ _ _ _ _ hzero hmaker hnative, reaped, if_neg (by omega)]
      omega
  case units =>
    intro a x _
    rw [returned_of_bid hbid, Nat.add_zero]
  case units_pot =>
    intro a
    rw [offered_of_bid hbid, Nat.add_zero]
  case held => exact fun _ => rfl

/-- The maker of a live order can cancel it, and has back what it has put in. -/
theorem Covered.cancel (hT : TransferDocumented T.transfer) (hA : TransferAccepts T.transfer)
    (h : Covered T w) (horder : w.Orders.get id = some order)
    (hmaker : order.IsBid → ExistentialDeposit ≤ w.native order.maker + order.bid_lock)
    (now : Moment) : Applied.Succeeded ((runtime T).fire w (cancellation now id order))
      ∧ Returned T w ((runtime T).fire w (cancellation now id order)).post id order := by
  by_cases hask : order.direction = 0
  · have hfire := fire_of_ok T (x := cancellation now id order)
      (CarbonExchange.dispatch_of_cancel_ask (c := ⟨w, now, [], []⟩) horder hask)
    rw [hfire]
    exact ⟨rfl, h.returned_ask horder hask⟩
  · obtain ⟨native, hnative⟩ := h.refund_accepted hT hA horder (hmaker hask)
    have hlock := bid_lock_of_bid hask
    have hfire := fire_of_ok T (x := cancellation now id order)
      (CarbonExchange.dispatch_of_cancel_bid (c := ⟨w, now, [], []⟩) horder hask (hlock ▸ hnative))
    rw [hfire]
    exact ⟨rfl, h.returned_bid hT horder hask hnative⟩

/-- Every cancellation leaves the rest covered. -/
theorem Covered.of_returned (hT : TransferDocumented T.transfer) (h : Covered T w)
    (horder : w.Orders.get id = some order) {now : Moment}
    (hreturned : Returned T w ((runtime T).fire w (cancellation now id order)).post id order) :
    Covered T ((runtime T).fire w (cancellation now id order)).post := by
  have hok : BidsEscrowed T ((runtime T).fire w (cancellation now id order)) := by
    refine ⟨fun horigin => ?_, fun _ _ _ _ _ _ hcall => nomatch hcall⟩
    injection horigin with hraw
    injection hraw with hmaker
    exact h.bids.maker id order horder hmaker
  have hout := outcome_of_fire T w (cancellation now id order)
  constructor
  · exact BidBook.outcome h.bids hout hok
  · exact Endowed.outcome hT h.endowed hout h.bids hok
  · intro a
    have hsum := StorageMap.sum_remove w.Orders (fun _ other => other.offered a) id
    rw [horder, StorageMap.weight_some] at hsum
    have hpot := hreturned.units_pot a
    have hcover := h.units a
    unfold offered at hcover ⊢
    rw [hreturned.orders]
    omega
  · intro a
    rw [hreturned.held]
    exact h.bounded a

end Cancel

/-! ## The whole book -/

/-- The makers cancel the orders, one after the other. -/
def cancellations (w : World AccountId Hash) (now : Hash → Moment) (ids : List Hash) :
    List (Extrinsic AccountId Hash) :=
  ids.filterMap fun id => (w.Orders.get id).map (cancellation (now id) id)

/-- All is given back. -/
structure WoundUp (T : Trait AccountId Hash) (w : World AccountId Hash)
    (xs : List (Extrinsic AccountId Hash)) : Prop where
  succeeded : ∀ t ∈ (runtime T).trace w xs, Applied.Succeeded t
  orders : ((runtime T).final w xs).Orders = .empty
  native : ∀ x, x ≠ T.pot_account_id →
    ((runtime T).final w xs).native x = w.native x + w.Orders.sum fun _ order => order.refund x
  native_pot : ((runtime T).final w xs).native T.pot_account_id + locked w
    = w.native T.pot_account_id
  units : ∀ a x, x ≠ T.pot_account_id → (((runtime T).final w xs).carbon.balance a x).toNat
    = (w.carbon.balance a x).toNat + w.Orders.sum fun _ order => order.returned a x
  units_pot : ∀ a, (((runtime T).final w xs).carbon.balance a T.pot_account_id).toNat + offered w a
    = (w.carbon.balance a T.pot_account_id).toNat

section Book

variable {w : World AccountId Hash} {now : Hash → Moment} {ids : List Hash}

theorem cancellations_cons {id : Hash} {order : Order AccountId Hash}
    (horder : w.Orders.get id = some order) (hid : id ∉ ids) {w' : World AccountId Hash}
    (horders : w'.Orders = w.Orders.remove id) :
    cancellations w now (id :: ids)
      = cancellation (now id) id order :: cancellations w' now ids := by
  have hsame : cancellations w now ids = cancellations w' now ids := by
    refine List.filterMap_congr fun id' hid' => ?_
    rw [horders, StorageMap.get_remove_of_ne]
    exact fun heq => hid (heq ▸ hid')
  rw [← hsame]
  unfold cancellations
  rw [List.filterMap_cons_some]
  rw [horder]
  rfl

theorem Covered.all_returned (hT : TransferDocumented T.transfer) (hA : TransferAccepts T.transfer)
    (h : Covered T w) (hnodup : ids.Nodup) (hids : ∀ id, id ∈ ids ↔ w.Orders.get id ≠ none)
    (hmaker : ∀ id order, w.Orders.get id = some order → order.IsBid →
      ExistentialDeposit ≤ w.native order.maker + order.bid_lock) :
    WoundUp T w (cancellations w now ids) := by
  induction ids generalizing w with
  | nil =>
    have hempty : w.Orders = .empty := by
      refine StorageMap.ext_get fun id => ?_
      by_contra hne
      exact List.not_mem_nil ((hids id).mpr hne)
    have hsum (f : Hash → Order AccountId Hash → ℕ) : w.Orders.sum f = 0 := by
      rw [hempty]
      rfl
    constructor
    case succeeded => exact List.forall_mem_nil _
    case orders => exact hempty
    case native =>
      intro x _
      rw [hsum]
      rfl
    case native_pot =>
      unfold locked
      rw [hsum]
      rfl
    case units =>
      intro a x _
      rw [hsum]
      rfl
    case units_pot =>
      intro a
      unfold offered
      rw [hsum]
      rfl
  | cons id ids ih =>
    obtain ⟨hid, hrest⟩ := List.nodup_cons.mp hnodup
    obtain ⟨order, horder⟩ := Option.ne_none_iff_exists'.mp ((hids id).mp List.mem_cons_self)
    obtain ⟨hsucceeded, hreturned⟩ := h.cancel hT hA horder (hmaker id order horder) (now id)
    have hcovered := h.of_returned hT horder hreturned
    rw [cancellations_cons horder hid hreturned.orders]
    change WoundUp T w (_ :: cancellations
      ((runtime T).fire w (cancellation (now id) id order)).post now ids)
    have hids' (id' : Hash) : id' ∈ ids ↔
        ((runtime T).fire w (cancellation (now id) id order)).post.Orders.get id' ≠ none := by
      rw [hreturned.orders, StorageMap.get_remove]
      split
      · rename_i heq
        exact iff_of_false (heq ▸ hid) fun hne => hne rfl
      · rename_i hne
        rw [← hids, List.mem_cons, or_iff_right hne]
    have hmaker' (id' : Hash) (other : Order AccountId Hash)
        (hother : ((runtime T).fire w (cancellation (now id) id order)).post.Orders.get id'
          = some other) (hbid : other.IsBid) : ExistentialDeposit
          ≤ ((runtime T).fire w (cancellation (now id) id order)).post.native other.maker
            + other.bid_lock := by
      rw [hreturned.orders, StorageMap.get_remove] at hother
      split at hother
      · cases hother
      · rw [hreturned.native _ (h.bids.maker id' other hother)]
        have hbefore := hmaker id' other hother hbid
        omega
    have hwound := ih hcovered hrest hids' hmaker'
    have hsum (f : Hash → Order AccountId Hash → ℕ) :
        ((runtime T).fire w (cancellation (now id) id order)).post.Orders.sum f + f id order
          = w.Orders.sum f := by
      have hremove := StorageMap.sum_remove w.Orders f id
      rwa [horder, StorageMap.weight_some, ← hreturned.orders] at hremove
    constructor
    case succeeded => exact List.forall_mem_cons.mpr ⟨hsucceeded, hwound.succeeded⟩
    case orders => exact hwound.orders
    case native =>
      intro x hx
      have hall := hsum fun _ order => order.refund x
      refine (hwound.native x hx).trans ?_
      rw [hreturned.native x hx]
      omega
    case native_pot =>
      have hall := hsum fun _ order => order.bid_lock
      have hothers := hwound.native_pot
      have hfirst := hreturned.native_pot
      unfold locked at hothers ⊢
      rw [← hall, ← hfirst, ← hothers]
      exact (Nat.add_assoc _ _ _).symm
    case units =>
      intro a x hx
      have hall := hsum fun _ order => order.returned a x
      refine (hwound.units a x hx).trans ?_
      rw [hreturned.units a x hx]
      omega
    case units_pot =>
      intro a
      have hall := hsum fun _ order => order.offered a
      have hothers := hwound.units_pot a
      have hfirst := hreturned.units_pot a
      unfold offered at hothers ⊢
      rw [← hall, ← hfirst, ← hothers]
      exact (Nat.add_assoc _ _ _).symm

end Book

/-- **Winding up.** In every state of a run in which the pot starts with the existential
deposit and does not sign, the bid orders made fit a `u64`, and no asset has more units
than a `u64` can count: if each maker of a bid order reaches the existential deposit with
its refund, the makers can cancel all orders, in any order. All is given back, and of each
asset the pot keeps what it was sent by transfers. -/
theorem wound_up (hT : TransferDocumented T.transfer) (hA : TransferAccepts T.transfer)
    {native : AccountId → ℕ} {tr : List (Applied AccountId Hash)} {w : World AccountId Hash}
    (hpot : ExistentialDeposit ≤ native T.pot_account_id)
    (hrun : (runtime T).Run (Backed T) (genesis native) tr w) (now : Hash → Moment)
    {ids : List Hash} (hnodup : ids.Nodup) (hids : ids.toFinset = w.Orders.keys)
    (hmaker : ∀ id order, w.Orders.get id = some order → order.IsBid →
      ExistentialDeposit ≤ w.native order.maker + order.bid_lock) :
    WoundUp T w (cancellations w now ids)
    ∧ ∀ a, (((runtime T).final w (cancellations w now ids)).carbon.balance a
        T.pot_account_id).toNat = total_flow (sent_to T.pot_account_id a) tr := by
  have hmem (id : Hash) : id ∈ ids ↔ w.Orders.get id ≠ none := by
    rw [← List.mem_toFinset, hids, w.Orders.mem_keys, Option.isSome_iff_ne_none]
  have hwound : WoundUp T w (cancellations w now ids) :=
    (Covered.run hT hpot hrun).all_returned hT hA hnodup hmem hmaker
  refine ⟨hwound, fun a => ?_⟩
  have hpotted := potted (hrun.mono fun _ h => h.toPotted) a
  have hunits := hwound.units_pot a
  omega

/-- An ask order and a bid order of the executable chain. -/
def devnet_two_orders : List (Extrinsic ℕ (List ℕ)) :=
  devnet_opening ++
    [⟨.signed 1, 0, .carbonExchange (.make_order devnet_asset [] 200 3 0 0)⟩,
      ⟨.signed 2, 0, .carbonExchange (.make_order devnet_asset [] 200 3 1 0)⟩]

theorem backed_devnet_two_orders :
    (runtime devnet).Run (Backed devnet) (genesis fun _ => 1000)
      ((runtime devnet).trace (genesis fun _ => 1000) devnet_two_orders)
      ((runtime devnet).final (genesis fun _ => 1000) devnet_two_orders) := by
  have houtside : ∀ t ∈ (runtime devnet).trace (genesis fun _ => 1000) devnet_two_orders,
      t.input.origin ≠ .signed 0 := by decide
  have htotal : ∀ t ∈ (runtime devnet).trace (genesis fun _ => 1000) devnet_two_orders,
      (t.post.carbon.Balances.sum fun _ v => v.toNat) < 2 ^ 64 := by decide
  refine (devnet_run _ _).restrict fun t ht => ?_
  refine ⟨⟨houtside t ht, fun a m p n s _ hcall => ?_⟩, fun a =>
    (held_le_total t.post.carbon a).trans_lt (htotal t ht)⟩
  have hinput := Machine.input_mem_of_mem_trace ht
  simp only [devnet_two_orders, devnet_opening, List.cons_append, List.nil_append, List.mem_cons,
    List.not_mem_nil, or_false] at hinput
  rcases hinput with h | h | h | h | h | h <;> rw [h] at hcall <;> cases hcall
  decide

/-- The later order is cancelled first. -/
theorem wound_up_two_orders :
    WoundUp devnet ((runtime devnet).final (genesis fun _ => 1000) devnet_two_orders)
      (cancellations ((runtime devnet).final (genesis fun _ => 1000) devnet_two_orders)
        (fun _ => 0) [devnet_bid, devnet_ask]) := by
  have hmakers : ∀ id ∈ ((runtime devnet).final (genesis fun _ => 1000)
      devnet_two_orders).Orders.keys, ∀ order ∈ ((runtime devnet).final (genesis fun _ => 1000)
        devnet_two_orders).Orders.get id, ExistentialDeposit
      ≤ ((runtime devnet).final (genesis fun _ => 1000) devnet_two_orders).native order.maker
        + order.bid_lock := by decide
  refine (wound_up transferDocumented_documented_transfer transferAccepts_documented_transfer
    (by decide) backed_devnet_two_orders (fun _ => 0) (by decide) (by decide) ?_).1
  intro id order horder _
  exact hmakers id ((StorageMap.mem_keys _ id).mpr (Option.isSome_of_eq_some horder)) order horder

end Eco2
