/-
The native money in the pot.

One account holds the locks of all bid orders. Every payment into it and out of it
is exact, so it would always cover the locks, were it not for the existential
deposit: nothing endows the pot at genesis, its payouts go through a transfer that
allows death, and a payout that leaves a remainder below the deposit reaps the pot
and burns the remainder, which was the lock of somebody else's order.
`solvent_iff` says that this is the only way to lose cover, and that it always is
one.
-/
import Eco2.BidLock

set_option autoImplicit false
set_option linter.unusedSectionVars false

namespace Eco2

open CarbonExchange

variable {AccountId Hash : Type} [DecidableEq AccountId] [DecidableEq Hash]
variable {T : Trait AccountId Hash}

/-! ## Cover -/

/-- The native money a live order has locked. -/
def CarbonExchange.Order.bid_lock (order : Order AccountId Hash) : ℕ :=
  if order.direction = 0 then 0 else order.locked_balance.toNat

/-- The sum of the locks of all live bid orders. -/
def locked (w : World AccountId Hash) : ℕ := w.Orders.sum fun _ order => order.bid_lock

/-- The pot covers the locks of all live bid orders. -/
def Solvent (T : Trait AccountId Hash) (w : World AccountId Hash) : Prop :=
  locked w ≤ w.native T.pot_account_id

instance : DecidablePred (Solvent T) :=
  fun w => inferInstanceAs (Decidable (locked w ≤ w.native T.pot_account_id))

/-- What a call pays out of the pot if it succeeds. -/
def payout (w : World AccountId Hash) : Call AccountId Hash → ℕ
  | .carbonExchange (.take_order order_id amount) =>
      match w.Orders.get order_id with
      | some order => (order.released amount).toNat
      | none => 0
  | .carbonExchange (.cancel_order order_id) =>
      match w.Orders.get order_id with
      | some order => order.bid_lock
      | none => 0
  | _ => 0

/-- The payout leaves the pot at the existential deposit or above, or nothing that
is still locked. -/
def PayoutSafe (T : Trait AccountId Hash) (t : Applied AccountId Hash) : Prop :=
  t.Succeeded → payout t.pre t.input.call = 0
    ∨ ExistentialDeposit ≤ t.pre.native T.pot_account_id - payout t.pre t.input.call
    ∨ locked t.pre = payout t.pre t.input.call

instance : DecidablePred (PayoutSafe T) := fun t =>
  inferInstanceAs (Decidable (t.Succeeded → payout t.pre t.input.call = 0
    ∨ ExistentialDeposit ≤ t.pre.native T.pot_account_id - payout t.pre t.input.call
    ∨ locked t.pre = payout t.pre t.input.call))

/-- The pot does not sign, and what is made fits a `u64`. -/
structure Escrowed (T : Trait AccountId Hash) (t : Applied AccountId Hash) : Prop where
  outside : t.input.origin ≠ .signed T.pot_account_id
  fits : ∀ asset_id money_id price amount direction salt, t.Succeeded →
    t.input.call = .carbonExchange (.make_order asset_id money_id price amount direction salt) →
    amount.toNat * price.toNat < 2 ^ 64

/-! ## Payments -/

section Payments

variable {transfer : (AccountId → ℕ) → AccountId → AccountId → ℕ → Option (AccountId → ℕ)}
  {b b' : AccountId → ℕ} {src dst : AccountId} {value : ℕ}

/-- The receiver of a payment ends with exactly its value more. -/
theorem transfer_receiver (hT : TransferDocumented transfer) (hne : src ≠ dst)
    (h : transfer b src dst value = some b') : b' dst = b dst + value := by
  by_cases hvalue : value = 0
  · cases (hT.noop b src dst value (.inl hvalue)).symm.trans h
    rw [hvalue, Nat.add_zero]
  · exact hT.receiver b src dst value b' hvalue hne h

/-- Nobody but the sender of a payment ends with less. -/
theorem transfer_le (hT : TransferDocumented transfer) (h : transfer b src dst value = some b')
    {x : AccountId} (hx : x ≠ src) : b x ≤ b' x := by
  by_cases hdst : x = dst
  · subst hdst
    rw [transfer_receiver hT hx.symm h]
    exact Nat.le_add_right _ _
  · exact (hT.others b src dst value b' h x hx hdst).ge

/-- Whether a payout keeps the rest of the locks covered. -/
theorem covered_after_payout_iff (hT : TransferDocumented transfer) (hne : src ≠ dst)
    (h : transfer b src dst value = some b') {total : ℕ} (hcover : total ≤ b src)
    (hvalue : value ≤ total) :
    total - value ≤ b' src
      ↔ value = 0 ∨ ExistentialDeposit ≤ b src - value ∨ total = value := by
  by_cases hzero : value = 0
  · cases (hT.noop b src dst value (.inl hzero)).symm.trans h
    exact iff_of_true (by omega) (.inl hzero)
  · -- reaped, the sender covers nothing: fine only if nothing is left to cover
    rw [hT.sender b src dst value b' hzero hne h, reaped]
    split <;> omega

end Payments

/-! ## One transition -/

/-- What a run in which the pot does not sign keeps true of the orders. -/
structure EscrowBook (T : Trait AccountId Hash) (w : World AccountId Hash) : Prop where
  book : WellFormedBook T w
  locks : LocksExact w
  maker : ∀ id order, w.Orders.get id = some order → order.maker ≠ T.pot_account_id
  fits : ∀ id order, w.Orders.get id = some order → order.Fits

theorem EscrowBook.outcome {t : Applied AccountId Hash} (hbook : EscrowBook T t.pre)
    (h : Outcome T t) (hok : Escrowed T t) : EscrowBook T t.post where
  book := hbook.book.outcome h
  locks := hbook.locks.outcome hbook.book h
  maker _ _ horder := maker_ne_outcome hbook.maker h hok.outside horder
  fits id order horder := by
    rcases order_origin h horder with ⟨hold, -⟩ | ⟨-, hmade⟩ | ⟨old, taker, amount, hold, -, -, rfl⟩
    · exact hbook.fits id order hold
    · exact hok.fits _ _ _ _ _ _ hmade.succeeded hmade.call
    · exact hbook.fits id old hold

theorem EscrowBook.run {w₀ w : World AccountId Hash} {tr : List (Applied AccountId Hash)}
    (hempty : w₀.Orders = .empty) (hrun : (runtime T).Run (Escrowed T) w₀ tr w) :
    EscrowBook T w :=
  hrun.state_invariant ⟨forall_orders_of_empty hempty, forall_orders_of_empty hempty,
    forall_orders_of_empty hempty, forall_orders_of_empty hempty⟩ fun w x hbook hok =>
      hbook.outcome (t := (runtime T).fire w x) (outcome_of_fire T w x) hok

theorem bid_lock_of_ask {order : Order AccountId Hash} (hask : order.direction = 0) :
    order.bid_lock = 0 := if_pos hask

theorem bid_lock_of_bid {order : Order AccountId Hash} (hbid : order.IsBid) :
    order.bid_lock = order.locked_balance.toNat := if_neg hbid

/-- A live order's lock is part of all that is locked. -/
theorem bid_lock_le_locked {w : World AccountId Hash} {id : Hash} {order : Order AccountId Hash}
    (h : w.Orders.get id = some order) : order.bid_lock ≤ locked w :=
  StorageMap.le_sum (fun _ order => order.bid_lock) h

/-- Taking an ask order releases nothing. -/
theorem locked_settle_ask {w : World AccountId Hash} {id : Hash} {order : Order AccountId Hash}
    {amount : UInt64} (horder : w.Orders.get id = some order) (hask : order.direction = 0) :
    (settle w.Orders id (order.taken amount 0)).sum (fun _ order => order.bid_lock) = locked w := by
  have hsum := sum_settle (fun _ order => order.bid_lock) horder (order.taken amount 0)
  have htaken : (order.taken amount 0).bid_lock = 0 := bid_lock_of_ask hask
  rwa [bid_lock_of_ask hask, htaken, ite_self, Nat.add_zero, Nat.add_zero] at hsum

/-- Taking a bid order releases what it pays. -/
theorem locked_settle_bid {w : World AccountId Hash} {id : Hash} {order : Order AccountId Hash}
    {amount : UInt64} (horder : w.Orders.get id = some order) (hbid : order.IsBid)
    (hfits : order.Fits) (hlock : order.ExactLock) (hwhole : order.left_amount ≤ order.amount)
    (hleft : amount ≤ order.left_amount) :
    (settle w.Orders id (order.taken amount (order.released amount))).sum
        (fun _ order => order.bid_lock) = locked w - (order.released amount).toNat
      ∧ (order.released amount).toNat ≤ locked w := by
  have hsum := sum_settle (fun _ order => order.bid_lock) horder
    (order.taken amount (order.released amount))
  obtain ⟨hle, -⟩ := exactLock_taken hbid hfits hlock hwhole hleft
  have hlocked := bid_lock_le_locked horder
  have hsub := U64.toNat_sub_add_of_le hle
  rw [bid_lock_of_bid hbid] at hsum hlocked
  rw [UInt64.le_iff_toNat_le] at hle
  have htaken : (order.taken amount (order.released amount)).bid_lock
      = (order.locked_balance - order.released amount).toNat := bid_lock_of_bid hbid
  rw [htaken] at hsum
  change _ = locked w + _ at hsum
  by_cases hmore : 0 < order.left_amount - amount
  · -- written back with the rest of its lock
    rw [if_pos (show 0 < (order.taken amount (order.released amount)).left_amount from hmore)]
      at hsum
    omega
  · -- removed: the last take has released all of the lock
    rw [if_neg (show ¬0 < (order.taken amount (order.released amount)).left_amount from hmore)]
      at hsum
    obtain rfl := eq_left_of_not_pos hleft hmore
    have hall := released_toNat hbid hfits hwhole
    rw [← hlock] at hall
    omega

/-- What the payouts of the pot rest on: exact locks, and makers other than the pot. -/
structure BidBook (T : Trait AccountId Hash) (w : World AccountId Hash) : Prop where
  book : WellFormedBook T w
  locks : LocksExact w
  maker : ∀ id order, w.Orders.get id = some order → order.maker ≠ T.pot_account_id
  fits : ∀ id order, w.Orders.get id = some order → order.IsBid → order.Fits

theorem EscrowBook.bids {w : World AccountId Hash} (h : EscrowBook T w) : BidBook T w :=
  ⟨h.book, h.locks, h.maker, fun id order horder _ => h.fits id order horder⟩

/-- What a transition is to the pot: it gains what it comes to owe, or it pays a
part of what it owes. -/
inductive PotStep (T : Trait AccountId Hash) (t : Applied AccountId Hash) : Prop
  | gained (hpayout : t.Succeeded → payout t.pre t.input.call = 0)
      (hgain : locked t.post + t.pre.native T.pot_account_id
        ≤ locked t.pre + t.post.native T.pot_account_id)
  | paid (dst : AccountId) (hok : t.Succeeded) (hne : T.pot_account_id ≠ dst)
      (hnative : T.transfer t.pre.native T.pot_account_id dst (payout t.pre t.input.call)
        = some t.post.native)
      (hle : payout t.pre t.input.call ≤ locked t.pre)
      (hlocked : locked t.post = locked t.pre - payout t.pre t.input.call)

/-- A transition that the pot does not sign gains or pays. -/
theorem pot_step (hT : TransferDocumented T.transfer) {t : Applied AccountId Hash}
    (h : Outcome T t) (hbook : BidBook T t.pre)
    (houtside : t.input.origin ≠ .signed T.pot_account_id) : PotStep T t := by
  cases h with
  | refused w x e => exact .gained (fun hc => nomatch hc) le_rfl
  | carbonAssets => exact .gained (fun _ => rfl) le_rfl
  | standardAssets => exact .gained (fun _ => rfl) le_rfl
  -- the refused payment has moved no native money
  | half_take w origin now call w' e ops hhalf =>
    cases hhalf with
    | take_bid => exact .gained (fun hc => nomatch hc) le_rfl
  | balances_transfer w src now dest value native hnative =>
    have hpot := transfer_le hT hnative fun hc => houtside (hc ▸ rfl)
    exact .gained (fun _ => rfl) (Nat.add_le_add_left hpot _)
  | carbonExchange w origin now call w' events ops hstep =>
    cases hstep with
    | make_ask maker asset_id money_id price amount salt order_id horigin hmoney hprice hamount
        hasset hid hfresh =>
      apply PotStep.gained
      · exact fun _ => rfl
      show (w.Orders.insert order_id _).sum _ + _ ≤ _
      rw [StorageMap.sum_insert_of_none _ _ hfresh]
      exact le_rfl
    -- the pot receives exactly what it comes to owe
    | make_bid maker asset_id money_id price amount salt order_id native horigin hmoney hprice
        hamount hasset hid hfresh hnative =>
      apply PotStep.gained
      · exact fun _ => rfl
      have hmaker := Origin.signer_ne horigin houtside
      show (w.Orders.insert order_id _).sum _ + _ ≤ _ + (native T.pot_account_id)
      rw [StorageMap.sum_insert_of_none _ _ hfresh, transfer_receiver hT hmaker hnative,
        Nat.add_right_comm, Nat.add_assoc]
      exact le_rfl
    -- the taker pays the maker, past the pot
    | take_ask taker order_id amount order native horigin horder hleft hdirection hpot hnative =>
      have htaker := Origin.signer_ne horigin houtside
      have hreleased : payout w (.carbonExchange (.take_order order_id amount)) = 0 := by
        simp [payout, horder, Order.released, hdirection]
      apply PotStep.gained
      · exact fun _ => hreleased
      show (settle w.Orders order_id _).sum _ + _ ≤ _ + (native T.pot_account_id)
      rw [locked_settle_ask horder hdirection]
      exact Nat.add_le_add_left (transfer_le hT hnative htaker.symm) _
    -- the one payout of a take
    | take_bid taker order_id amount order native horigin horder hleft hdirection hbalance
        hnative =>
      have htaker := Origin.signer_ne horigin houtside
      have hreleased : order.released amount = U64.saturating_mul amount order.price :=
        if_neg hdirection
      rw [← hreleased] at hnative ⊢
      have hpayout : payout w (.carbonExchange (.take_order order_id amount))
          = (order.released amount).toNat := by simp [payout, horder]
      have hfits := hbook.fits order_id order horder hdirection
      obtain ⟨hlocked, hle⟩ := locked_settle_bid horder hdirection hfits
        (hbook.locks order_id order horder hdirection hfits)
        (hbook.book order_id order horder).left_le hleft
      refine .paid taker rfl htaker.symm ?_ ?_ ?_
      · rw [hpayout]
        exact hnative
      · rw [hpayout]
        exact hle
      · rw [hpayout]
        exact hlocked
    | cancel_ask order_id order horigin horder hdirection =>
      have hpayout : payout w (.carbonExchange (.cancel_order order_id)) = 0 := by
        simp [payout, horder, bid_lock_of_ask hdirection]
      apply PotStep.gained
      · exact fun _ => hpayout
      have hsum := StorageMap.sum_remove w.Orders (fun _ order => order.bid_lock) order_id
      rw [horder, StorageMap.weight_some, bid_lock_of_ask hdirection, Nat.add_zero] at hsum
      show (w.Orders.remove order_id).sum _ + _ ≤ _
      rw [hsum]
      exact le_rfl
    -- the refund, a payout like the other
    | cancel_bid order_id order native horigin horder hdirection hnative =>
      have hmaker := hbook.maker order_id order horder
      have hpayout : payout w (.carbonExchange (.cancel_order order_id))
          = order.locked_balance.toNat := by simp [payout, horder, bid_lock_of_bid hdirection]
      have hle := bid_lock_le_locked horder
      have hsum := StorageMap.sum_remove w.Orders (fun _ order => order.bid_lock) order_id
      rw [horder, StorageMap.weight_some, bid_lock_of_bid hdirection] at hsum
      rw [bid_lock_of_bid hdirection] at hle
      have hlocked : (w.Orders.remove order_id).sum (fun _ order => order.bid_lock)
          = locked w - order.locked_balance.toNat := by
        change _ = locked w at hsum
        omega
      refine .paid order.maker rfl hmaker.symm ?_ ?_ ?_
      · rw [hpayout]
        exact hnative
      · rw [hpayout]
        exact hle
      · rw [hpayout]
        exact hlocked

/-- Whether one transition keeps the pot solvent. -/
theorem solvent_post_iff (hT : TransferDocumented T.transfer) {t : Applied AccountId Hash}
    (h : Outcome T t) (hbook : EscrowBook T t.pre) (hok : Escrowed T t)
    (hsolvent : Solvent T t.pre) : Solvent T t.post ↔ PayoutSafe T t := by
  unfold Solvent at hsolvent ⊢
  cases pot_step hT h hbook.bids hok.outside with
  | gained hpayout hgain => exact iff_of_true (by omega) fun hs => .inl (hpayout hs)
  | paid dst hs hne hnative hle hlocked =>
    rw [hlocked, covered_after_payout_iff hT hne hnative hsolvent hle]
    exact ⟨fun hsafe _ => hsafe, fun hsafe => hsafe hs⟩

/-! ## A whole run -/

/-- **Native solvency of the pot.** In a run from an empty order book, in which the
pot does not sign and every order made fits a `u64`, the pot covers all locks in
every state reached if and only if every payout is safe. -/
theorem pot_solvent_iff (hT : TransferDocumented T.transfer) {w₀ w : World AccountId Hash}
    {tr : List (Applied AccountId Hash)} (hempty : w₀.Orders = .empty)
    (hrun : (runtime T).Run (Escrowed T) w₀ tr w) :
    Solvent T w₀ ∧ ((∀ t ∈ tr, Solvent T t.post) ↔ ∀ t ∈ tr, PayoutSafe T t) := by
  have hstart : Solvent T w₀ := by
    unfold Solvent locked
    rw [hempty]
    exact Nat.zero_le _
  refine ⟨hstart, ?_⟩
  apply hrun.forall_good_iff (G := Solvent T) hstart
  intro tr₁ w x hrun hsolvent hok
  exact solvent_post_iff hT (outcome_of_fire T w x) (.run hempty hrun) hok hsolvent

/-- On the executable chain the trade of `devnet_bid_taken` meets the hypotheses. -/
theorem escrowed_devnet_bid_taken (native : ℕ → ℕ) :
    (runtime devnet).Run (Escrowed devnet) (genesis native)
      ((runtime devnet).trace (genesis native) devnet_bid_taken)
      ((runtime devnet).final (genesis native) devnet_bid_taken) := by
  refine Machine.run_trace _ _ fun t ht => ?_
  have hinput := Machine.input_mem_of_mem_trace ht
  simp only [devnet_bid_taken, devnet_opening, List.cons_append, List.nil_append, List.mem_cons,
    List.not_mem_nil, or_false] at hinput
  constructor
  case outside =>
    rcases hinput with h | h | h | h | h | h <;> rw [h] <;> simp [devnet]
  case fits =>
    intro asset_id money_id price amount direction salt _ hcall
    rcases hinput with h | h | h | h | h | h <;> rw [h] at hcall <;> cases hcall
    decide

theorem pot_solvent_bid_taken :
    Solvent devnet (genesis fun _ => 1000)
      ∧ ∀ t ∈ (runtime devnet).trace (genesis fun _ => 1000) devnet_bid_taken,
        Solvent devnet t.post :=
  (pot_solvent_iff transferDocumented_documented_transfer rfl
    (escrowed_devnet_bid_taken fun _ => 1000)).imp_right fun hiff => hiff.mpr (by decide)

/-- **The pot is reaped.** Of the 600 locked in a pot that was never endowed a take
pays 200; the 400 left are below the existential deposit, so they are burned, while
the order still has them locked. -/
theorem pot_insolvent_bid_taken :
    TransferDocumented devnet.transfer
    ∧ (runtime devnet).Run (Escrowed devnet) (genesis fun x => if x = 0 then 0 else 1000)
      ((runtime devnet).trace (genesis fun x => if x = 0 then 0 else 1000) devnet_bid_taken)
      ((runtime devnet).final (genesis fun x => if x = 0 then 0 else 1000) devnet_bid_taken)
    ∧ ¬Solvent devnet
      ((runtime devnet).final (genesis fun x => if x = 0 then 0 else 1000) devnet_bid_taken) :=
  ⟨transferDocumented_documented_transfer, escrowed_devnet_bid_taken _, by decide⟩

end Eco2
