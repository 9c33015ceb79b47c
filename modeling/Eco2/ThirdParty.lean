/-
What a call can do to those who do not sign it.

The exchange spends from the pot under the pot's own origin, an approval writes
over a balance, and a take that fails has already handed units over. None of it
costs a third party anything: whoever neither signs a call nor is the pot ends it
with every balance he had and with every order he had, less what was taken of it.
-/
import Eco2.NativeEscrow

set_option autoImplicit false
set_option linter.unusedSectionVars false

namespace Eco2

variable {AccountId Hash : Type} [DecidableEq AccountId] [DecidableEq Hash]
variable {T : Trait AccountId Hash}

/-- No addition to a carbon balance overflows in the transition. -/
def CarbonNoOverflow (t : Applied AccountId Hash) : Prop :=
  ∀ op ∈ t.output.ops, op.CarbonNoOverflow

instance (t : Applied AccountId Hash) : Decidable (CarbonNoOverflow t) :=
  inferInstanceAs (Decidable (∀ op ∈ t.output.ops, op.CarbonNoOverflow))

/-! ## Carbon balances -/

namespace CarbonAssets

variable {origin : Origin AccountId} {now : Moment} {s s' : Storage AccountId Hash}
  {call : Call AccountId Hash} {events : List (Event AccountId Hash)}
  {ops : List (Op AccountId Hash)} {x : AccountId}

/-- An addition that does not overflow costs nobody anything. -/
theorem balance_le_credit {asset_id : Hash} {account : AccountId} {amount : UInt64}
    (hno : (s.balance asset_id account).toNat + amount.toNat < 2 ^ 64) (a : Hash) :
    s.balance a x ≤ (s.credit asset_id account amount).balance a x := by
  by_cases hcell : a = asset_id ∧ x = account
  · obtain ⟨rfl, rfl⟩ := hcell
    rw [Storage.credit, balance_set_balance_self, UInt64.le_iff_toNat_le, U64.toNat_add_of_lt hno]
    exact Nat.le_add_right _ _
  · rw [Storage.credit, balance_set_balance_of_ne _ _ _ _ hcell]
    exact UInt64.le_refl _

/-- A subtraction costs only the account it is made from. -/
theorem balance_le_debit {account : AccountId} (asset_id : Hash) (amount : UInt64)
    (hx : x ≠ account) (a : Hash) :
    s.balance a x ≤ (s.debit asset_id account amount).balance a x := by
  rw [Storage.debit, balance_set_balance_of_ne _ _ _ _ fun hc => hx hc.2]
  exact UInt64.le_refl _

/-- A transfer costs nobody but the sender. -/
theorem balance_le_move {asset_id : Hash} {from_ to_ : AccountId} {amount : UInt64}
    (hno : ∀ op ∈ s.move_ops asset_id from_ to_ amount, op.CarbonNoOverflow) (hx : x ≠ from_)
    (a : Hash) : s.balance a x ≤ (s.move asset_id from_ to_ amount).balance a x := by
  -- `x` is not the sender; as the receiver he gains, else nothing happens to him
  by_cases hto : x = to_
  · subst hto
    have hadd : Op.carbon (.add (asset_id, x) (s.balance asset_id x) amount)
        ∈ s.move_ops asset_id from_ x amount := by
      rw [Storage.move_ops, if_pos hx.symm]
      simp
    rw [UInt64.le_iff_toNat_le, balance_move_to s asset_id a hx.symm (hno _ hadd)]
    exact Nat.le_add_right _ _
  · rw [balance_move_of_ne _ _ _ _ _ hx hto]
    exact UInt64.le_refl _

/-- A call of the pallet costs nobody but its signer. -/
theorem Step.balance_le (hreg : Registry s) (h : Step T origin now s call s' events ops)
    (hno : ∀ op ∈ ops, op.CarbonNoOverflow) (hx : origin ≠ .signed x) (a : Hash) :
    s.balance a x ≤ s'.balance a x := by
  cases h with
  | approve_asset asset_id asset project horigin hasset hstatus hproject =>
    -- the balance that is overwritten is zero, for nobody holds units yet
    by_cases hcell : a = asset_id ∧ x = project.owner
    · obtain ⟨rfl, rfl⟩ := hcell
      have hnone : s.balance a project.owner = 0 := hreg.unapproved _ _ fun happroved => by
        rw [happroved.status_eq hasset] at hstatus
        cases hstatus
      rw [hnone]
      exact UInt64.zero_le
    · rw [balance_set_balance_of_ne _ _ _ _ hcell]
      exact UInt64.le_refl _
  | approve_issue issue_id issue_info asset project =>
    exact balance_le_credit (s := s) (hno _ List.mem_cons_self) a
  | submit_burn sender asset_id amount additional asset project burn_id horigin =>
    exact balance_le_debit (s := s) asset_id amount (Origin.signer_ne horigin hx).symm a
  | transfer sender asset_id to_ amount horigin =>
    exact balance_le_move hno (Origin.signer_ne horigin hx).symm a
  | neutralize sender asset_id amount additional horigin =>
    exact balance_le_debit asset_id amount (Origin.signer_ne horigin hx).symm a
  | _ => exact UInt64.le_refl _

end CarbonAssets

/-- Nobody but the signer and the pot loses units. -/
theorem Outcome.carbon_le {t : Applied AccountId Hash} (h : Outcome T t) (hreg : Registered t.pre)
    (hno : CarbonNoOverflow t) {x : AccountId} (hx : t.input.origin ≠ .signed x)
    (hpot : x ≠ T.pot_account_id) (a : Hash) :
    t.pre.carbon.balance a x ≤ t.post.carbon.balance a x := by
  cases h with
  | refused => exact UInt64.le_refl _
  | standardAssets => exact UInt64.le_refl _
  | balances_transfer => exact UInt64.le_refl _
  | carbonAssets w origin now call s' events ops hstep =>
    exact hstep.balance_le hreg.carbon hno hx a
  | half_take w origin now call w' e ops hhalf =>
    cases hhalf with
    | take_bid taker order_id amount order horigin =>
      exact CarbonAssets.balance_le_move hno (Origin.signer_ne horigin hx).symm a
  | carbonExchange w origin now call w' events ops hstep =>
    cases hstep with
    | make_ask maker asset_id money_id price amount salt order_id horigin =>
      exact CarbonAssets.balance_le_move hno (Origin.signer_ne horigin hx).symm a
    | make_bid => exact UInt64.le_refl _
    -- the units come out of the pot, whoever signs
    | take_ask taker order_id amount order native horigin =>
      exact CarbonAssets.balance_le_move (fun op hop => hno op (List.mem_cons_of_mem _ hop)) hpot a
    | take_bid taker order_id amount order native horigin =>
      exact CarbonAssets.balance_le_move
        (fun op hop => hno op (List.mem_append_left _ hop)) (Origin.signer_ne horigin hx).symm a
    | cancel_ask order_id order horigin =>
      exact CarbonAssets.balance_le_move hno hpot a
    | cancel_bid => exact UInt64.le_refl _

/-! ## Native balances -/

/-- Nobody but the signer and the pot loses native money. -/
theorem Outcome.native_le (hT : TransferDocumented T.transfer) {t : Applied AccountId Hash}
    (h : Outcome T t) {x : AccountId} (hx : t.input.origin ≠ .signed x)
    (hpot : x ≠ T.pot_account_id) : t.pre.native x ≤ t.post.native x := by
  cases h with
  | refused => exact le_rfl
  | standardAssets => exact le_rfl
  | carbonAssets => exact le_rfl
  | balances_transfer w src now dest value native hnative =>
    exact transfer_le hT hnative (Origin.signer_ne rfl hx).symm
  | half_take w origin now call w' e ops hhalf =>
    cases hhalf with
    | take_bid => exact le_rfl
  | carbonExchange w origin now call w' events ops hstep =>
    cases hstep with
    | make_ask => exact le_rfl
    | make_bid maker asset_id money_id price amount salt order_id native horigin hmoney hprice
        hamount hasset hid hfresh hnative =>
      exact transfer_le hT hnative (Origin.signer_ne horigin hx).symm
    | take_ask taker order_id amount order native horigin horder hleft hdirection hpot' hnative =>
      exact transfer_le hT hnative (Origin.signer_ne horigin hx).symm
    -- the pot pays, under its own origin
    | take_bid taker order_id amount order native horigin horder hleft hdirection hbalance
        hnative => exact transfer_le hT hnative hpot
    | cancel_ask => exact le_rfl
    | cancel_bid order_id order native horigin horder hdirection hnative =>
      exact transfer_le hT hnative hpot

/-! ## Orders -/

/-- What can become of an order of somebody who does not sign: it stays as it is if no
take of it succeeds, and a take of it lowers `left_amount`, and the lock of a bid order,
and removes it when nothing is left. -/
inductive OrderKept (t : Applied AccountId Hash) (id : Hash)
    (order : CarbonExchange.Order AccountId Hash) : Prop
  | same (hpost : t.post.Orders.get id = some order)
      (hother : t.Succeeded → ∀ amount, t.input.call ≠ .carbonExchange (.take_order id amount))
  | taken (amount locked_balance : UInt64)
      (hcall : t.input.call = .carbonExchange (.take_order id amount)) (hok : t.Succeeded)
      (hleft : amount ≤ order.left_amount) (hmore : 0 < order.left_amount - amount)
      (hlock : order.direction = 0 → locked_balance = order.locked_balance)
      (hpost : t.post.Orders.get id = some { order with
        left_amount := order.left_amount - amount
        locked_balance })
  | finished (hcall : t.input.call = .carbonExchange (.take_order id order.left_amount))
      (hok : t.Succeeded) (hpost : t.post.Orders.get id = none)

/-- Nobody but the maker can do more to an order than take it. -/
theorem Outcome.order_kept {t : Applied AccountId Hash} (h : Outcome T t) {id : Hash}
    {order : CarbonExchange.Order AccountId Hash} (hpre : t.pre.Orders.get id = some order)
    (hmaker : t.input.origin ≠ .signed order.maker) : OrderKept t id order := by
  rcases order_fate h hpre with ⟨hpost, huntouched⟩ | ⟨taker, amount, htakes, hmore, hpost⟩ |
    ⟨taker, htakes, hpost⟩ | ⟨hcancels, -⟩
  · exact .same hpost fun hok amount hcall =>
      huntouched.other hok (named_order_of_take hcall)
  · have hlock : order.direction = 0 →
        order.locked_balance - order.released amount = order.locked_balance := fun hask => by
      rw [CarbonExchange.Order.released, if_pos hask, UInt64.sub_zero]
    exact .taken amount _ htakes.call htakes.succeeded htakes.left hmore hlock hpost
  · exact .finished htakes.call htakes.succeeded hpost
  · exact absurd hcancels.origin hmaker

/-! ## A whole run -/

/-- **Nobody takes from a third party.** In a run from genesis in which no addition
to a carbon balance overflows, a call takes nothing from an account that neither
signs it nor is the pot: no units of any asset, no native money, and no order of
that maker except by takes of it. -/
theorem third_party (hT : TransferDocumented T.transfer) {native : AccountId → ℕ}
    {w : World AccountId Hash} {tr : List (Applied AccountId Hash)}
    (hrun : (runtime T).Run CarbonNoOverflow (genesis native) tr w) :
    ∀ t ∈ tr, ∀ x, t.input.origin ≠ .signed x → x ≠ T.pot_account_id →
      (∀ a, t.pre.carbon.balance a x ≤ t.post.carbon.balance a x)
      ∧ t.pre.native x ≤ t.post.native x
      ∧ ∀ id order, t.pre.Orders.get id = some order → order.maker = x →
        OrderKept t id order := by
  intro t ht x hx hpot
  obtain ⟨tr₁, hbefore, -, hno⟩ := hrun.of_mem ht
  have h := outcome_of_mem hrun ht
  refine ⟨h.carbon_le (Registered.run hbefore) hno hx hpot, h.native_le hT hx hpot, ?_⟩
  rintro id order hpre rfl
  exact h.order_kept hpre hx

/-- Account 2's take of account 1's ask order leaves account 1 the rest of it. -/
theorem third_party_partial_fill :
    OrderKept (((runtime devnet).trace (genesis fun _ => 1000) devnet_partial_fill).getLast
        (List.cons_ne_nil _ _)) devnet_ask
      { asset_id := devnet_asset, money_id := [], maker := 1, amount := 3, price := 200,
        left_amount := 3, direction := 0, locked_balance := 0, salt := 0 } := by
  have hrun : (runtime devnet).Run CarbonNoOverflow (genesis fun _ => 1000) _ _ :=
    (devnet_run (fun _ => 1000) devnet_partial_fill).restrict (by decide)
  exact (third_party transferDocumented_documented_transfer hrun _ (List.getLast_mem _) 1
    (by decide) (by decide)).2.2 devnet_ask _ (by decide) rfl

end Eco2
