/-
Total supply and balances of the standard assets.

The pallet keeps the two in separate maps and updates them separately. `transfer`,
`mint` and `burn` keep them in step. `issue` overwrites both cells of the new
asset, on the assumption that its identifier has no balances yet; but `mint` takes
any identifier, so an identifier can be minted by others before it is issued, and
their balances are then outside the total supply. `total_supply_exact_iff` says
that this is the only way for the two to part.
-/
import Eco2.Ledger
import Eco2.Runtime

set_option autoImplicit false
set_option linter.unusedSectionVars false

namespace Eco2

namespace StandardAssets

variable {AccountId Hash : Type} [DecidableEq AccountId] [DecidableEq Hash]

/-! ## The units of an asset -/

/-- The sum of the balances of the asset over all accounts. -/
def Storage.held (s : Storage AccountId Hash) (id : Hash) : ℕ := Ledger.held s.Balances id

/-- The total supply of every asset is the sum of its balances. -/
def Storage.Consistent (s : Storage AccountId Hash) : Prop :=
  ∀ id, (s.total_supply id).toNat = s.held id

theorem consistent_empty : (Storage.empty : Storage AccountId Hash).Consistent := fun _ => rfl

section Held

variable (s : Storage AccountId Hash) (id : Hash) (who : AccountId)

theorem held_set_balance_self (value : UInt64) :
    (s.set_balance id who value).held id + (s.balance id who).toNat = s.held id + value.toNat :=
  Ledger.held_insert_self s.Balances id who value

theorem held_set_balance_of_ne {id' : Hash} (value : UInt64) (hne : id ≠ id') :
    (s.set_balance id who value).held id' = s.held id' :=
  Ledger.held_insert_of_ne s.Balances who value hne

@[simp] theorem held_set_total_supply (id' : Hash) (value : UInt64) :
    (s.set_total_supply id value).held id' = s.held id' := rfl

theorem balance_le_held : (s.balance id who).toNat ≤ s.held id :=
  Ledger.balance_le_held s.Balances id who

end Held

/-! ## One step of the pallet -/

variable {T : Trait AccountId Hash} {origin : Origin AccountId} {now : Moment}
  {s s' : Storage AccountId Hash} {call : Call AccountId Hash}
  {events : List (Event AccountId Hash)} {ops : List (CellOp (Cell AccountId Hash))}

/-- If the call issues an asset, then nobody but the issuer holds units of its
identifier. -/
def IssueUnheld (T : Trait AccountId Hash) (origin : Origin AccountId)
    (s : Storage AccountId Hash) : Call AccountId Hash → Prop
  | .issue symbol name decimals max_supply first_supply => ∀ who, origin = .signed who →
      s.held (T.hash_of (.ecrc10 who symbol name decimals max_supply first_supply))
        = (s.balance (T.hash_of (.ecrc10 who symbol name decimals max_supply first_supply))
            who).toNat
  | _ => True

/-- In a consistent ledger what an account holds is covered by the total supply. -/
theorem Storage.Consistent.balance_le (h : s.Consistent) (id : Hash) (who : AccountId) :
    (s.balance id who).toNat ≤ (s.total_supply id).toNat := by
  rw [h id]
  exact balance_le_held s id who

/-- Whether one step keeps the ledger consistent. -/
theorem Step.consistent_iff (hcons : s.Consistent) (h : Step T origin now s call s' events ops)
    (hno : ∀ op ∈ ops, op.NoOverflow) : s'.Consistent ↔ IssueUnheld T origin s call := by
  cases h with
  | issue who symbol name decimals max_supply first_supply asset_id horigin hid hfresh =>
    have hset := held_set_balance_self s asset_id who first_supply
    -- the issuer's own balance is overwritten with the supply, so only others matter
    have hunheld : IssueUnheld T origin s
        (.issue symbol name decimals max_supply first_supply)
        ↔ s.held asset_id = (s.balance asset_id who).toNat := by
      subst horigin hid
      exact ⟨fun h => h who rfl, fun h who' heq => by cases heq; exact h⟩
    rw [hunheld]
    constructor
    · -- consistent afterwards: nothing was held but by the issuer
      intro h
      have hissued := h asset_id
      rw [total_supply_set_total_supply, if_pos rfl] at hissued
      change first_supply.toNat = (s.set_balance asset_id who first_supply).held asset_id
        at hissued
      omega
    · intro hunheld id'
      rw [total_supply_set_total_supply]
      by_cases hid' : id' = asset_id
      · rw [if_pos hid', hid']
        show first_supply.toNat = (s.set_balance asset_id who first_supply).held asset_id
        omega
      · rw [if_neg hid']
        exact (hcons id').trans (held_set_balance_of_ne s asset_id who first_supply
          (Ne.symm hid')).symm
  | transfer who id target amount s₁ horigin hamount hbalance hs₁ =>
    refine iff_of_true (fun id' => ?_) trivial
    have hexact : (s₁.balance id target).toNat + amount.toNat < 2 ^ 64 :=
      hno _ (List.mem_singleton.mpr rfl)
    -- the total supply is not written, and the sum of the balances is kept
    subst hs₁
    exact (hcons id').trans (Ledger.held_transfer s.Balances id id' hbalance hexact).symm
  | mint who id amount horigin =>
    refine iff_of_true (fun id' => ?_) trivial
    have hbalance : (s.balance id who).toNat + amount.toNat < 2 ^ 64 :=
      hno _ List.mem_cons_self
    have hsupply : (s.total_supply id).toNat + amount.toNat < 2 ^ 64 :=
      hno _ (List.mem_cons_of_mem _ List.mem_cons_self)
    have hcredit : (s.set_balance id who (s.balance id who + amount)).held id'
        = s.held id' + if id = id' then amount.toNat else 0 :=
      Ledger.held_credit s.Balances id id' hbalance
    rw [total_supply_set_total_supply, held_set_total_supply, hcredit]
    by_cases hid' : id' = id
    · rw [if_pos hid', if_pos hid'.symm, hid', U64.toNat_add_of_lt hsupply, hcons id]
    · rw [if_neg hid', if_neg (Ne.symm hid'), add_zero]
      exact hcons id'
  | burn who id amount horigin hamount hbalance =>
    refine iff_of_true (fun id' => ?_) trivial
    have hcovered := hcons.balance_le id who
    have hdebit : (s.set_balance id who (s.balance id who - amount)).held id'
        + (if id = id' then amount.toNat else 0) = s.held id' :=
      Ledger.held_debit s.Balances id id' hbalance
    -- the total supply covers the balance, so its subtraction is exact as well
    have hsupply := U64.toNat_sub_add_of_le (UInt64.le_iff_toNat_le.mpr
      ((UInt64.le_iff_toNat_le.mp hbalance).trans hcovered))
    rw [total_supply_set_total_supply, held_set_total_supply]
    by_cases hid' : id' = id
    · rw [if_pos hid'.symm, hid'] at hdebit
      rw [if_pos hid', hid']
      have hid := hcons id
      omega
    · rw [if_neg (Ne.symm hid'), add_zero] at hdebit
      rw [if_neg hid', hdebit]
      exact hcons id'

/-- In a consistent ledger no step subtracts more than there is. -/
theorem Step.sub_le (hcons : s.Consistent) (h : Step T origin now s call s' events ops)
    {cell : Cell AccountId Hash} {before amount : UInt64}
    (hop : CellOp.sub cell before amount ∈ ops) : amount ≤ before := by
  cases h with
  | issue => cases hop
  | transfer => simp at hop
  | mint => simp at hop
  | burn who id amount' horigin hamount hbalance =>
    cases List.mem_singleton.mp hop
    rw [UInt64.le_iff_toNat_le] at hbalance ⊢
    exact hbalance.trans (hcons.balance_le id who)

end StandardAssets

/-! ## A whole run of the chain -/

section Chain

open StandardAssets

variable {AccountId Hash : Type} [DecidableEq AccountId] [DecidableEq Hash]
variable {T : Trait AccountId Hash}

/-- No addition of the pallet overflows in the transition. -/
def StandardNoOverflow (t : Applied AccountId Hash) : Prop :=
  ∀ op ∈ t.output.ops, op.StandardNoOverflow

instance : DecidablePred (@StandardNoOverflow AccountId Hash) :=
  fun t => inferInstanceAs (Decidable (∀ op ∈ t.output.ops, op.StandardNoOverflow))

/-- A successful issue is of an identifier whose units nobody else holds. -/
def IssuesUnheld (T : Trait AccountId Hash) (t : Applied AccountId Hash) : Prop :=
  ∀ call, t.Succeeded → t.input.call = .standardAssets call →
    IssueUnheld T t.input.origin t.pre.standard call

theorem standard_not_mem_move_ops (s : CarbonAssets.Storage AccountId Hash) (asset_id : Hash)
    (from_ to_ : AccountId) (amount : UInt64) (op : CellOp (Cell AccountId Hash)) :
    Op.standard op ∉ s.move_ops asset_id from_ to_ amount := by
  unfold CarbonAssets.Storage.move_ops
  split <;> simp

/-- What a transition is to the standard ledger: one of its steps, or nothing. -/
inductive StandardOutcome (T : Trait AccountId Hash) (t : Applied AccountId Hash) : Prop
  | call (call : StandardAssets.Call AccountId Hash)
      (events : List (StandardAssets.Event AccountId Hash))
      (ops : List (CellOp (Cell AccountId Hash)))
      (hcall : t.input.call = .standardAssets call) (hok : t.Succeeded)
      (hops : t.output.ops = ops.map .standard)
      (hstep : Step T t.input.origin t.input.now t.pre.standard call t.post.standard events ops)
  | idle (hidle : ∀ call, t.Succeeded → t.input.call ≠ .standardAssets call)
      (hops : ∀ op, Op.standard op ∉ t.output.ops)
      (hsame : t.post.standard = t.pre.standard)

theorem Outcome.standard {t : Applied AccountId Hash} (h : Outcome T t) :
    StandardOutcome T t := by
  cases h with
  | refused => exact .idle (fun _ hok => nomatch hok) (by simp) rfl
  | standardAssets w origin now call s' events ops hstep =>
    exact .call call events ops rfl rfl rfl hstep
  | balances_transfer => exact .idle (fun _ _ hc => nomatch hc) (by simp) rfl
  -- the operations of the carbon pallets are on cells of their own
  | carbonAssets w origin now call s' events ops hstep =>
    refine .idle (fun _ _ hc => nomatch hc) (fun op => ?_) rfl
    cases hstep with
    | transfer => exact standard_not_mem_move_ops _ _ _ _ _ op
    | _ => simp
  | half_take w origin now call w' e ops hhalf =>
    cases hhalf with
    | take_bid =>
      exact .idle (fun _ hok => nomatch hok) (standard_not_mem_move_ops _ _ _ _ _) rfl
  | carbonExchange w origin now call w' events ops hstep =>
    cases hstep with
    | _ =>
      exact .idle (fun _ _ hc => nomatch hc) (by simp [standard_not_mem_move_ops]) rfl

/-- Whether one transition keeps the standard ledger consistent. -/
theorem Outcome.consistent_iff {t : Applied AccountId Hash} (h : Outcome T t)
    (hcons : t.pre.standard.Consistent) (hno : StandardNoOverflow t) :
    t.post.standard.Consistent ↔ IssuesUnheld T t := by
  cases h.standard with
  | call call events ops hcall hok hops hstep =>
    have hno' : ∀ op ∈ ops, op.NoOverflow := fun op hop =>
      hno (.standard op) (hops ▸ List.mem_map_of_mem hop)
    rw [hstep.consistent_iff hcons hno']
    constructor
    · intro hunheld call' _ hcall'
      cases hcall.symm.trans hcall'
      exact hunheld
    · exact fun hunheld => hunheld call hok hcall
  | idle hidle hops hsame =>
    rw [hsame]
    exact iff_of_true hcons fun call hok hcall => absurd hcall (hidle call hok)

/-- In a consistent ledger no transition subtracts more than there is. -/
theorem Outcome.standard_sub_le {t : Applied AccountId Hash} (h : Outcome T t)
    (hcons : t.pre.standard.Consistent) {cell : Cell AccountId Hash} {before amount : UInt64}
    (hop : Op.standard (.sub cell before amount) ∈ t.output.ops) : amount ≤ before := by
  cases h.standard with
  | call call events ops hcall hok hops hstep =>
    rw [hops] at hop
    obtain ⟨op, hop, heq⟩ := List.mem_map.mp hop
    cases heq
    exact hstep.sub_le hcons hop
  | idle hidle hops hsame => exact absurd hop (hops _)

/-- **The standard ledger.** In a run from genesis in which no addition overflows,
total supplies and balances agree in every state reached if and only if every
asset issued was one whose units nobody else held; and where they do, no
subtraction underflows. -/
theorem total_supply_exact_iff {native : AccountId → ℕ} {w : World AccountId Hash}
    {tr : List (Applied AccountId Hash)}
    (hrun : (runtime T).Run StandardNoOverflow (genesis native) tr w) :
    ((∀ t ∈ tr, t.post.standard.Consistent) ↔ ∀ t ∈ tr, IssuesUnheld T t)
    ∧ ((∀ t ∈ tr, IssuesUnheld T t) → ∀ t ∈ tr, ∀ cell before amount,
      Op.standard (.sub cell before amount) ∈ t.output.ops → amount ≤ before) := by
  have hiff : (∀ t ∈ tr, t.post.standard.Consistent) ↔ ∀ t ∈ tr, IssuesUnheld T t :=
    hrun.forall_good_iff (G := fun w => w.standard.Consistent) consistent_empty
      fun _ w x _ hcons hno => (outcome_of_fire T w x).consistent_iff hcons hno
  refine ⟨hiff, ?_⟩
  intro hunheld t ht cell before amount hop
  have hcons : t.pre.standard.Consistent :=
    hrun.good_pre (G := fun w => w.standard.Consistent) consistent_empty (hiff.mpr hunheld) ht
  exact (outcome_of_mem hrun ht).standard_sub_le hcons hop

/-- Account 1 issues an asset on the executable chain, mints, sends and burns. -/
def devnet_ecrc10 : List ℕ := Preimage.encode (.ecrc10 1 [] [] 0 100 10)

def devnet_issue_first : List (Extrinsic ℕ (List ℕ)) :=
  [⟨.signed 1, 0, .standardAssets (.issue [] [] 0 100 10)⟩,
    ⟨.signed 1, 0, .standardAssets (.mint devnet_ecrc10 5)⟩,
    ⟨.signed 1, 0, .standardAssets (.transfer devnet_ecrc10 2 3)⟩,
    ⟨.signed 2, 0, .standardAssets (.burn devnet_ecrc10 1)⟩]

theorem total_supply_exact_iff_issue_first :
    (∀ t ∈ (runtime devnet).trace (genesis fun _ => 0) devnet_issue_first,
        t.post.standard.Consistent)
      ↔ ∀ t ∈ (runtime devnet).trace (genesis fun _ => 0) devnet_issue_first,
        IssuesUnheld devnet t :=
  (total_supply_exact_iff (Machine.run_trace _ _ (by decide))).1

/-- Account 2 mints under the identifier before account 1 issues it. -/
def devnet_mint_first : List (Extrinsic ℕ (List ℕ)) :=
  [⟨.signed 2, 0, .standardAssets (.mint devnet_ecrc10 7)⟩,
    ⟨.signed 1, 0, .standardAssets (.issue [] [] 0 100 10)⟩]

/-- **Units outside the total supply.** The issue overwrites the total supply and
the issuer's balance, and leaves what others have minted. -/
theorem mint_first_inconsistent :
    (runtime devnet).Run StandardNoOverflow (genesis fun _ => 0)
      ((runtime devnet).trace (genesis fun _ => 0) devnet_mint_first)
      ((runtime devnet).final (genesis fun _ => 0) devnet_mint_first)
    ∧ (((runtime devnet).final (genesis fun _ => 0) devnet_mint_first).standard.total_supply
        devnet_ecrc10).toNat
      ≠ ((runtime devnet).final (genesis fun _ => 0) devnet_mint_first).standard.held
        devnet_ecrc10 :=
  ⟨Machine.run_trace _ _ (by decide), by decide⟩

end Chain

end Eco2
