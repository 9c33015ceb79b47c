/-
The supply cap of the standard assets.

`issue` stores a `max_supply` with the asset, and nothing ever reads it again: the
first supply is not compared with it, and neither is what `mint` adds. So the cap
holds as long as the callers keep it themselves. `supply_capped_iff` says what that
takes of each call, in wrapping arithmetic and with the balances that an identifier
may have had before it was issued.
-/
import Eco2.StandardLedger

set_option autoImplicit false
set_option linter.unusedSectionVars false

namespace Eco2

namespace StandardAssets

variable {AccountId Hash : Type} [DecidableEq AccountId] [DecidableEq Hash]

/-! ## The cap -/

/-- Total supply and balances of `id` are within its maximal supply, if it is an asset. -/
def Storage.CappedAt (s : Storage AccountId Hash) (id : Hash) : Prop :=
  ∀ asset_info, s.AssetInfos.get id = some asset_info →
    s.total_supply id ≤ asset_info.max_supply ∧ s.held id ≤ asset_info.max_supply.toNat

/-- Total supply and balances of every asset are within its maximal supply. -/
def Storage.Capped (s : Storage AccountId Hash) : Prop := ∀ id, s.CappedAt id

/-- The call takes no asset over its maximal supply. The additions may wrap, and a
subtraction from the total supply as well. -/
def WithinCap (T : Trait AccountId Hash) (origin : Origin AccountId)
    (s : Storage AccountId Hash) : Call AccountId Hash → Prop
  | .issue symbol name decimals max_supply first_supply => ∀ who, origin = .signed who →
      s.held (T.hash_of (.ecrc10 who symbol name decimals max_supply first_supply))
          + first_supply.toNat
        ≤ max_supply.toNat
          + (s.balance (T.hash_of (.ecrc10 who symbol name decimals max_supply first_supply))
              who).toNat
  | .mint id amount => ∀ who, origin = .signed who →
      ∀ asset_info, s.AssetInfos.get id = some asset_info →
      ((s.total_supply id).toNat + amount.toNat ≤ asset_info.max_supply.toNat
          ∨ 2 ^ 64 ≤ (s.total_supply id).toNat + amount.toNat)
        ∧ (s.held id + amount.toNat ≤ asset_info.max_supply.toNat
          ∨ 2 ^ 64 ≤ (s.balance id who).toNat + amount.toNat)
  | .burn id amount => ∀ asset_info, s.AssetInfos.get id = some asset_info →
      amount ≤ s.total_supply id
        ∨ (s.total_supply id).toNat + 2 ^ 64 ≤ asset_info.max_supply.toNat + amount.toNat
  | .transfer _ _ _ => True

/-- The simple reading of the cap: a first supply within it, and a mint up to it. -/
def WithinCapExactly (s : Storage AccountId Hash) : Call AccountId Hash → Prop
  | .issue _ _ _ max_supply first_supply => first_supply ≤ max_supply
  | .mint id amount => ∀ asset_info, s.AssetInfos.get id = some asset_info →
      (s.total_supply id).toNat + amount.toNat ≤ asset_info.max_supply.toNat
  | _ => True

/-! ## One step of the pallet -/

section Steps

variable {T : Trait AccountId Hash} {origin : Origin AccountId} {now : Moment}
  {s s' : Storage AccountId Hash} {call : Call AccountId Hash}
  {events : List (Event AccountId Hash)} {ops : List (CellOp (Cell AccountId Hash))}

theorem Storage.Capped.empty : (Storage.empty : Storage AccountId Hash).Capped :=
  fun _ _ h => nomatch h

/-- Writing a balance and the total supply of an asset puts only its own cap at stake. -/
theorem capped_set_iff {id : Hash} (hothers : ∀ id', id' ≠ id → s.CappedAt id')
    (who : AccountId) (balance total : UInt64) :
    ((s.set_balance id who balance).set_total_supply id total).Capped
      ↔ ∀ asset_info, s.AssetInfos.get id = some asset_info →
        total.toNat ≤ asset_info.max_supply.toNat
          ∧ (s.set_balance id who balance).held id ≤ asset_info.max_supply.toNat := by
  constructor
  · intro hcap asset_info hinfo
    have h := hcap id asset_info hinfo
    rwa [total_supply_set_total_supply, if_pos rfl, held_set_total_supply,
      UInt64.le_iff_toNat_le] at h
  · intro h id' asset_info hinfo
    by_cases hid : id' = id
    · subst hid
      rw [total_supply_set_total_supply, if_pos rfl, held_set_total_supply,
        UInt64.le_iff_toNat_le]
      exact h asset_info hinfo
    · rw [total_supply_set_total_supply, if_neg hid, total_supply_set_balance,
        held_set_total_supply, held_set_balance_of_ne s id who balance (Ne.symm hid)]
      exact hothers id' hid asset_info hinfo

/-- What is held after a mint. A balance that wraps leaves less of it than there was. -/
theorem held_mint_le_iff (s : Storage AccountId Hash) (id : Hash) (who : AccountId)
    (amount : UInt64) {max : ℕ} (h : s.held id ≤ max) :
    (s.set_balance id who (s.balance id who + amount)).held id ≤ max
      ↔ s.held id + amount.toNat ≤ max
        ∨ 2 ^ 64 ≤ (s.balance id who).toNat + amount.toNat := by
  have hset := held_set_balance_self s id who (s.balance id who + amount)
  have hle := balance_le_held s id who
  have hlt := amount.toNat_lt
  by_cases hwrap : (s.balance id who).toNat + amount.toNat < 2 ^ 64
  · rw [U64.toNat_add_of_lt hwrap] at hset
    omega
  · have hwrapped := U64.toNat_add_of_ge (Nat.le_of_not_lt hwrap)
    omega

/-- Whether one step keeps the caps. -/
theorem Step.capped_iff (hcap : s.Capped) (h : Step T origin now s call s' events ops) :
    s'.Capped ↔ WithinCap T origin s call := by
  cases h with
  | issue who symbol name decimals max_supply first_supply asset_id horigin hid hfresh =>
    have hset := held_set_balance_self s asset_id who first_supply
    have hle := balance_le_held s asset_id who
    rw [capped_set_iff]
    · subst horigin hid
      rw [StorageMap.get_insert_self]
      change (∀ asset_info, _ → _ ∧ (s.set_balance _ who first_supply).held _ ≤ _) ↔ _
      constructor
      · intro h who' heq
        cases heq
        obtain ⟨-, hheld⟩ := h _ rfl
        dsimp only at hheld
        omega
      · intro h asset_info hinfo
        cases hinfo
        have hwho := h who rfl
        dsimp only
        omega
    -- the other assets keep their entry
    · intro id' hid' asset_info hinfo
      exact hcap id' asset_info ((StorageMap.get_insert_of_ne _ _ hid').symm.trans hinfo)
  | transfer who id target amount s₁ horigin hamount hbalance hs₁ =>
    subst hs₁
    refine iff_of_true ?_ trivial
    intro id' asset_info hinfo
    obtain ⟨htotal, hheld⟩ := hcap id' asset_info hinfo
    exact ⟨htotal, (Ledger.held_transfer_le s.Balances id id' hbalance).trans hheld⟩
  | mint who id amount horigin =>
    subst horigin
    rw [capped_set_iff fun id' _ => hcap id']
    constructor
    · intro h who' heq asset_info hinfo
      cases heq
      obtain ⟨htotal, hheld⟩ := hcap id asset_info hinfo
      obtain ⟨htotal', hheld'⟩ := h asset_info hinfo
      exact ⟨(U64.toNat_add_le_iff htotal).mp htotal',
        (held_mint_le_iff s id who amount hheld).mp hheld'⟩
    · intro h asset_info hinfo
      obtain ⟨htotal, hheld⟩ := hcap id asset_info hinfo
      obtain ⟨htotal', hheld'⟩ := h who rfl asset_info hinfo
      exact ⟨(U64.toNat_add_le_iff htotal).mpr htotal',
        (held_mint_le_iff s id who amount hheld).mpr hheld'⟩
  | burn who id amount horigin hamount hbalance =>
    have hset := held_set_balance_self s id who (s.balance id who - amount)
    have hsub := U64.toNat_sub_add_of_le hbalance
    rw [capped_set_iff fun id' _ => hcap id']
    -- the balances only shrink, the total supply may wrap
    constructor
    · intro h asset_info hinfo
      obtain ⟨htotal, -⟩ := hcap id asset_info hinfo
      exact (U64.toNat_sub_le_iff htotal).mp (h asset_info hinfo).1
    · intro h asset_info hinfo
      obtain ⟨htotal, hheld⟩ := hcap id asset_info hinfo
      exact ⟨(U64.toNat_sub_le_iff htotal).mpr (h asset_info hinfo), by omega⟩

/-- In a consistent ledger, where no addition overflows and an issue is of unheld
units, the cap asks of a call what it seems to ask. -/
theorem Step.within_cap_iff (hcons : s.Consistent) (h : Step T origin now s call s' events ops)
    (hno : ∀ op ∈ ops, op.NoOverflow) (hunheld : IssueUnheld T origin s call) :
    WithinCap T origin s call ↔ WithinCapExactly s call := by
  cases h with
  | issue who symbol name decimals max_supply first_supply asset_id horigin hid hfresh =>
    subst horigin
    have hheld := hunheld who rfl
    change _ ↔ first_supply ≤ max_supply
    rw [UInt64.le_iff_toNat_le]
    constructor
    · intro h
      have hwho := h who rfl
      omega
    · intro hle who' heq
      cases heq
      omega
  | transfer => exact Iff.rfl
  | mint who id amount horigin =>
    subst horigin
    have hbalance : (s.balance id who).toNat + amount.toNat < 2 ^ 64 :=
      hno (.add (.balance id who) (s.balance id who) amount) (by simp)
    have htotal : (s.total_supply id).toNat + amount.toNat < 2 ^ 64 :=
      hno (.add (.total_supply id) (s.total_supply id) amount) (by simp)
    have hid := hcons id
    constructor
    · intro h asset_info hinfo
      have hwho := h who rfl asset_info hinfo
      omega
    · intro h who' heq asset_info hinfo
      cases heq
      have hle := h asset_info hinfo
      omega
  | burn who id amount horigin hamount hbalance =>
    refine iff_of_true ?_ trivial
    intro asset_info hinfo
    rw [UInt64.le_iff_toNat_le] at hbalance ⊢
    exact .inl (hbalance.trans (hcons.balance_le id who))

end Steps

end StandardAssets

/-! ## The chain -/

section Chain

open StandardAssets

variable {AccountId Hash : Type} [DecidableEq AccountId] [DecidableEq Hash]
variable {T : Trait AccountId Hash}

/-- No successful call takes an asset over its maximal supply. -/
def WithinCaps (T : Trait AccountId Hash) (t : Applied AccountId Hash) : Prop :=
  ∀ call, t.Succeeded → t.input.call = .standardAssets call →
    WithinCap T t.input.origin t.pre.standard call

/-- Every successful issue and mint is within the maximal supply. -/
def WithinCapsExactly (t : Applied AccountId Hash) : Prop :=
  ∀ call, t.Succeeded → t.input.call = .standardAssets call →
    WithinCapExactly t.pre.standard call

/-- Whether one transition keeps the caps. -/
theorem Outcome.keeps_cap_iff {t : Applied AccountId Hash} (h : Outcome T t)
    (hcap : t.pre.standard.Capped) : t.post.standard.Capped ↔ WithinCaps T t := by
  cases h.standard with
  | call call events ops hcall hok hops hstep =>
    rw [hstep.capped_iff hcap]
    constructor
    · intro hwithin call' _ hcall'
      cases hcall.symm.trans hcall'
      exact hwithin
    · exact fun hwithin => hwithin call hok hcall
  | idle hidle hops hsame =>
    rw [hsame]
    exact iff_of_true hcap fun call hok hcall => absurd hcall (hidle call hok)

theorem Outcome.within_caps_iff {t : Applied AccountId Hash} (h : Outcome T t)
    (hcons : t.pre.standard.Consistent) (hno : StandardNoOverflow t)
    (hunheld : IssuesUnheld T t) : WithinCaps T t ↔ WithinCapsExactly t := by
  refine forall_congr' fun call => forall_congr' fun hok => forall_congr' fun hcall => ?_
  cases h.standard with
  | call call' events ops hcall' _ hops hstep =>
    cases hcall'.symm.trans hcall
    exact hstep.within_cap_iff hcons
      (fun op hop => hno (.standard op) (hops ▸ List.mem_map_of_mem hop)) (hunheld _ hok hcall)
  | idle hidle hops hsame => exact absurd hcall (hidle call hok)

/-- **The supply cap.** In a run from genesis every asset stays within its maximal
supply if and only if every call does, in the arithmetic of the pallet. Where issued
assets were unheld and no addition overflows, that is: every first supply and every
mint is within the maximal supply. -/
theorem supply_capped_iff {native : AccountId → ℕ} {w : World AccountId Hash}
    {tr : List (Applied AccountId Hash)}
    (hrun : (runtime T).Run (fun _ => True) (genesis native) tr w) :
    ((∀ t ∈ tr, t.post.standard.Capped) ↔ ∀ t ∈ tr, WithinCaps T t)
    ∧ ((∀ t ∈ tr, IssuesUnheld T t ∧ StandardNoOverflow t) →
      ((∀ t ∈ tr, t.post.standard.Capped) ↔ ∀ t ∈ tr, WithinCapsExactly t)) := by
  have hiff : (∀ t ∈ tr, t.post.standard.Capped) ↔ ∀ t ∈ tr, WithinCaps T t :=
    hrun.forall_good_iff (G := fun w => w.standard.Capped) Storage.Capped.empty
      fun _ w x _ hcap _ => (outcome_of_fire T w x).keeps_cap_iff hcap
  refine ⟨hiff, ?_⟩
  intro hclean
  rw [hiff]
  refine forall_congr' fun t => forall_congr' fun ht => ?_
  obtain ⟨tr₁, hbefore, -, hunheld, hno⟩ := (hrun.restrict hclean).of_mem ht
  have hcons : t.pre.standard.Consistent :=
    hbefore.state_invariant (I := fun w => w.standard.Consistent) consistent_empty
      fun w x hcons hok => ((outcome_of_fire T w x).consistent_iff hcons hok.2).mpr hok.1
  exact (outcome_of_mem hrun ht).within_caps_iff hcons hno hunheld

theorem supply_capped_iff_issue_first :
    (∀ t ∈ (runtime devnet).trace (genesis fun _ => 0) devnet_issue_first,
        t.post.standard.Capped)
      ↔ ∀ t ∈ (runtime devnet).trace (genesis fun _ => 0) devnet_issue_first,
        WithinCaps devnet t :=
  (supply_capped_iff (devnet_run _ _)).1

/-- Account 1 issues ten of at most a hundred units, and mints another hundred. -/
def devnet_mint_past : List (Extrinsic ℕ (List ℕ)) :=
  [⟨.signed 1, 0, .standardAssets (.issue [] [] 0 100 10)⟩,
    ⟨.signed 1, 0, .standardAssets (.mint devnet_ecrc10 100)⟩]

/-- **More units than there can be.** Both calls succeed, and there are a hundred and
ten units of an asset of at most a hundred. -/
theorem mint_past_not_capped :
    (runtime devnet).Run (fun _ => True) (genesis fun _ => 0)
      ((runtime devnet).trace (genesis fun _ => 0) devnet_mint_past)
      ((runtime devnet).final (genesis fun _ => 0) devnet_mint_past)
    ∧ (∀ t ∈ (runtime devnet).trace (genesis fun _ => 0) devnet_mint_past, Applied.Succeeded t)
    ∧ ¬((runtime devnet).final (genesis fun _ => 0) devnet_mint_past).standard.Capped := by
  refine ⟨devnet_run _ _, by decide, fun hcap => ?_⟩
  obtain ⟨htotal, -⟩ := hcap devnet_ecrc10 ⟨[], [], 0, 100⟩ (by decide)
  revert htotal
  decide

end Chain

end Eco2
