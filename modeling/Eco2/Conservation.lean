/-
Carbon units are created by approvals and destroyed by burns and neutralization.

`held` is the sum of an asset's balances over all accounts. The pallet computes
every balance in wrapping `u64` arithmetic, so the law of conservation holds
modulo `2 ^ 64` and needs no assumption there: a wrapped addition or subtraction
is still exact modulo `2 ^ 64`, and `make_transfer` moves units even when it runs
a balance below zero. The one write that is no addition is `approve_asset`'s, and
that one is covered by the registry: nobody holds units of an asset that is not
yet approved.
-/
import Eco2.OrderBook
import Mathlib.Tactic.Ring

set_option autoImplicit false
set_option linter.unusedSectionVars false

namespace Eco2

namespace CarbonAssets

variable {AccountId Hash : Type} [DecidableEq AccountId] [DecidableEq Hash]

/-! ## The units of an asset -/

/-- The sum of the balances of the asset over all accounts. -/
def Storage.held (s : Storage AccountId Hash) (a : Hash) : ℕ := Ledger.held s.Balances a

section Held

variable (s : Storage AccountId Hash) (a asset_id : Hash) (x y : AccountId) (amount : UInt64)

theorem held_set_balance (value : UInt64) :
    (s.set_balance asset_id x value).held a
        + (if asset_id = a then (s.balance asset_id x).toNat else 0)
      = s.held a + if asset_id = a then value.toNat else 0 :=
  Ledger.held_insert s.Balances asset_id a x value

/-- A credit adds the amount, modulo `2 ^ 64`. -/
theorem held_credit_modEq :
    ((s.credit asset_id x amount).held a : ℤ)
      ≡ s.held a + (if asset_id = a then amount.toNat else 0 : ℕ) [ZMOD 2 ^ 64] :=
  Ledger.held_credit_modEq s.Balances asset_id a x amount

/-- A debit takes the amount away, modulo `2 ^ 64`. -/
theorem held_debit_modEq :
    ((s.debit asset_id x amount).held a : ℤ)
      ≡ s.held a - (if asset_id = a then amount.toNat else 0 : ℕ) [ZMOD 2 ^ 64] :=
  Ledger.held_debit_modEq s.Balances asset_id a x amount

/-- A transfer between any two accounts keeps the sum, modulo `2 ^ 64`. -/
theorem held_move_modEq :
    ((s.move asset_id x y amount).held a : ℤ) ≡ s.held a [ZMOD 2 ^ 64] := by
  unfold Storage.move
  split
  · exact Ledger.held_transfer_modEq s.Balances asset_id a x y amount
  · exact Int.ModEq.refl _

end Held

/-! ## Exact balance updates -/

section Exact

variable (s : Storage AccountId Hash) (a asset_id : Hash) {x y : AccountId} {amount : UInt64}

theorem held_credit (h : (s.balance asset_id x).toNat + amount.toNat < 2 ^ 64) :
    (s.credit asset_id x amount).held a
      = s.held a + if asset_id = a then amount.toNat else 0 :=
  Ledger.held_credit s.Balances asset_id a h

theorem held_debit (h : amount ≤ s.balance asset_id x) :
    (s.debit asset_id x amount).held a + (if asset_id = a then amount.toNat else 0)
      = s.held a :=
  Ledger.held_debit s.Balances asset_id a h

theorem balance_le_held (x : AccountId) : (s.balance a x).toNat ≤ s.held a :=
  Ledger.balance_le_held s.Balances a x

/-- A covered transfer keeps the sum exactly. -/
theorem held_move (h : amount ≤ s.balance asset_id x) (hlt : s.held asset_id < 2 ^ 64) :
    (s.move asset_id x y amount).held a = s.held a := by
  unfold Storage.move
  split
  · rename_i hne
    -- the two accounts together hold no more than all, so the credit cannot wrap
    have hboth : (s.balance asset_id x).toNat + (s.balance asset_id y).toNat ≤ s.held asset_id :=
      Ledger.balance_add_balance_le_held s.Balances asset_id hne
    have hy : ((s.debit asset_id x amount).balance asset_id y).toNat
        = (s.balance asset_id y).toNat :=
      congrArg UInt64.toNat (Ledger.balance_debit_of_ne s.Balances asset_id asset_id hne.symm)
    have hcovered := UInt64.le_iff_toNat_le.mp h
    have hexact : ((s.debit asset_id x amount).balance asset_id y).toNat + amount.toNat
        < 2 ^ 64 := by omega
    exact Ledger.held_transfer s.Balances asset_id a h hexact
  · rfl

end Exact

/-! ## What a call adds and takes away -/

section Flows

/-- The amount of the issue of `a` that an approval carries out. -/
def issued (a : Hash) (s : Storage AccountId Hash) : Call AccountId Hash → ℕ
  | .approve_issue issue_id =>
      match s.Issues.get issue_id with
      | some issue_info => if issue_info.asset_id = a then issue_info.amount.toNat else 0
      | none => 0
  | _ => 0

/-- The amount of `a` that a submission of a burn takes from the owner. -/
def burn_submitted (a : Hash) (_s : Storage AccountId Hash) : Call AccountId Hash → ℕ
  | .submit_burn asset_id amount _ => if asset_id = a then amount.toNat else 0
  | _ => 0

/-- The amount of the burn of `a` that an approval carries out. -/
def burn_approved (a : Hash) (s : Storage AccountId Hash) : Call AccountId Hash → ℕ
  | .approve_burn burn_id =>
      match s.Burns.get burn_id with
      | some burn_info => if burn_info.asset_id = a then burn_info.amount.toNat else 0
      | none => 0
  | _ => 0

/-- The amount of `a` that a call neutralizes. -/
def neutralized (a : Hash) (_s : Storage AccountId Hash) : Call AccountId Hash → ℕ
  | .neutralize asset_id amount _ => if asset_id = a then amount.toNat else 0
  | _ => 0

/-- A field of the asset while it is approved, and zero otherwise. -/
def approved_value (assets : StorageMap Hash (CarbonAsset Hash)) (f : CarbonAsset Hash → UInt64)
    (a : Hash) : ℕ :=
  match assets.get a with
  | some asset => if asset.status = 1 then (f asset).toNat else 0
  | none => 0

/-- The initial supply of an approved asset. -/
def Storage.initial (s : Storage AccountId Hash) (a : Hash) : ℕ :=
  approved_value s.Assets CarbonAsset.initial_supply a

/-- The recorded total supply of an approved asset. -/
def Storage.supply (s : Storage AccountId Hash) (a : Hash) : ℕ :=
  approved_value s.Assets CarbonAsset.total_supply a

variable {assets : StorageMap Hash (CarbonAsset Hash)} {asset_id : Hash}
  {asset : CarbonAsset Hash} (f : CarbonAsset Hash → UInt64)

theorem approved_value_of_some (h : assets.get asset_id = some asset) :
    approved_value assets f asset_id = if asset.status = 1 then (f asset).toNat else 0 := by
  rw [approved_value, h]

/-- Writing an asset changes its own values only. -/
theorem approved_value_insert (a : Hash) :
    approved_value (assets.insert asset_id asset) f a
      = if a = asset_id then (if asset.status = 1 then (f asset).toNat else 0)
        else approved_value assets f a := by
  by_cases h : a = asset_id
  · subst h
    rw [if_pos rfl, approved_value_of_some f (StorageMap.get_insert_self _ _ _)]
  · rw [if_neg h, approved_value, StorageMap.get_insert_of_ne _ _ h, approved_value]

/-- A fresh asset is not approved and has no value. -/
theorem approved_value_insert_of_fresh (hfresh : assets.get asset_id = none)
    (hstatus : asset.status = 0) (a : Hash) :
    approved_value (assets.insert asset_id asset) f a = approved_value assets f a := by
  rw [approved_value_insert]
  by_cases h : a = asset_id
  · rw [if_pos h, hstatus, if_neg (by decide), h, approved_value, hfresh]
  · rw [if_neg h]

/-- Rewriting an asset but for its status and the value in question changes nothing. -/
theorem approved_value_insert_of_eq (asset' : CarbonAsset Hash)
    (hold : assets.get asset_id = some asset) (hstatus : asset'.status = asset.status)
    (hvalue : f asset' = f asset) (a : Hash) :
    approved_value (assets.insert asset_id asset') f a = approved_value assets f a := by
  rw [approved_value_insert]
  by_cases h : a = asset_id
  · rw [if_pos h, h, approved_value_of_some f hold, hstatus, hvalue]
  · rw [if_neg h]

end Flows

/-! ## One step of the pallet -/

section Steps

variable {T : Trait AccountId Hash} {origin : Origin AccountId} {now : Moment}
  {s s' : Storage AccountId Hash} {call : Call AccountId Hash}
  {events : List (Event AccountId Hash)} {ops : List (Op AccountId Hash)}

private theorem modEq_of_eq {x y z : ℤ} (h : x ≡ y [ZMOD 2 ^ 64]) (hy : y = z) :
    x ≡ z [ZMOD 2 ^ 64] := hy ▸ h

/-- **Conservation of units**, one step. -/
theorem Step.held_modEq (hreg : Registry s) (h : Step T origin now s call s' events ops)
    (a : Hash) :
    (s'.held a : ℤ) ≡ s.held a + (s'.initial a - s.initial a)
      + (issued a s call - burn_submitted a s call - neutralized a s call) [ZMOD 2 ^ 64] := by
  have hquiet : (s.held a : ℤ) ≡ s.held a [ZMOD 2 ^ 64] := .refl _
  cases h with
  | submit_project =>
    exact modEq_of_eq hquiet (by simp [Storage.initial, issued, burn_submitted, neutralized])
  | approve_project =>
    exact modEq_of_eq hquiet (by simp [Storage.initial, issued, burn_submitted, neutralized])
  | submit_issue =>
    exact modEq_of_eq hquiet (by simp [Storage.initial, issued, burn_submitted, neutralized])
  | submit_asset sender project_id vintage initial_supply additional project asset_id horigin
      hproject hstatus howner hlimit hid hfresh =>
    refine modEq_of_eq hquiet ?_
    simp [Storage.initial, approved_value_insert_of_fresh, hfresh, issued, burn_submitted,
      neutralized]
  | approve_asset asset_id asset project horigin hasset hstatus hproject hlimit =>
    -- nobody holds units yet, so overwriting the owner's balance adds the initial supply
    have hnone : s.balance asset_id project.owner = 0 :=
      hreg.unapproved asset_id project.owner fun ha => by
        rw [ha.status_eq hasset] at hstatus
        cases hstatus
    have hset := held_set_balance s a asset_id project.owner asset.initial_supply
    rw [hnone] at hset
    simp only [UInt64.toNat_zero, ite_self, add_zero] at hset
    have hbefore : s.initial asset_id = 0 := by
      rw [Storage.initial, approved_value_of_some _ hasset, hstatus]
      rfl
    refine modEq_of_eq (.refl _) ?_
    change ((s.set_balance asset_id project.owner asset.initial_supply).held a : ℤ) = _
    rw [hset]
    simp only [Storage.initial, set_balance_Assets, approved_value_insert, issued, burn_submitted,
      neutralized] at hbefore ⊢
    by_cases ha : asset_id = a
    · subst ha
      simp [hbefore]
    · simp [ha, Ne.symm ha]
  | approve_issue issue_id issue_info asset project horigin hissue hstatus hasset hproject hlimit =>
    have hcredit := held_credit_modEq s a issue_info.asset_id project.owner issue_info.amount
    have hinitial := approved_value_insert_of_eq CarbonAsset.initial_supply
      { asset with total_supply := asset.total_supply + issue_info.amount } hasset rfl rfl a
    refine modEq_of_eq hcredit ?_
    simp [Storage.initial, hinitial, issued, burn_submitted, neutralized, hissue]
  | submit_burn sender asset_id amount additional asset project burn_id =>
    have hdebit := held_debit_modEq s a asset_id sender amount
    exact modEq_of_eq hdebit (by
      simp [Storage.initial, issued, burn_submitted, neutralized, sub_eq_add_neg])
  -- the units of a burn were taken at its submission; the approval touches no balance
  | approve_burn burn_id burn_info asset project horigin hburn hstatus hasset hproject =>
    have hinitial := approved_value_insert_of_eq CarbonAsset.initial_supply
      { asset with total_supply := asset.total_supply - burn_info.amount } hasset rfl rfl a
    refine modEq_of_eq hquiet ?_
    simp [Storage.initial, hinitial, issued, burn_submitted, neutralized]
  | transfer sender asset_id to_ amount =>
    have hmove := held_move_modEq s a asset_id sender to_ amount
    exact modEq_of_eq hmove (by simp [Storage.initial, issued, burn_submitted, neutralized])
  | neutralize sender asset_id amount additional =>
    have hdebit := held_debit_modEq s a asset_id sender amount
    exact modEq_of_eq hdebit (by
      simp [Storage.initial, issued, burn_submitted, neutralized, sub_eq_add_neg])

/-- **Conservation of recorded supply**, one step. -/
theorem Step.supply_modEq (hreg : Registry s) (h : Step T origin now s call s' events ops)
    (a : Hash) :
    (s'.supply a : ℤ) ≡ s.supply a + (s'.initial a - s.initial a)
      + (issued a s call - burn_approved a s call) [ZMOD 2 ^ 64] := by
  have hquiet : (s.supply a : ℤ) ≡ s.supply a [ZMOD 2 ^ 64] := .refl _
  cases h with
  | submit_project =>
    exact modEq_of_eq hquiet (by simp [Storage.initial, issued, burn_approved])
  | approve_project =>
    exact modEq_of_eq hquiet (by simp [Storage.initial, issued, burn_approved])
  | submit_issue =>
    exact modEq_of_eq hquiet (by simp [Storage.initial, issued, burn_approved])
  | submit_asset sender project_id vintage initial_supply additional project asset_id horigin
      hproject hstatus howner hlimit hid hfresh =>
    refine modEq_of_eq (.refl _) ?_
    simp [Storage.supply, Storage.initial, approved_value_insert_of_fresh, hfresh, issued,
      burn_approved]
  | approve_asset asset_id asset project horigin hasset hstatus hproject hlimit =>
    -- before its approval the asset counts for nothing
    have hbefore (f : CarbonAsset Hash → UInt64) : approved_value s.Assets f asset_id = 0 := by
      rw [approved_value_of_some _ hasset, hstatus]
      rfl
    refine modEq_of_eq (.refl _) ?_
    simp only [Storage.supply, Storage.initial, set_balance_Assets, approved_value_insert, issued,
      burn_approved]
    by_cases ha : a = asset_id
    · simp [ha, hbefore]
    · simp [ha]
  | approve_issue issue_id issue_info asset project horigin hissue hstatus hasset hproject hlimit =>
    have hinitial := approved_value_insert_of_eq CarbonAsset.initial_supply
      { asset with total_supply := asset.total_supply + issue_info.amount } hasset rfl rfl a
    simp only [Storage.supply, Storage.initial, credit_Assets, hinitial, issued, burn_approved,
      hissue, approved_value_insert]
    by_cases ha : a = issue_info.asset_id
    · subst ha
      have hone := (hreg.issue_asset issue_id issue_info hissue).status_eq hasset
      have hadd := U64.toNat_add_modEq asset.total_supply issue_info.amount
      simpa [approved_value_of_some _ hasset, hone] using hadd
    · simp [ha, Ne.symm ha]
  -- the submission of a burn leaves the recorded supply to the approval
  | submit_burn sender asset_id amount additional asset project burn_id =>
    refine modEq_of_eq (.refl _) ?_
    simp [Storage.supply, Storage.initial, issued, burn_approved]
  | approve_burn burn_id burn_info asset project horigin hburn hstatus hasset hproject =>
    have hinitial := approved_value_insert_of_eq CarbonAsset.initial_supply
      { asset with total_supply := asset.total_supply - burn_info.amount } hasset rfl rfl a
    simp only [Storage.supply, Storage.initial, hinitial, issued, burn_approved, hburn,
      approved_value_insert]
    by_cases ha : a = burn_info.asset_id
    · subst ha
      have hone := (hreg.burn_asset burn_id burn_info hburn).status_eq hasset
      have hsub := U64.toNat_sub_modEq asset.total_supply burn_info.amount
      simpa [approved_value_of_some _ hasset, hone, sub_eq_add_neg] using hsub
    · simp [ha, Ne.symm ha]
  | transfer sender asset_id to_ amount =>
    refine modEq_of_eq (.refl _) ?_
    simp [Storage.supply, Storage.initial, issued, burn_approved]
  | neutralize sender asset_id amount additional =>
    refine modEq_of_eq (.refl _) ?_
    simp [Storage.supply, Storage.initial, issued, burn_approved]

end Steps

end CarbonAssets

/-! ## Over a whole run of the chain -/

section Chain

open CarbonAssets

variable {AccountId Hash : Type} [DecidableEq AccountId] [DecidableEq Hash]
variable {T : Trait AccountId Hash}

/-- A quantity of the calls of the carbon pallet, counted when the call succeeds. -/
def Applied.flow (f : CarbonAssets.Storage AccountId Hash → CarbonAssets.Call AccountId Hash → ℕ)
    (t : Applied AccountId Hash) : ℕ :=
  match t.output.result, t.input.call with
  | .ok _, .carbonAssets call => f t.pre.carbon call
  | _, _ => 0

/-- The sum of a quantity over the successful calls of a history. -/
def total_flow (f : CarbonAssets.Storage AccountId Hash → CarbonAssets.Call AccountId Hash → ℕ)
    (tr : List (Applied AccountId Hash)) : ℕ :=
  (tr.map (Applied.flow f)).sum

theorem total_flow_snoc
    (f : CarbonAssets.Storage AccountId Hash → CarbonAssets.Call AccountId Hash → ℕ)
    (tr : List (Applied AccountId Hash)) (t : Applied AccountId Hash) :
    total_flow f (tr ++ [t]) = total_flow f tr + t.flow f := by
  simp [total_flow]

/-- The calls that only hand units from one account to another. -/
def Call.MovesUnits : Call AccountId Hash → Prop
  | .carbonAssets (.transfer _ _ _) => True
  | .carbonExchange _ => True
  | _ => False

/-- What a transition is to the carbon pallet: a call of its own, a transfer of
units by the exchange, or nothing. -/
inductive CarbonOutcome (T : Trait AccountId Hash) (t : Applied AccountId Hash) : Prop
  | call (origin : Origin AccountId) (now : Moment) (call : CarbonAssets.Call AccountId Hash)
      (events : List (CarbonAssets.Event AccountId Hash))
      (hinput : t.input = ⟨origin, now, .carbonAssets call⟩)
      (hflow : ∀ f, t.flow f = f t.pre.carbon call)
      (hstep : Step T origin now t.pre.carbon call t.post.carbon events t.output.ops)
  | moved (asset_id : Hash) (from_ to_ : AccountId) (amount : UInt64) (hflow : ∀ f, t.flow f = 0)
      (hmove : t.post.carbon = t.pre.carbon.move asset_id from_ to_ amount)
  | idle (hflow : ∀ f, t.flow f = 0) (hsame : t.post.carbon = t.pre.carbon)

theorem Outcome.carbon {t : Applied AccountId Hash} (h : Outcome T t) : CarbonOutcome T t := by
  cases h with
  | refused w x e => exact .idle (fun f => rfl) rfl
  | carbonAssets w origin now call s' events ops hstep =>
    exact .call origin now call events rfl (fun f => rfl) hstep
  | carbonExchange w origin now call w' events ops hstep =>
    rcases hstep.carbon with hsame | ⟨asset_id, from_, to_, amount, hmove⟩
    · exact .idle (fun f => rfl) hsame
    · exact .moved asset_id from_ to_ amount (fun f => rfl) hmove
  | half_take w origin now call w' e ops hhalf =>
    obtain ⟨asset_id, from_, to_, amount, hmove⟩ := hhalf.carbon
    exact .moved asset_id from_ to_ amount (fun f => rfl) hmove
  | standardAssets => exact .idle (fun f => rfl) rfl
  | balances_transfer => exact .idle (fun f => rfl) rfl

/-- A call that only moves units keeps their sum, also when it fails half way. -/
theorem Outcome.held_modEq_of_movesUnits {t : Applied AccountId Hash} (h : Outcome T t)
    (hmoves : t.input.call.MovesUnits) (a : Hash) :
    (t.post.carbon.held a : ℤ) ≡ t.pre.carbon.held a [ZMOD 2 ^ 64] := by
  cases h.carbon with
  | call origin now call events hinput hflow hstep =>
    rw [hinput] at hmoves
    -- only `transfer` is left of the pallet's own calls
    generalize t.post.carbon = s', t.output.ops = ops at hstep ⊢
    cases hstep with
    | transfer sender asset_id to_ amount => exact held_move_modEq _ a asset_id sender to_ amount
    | _ => exact hmoves.elim
  | moved asset_id from_ to_ amount hflow hmove =>
    rw [hmove]
    exact held_move_modEq _ a asset_id from_ to_ amount
  | idle hflow hsame => rw [hsame]

/-- Conservation of units, one transition of the chain. -/
theorem Outcome.held_modEq {t : Applied AccountId Hash} (h : Outcome T t)
    (hreg : Registered t.pre) (a : Hash) :
    (t.post.carbon.held a : ℤ) ≡ t.pre.carbon.held a
      + (t.post.carbon.initial a - t.pre.carbon.initial a)
      + (t.flow (issued a) - t.flow (burn_submitted a) - t.flow (neutralized a))
      [ZMOD 2 ^ 64] := by
  cases h.carbon with
  | call origin now call events hinput hflow hstep =>
    rw [hflow, hflow, hflow]
    exact hstep.held_modEq hreg.carbon a
  -- the exchange moves units, and neither approves nor burns
  | moved asset_id from_ to_ amount hflow hmove =>
    rw [hflow, hflow, hflow, hmove]
    simpa [Storage.initial] using held_move_modEq t.pre.carbon a asset_id from_ to_ amount
  | idle hflow hsame => simp [hflow, hsame]

/-- Conservation of recorded supply, one transition of the chain. -/
theorem Outcome.supply_modEq {t : Applied AccountId Hash} (h : Outcome T t)
    (hreg : Registered t.pre) (a : Hash) :
    (t.post.carbon.supply a : ℤ) ≡ t.pre.carbon.supply a
      + (t.post.carbon.initial a - t.pre.carbon.initial a)
      + (t.flow (issued a) - t.flow (burn_approved a)) [ZMOD 2 ^ 64] := by
  cases h.carbon with
  | call origin now call events hinput hflow hstep =>
    rw [hflow, hflow]
    exact hstep.supply_modEq hreg.carbon a
  | moved asset_id from_ to_ amount hflow hmove =>
    rw [hflow, hflow, hmove]
    simp [Storage.initial, Storage.supply]
  | idle hflow hsame => simp [hflow, hsame]

/-- Adding one transition to a balance sheet. -/
private theorem modEq_accumulate {x x' i i' total flow : ℤ} (hx : x ≡ i + total [ZMOD 2 ^ 64])
    (hx' : x' ≡ x + (i' - i) + flow [ZMOD 2 ^ 64]) : x' ≡ i' + (total + flow) [ZMOD 2 ^ 64] := by
  calc x' ≡ x + (i' - i) + flow [ZMOD 2 ^ 64] := hx'
    _ ≡ i + total + (i' - i) + flow [ZMOD 2 ^ 64] := (hx.add_right _).add_right _
    _ = i' + (total + flow) := by ring

/-- The units held after a run, modulo `2 ^ 64`. -/
theorem held_modEq_run {allowed : Applied AccountId Hash → Prop} {native : AccountId → ℕ}
    {tr : List (Applied AccountId Hash)} {w : World AccountId Hash}
    (hrun : (runtime T).Run allowed (genesis native) tr w) (a : Hash) :
    (w.carbon.held a : ℤ) ≡ w.carbon.initial a + (total_flow (issued a) tr
      - total_flow (burn_submitted a) tr - total_flow (neutralized a) tr) [ZMOD 2 ^ 64] := by
  apply hrun.invariant (I := fun tr w => (w.carbon.held a : ℤ) ≡ w.carbon.initial a
    + (total_flow (issued a) tr - total_flow (burn_submitted a) tr
    - total_flow (neutralized a) tr) [ZMOD 2 ^ 64])
  · exact .refl _
  intro tr w x hrun ih _
  have hstep := (outcome_of_fire T w x).held_modEq (Registered.run hrun) a
  refine modEq_of_eq (modEq_accumulate ih hstep) ?_
  simp only [total_flow_snoc, Nat.cast_add]
  ring

/-- The recorded supply after a run, modulo `2 ^ 64`. -/
theorem supply_modEq_run {allowed : Applied AccountId Hash → Prop} {native : AccountId → ℕ}
    {tr : List (Applied AccountId Hash)} {w : World AccountId Hash}
    (hrun : (runtime T).Run allowed (genesis native) tr w) (a : Hash) :
    (w.carbon.supply a : ℤ) ≡ w.carbon.initial a + (total_flow (issued a) tr
      - total_flow (burn_approved a) tr) [ZMOD 2 ^ 64] := by
  apply hrun.invariant (I := fun tr w => (w.carbon.supply a : ℤ) ≡ w.carbon.initial a
    + (total_flow (issued a) tr - total_flow (burn_approved a) tr) [ZMOD 2 ^ 64])
  · exact .refl _
  intro tr w x hrun ih _
  have hstep := (outcome_of_fire T w x).supply_modEq (Registered.run hrun) a
  refine modEq_of_eq (modEq_accumulate ih hstep) ?_
  simp only [total_flow_snoc, Nat.cast_add]
  ring

/-- **Conservation.** After any run of the chain, modulo `2 ^ 64`: the units of an
asset are its initial supply once approved, and what approved issues have added,
less what submitted burns and neutralizations have taken; its recorded supply is
the same with approved burns taken away instead; and no call that moves units has
changed their sum. -/
theorem supply_conservation {native : AccountId → ℕ} {tr : List (Applied AccountId Hash)}
    {w : World AccountId Hash}
    (hrun : (runtime T).Run (fun _ => True) (genesis native) tr w) (a : Hash) :
    ((w.carbon.held a : ℤ) ≡ w.carbon.initial a + total_flow (issued a) tr
      - total_flow (burn_submitted a) tr - total_flow (neutralized a) tr [ZMOD 2 ^ 64])
    ∧ (∀ asset, w.carbon.Assets.get a = some asset → asset.status = 1 →
      (asset.total_supply.toNat : ℤ) ≡ asset.initial_supply.toNat + total_flow (issued a) tr
        - total_flow (burn_approved a) tr [ZMOD 2 ^ 64])
    ∧ ∀ t ∈ tr, t.input.call.MovesUnits →
      (t.post.carbon.held a : ℤ) ≡ t.pre.carbon.held a [ZMOD 2 ^ 64] := by
  refine ⟨modEq_of_eq (held_modEq_run hrun a) (by ring), fun asset hasset hstatus => ?_,
    fun t ht hmoves => ?_⟩
  · have hsupply := supply_modEq_run hrun a
    rw [Storage.supply, Storage.initial, approved_value_of_some _ hasset,
      approved_value_of_some _ hasset, if_pos hstatus, if_pos hstatus] at hsupply
    exact modEq_of_eq hsupply (by ring)
  · exact (outcome_of_mem hrun ht).held_modEq_of_movesUnits hmoves a

/-- An issue of seven units, a burn of two and a neutralization of one, with a
transfer between them, on the executable chain. -/
def devnet_flows : List (Extrinsic ℕ (List ℕ)) :=
  devnet_opening ++
    [⟨.signed 1, 0, .carbonAssets (.submit_issue devnet_asset 7 [])⟩,
      ⟨.system .Root, 0,
        .carbonAssets (.approve_issue (Preimage.encode (.issue 1 devnet_asset 7 [])))⟩,
      ⟨.signed 1, 0, .carbonAssets (.submit_burn devnet_asset 2 [])⟩,
      ⟨.signed 1, 0, .carbonAssets (.transfer devnet_asset 2 3)⟩,
      ⟨.signed 2, 0, .carbonAssets (.neutralize devnet_asset 1 [])⟩]

theorem supply_conservation_flows :
    (((runtime devnet).final (genesis fun _ => 1000) devnet_flows).carbon.held devnet_asset : ℤ)
      ≡ 5 + 7 - 2 - 1 [ZMOD 2 ^ 64] := by
  have h := (supply_conservation (devnet_run (fun _ => 1000) devnet_flows) devnet_asset).1
  have hinitial : ((runtime devnet).final (genesis fun _ => 1000) devnet_flows).carbon.initial
      devnet_asset = 5 := by decide
  have hissued : total_flow (issued devnet_asset)
      ((runtime devnet).trace (genesis fun _ => 1000) devnet_flows) = 7 := by decide
  have hburned : total_flow (burn_submitted devnet_asset)
      ((runtime devnet).trace (genesis fun _ => 1000) devnet_flows) = 2 := by decide
  have hneutralized : total_flow (neutralized devnet_asset)
      ((runtime devnet).trace (genesis fun _ => 1000) devnet_flows) = 1 := by decide
  rw [hinitial, hissued, hburned, hneutralized] at h
  exact h

end Chain

end Eco2
