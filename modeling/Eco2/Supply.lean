/-
Recorded supply against what is stored.

An asset's `total_supply` is raised by approvals and lowered by approved burns,
while its units are taken from the owner when a burn is submitted and from anybody
when units are neutralized. So the recorded supply is what accounts hold, what
pending burns hold, and what has been neutralized, and `Step.accounts` proves each
step to keep that balance, up to one leak: `submit_burn` looks its identifier up
among the projects instead of the burns, so the same burn can be submitted twice,
and the entry that is overwritten takes its units with it.

A project's `total_supply` in turn should be the sum over its approved assets.
There the leak is `approve_asset`, which adds the initial supply to a copy of the
project and does not write it back.
-/
import Eco2.Conservation

set_option autoImplicit false
set_option linter.unusedSectionVars false

namespace Eco2

namespace CarbonAssets

variable {AccountId Hash : Type} [DecidableEq AccountId] [DecidableEq Hash]

/-! ## The quantities -/

/-- The weight of a burn among the pending burns of the asset. -/
def BurnInfo.pending_of (a : Hash) (burn_info : BurnInfo Hash) : ℕ :=
  if burn_info.asset_id = a ∧ burn_info.status = 0 then burn_info.amount.toNat else 0

/-- An approved burn is no longer pending. -/
theorem BurnInfo.pending_of_approved {burn_info : BurnInfo Hash} (h : burn_info.status = 1)
    {a : Hash} : burn_info.pending_of a = 0 := by
  refine if_neg fun hc => ?_
  rw [h] at hc
  exact absurd hc.2 (by decide)

/-- The sum of the amounts of the pending burns of the asset. -/
def Storage.pending (s : Storage AccountId Hash) (a : Hash) : ℕ :=
  s.Burns.sum fun _ burn_info => burn_info.pending_of a

/-- The weight of an asset in the supply of the project. -/
def CarbonAsset.supply_of (p : Hash) (asset : CarbonAsset Hash) : ℕ :=
  if asset.project_id = p ∧ asset.status = 1 then asset.total_supply.toNat else 0

/-- The sum of the total supplies of the approved assets of the project. -/
def Storage.project_supply (s : Storage AccountId Hash) (p : Hash) : ℕ :=
  s.Assets.sum fun _ asset => asset.supply_of p

/-- The amount of the pending burn of `a` that a submission overwrites. -/
def burn_lost (T : Trait AccountId Hash) (a : Hash) (origin : Origin AccountId)
    (s : Storage AccountId Hash) : Call AccountId Hash → ℕ
  | .submit_burn asset_id amount additional =>
      match origin with
      | .signed sender =>
          match s.Burns.get (T.hash_of (.burn sender asset_id amount additional)) with
          | some burn_info => burn_info.pending_of a
          | none => 0
      | _ => 0
  | _ => 0

/-- The additions of an approved issue to the two total supplies do not wrap. -/
def IssueFits (s : Storage AccountId Hash) : Call AccountId Hash → Prop
  | .approve_issue issue_id =>
      ∀ issue_info ∈ s.Issues.get issue_id, ∀ asset ∈ s.Assets.get issue_info.asset_id,
      ∀ project ∈ s.Projects.get asset.project_id,
        issue_info.amount.toNat + project.total_supply.toNat < 2 ^ 64
          ∧ asset.total_supply.toNat + issue_info.amount.toNat < 2 ^ 64
  | _ => True

instance (s : Storage AccountId Hash) : DecidablePred (IssueFits s) := fun call => by
  unfold IssueFits
  split <;> infer_instance

/-- The asset that a call approves has no initial supply. -/
def NoInitialSupply (s : Storage AccountId Hash) : Call AccountId Hash → Prop
  | .approve_asset asset_id => ∀ asset ∈ s.Assets.get asset_id, asset.initial_supply = 0
  | _ => True

instance (s : Storage AccountId Hash) : DecidablePred (NoInitialSupply s) := fun call => by
  unfold NoInitialSupply
  split <;> infer_instance

/-- What is held and what is pending is covered by the recorded supply. -/
def Storage.Covered (s : Storage AccountId Hash) : Prop :=
  ∀ a, s.held a + s.pending a ≤ s.supply a

/-- Every project's total supply is the sum over its approved assets, within its cap. -/
def Storage.Capped (s : Storage AccountId Hash) : Prop :=
  ∀ p project, s.Projects.get p = some project →
    project.total_supply.toNat = s.project_supply p
      ∧ s.project_supply p ≤ project.max_supply.toNat

/-! ## One step of the pallet -/

section Steps

variable {T : Trait AccountId Hash} {origin : Origin AccountId} {now : Moment}
  {s s' : Storage AccountId Hash} {call : Call AccountId Hash}
  {events : List (Event AccountId Hash)} {ops : List (Op AccountId Hash)}

theorem supply_lt (s : Storage AccountId Hash) (a : Hash) : s.supply a < 2 ^ 64 := by
  unfold Storage.supply approved_value
  split
  · split
    · exact UInt64.toNat_lt _
    · exact Nat.two_pow_pos 64
  · exact Nat.two_pow_pos 64

/-- What an account holds is part of the recorded supply. -/
theorem Storage.Covered.balance_le (h : s.Covered) (a : Hash) (x : AccountId) :
    (s.balance a x).toNat ≤ s.supply a := by
  have hheld := balance_le_held s a x
  have hcov := h a
  omega

/-- A pending burn of the asset is part of the recorded supply. -/
theorem Storage.Covered.pending_le (h : s.Covered) {burn_id : Hash} {burn_info : BurnInfo Hash}
    (hburn : s.Burns.get burn_id = some burn_info) (hstatus : burn_info.status = 0) :
    burn_info.amount.toNat ≤ s.supply burn_info.asset_id := by
  have hle : burn_info.pending_of burn_info.asset_id ≤ s.pending burn_info.asset_id :=
    StorageMap.le_sum (fun _ => BurnInfo.pending_of burn_info.asset_id) hburn
  -- it is its own term in the sum of the pending burns
  rw [BurnInfo.pending_of, if_pos ⟨rfl, hstatus⟩] at hle
  have hcov := h burn_info.asset_id
  omega

/-- The supply of an approved asset is the one recorded for it. -/
theorem Storage.Approved.supply_eq {a : Hash} {asset : CarbonAsset Hash} (h : s.Approved a)
    (hasset : s.Assets.get a = some asset) : s.supply a = asset.total_supply.toNat := by
  rw [Storage.supply, approved_value_of_some _ hasset, if_pos (h.status_eq hasset)]

/-- Writing an approved asset with a new total supply. -/
theorem supply_insert (s : Storage AccountId Hash) (asset_id : Hash) {asset : CarbonAsset Hash}
    (total_supply : UInt64) (hstatus : asset.status = 1) (a : Hash) :
    approved_value (s.Assets.insert asset_id { asset with total_supply })
        CarbonAsset.total_supply a
      = if a = asset_id then total_supply.toNat else s.supply a := by
  rw [approved_value_insert, if_pos hstatus]
  rfl

/-- **The supply equation**, one step: the recorded supply less what is held and
what is pending grows by what is neutralized and by the burn that is overwritten. -/
theorem Step.accounts (hreg : Registry s) (hcov : s.Covered) (hfits : IssueFits s call)
    (h : Step T origin now s call s' events ops) (a : Hash) :
    s'.supply a + (s.held a + s.pending a)
      = s.supply a + (s'.held a + s'.pending a)
        + (neutralized a s call + burn_lost T a origin s call) := by
  cases h with
  | submit_project => rfl
  | approve_project => rfl
  | submit_issue => rfl
  | submit_asset sender project_id vintage initial_supply additional project asset_id horigin
      hproject hstatus howner hlimit hid hfresh =>
    have hsupply (asset : CarbonAsset Hash) (hpending : asset.status = 0) :
        approved_value (s.Assets.insert asset_id asset) CarbonAsset.total_supply a = s.supply a :=
      approved_value_insert_of_fresh CarbonAsset.total_supply hfresh hpending a
    exact congrArg (· + (s.held a + s.pending a)) (hsupply _ rfl)
  | approve_asset asset_id asset project horigin hasset hstatus hproject hlimit =>
    -- nobody holds units yet, so overwriting the owner's balance adds the initial supply
    have hnone : s.balance asset_id project.owner = 0 :=
      hreg.unapproved asset_id project.owner fun ha => by
        rw [ha.status_eq hasset] at hstatus
        cases hstatus
    have hset := held_set_balance s a asset_id project.owner asset.initial_supply
    rw [hnone, UInt64.toNat_zero, ite_self, Nat.add_zero] at hset
    have hbefore : s.supply asset_id = 0 := by
      rw [Storage.supply, approved_value_of_some _ hasset, hstatus]
      rfl
    change approved_value (s.Assets.insert asset_id
        { asset with status := 1, total_supply := asset.initial_supply })
        CarbonAsset.total_supply a + (s.held a + s.pending a)
      = s.supply a + ((s.set_balance asset_id project.owner asset.initial_supply).held a
        + s.pending a) + (0 + 0)
    have hwrite : ({ asset with status := 1 } : CarbonAsset Hash).status = 1 := rfl
    rw [hset, supply_insert s asset_id asset.initial_supply hwrite]
    by_cases ha : a = asset_id
    · subst ha
      rw [if_pos rfl, if_pos rfl, hbefore]
      omega
    · rw [if_neg ha, if_neg (Ne.symm ha)]
      omega
  -- supply and balance grow alike, and neither wraps: the balance is part of the supply
  | approve_issue issue_id issue_info asset project horigin hissue hstatus hasset hproject hlimit =>
    have hadd := (hfits issue_info hissue asset hasset project hproject).2
    have happroved := hreg.issue_asset issue_id issue_info hissue
    have hbefore := happroved.supply_eq hasset
    have hbalance := hcov.balance_le issue_info.asset_id project.owner
    have hlt : (s.balance issue_info.asset_id project.owner).toNat + issue_info.amount.toNat
        < 2 ^ 64 := by omega
    have hcredit := held_credit s a issue_info.asset_id hlt
    change approved_value (s.Assets.insert issue_info.asset_id
        { asset with total_supply := asset.total_supply + issue_info.amount })
        CarbonAsset.total_supply a + (s.held a + s.pending a)
      = s.supply a + ((s.credit issue_info.asset_id project.owner issue_info.amount).held a
        + s.pending a) + (0 + 0)
    rw [hcredit, supply_insert s issue_info.asset_id _ (happroved.status_eq hasset)]
    by_cases ha : a = issue_info.asset_id
    · subst ha
      rw [if_pos rfl, if_pos rfl, U64.toNat_add_of_lt hadd, hbefore]
      omega
    · rw [if_neg ha, if_neg (Ne.symm ha)]
      rfl
  | submit_burn sender asset_id amount additional asset project burn_id horigin hasset hstatus
      hproject howner hid hfresh hbalance =>
    have hdebit := held_debit s a asset_id hbalance
    have hburns := StorageMap.sum_insert s.Burns (fun _ => BurnInfo.pending_of a) burn_id
      { asset_id, amount, status := 0, additional }
    -- the entry under the same identifier, if there is one, is overwritten
    have hlost : burn_lost T a origin s (.submit_burn asset_id amount additional)
        = StorageMap.weight (fun _ => BurnInfo.pending_of a) burn_id (s.Burns.get burn_id) := by
      subst horigin hid
      simp only [burn_lost]
      cases s.Burns.get (T.hash_of (.burn sender asset_id amount additional)) <;> rfl
    have hweight : BurnInfo.pending_of a
        ({ asset_id, amount, status := 0, additional } : BurnInfo Hash)
          = if asset_id = a then amount.toNat else 0 := by
      simp only [BurnInfo.pending_of, and_true]
    rw [hlost]
    rw [hweight] at hburns
    change s.supply a + (s.held a + s.pending a)
      = s.supply a + ((s.debit asset_id sender amount).held a
        + (s.Burns.insert burn_id { asset_id, amount, status := 0, additional }).sum
          fun _ => BurnInfo.pending_of a) + (0 + _)
    change _ = s.pending a + _ at hburns
    omega
  | approve_burn burn_id burn_info asset project horigin hburn hstatus hasset hproject =>
    have happroved := hreg.burn_asset burn_id burn_info hburn
    have hbefore := happroved.supply_eq hasset
    -- the burn is pending, so the supply covers it and the subtraction is exact
    have hle := hcov.pending_le hburn hstatus
    rw [hbefore] at hle
    have hsub := U64.toNat_sub_add_of_le (UInt64.le_iff_toNat_le.mpr hle)
    have hburns := StorageMap.sum_insert s.Burns (fun _ => BurnInfo.pending_of a) burn_id
      { burn_info with status := 1 }
    have hdone : BurnInfo.pending_of a { burn_info with status := 1 } = 0 :=
      BurnInfo.pending_of_approved rfl
    rw [hburn, StorageMap.weight_some, hdone, BurnInfo.pending_of] at hburns
    change approved_value (s.Assets.insert burn_info.asset_id
        { asset with total_supply := asset.total_supply - burn_info.amount })
        CarbonAsset.total_supply a + (s.held a + s.pending a)
      = s.supply a + (s.held a + (s.Burns.insert burn_id { burn_info with status := 1 }).sum
          fun _ => BurnInfo.pending_of a) + (0 + 0)
    change _ = s.pending a + _ at hburns
    rw [supply_insert s burn_info.asset_id _ (happroved.status_eq hasset)]
    by_cases ha : a = burn_info.asset_id
    · subst ha
      rw [if_pos ⟨rfl, hstatus⟩] at hburns
      rw [if_pos rfl, hbefore]
      omega
    · rw [if_neg fun hc => ha hc.1.symm] at hburns
      rw [if_neg ha]
      omega
  | transfer sender asset_id to_ amount horigin hamount hbalance =>
    have hlt : s.held asset_id < 2 ^ 64 := by
      have hsupply := supply_lt s asset_id
      have hle := hcov asset_id
      omega
    have hmove := held_move s a asset_id (y := to_) hbalance hlt
    simp [Storage.supply, Storage.pending, neutralized, burn_lost, hmove]
  | neutralize sender asset_id amount additional horigin hamount hbalance =>
    have hdebit := held_debit s a asset_id hbalance
    change s.supply a + (s.held a + s.pending a) = s.supply a
      + ((s.debit asset_id sender amount).held a + s.pending a)
      + ((if asset_id = a then amount.toNat else 0) + 0)
    omega

/-! ## Projects -/

/-- Whether a call keeps the supply of the project it writes the sum over its
assets and within the cap: an approved asset must have no initial supply, since the
project is not written; an issue must not wrap the project's supply alone; and a
burn of more than the asset has must wrap both, and stay within the cap. -/
def CapKept (s : Storage AccountId Hash) : Call AccountId Hash → Prop
  | .approve_asset asset_id => ∀ asset ∈ s.Assets.get asset_id, asset.initial_supply = 0
  | .approve_issue issue_id =>
      ∀ issue_info ∈ s.Issues.get issue_id, ∀ asset ∈ s.Assets.get issue_info.asset_id,
      ∀ project ∈ s.Projects.get asset.project_id,
        2 ^ 64 ≤ issue_info.amount.toNat + project.total_supply.toNat →
          2 ^ 64 ≤ asset.total_supply.toNat + issue_info.amount.toNat
  | .approve_burn burn_id =>
      ∀ burn_info ∈ s.Burns.get burn_id, ∀ asset ∈ s.Assets.get burn_info.asset_id,
      ∀ project ∈ s.Projects.get asset.project_id,
        asset.total_supply < burn_info.amount →
          project.total_supply < burn_info.amount
            ∧ project.total_supply - burn_info.amount ≤ project.max_supply
  | _ => True

/-- A pending asset is no part of its project's supply. -/
theorem CarbonAsset.supply_of_pending {asset : CarbonAsset Hash} (h : asset.status = 0) {p : Hash} :
    asset.supply_of p = 0 := by
  refine if_neg fun hc => ?_
  rw [h] at hc
  exact absurd hc.2 (by decide)

/-- Writing one asset changes the supply of its project. -/
theorem project_supply_insert (s : Storage AccountId Hash) {asset_id : Hash}
    {asset asset' : CarbonAsset Hash} (hasset : s.Assets.get asset_id = some asset) (p : Hash) :
    ((s.Assets.insert asset_id asset').sum fun _ => CarbonAsset.supply_of p) + asset.supply_of p
      = s.project_supply p + asset'.supply_of p := by
  have h := StorageMap.sum_insert s.Assets (fun _ => CarbonAsset.supply_of p) asset_id asset'
  rwa [hasset] at h

/-- The supply of an asset of the project is part of the project's. -/
theorem supply_of_le (s : Storage AccountId Hash) {asset_id : Hash} {asset : CarbonAsset Hash}
    (hasset : s.Assets.get asset_id = some asset) (p : Hash) :
    asset.supply_of p ≤ s.project_supply p :=
  StorageMap.le_sum (fun _ => CarbonAsset.supply_of p) hasset

/-- The caps are about projects and assets only. -/
theorem capped_congr (hassets : s'.Assets = s.Assets) (hprojects : s'.Projects = s.Projects) :
    s'.Capped ↔ s.Capped := by
  unfold Storage.Capped Storage.project_supply
  rw [hassets, hprojects]

/-- Whether approving an asset, or writing an approved one, together with its project
keeps the caps. -/
theorem capped_write_iff (hcap : s.Capped) {asset_id : Hash} {asset : CarbonAsset Hash}
    {project : CarbonProject AccountId} (asset' : CarbonAsset Hash)
    (project' : CarbonProject AccountId)
    (hassets : s'.Assets = s.Assets.insert asset_id asset')
    (hprojects : s'.Projects = s.Projects.insert asset.project_id project')
    (hasset : s.Assets.get asset_id = some asset)
    (hproject : s.Projects.get asset.project_id = some project)
    (hid : asset'.project_id = asset.project_id) (hstatus : asset'.status = 1)
    (hmax : project'.max_supply = project.max_supply) :
    s'.Capped ↔
      project'.total_supply.toNat + asset.supply_of asset.project_id
          = project.total_supply.toNat + asset'.total_supply.toNat
        ∧ project'.total_supply.toNat ≤ project.max_supply.toNat := by
  have hsupply (p : Hash) : s'.project_supply p + asset.supply_of p
      = s.project_supply p + asset'.supply_of p := by
    unfold Storage.project_supply
    rw [hassets]
    exact project_supply_insert s hasset p
  have hself := hsupply asset.project_id
  have hnew : asset'.supply_of asset.project_id = asset'.total_supply.toNat :=
    if_pos ⟨hid, hstatus⟩
  obtain ⟨hsum, hle⟩ := hcap _ _ hproject
  rw [hnew] at hself
  constructor
  · intro hcap'
    -- the project that was written has to add up
    have hget : s'.Projects.get asset.project_id = some project' := by
      rw [hprojects, StorageMap.get_insert_self]
    obtain ⟨hsum', hle'⟩ := hcap' _ _ hget
    rw [hmax] at hle'
    exact ⟨by omega, by omega⟩
  · rintro ⟨hsum', hle'⟩ p other hother
    rw [hprojects, StorageMap.get_insert] at hother
    by_cases hp : p = asset.project_id
    · rw [if_pos hp, Option.some_inj] at hother
      subst hp hother
      rw [hmax]
      exact ⟨by omega, by omega⟩
    · rw [if_neg hp] at hother
      -- the asset is of one project only, so all others are as before
      have hold : asset.supply_of p = 0 := if_neg fun hc => hp hc.1.symm
      have hnew' : asset'.supply_of p = 0 := if_neg fun hc => hp (hid ▸ hc.1.symm)
      have hsame := hsupply p
      rw [hold, hnew', Nat.add_zero, Nat.add_zero] at hsame
      rw [hsame]
      exact hcap p other hother

/-- Whether one step keeps the caps. -/
theorem Step.capped_iff (hreg : Registry s) (hcap : s.Capped)
    (h : Step T origin now s call s' events ops) : s'.Capped ↔ CapKept s call := by
  cases h with
  | submit_project sender symbol max_supply additional project_id horigin hid hfresh =>
    refine iff_of_true (fun p project hproject => ?_) trivial
    by_cases hp : p = project_id
    · subst hp
      cases (StorageMap.get_insert_self _ _ _).symm.trans hproject
      -- no asset is of a project that did not exist
      have hnone : s.project_supply p = 0 := StorageMap.sum_eq_zero fun a asset hasset =>
        if_neg fun hc => by
          obtain ⟨old, hold⟩ := hreg.asset_project a asset hasset
          rw [hc.1, hfresh] at hold
          cases hold
      exact ⟨hnone.symm, hnone.trans_le (Nat.zero_le _)⟩
    · exact hcap p project ((StorageMap.get_insert_of_ne _ _ hp).symm.trans hproject)
  | approve_project project_id project horigin hproject hstatus =>
    refine iff_of_true (fun p other hother => ?_) trivial
    by_cases hp : p = project_id
    · subst hp
      cases (StorageMap.get_insert_self _ _ _).symm.trans hother
      exact hcap p project hproject
    · exact hcap p other ((StorageMap.get_insert_of_ne _ _ hp).symm.trans hother)
  | submit_asset sender project_id vintage initial_supply additional project asset_id horigin
      hproject hstatus howner hlimit hid hfresh =>
    refine iff_of_true (fun p other hother => ?_) trivial
    have hsum := StorageMap.sum_insert_of_none (fun _ => CarbonAsset.supply_of p)
      { project_id, vintage, initial_supply, total_supply := 0, status := 0 } hfresh
    rw [CarbonAsset.supply_of_pending rfl, Nat.add_zero] at hsum
    change other.total_supply.toNat = (s.Assets.insert asset_id _).sum _
      ∧ (s.Assets.insert asset_id _).sum _ ≤ other.max_supply.toNat
    rw [hsum]
    exact hcap p other hother
  | approve_asset asset_id asset project horigin hasset hstatus hproject hlimit =>
    -- the project is not written, which is to write it back as it is
    have hwrite := (StorageMap.insert_eq_self hproject).symm
    refine (capped_write_iff hcap
      { asset with status := 1, total_supply := asset.initial_supply } project rfl
      (by exact hwrite) hasset hproject rfl rfl rfl).trans ?_
    rw [CarbonAsset.supply_of_pending hstatus]
    obtain ⟨hsum, hle⟩ := hcap _ _ hproject
    constructor
    · -- the sum has grown by the initial supply and the project has not
      rintro ⟨hzero, -⟩ asset' hasset'
      cases hasset.symm.trans hasset'
      exact UInt64.toNat_inj.mp (Nat.add_left_cancel hzero).symm
    · intro hzero
      rw [hzero asset hasset]
      exact ⟨rfl, by omega⟩
  | submit_issue => exact iff_of_true ((capped_congr rfl rfl).mpr hcap) trivial
  | approve_issue issue_id issue_info asset project horigin hissue hstatus hasset hproject hlimit =>
    have hone := (hreg.issue_asset issue_id issue_info hissue).status_eq hasset
    have hold : asset.supply_of asset.project_id = asset.total_supply.toNat := if_pos ⟨rfl, hone⟩
    have hle := supply_of_le s hasset asset.project_id
    obtain ⟨hsum, -⟩ := hcap _ _ hproject
    refine (capped_write_iff hcap
      { asset with total_supply := asset.total_supply + issue_info.amount }
      { project with total_supply := project.total_supply + issue_info.amount } rfl rfl hasset
      hproject rfl hone rfl).trans ?_
    have hkept : CapKept s (.approve_issue issue_id) ↔
        (2 ^ 64 ≤ issue_info.amount.toNat + project.total_supply.toNat →
          2 ^ 64 ≤ asset.total_supply.toNat + issue_info.amount.toNat) := by
      simp [CapKept, hissue, hasset, hproject]
    rw [hkept, hold]
    -- both totals add the amount modulo `2 ^ 64`, and the cap was checked on the wrapped one
    have hproject_lt := project.total_supply.toNat_lt
    have hasset_lt := asset.total_supply.toNat_lt
    have hamount_lt := issue_info.amount.toNat_lt
    rw [UInt64.le_iff_toNat_le, UInt64.toNat_add] at hlimit
    simp only [UInt64.toNat_add]
    constructor
    · rintro ⟨hwrap, -⟩
      omega
    · exact fun hwrap => ⟨by omega, by omega⟩
  | submit_burn => exact iff_of_true ((capped_congr rfl rfl).mpr hcap) trivial
  | approve_burn burn_id burn_info asset project horigin hburn hstatus hasset hproject =>
    have hone := (hreg.burn_asset burn_id burn_info hburn).status_eq hasset
    have hold : asset.supply_of asset.project_id = asset.total_supply.toNat := if_pos ⟨rfl, hone⟩
    have hle := supply_of_le s hasset asset.project_id
    obtain ⟨hsum, hmax⟩ := hcap _ _ hproject
    refine (capped_write_iff hcap
      { asset with total_supply := asset.total_supply - burn_info.amount }
      { project with total_supply := project.total_supply - burn_info.amount } rfl rfl hasset
      hproject rfl hone rfl).trans ?_
    have hkept : CapKept s (.approve_burn burn_id) ↔
        (asset.total_supply < burn_info.amount → project.total_supply < burn_info.amount
          ∧ project.total_supply - burn_info.amount ≤ project.max_supply) := by
      simp [CapKept, hburn, hasset, hproject]
    rw [hkept, hold]
    have hproject_lt := project.total_supply.toNat_lt
    have hasset_lt := asset.total_supply.toNat_lt
    have hamount_lt := burn_info.amount.toNat_lt
    simp only [UInt64.lt_iff_toNat_lt, UInt64.le_iff_toNat_le, UInt64.toNat_sub]
    constructor
    · rintro ⟨hwrap, hcapped⟩ hlt
      exact ⟨by omega, hcapped⟩
    · intro hwrap
      by_cases hlt : asset.total_supply.toNat < burn_info.amount.toNat
      · obtain ⟨hproject_wrap, hcapped⟩ := hwrap hlt
        exact ⟨by omega, hcapped⟩
      · exact ⟨by omega, by omega⟩
  | transfer sender asset_id to_ amount =>
    exact iff_of_true ((capped_congr (move_Assets s asset_id sender to_ amount)
      (move_Projects s asset_id sender to_ amount)).mpr hcap) trivial
  | neutralize => exact iff_of_true ((capped_congr rfl rfl).mpr hcap) trivial

/-- Where nothing wraps and what is held and pending is covered, only the approval of
an asset with an initial supply breaks a cap. -/
theorem Step.capKept_iff (hreg : Registry s) (hcov : s.Covered) (hfits : IssueFits s call)
    (h : Step T origin now s call s' events ops) : CapKept s call ↔ NoInitialSupply s call := by
  cases h with
  | approve_issue issue_id issue_info asset project horigin hissue hstatus hasset hproject hlimit =>
    refine iff_of_true (fun info' hi asset' ha project' hp hwrap => ?_) trivial
    have hlt := (hfits info' hi asset' ha project' hp).1
    omega
  | approve_burn burn_id burn_info asset project horigin hburn hstatus hasset hproject =>
    refine iff_of_true (fun info' hb asset' ha project' hp hlt => ?_) trivial
    cases hburn.symm.trans hb
    have happroved := hreg.burn_asset burn_id burn_info hburn
    have hle := hcov.pending_le hburn hstatus
    rw [happroved.supply_eq ha] at hle
    rw [UInt64.lt_iff_toNat_lt] at hlt
    omega
  | _ => exact Iff.rfl

end Steps

end CarbonAssets

/-! ## Runs of the pallet -/

section Chain

open CarbonAssets

variable {AccountId Hash : Type} [DecidableEq AccountId] [DecidableEq Hash]
variable {T : Trait AccountId Hash}

/-- The transition is a call of the carbon pallet. -/
def Applied.PalletCall (t : Applied AccountId Hash) : Prop :=
  ∃ call, t.input.call = .carbonAssets call

/-- If the transition is a successful call of the carbon pallet, then the condition
holds of the storage before it and the call. -/
def Applied.Respects
    (P : CarbonAssets.Storage AccountId Hash → CarbonAssets.Call AccountId Hash → Prop)
    (t : Applied AccountId Hash) : Prop :=
  ∀ call, t.Succeeded → t.input.call = .carbonAssets call → P t.pre.carbon call

instance : DecidablePred (@Applied.PalletCall AccountId Hash) := fun t =>
  match h : t.input.call with
  | .carbonAssets call => isTrue ⟨call, h⟩
  | .carbonExchange _ => isFalse fun ⟨_, hc⟩ => nomatch h.symm.trans hc
  | .standardAssets _ => isFalse fun ⟨_, hc⟩ => nomatch h.symm.trans hc
  | .balances_transfer _ _ => isFalse fun ⟨_, hc⟩ => nomatch h.symm.trans hc

instance (P : CarbonAssets.Storage AccountId Hash → CarbonAssets.Call AccountId Hash → Prop)
    [∀ s, DecidablePred (P s)] : DecidablePred (Applied.Respects P) := fun t =>
  match h : t.input.call with
  | .carbonAssets call =>
    decidable_of_iff (t.Succeeded → P t.pre.carbon call)
      ⟨fun hp _ hok hc => Call.carbonAssets.inj (h.symm.trans hc) ▸ hp hok,
        fun hp hok => hp call hok h⟩
  | .carbonExchange _ => isTrue fun _ _ hc => nomatch h.symm.trans hc
  | .standardAssets _ => isTrue fun _ _ hc => nomatch h.symm.trans hc
  | .balances_transfer _ _ => isTrue fun _ _ hc => nomatch h.symm.trans hc

/-- A call of the pallet in which no approved issue wraps a total supply. -/
def UnwrappedCall (t : Applied AccountId Hash) : Prop := t.PalletCall ∧ t.Respects IssueFits

instance (t : Applied AccountId Hash) : Decidable (UnwrappedCall t) :=
  inferInstanceAs (Decidable (t.PalletCall ∧ t.Respects IssueFits))

/-- A call of the pallet fails and changes nothing, or makes one of its steps. -/
theorem Outcome.of_palletCall {t : Applied AccountId Hash} (h : Outcome T t)
    (hcall : t.PalletCall) :
    (¬t.Succeeded ∧ t.post = t.pre) ∨ ∃ call events, t.Succeeded
      ∧ t.input.call = .carbonAssets call
      ∧ Step T t.input.origin t.input.now t.pre.carbon call t.post.carbon events t.output.ops := by
  obtain ⟨call, hcall⟩ := hcall
  cases h with
  | refused => exact .inl ⟨(fun hok => nomatch hok), rfl⟩
  | carbonAssets w origin now call' s' events ops hstep =>
    exact .inr ⟨call', events, rfl, rfl, hstep⟩
  | carbonExchange => cases hcall
  | half_take => cases hcall
  | standardAssets => cases hcall
  | balances_transfer => cases hcall

/-- What holds of the one call of a transition. -/
theorem respects_iff
    {P : CarbonAssets.Storage AccountId Hash → CarbonAssets.Call AccountId Hash → Prop}
    {t : Applied AccountId Hash} {call : CarbonAssets.Call AccountId Hash} (hok : t.Succeeded)
    (hcall : t.input.call = .carbonAssets call) : t.Respects P ↔ P t.pre.carbon call := by
  refine ⟨fun h => h call hok hcall, fun h call' _ hcall' => ?_⟩
  cases hcall.symm.trans hcall'
  exact h

/-- A call that fails meets every condition on successful calls. -/
theorem respects_of_not_succeeded
    {P : CarbonAssets.Storage AccountId Hash → CarbonAssets.Call AccountId Hash → Prop}
    {t : Applied AccountId Hash} (hfail : ¬t.Succeeded) : t.Respects P :=
  fun _ hok => absurd hok hfail

/-- Whether a call of the pallet keeps the caps. -/
theorem Outcome.capped_iff {t : Applied AccountId Hash} (h : Outcome T t) (hcall : t.PalletCall)
    (hreg : Registered t.pre) (hcap : t.pre.carbon.Capped) :
    t.post.carbon.Capped ↔ t.Respects CapKept := by
  rcases h.of_palletCall hcall with ⟨hfail, hsame⟩ | ⟨call, events, hok, hcall, hstep⟩
  · rw [hsame]
    exact iff_of_true hcap (respects_of_not_succeeded hfail)
  · rw [respects_iff hok hcall]
    exact hstep.capped_iff hreg.carbon hcap

/-- Where no issue wraps, a call of the pallet keeps the caps unless it approves an asset
with an initial supply. -/
theorem Outcome.capKept_iff {t : Applied AccountId Hash} (h : Outcome T t) (hok : UnwrappedCall t)
    (hreg : Registered t.pre) (hcov : t.pre.carbon.Covered) :
    t.Respects CapKept ↔ t.Respects NoInitialSupply := by
  rcases h.of_palletCall hok.1 with ⟨hfail, -⟩ | ⟨call, events, hsucceeded, hcall, hstep⟩
  · exact iff_of_true (respects_of_not_succeeded hfail) (respects_of_not_succeeded hfail)
  · rw [respects_iff hsucceeded hcall, respects_iff hsucceeded hcall]
    exact hstep.capKept_iff hreg.carbon hcov ((respects_iff hsucceeded hcall).mp hok.2)

/-- The amount of pending burns of `a` that the submissions of a history overwrite. -/
def total_lost (T : Trait AccountId Hash) (a : Hash) (tr : List (Applied AccountId Hash)) : ℕ :=
  (tr.map fun t => t.flow (burn_lost T a t.input.origin)).sum

/-- The supply equation, one call of the pallet. -/
theorem Outcome.accounts {t : Applied AccountId Hash} (h : Outcome T t) (hcall : t.PalletCall)
    (hreg : Registered t.pre) (hcov : t.pre.carbon.Covered) (hfits : t.Respects IssueFits)
    (a : Hash) :
    t.post.carbon.supply a + (t.pre.carbon.held a + t.pre.carbon.pending a)
      = t.pre.carbon.supply a + (t.post.carbon.held a + t.post.carbon.pending a)
        + (t.flow (neutralized a) + t.flow (burn_lost T a t.input.origin)) := by
  rcases h.of_palletCall hcall with ⟨hfail, hsame⟩ | ⟨call, events, hok, hcall, hstep⟩
  · have hflow (f) : t.flow f = 0 := by
      unfold Applied.flow
      split
      · exact absurd ‹_› hfail
      · rfl
    rw [hsame, hflow, hflow]
    rfl
  · have hflow (f) : t.flow f = f t.pre.carbon call := by
      unfold Applied.flow
      rw [hok, hcall]
    rw [hflow, hflow]
    exact hstep.accounts hreg.carbon hcov ((respects_iff hok hcall).mp hfits) a

variable {native : AccountId → ℕ} {w : World AccountId Hash} {tr : List (Applied AccountId Hash)}

/-- **The supply equation**, over a run: every unit of the recorded supply is held,
pending, neutralized, or was in a burn that was submitted again. -/
theorem accounts_run
    (hrun : (runtime T).Run UnwrappedCall (genesis native) tr w) :
    ∀ a, w.carbon.supply a = w.carbon.held a + w.carbon.pending a
      + total_flow (neutralized a) tr + total_lost T a tr := by
  apply hrun.invariant (I := fun tr w => ∀ a, w.carbon.supply a
    = w.carbon.held a + w.carbon.pending a + total_flow (neutralized a) tr + total_lost T a tr)
  · intro a
    rfl
  intro tr w x hrun ih hok a
  -- the equation itself covers what is held and pending, which the step asks for
  have hcov : w.carbon.Covered := by
    intro a
    have ha := ih a
    omega
  have hstep := (outcome_of_fire T w x).accounts hok.1 (Registered.run hrun) hcov hok.2 a
  have ha := ih a
  rw [total_flow_snoc]
  simp only [total_lost, List.map_append, List.sum_append, List.map_cons, List.map_nil,
    List.sum_cons, List.sum_nil] at ha ⊢
  simp only [Machine.fire_pre] at hstep
  omega

/-- What is held and what is pending stays covered. -/
theorem covered_run (hrun : (runtime T).Run UnwrappedCall (genesis native) tr w) :
    w.carbon.Covered := by
  intro a
  have ha := accounts_run hrun a
  omega

/-- **Unaccounted supply.** In a run of the carbon pallet in which no approved issue
wraps a total supply, the total supply of an approved asset is what accounts hold,
what pending burns hold and what has been neutralized, if and only if no submission
of a burn has overwritten a pending burn of the asset. -/
theorem supply_accounted_iff (hrun : (runtime T).Run UnwrappedCall (genesis native) tr w)
    {a : Hash} {asset : CarbonAsset Hash} (hasset : w.carbon.Assets.get a = some asset)
    (hstatus : asset.status = 1) :
    asset.total_supply.toNat
        = w.carbon.held a + w.carbon.pending a + total_flow (neutralized a) tr
      ↔ ∀ t ∈ tr, t.flow (burn_lost T a t.input.origin) = 0 := by
  have hsupply : w.carbon.supply a = asset.total_supply.toNat :=
    Storage.Approved.supply_eq ⟨asset, hasset, hstatus⟩ hasset
  have haccounts := accounts_run hrun a
  have hzero : total_lost T a tr = 0 ↔ ∀ t ∈ tr, t.flow (burn_lost T a t.input.origin) = 0 := by
    rw [total_lost, List.sum_eq_zero_iff_forall_eq_nat, List.forall_mem_map]
  rw [← hzero]
  omega

/-- **The caps of the projects.** Over a run of the carbon pallet, every project's
total supply is the sum over its approved assets and within its cap, in every state
reached, if and only if every call keeps its project's; and where no approved issue
wraps a total supply, if and only if no asset with an initial supply is approved. -/
theorem project_capped_iff (hrun : (runtime T).Run Applied.PalletCall (genesis native) tr w) :
    ((∀ t ∈ tr, t.post.carbon.Capped) ↔ ∀ t ∈ tr, t.Respects CapKept)
    ∧ ((∀ t ∈ tr, t.Respects IssueFits) →
      ((∀ t ∈ tr, t.post.carbon.Capped) ↔ ∀ t ∈ tr, t.Respects NoInitialSupply)) := by
  have hgenesis : (genesis native : World AccountId Hash).carbon.Capped := by
    intro p project h
    cases h
  have hiff : (∀ t ∈ tr, t.post.carbon.Capped) ↔ ∀ t ∈ tr, t.Respects CapKept := by
    apply hrun.forall_good_iff (G := fun w => w.carbon.Capped) hgenesis
    intro tr₁ w x hrun hcap hcall
    exact (outcome_of_fire T w x).capped_iff hcall (Registered.run hrun) hcap
  refine ⟨hiff, ?_⟩
  intro hfits
  apply hiff.trans
  apply forall₂_congr
  intro t ht
  -- the same run, read as one in which no issue wraps
  have hrun' : (runtime T).Run UnwrappedCall (genesis native) tr w :=
    hrun.restrict fun u hu => ⟨(hrun.of_mem hu).elim fun _ h => h.2.2, hfits u hu⟩
  obtain ⟨tr₁, hpre, hfire, hok⟩ := hrun'.of_mem ht
  exact (outcome_of_mem hrun' ht).capKept_iff hok (Registered.run hpre) (covered_run hpre)

/-! ## On the executable chain -/

/-- Account 1's asset without an initial supply. -/
def devnet_empty_asset : List ℕ := Preimage.encode (.asset 1 devnet_project [] 0 [])

/-- An issue of seven units of it, and a burn of two. -/
def devnet_issue_and_burn : List (Extrinsic ℕ (List ℕ)) :=
  [⟨.signed 1, 0, .carbonAssets (.submit_project [] 1000 [])⟩,
    ⟨.system .Root, 0, .carbonAssets (.approve_project devnet_project)⟩,
    ⟨.signed 1, 0, .carbonAssets (.submit_asset devnet_project [] 0 [])⟩,
    ⟨.system .Root, 0, .carbonAssets (.approve_asset devnet_empty_asset)⟩,
    ⟨.signed 1, 0, .carbonAssets (.submit_issue devnet_empty_asset 7 [])⟩,
    ⟨.system .Root, 0,
      .carbonAssets (.approve_issue (Preimage.encode (.issue 1 devnet_empty_asset 7 [])))⟩,
    ⟨.signed 1, 0, .carbonAssets (.submit_burn devnet_empty_asset 2 [])⟩,
    ⟨.system .Root, 0,
      .carbonAssets (.approve_burn (Preimage.encode (.burn 1 devnet_empty_asset 2 [])))⟩]

theorem project_capped_issue_and_burn :
    (∀ t ∈ (runtime devnet).trace (genesis fun _ => 0) devnet_issue_and_burn,
        t.post.carbon.Capped)
      ↔ ∀ t ∈ (runtime devnet).trace (genesis fun _ => 0) devnet_issue_and_burn,
        Applied.Respects NoInitialSupply t :=
  have hrun : (runtime devnet).Run Applied.PalletCall (genesis fun _ => 0) _ _ :=
    (devnet_run (fun _ => 0) devnet_issue_and_burn).restrict (by decide)
  (project_capped_iff hrun).2 (by decide)

/-- An asset of a project capped at 1000, with 600 initial units. -/
def devnet_large_asset (vintage : Bytes) : List ℕ :=
  Preimage.encode (.asset 1 devnet_project vintage 600 [])

/-- The approval of two of them. -/
def devnet_over_cap : List (Extrinsic ℕ (List ℕ)) :=
  [⟨.signed 1, 0, .carbonAssets (.submit_project [] 1000 [])⟩,
    ⟨.system .Root, 0, .carbonAssets (.approve_project devnet_project)⟩,
    ⟨.signed 1, 0, .carbonAssets (.submit_asset devnet_project [1] 600 [])⟩,
    ⟨.signed 1, 0, .carbonAssets (.submit_asset devnet_project [2] 600 [])⟩,
    ⟨.system .Root, 0, .carbonAssets (.approve_asset (devnet_large_asset [1]))⟩,
    ⟨.system .Root, 0, .carbonAssets (.approve_asset (devnet_large_asset [2]))⟩]

/-- **A project over its cap.** The approvals of both assets are checked against a
total supply that neither of them has raised. -/
theorem initial_supplies_over_cap :
    (runtime devnet).Run UnwrappedCall (genesis fun _ => 0)
      ((runtime devnet).trace (genesis fun _ => 0) devnet_over_cap)
      ((runtime devnet).final (genesis fun _ => 0) devnet_over_cap)
    ∧ ∃ project, ((runtime devnet).final (genesis fun _ => 0) devnet_over_cap).carbon.Projects.get
        devnet_project = some project
      ∧ project.total_supply = 0 ∧ project.max_supply = 1000
      ∧ ((runtime devnet).final (genesis fun _ => 0) devnet_over_cap).carbon.project_supply
          devnet_project = 1200 :=
  ⟨Machine.run_trace _ _ (by decide), _, rfl, by decide, by decide, by decide⟩

/-- Issued, burned, sent and neutralized units account for the supply. -/
theorem supply_accounted_flows :
    ∃ asset, ((runtime devnet).final (genesis fun _ => 0) devnet_flows).carbon.Assets.get
        devnet_asset = some asset
      ∧ asset.total_supply.toNat
        = ((runtime devnet).final (genesis fun _ => 0) devnet_flows).carbon.held devnet_asset
          + ((runtime devnet).final (genesis fun _ => 0) devnet_flows).carbon.pending devnet_asset
          + total_flow (neutralized devnet_asset)
            ((runtime devnet).trace (genesis fun _ => 0) devnet_flows) :=
  have hrun : (runtime devnet).Run UnwrappedCall (genesis fun _ => 0) _ _ :=
    (devnet_run (fun _ => 0) devnet_flows).restrict (by decide)
  ⟨_, rfl, (supply_accounted_iff hrun rfl (by decide)).mpr (by decide)⟩

/-- The same burn of two units, submitted twice. -/
def devnet_burn_twice : List (Extrinsic ℕ (List ℕ)) :=
  devnet_opening ++
    [⟨.signed 1, 0, .carbonAssets (.submit_burn devnet_asset 2 [])⟩,
      ⟨.signed 1, 0, .carbonAssets (.submit_burn devnet_asset 2 [])⟩]

/-- **A burn that is lost.** The second submission takes two more units from the
owner and overwrites the first: of five units recorded, one is held and two pending.
No operation of the run has wrapped. -/
theorem burn_twice_unaccounted :
    ((runtime devnet).Run UnwrappedCall (genesis fun _ => 0)
      ((runtime devnet).trace (genesis fun _ => 0) devnet_burn_twice)
      ((runtime devnet).final (genesis fun _ => 0) devnet_burn_twice)
    ∧ ∀ t ∈ (runtime devnet).trace (genesis fun _ => 0) devnet_burn_twice, ∀ op ∈ t.output.ops,
      op.CarbonExact)
    ∧ ((runtime devnet).final (genesis fun _ => 0) devnet_burn_twice).carbon.supply devnet_asset = 5
    ∧ ((runtime devnet).final (genesis fun _ => 0) devnet_burn_twice).carbon.held devnet_asset = 1
    ∧ ((runtime devnet).final (genesis fun _ => 0) devnet_burn_twice).carbon.pending devnet_asset
      = 2
    ∧ total_flow (neutralized devnet_asset)
      ((runtime devnet).trace (genesis fun _ => 0) devnet_burn_twice) = 0 :=
  ⟨⟨(devnet_run (fun _ => 0) devnet_burn_twice).restrict (by decide), by decide⟩, by decide,
    by decide, by decide, by decide⟩

end Chain

end Eco2
