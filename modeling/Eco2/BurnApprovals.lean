/-
Approving a burn.

`approve_burn` takes the amount off two stored totals and checks neither. Whether
that underflows was decided before: `BurnsFit` says that every pending burn is within
the total of its asset and of its project, and `Step.burnsFit_iff` says of each call
whether it leaves that so. Where `approve_issue` does not wrap a total, the asset's
total is never the problem, since it covers all that is held and pending. The
project's is: `approve_asset` has not added the initial supply to it, and so a burn of
initial units finds nothing to be taken off.
-/
import Eco2.Supply

set_option autoImplicit false
set_option linter.unusedSectionVars false

namespace Eco2

namespace CarbonAssets

variable {AccountId Hash : Type} [DecidableEq AccountId] [DecidableEq Hash]

/-! ## Pending burns -/

/-- The burn is stored and pending, and is of this asset in this project. -/
structure Storage.PendingBurn (s : Storage AccountId Hash) (burn_id : Hash)
    (burn_info : BurnInfo Hash) (asset : CarbonAsset Hash) (project : CarbonProject AccountId) :
    Prop where
  stored : s.Burns.get burn_id = some burn_info
  pending : burn_info.status = 0
  of_asset : s.Assets.get burn_info.asset_id = some asset
  in_project : s.Projects.get asset.project_id = some project

/-- The burn is within both totals. -/
def BurnInfo.Fits (burn_info : BurnInfo Hash) (asset : CarbonAsset Hash)
    (project : CarbonProject AccountId) : Prop :=
  burn_info.amount ≤ asset.total_supply ∧ burn_info.amount ≤ project.total_supply

/-- Every pending burn is within both totals. -/
def Storage.BurnsFit (s : Storage AccountId Hash) : Prop :=
  ∀ burn_id burn_info asset project, s.PendingBurn burn_id burn_info asset project →
    burn_info.Fits asset project

/-- The totals of the asset and the project leave room for the pending burns but those
that are done. -/
def Storage.RoomForBurns (s : Storage AccountId Hash) (done : Hash → Prop) (asset_id : Hash)
    (asset_total : ℕ) (project_id : Hash) (project_total : ℕ) : Prop :=
  ∀ burn_id burn_info asset project, ¬done burn_id →
    s.PendingBurn burn_id burn_info asset project →
    (burn_info.asset_id = asset_id → burn_info.amount.toNat ≤ asset_total)
      ∧ (asset.project_id = project_id → burn_info.amount.toNat ≤ project_total)

/-- Whether a call leaves every pending burn within the totals: a burn submitted must be
within them, and the totals an approval writes must leave room for the others. -/
def KeepsBurns (s : Storage AccountId Hash) : Call AccountId Hash → Prop
  | .submit_burn asset_id amount _ =>
      ∀ asset ∈ s.Assets.get asset_id, ∀ project ∈ s.Projects.get asset.project_id,
        amount ≤ asset.total_supply ∧ amount ≤ project.total_supply
  | .approve_issue issue_id =>
      ∀ issue_info ∈ s.Issues.get issue_id, ∀ asset ∈ s.Assets.get issue_info.asset_id,
      ∀ project ∈ s.Projects.get asset.project_id,
        s.RoomForBurns (fun _ => False) issue_info.asset_id
          (asset.total_supply + issue_info.amount).toNat asset.project_id
          (project.total_supply + issue_info.amount).toNat
  | .approve_burn burn_id =>
      ∀ burn_info ∈ s.Burns.get burn_id, ∀ asset ∈ s.Assets.get burn_info.asset_id,
      ∀ project ∈ s.Projects.get asset.project_id,
        s.RoomForBurns (· = burn_id) burn_info.asset_id
          (asset.total_supply.toNat - burn_info.amount.toNat) asset.project_id
          (project.total_supply.toNat - burn_info.amount.toNat)
  | _ => True

section Steps

variable {T : Trait AccountId Hash} {origin : Origin AccountId} {now : Moment}
  {s s' : Storage AccountId Hash} {call : Call AccountId Hash}
  {events : List (Event AccountId Hash)} {ops : List (Op AccountId Hash)}

/-- Fitting is about the records only. -/
theorem burnsFit_congr (hassets : s'.Assets = s.Assets) (hprojects : s'.Projects = s.Projects)
    (hburns : s'.Burns = s.Burns) : s'.BurnsFit ↔ s.BurnsFit := by
  have hpending (id info asset project) :
      s'.PendingBurn id info asset project ↔ s.PendingBurn id info asset project := by
    constructor
    · rintro ⟨hburn, hstatus, hasset, hproject⟩
      exact ⟨hburns ▸ hburn, hstatus, hassets ▸ hasset, hprojects ▸ hproject⟩
    · rintro ⟨hburn, hstatus, hasset, hproject⟩
      exact ⟨hburns ▸ hburn, hstatus, hassets ▸ hasset, hprojects ▸ hproject⟩
  simp only [Storage.BurnsFit, hpending]

/-- Writing the totals of an asset and its project, with some of the burns done. -/
theorem burnsFit_write_iff (hfit : s.BurnsFit) {asset_id : Hash} {asset : CarbonAsset Hash}
    {project : CarbonProject AccountId} {asset_total project_total : UInt64} {done : Hash → Prop}
    (hasset : s.Assets.get asset_id = some asset)
    (hproject : s.Projects.get asset.project_id = some project)
    (hassets : s'.Assets = s.Assets.insert asset_id { asset with total_supply := asset_total })
    (hprojects : s'.Projects
      = s.Projects.insert asset.project_id { project with total_supply := project_total })
    (hburns : ∀ id info, s'.Burns.get id = some info ∧ info.status = 0
      ↔ ¬done id ∧ s.Burns.get id = some info ∧ info.status = 0) :
    s'.BurnsFit
      ↔ s.RoomForBurns done asset_id asset_total.toNat asset.project_id project_total.toNat := by
  constructor
  · rintro hfit' id info other other_project hdone ⟨hburn, hstatus, hother, hother_project⟩
    obtain ⟨hburn', -⟩ := (hburns id info).mpr ⟨hdone, hburn, hstatus⟩
    -- the same burn is pending after the write, with what has become of its records
    have hafter : ∃ asset', s'.Assets.get info.asset_id = some asset'
        ∧ asset'.project_id = other.project_id
        ∧ (info.asset_id = asset_id → asset'.total_supply = asset_total) := by
      rw [hassets, StorageMap.get_insert]
      split
      next hsame =>
        rw [hsame] at hother
        cases hasset.symm.trans hother
        exact ⟨_, rfl, rfl, fun _ => rfl⟩
      next hne => exact ⟨other, hother, rfl, fun hc => absurd hc hne⟩
    have hafter_project : ∃ project', s'.Projects.get other.project_id = some project'
        ∧ (other.project_id = asset.project_id → project'.total_supply = project_total) := by
      rw [hprojects, StorageMap.get_insert]
      split
      next => exact ⟨_, rfl, fun _ => rfl⟩
      next hne => exact ⟨other_project, hother_project, fun hc => absurd hc hne⟩
    obtain ⟨asset', hasset', hid, htotal⟩ := hafter
    obtain ⟨project', hproject', hproject_total⟩ := hafter_project
    rw [← hid] at hproject'
    obtain ⟨hle, hle'⟩ := hfit' id info asset' project' ⟨hburn', hstatus, hasset', hproject'⟩
    rw [UInt64.le_iff_toNat_le] at hle hle'
    exact ⟨fun hsame => htotal hsame ▸ hle, fun hsame => hproject_total hsame ▸ hle'⟩
  · rintro hroom id info other other_project ⟨hburn', hstatus, hother', hproject'⟩
    obtain ⟨hdone, hburn, -⟩ := (hburns id info).mp ⟨hburn', hstatus⟩
    rw [hassets, StorageMap.get_insert] at hother'
    rw [hprojects, StorageMap.get_insert] at hproject'
    by_cases hsame : info.asset_id = asset_id
    · rw [if_pos hsame] at hother'
      cases hother'
      rw [if_pos rfl] at hproject'
      cases hproject'
      obtain ⟨hle, hle'⟩ := hroom id info asset project hdone
        ⟨hburn, hstatus, hsame ▸ hasset, hproject⟩
      exact ⟨UInt64.le_iff_toNat_le.mpr (hle hsame), UInt64.le_iff_toNat_le.mpr (hle' rfl)⟩
    · rw [if_neg hsame] at hother'
      by_cases hid : other.project_id = asset.project_id
      · rw [if_pos hid] at hproject'
        cases hproject'
        -- another asset of the project: its own total is as it was
        have hpending : s.PendingBurn id info other project :=
          ⟨hburn, hstatus, hother', hid ▸ hproject⟩
        have hle := (hroom id info other project hdone hpending).2 hid
        exact ⟨(hfit id info other project hpending).1, UInt64.le_iff_toNat_le.mpr hle⟩
      · rw [if_neg hid] at hproject'
        exact hfit id info other other_project ⟨hburn, hstatus, hother', hproject'⟩

/-- Whether one step leaves every pending burn within the totals. -/
theorem Step.burnsFit_iff (hreg : Registry s) (hfit : s.BurnsFit)
    (h : Step T origin now s call s' events ops) : s'.BurnsFit ↔ KeepsBurns s call := by
  cases h with
  | submit_project sender symbol max_supply additional project_id horigin hid hfresh =>
    refine iff_of_true ?_ trivial
    rintro id info asset project ⟨hburn, hstatus, hasset, hproject⟩
    obtain ⟨old, hold⟩ := hreg.asset_project _ asset hasset
    -- no asset is of a project that did not exist
    have hne : asset.project_id ≠ project_id := fun hc => by
      rw [hc, hfresh] at hold
      cases hold
    rw [StorageMap.get_insert_of_ne _ _ hne] at hproject
    exact hfit id info asset project ⟨hburn, hstatus, hasset, hproject⟩
  | approve_project project_id project horigin hproject hstatus =>
    refine iff_of_true ?_ trivial
    rintro id info asset project' ⟨hburn, hpending, hasset, hproject'⟩
    rw [StorageMap.get_insert] at hproject'
    by_cases hid : asset.project_id = project_id
    · rw [if_pos hid] at hproject'
      cases hproject'
      exact hfit id info asset project ⟨hburn, hpending, hasset, hid ▸ hproject⟩
    · rw [if_neg hid] at hproject'
      exact hfit id info asset project' ⟨hburn, hpending, hasset, hproject'⟩
  | submit_asset sender project_id vintage initial_supply additional project asset_id horigin
      hproject hstatus howner hlimit hid hfresh =>
    refine iff_of_true ?_ trivial
    rintro id info asset project' ⟨hburn, hpending, hasset, hproject'⟩
    obtain ⟨old, hold, -⟩ := hreg.burn_asset id info hburn
    have hne : info.asset_id ≠ asset_id := fun hc => by
      rw [hc, hfresh] at hold
      cases hold
    rw [StorageMap.get_insert_of_ne _ _ hne] at hasset
    exact hfit id info asset project' ⟨hburn, hpending, hasset, hproject'⟩
  | approve_asset asset_id asset project horigin hasset hstatus hproject hlimit =>
    refine iff_of_true ?_ trivial
    rintro id info other other_project ⟨hburn, hpending, hother, hother_project⟩
    -- burns are of approved assets, and this one was not
    have hne : info.asset_id ≠ asset_id := fun hc => by
      have happroved := hreg.burn_asset id info hburn
      rw [hc] at happroved
      rw [happroved.status_eq hasset] at hstatus
      cases hstatus
    have hother' := (StorageMap.get_insert_of_ne _ _ hne).symm.trans hother
    exact hfit id info other other_project ⟨hburn, hpending, hother', hother_project⟩
  | submit_issue => refine iff_of_true ((burnsFit_congr ?_ ?_ ?_).mpr hfit) trivial <;> rfl
  | approve_issue issue_id issue_info asset project horigin hissue hstatus hasset hproject hlimit =>
    have hkept : KeepsBurns s (.approve_issue issue_id) ↔
        s.RoomForBurns (fun _ => False) issue_info.asset_id
          (asset.total_supply + issue_info.amount).toNat asset.project_id
          (project.total_supply + issue_info.amount).toNat := by
      simp [KeepsBurns, hissue, hasset, hproject]
    rw [hkept]
    refine burnsFit_write_iff hfit hasset hproject rfl rfl fun id info => ?_
    rw [not_false_eq_true, true_and]
    exact Iff.rfl
  | submit_burn sender asset_id amount additional asset project burn_id horigin hasset hstatus
      hproject howner hid hfresh hbalance =>
    have hkept : KeepsBurns s (.submit_burn asset_id amount additional)
        ↔ amount ≤ asset.total_supply ∧ amount ≤ project.total_supply := by
      simp [KeepsBurns, hasset, hproject]
    rw [hkept]
    constructor
    · intro hfit'
      exact hfit' burn_id _ asset project
        ⟨StorageMap.get_insert_self _ _ _, rfl, hasset, hproject⟩
    · rintro hle id info other other_project ⟨hburn, hpending, hother, hother_project⟩
      have hburn' := (StorageMap.get_insert s.Burns _ _ _).symm.trans hburn
      by_cases hsame : id = burn_id
      · rw [if_pos hsame] at hburn'
        cases hburn'
        cases hasset.symm.trans hother
        cases hproject.symm.trans hother_project
        exact hle
      · rw [if_neg hsame] at hburn'
        exact hfit id info other other_project ⟨hburn', hpending, hother, hother_project⟩
  | approve_burn burn_id burn_info asset project horigin hburn hstatus hasset hproject =>
    have hkept : KeepsBurns s (.approve_burn burn_id) ↔
        s.RoomForBurns (· = burn_id) burn_info.asset_id
          (asset.total_supply.toNat - burn_info.amount.toNat) asset.project_id
          (project.total_supply.toNat - burn_info.amount.toNat) := by
      simp [KeepsBurns, hburn, hasset, hproject]
    -- the burn approved is itself within the totals
    obtain ⟨hle, hle'⟩ := hfit burn_id burn_info asset project ⟨hburn, hstatus, hasset, hproject⟩
    rw [hkept, ← UInt64.toNat_sub_of_le _ _ hle, ← UInt64.toNat_sub_of_le _ _ hle']
    refine burnsFit_write_iff hfit hasset hproject rfl rfl fun id info => ?_
    rw [StorageMap.get_insert]
    by_cases hsame : id = burn_id
    · rw [if_pos hsame]
      refine iff_of_false ?_ fun hc => hc.1 hsame
      rintro ⟨hinfo, hpending⟩
      cases hinfo
      cases hpending
    · rw [if_neg hsame]
      exact (and_iff_right hsame).symm
  | transfer sender asset_id to_ amount =>
    exact iff_of_true ((burnsFit_congr (move_Assets s asset_id sender to_ amount)
      (move_Projects s asset_id sender to_ amount)
      (move_Burns s asset_id sender to_ amount)).mpr hfit) trivial
  | neutralize => refine iff_of_true ((burnsFit_congr ?_ ?_ ?_).mpr hfit) trivial <;> rfl

/-- Where the asset covers what is pending and the project is the sum over its assets,
every pending burn is within both totals. -/
theorem burnsFit_of_capped (hreg : Registry s) (hcov : s.Covered) (hcap : s.Capped) :
    s.BurnsFit := by
  rintro id info asset project ⟨hburn, hstatus, hasset, hproject⟩
  have happroved := hreg.burn_asset id info hburn
  have hle := hcov.pending_le hburn hstatus
  rw [happroved.supply_eq hasset] at hle
  have hpart := supply_of_le s hasset asset.project_id
  rw [CarbonAsset.supply_of, if_pos ⟨rfl, happroved.status_eq hasset⟩] at hpart
  obtain ⟨hsum, -⟩ := hcap _ _ hproject
  exact ⟨UInt64.le_iff_toNat_le.mpr hle, UInt64.le_iff_toNat_le.mpr (by omega)⟩

end Steps

end CarbonAssets

/-! ## Approvals on the chain -/

section Chain

open CarbonAssets

variable {AccountId Hash : Type} [DecidableEq AccountId] [DecidableEq Hash]
variable {T : Trait AccountId Hash}

/-- The transition approves the burn: it succeeds, takes the amount off both totals as
integers, and writes nothing else of the assets and projects and no balance. -/
structure ApprovesExactly (t : Applied AccountId Hash) (burn_info : BurnInfo Hash)
    (asset : CarbonAsset Hash) (project : CarbonProject AccountId) : Prop where
  succeeded : t.Succeeded
  asset_total : ∃ total_supply,
    t.post.carbon.Assets.get burn_info.asset_id = some { asset with total_supply }
      ∧ total_supply.toNat + burn_info.amount.toNat = asset.total_supply.toNat
  project_total : ∃ total_supply,
    t.post.carbon.Projects.get asset.project_id = some { project with total_supply }
      ∧ total_supply.toNat + burn_info.amount.toNat = project.total_supply.toNat
  other_assets : ∀ a, a ≠ burn_info.asset_id →
    t.post.carbon.Assets.get a = t.pre.carbon.Assets.get a
  other_projects : ∀ p, p ≠ asset.project_id →
    t.post.carbon.Projects.get p = t.pre.carbon.Projects.get p
  balances : t.post.carbon.Balances = t.pre.carbon.Balances
  native : t.post.native = t.pre.native

/-- Every pending burn is within the totals of its asset and project, and whoever may
approve it does so exactly. -/
def BurnsApprovable (T : Trait AccountId Hash) (w : World AccountId Hash) : Prop :=
  ∀ burn_id burn_info, w.carbon.Burns.get burn_id = some burn_info → burn_info.status = 0 →
    ∃ asset project, w.carbon.Assets.get burn_info.asset_id = some asset
      ∧ w.carbon.Projects.get asset.project_id = some project
      ∧ burn_info.Fits asset project
      ∧ ∀ origin now, ApproveOrigin.Allows origin →
        ApprovesExactly ((runtime T).fire w ⟨origin, now, .carbonAssets (.approve_burn burn_id)⟩)
          burn_info asset project

/-- A call of the carbon pallet moves no native money. -/
theorem native_of_palletCall {t : Applied AccountId Hash} (h : Outcome T t)
    (hcall : t.PalletCall) : t.post.native = t.pre.native := by
  obtain ⟨call, hcall⟩ := hcall
  cases h with
  | refused => rfl
  | carbonAssets => rfl
  | carbonExchange => cases hcall
  | half_take => cases hcall
  | standardAssets => cases hcall
  | balances_transfer => cases hcall

/-- The approval of a pending burn within both totals is exact. -/
theorem approvesExactly {w : World AccountId Hash} {burn_id : Hash} {burn_info : BurnInfo Hash}
    {asset : CarbonAsset Hash} {project : CarbonProject AccountId}
    (hpending : w.carbon.PendingBurn burn_id burn_info asset project)
    (hfits : burn_info.Fits asset project) {origin : Origin AccountId} (now : Moment)
    (horigin : ApproveOrigin.Allows origin) :
    ApprovesExactly ((runtime T).fire w ⟨origin, now, .carbonAssets (.approve_burn burn_id)⟩)
      burn_info asset project := by
  have hok : Applied.Succeeded
      ((runtime T).fire w ⟨origin, now, .carbonAssets (.approve_burn burn_id)⟩) :=
    (carbon_succeeded_iff T w origin now _).mpr ⟨_, _, _, .approve_burn burn_id burn_info asset
      project horigin hpending.stored hpending.pending hpending.of_asset hpending.in_project⟩
  have h := outcome_of_fire T w ⟨origin, now, .carbonAssets (.approve_burn burn_id)⟩
  have hnative := native_of_palletCall h ⟨_, rfl⟩
  rcases h.of_palletCall ⟨_, rfl⟩ with ⟨hfail, -⟩ | ⟨call, events, -, hcall, hstep⟩
  · exact absurd hok hfail
  cases hcall
  -- the step that was made is the one that reads the stored records
  generalize hpost : ((runtime T).fire w _).post.carbon = s',
    ((runtime T).fire w _).output.ops = ops at hstep
  cases hstep with
  | approve_burn burn_id info other other_project _ hburn _ hasset hproject =>
    cases hpending.stored.symm.trans hburn
    cases hpending.of_asset.symm.trans hasset
    cases hpending.in_project.symm.trans hproject
    refine ⟨hok, ?_, ?_, ?_, ?_, ?_, hnative⟩
    · rw [hpost]
      exact ⟨_, StorageMap.get_insert_self _ _ _, U64.toNat_sub_add_of_le hfits.1⟩
    · rw [hpost]
      exact ⟨_, StorageMap.get_insert_self _ _ _, U64.toNat_sub_add_of_le hfits.2⟩
    · intro a ha
      rw [hpost]
      exact StorageMap.get_insert_of_ne _ _ ha
    · intro p hp
      rw [hpost]
      exact StorageMap.get_insert_of_ne _ _ hp
    · rw [hpost]

/-- Every pending burn can be approved exactly if and only if every pending burn is
within the totals. -/
theorem burnsApprovable_iff {w : World AccountId Hash} (hreg : Registry w.carbon) :
    BurnsApprovable T w ↔ w.carbon.BurnsFit := by
  constructor
  · rintro happrovable id info asset project ⟨hburn, hpending, hasset, hproject⟩
    obtain ⟨asset', project', hasset', hproject', hfits, -⟩ := happrovable id info hburn hpending
    cases hasset.symm.trans hasset'
    cases hproject.symm.trans hproject'
    exact hfits
  · intro hfit id info hburn hpending
    obtain ⟨asset, hasset, -⟩ := hreg.burn_asset id info hburn
    obtain ⟨project, hproject⟩ := hreg.asset_project _ asset hasset
    have hstored : w.carbon.PendingBurn id info asset project := ⟨hburn, hpending, hasset, hproject⟩
    have hfits := hfit id info asset project hstored
    refine ⟨asset, project, hasset, hproject, hfits, ?_⟩
    exact fun origin now => approvesExactly hstored hfits now

/-- Whether one transition leaves every pending burn within the totals. -/
theorem Outcome.burnsFit_iff {t : Applied AccountId Hash} (h : Outcome T t)
    (hreg : Registered t.pre) (hfit : t.pre.carbon.BurnsFit) :
    t.post.carbon.BurnsFit ↔ t.Respects KeepsBurns := by
  by_cases hcall : t.PalletCall
  · rcases h.of_palletCall hcall with ⟨hfail, hsame⟩ | ⟨call, events, hok, hcall, hstep⟩
    · rw [hsame]
      exact iff_of_true hfit (respects_of_not_succeeded hfail)
    · rw [respects_iff hok hcall]
      exact hstep.burnsFit_iff hreg.carbon hfit
  · -- the other pallets leave the records alone
    refine iff_of_true ?_ fun call _ hc => absurd ⟨call, hc⟩ hcall
    cases h.carbon with
    | call origin now call events hinput => exact absurd ⟨call, hinput ▸ rfl⟩ hcall
    | moved asset_id from_ to_ amount hflow hmove =>
      rw [hmove]
      exact (burnsFit_congr (move_Assets _ asset_id from_ to_ amount)
        (move_Projects _ asset_id from_ to_ amount)
        (move_Burns _ asset_id from_ to_ amount)).mpr hfit
    | idle hflow hsame =>
      rw [hsame]
      exact hfit

/-! ## A whole run -/

variable {native : AccountId → ℕ} {w : World AccountId Hash} {tr : List (Applied AccountId Hash)}

/-- A call of the pallet that wraps no total supply and approves no initial supply. -/
structure SumKept (t : Applied AccountId Hash) : Prop where
  unwrapped : UnwrappedCall t
  no_initial : t.Respects NoInitialSupply

/-- Where only such calls are made, every project is the sum over its assets. -/
theorem capped_run (hrun : (runtime T).Run SumKept (genesis native) tr w) : w.carbon.Capped := by
  have hcapped := hrun.invariant (I := fun _ w => w.carbon.Capped) (fun p project h => nomatch h) ?_
  · exact hcapped
  intro tr w x hrun hcap hok
  have h := outcome_of_fire T w x
  have hreg := Registered.run hrun
  have hcov := covered_run (hrun.mono fun _ hkept => hkept.unwrapped)
  refine (h.capped_iff hok.unwrapped.1 hreg hcap).mpr ?_
  exact (h.capKept_iff hok.unwrapped hreg hcov).mpr hok.no_initial

/-- **Approving burns.** Over every run of the chain, every pending burn is within the
totals of its asset and project and can be approved exactly, in every state reached, if
and only if every call leaves room for the pending burns. A run of the carbon pallet in
which no approved issue wraps a total and no asset with an initial supply is approved
always does. -/
theorem burns_approvable_iff (hrun : (runtime T).Run (fun _ => True) (genesis native) tr w) :
    BurnsApprovable T (genesis native)
    ∧ ((∀ t ∈ tr, BurnsApprovable T t.post) ↔ ∀ t ∈ tr, t.Respects KeepsBurns)
    ∧ ((∀ t ∈ tr, SumKept t) → ∀ t ∈ tr, BurnsApprovable T t.post) := by
  have hstart : BurnsApprovable T (genesis native) := fun id info hburn => nomatch hburn
  refine ⟨hstart, ?_, ?_⟩
  · apply hrun.forall_good_iff (G := BurnsApprovable T) hstart
    intro tr₁ w x hrun happrovable _
    have hreg := Registered.run hrun
    have h := outcome_of_fire T w x
    rw [burnsApprovable_iff hreg.carbon] at happrovable
    rw [burnsApprovable_iff (hreg.outcome (t := (runtime T).fire w x) h).carbon]
    exact h.burnsFit_iff hreg happrovable
  · intro hkept t ht
    obtain ⟨tr₁, hupto⟩ := (hrun.restrict hkept).upto ht
    have hreg := (Registered.run hupto).carbon
    have hcov := covered_run (hupto.mono fun _ hsum => hsum.unwrapped)
    exact (burnsApprovable_iff hreg).mpr (burnsFit_of_capped hreg hcov (capped_run hupto))

theorem burns_approvable_issue_and_burn :
    BurnsApprovable devnet (genesis fun _ => 0)
    ∧ ∀ t ∈ (runtime devnet).trace (genesis fun _ => 0) devnet_issue_and_burn,
      BurnsApprovable devnet t.post :=
  have hunwrapped : ∀ t ∈ (runtime devnet).trace (genesis fun _ => 0) devnet_issue_and_burn,
      UnwrappedCall t := by decide
  have hinitial : ∀ t ∈ (runtime devnet).trace (genesis fun _ => 0) devnet_issue_and_burn,
      Applied.Respects NoInitialSupply t := by decide
  have hiff := burns_approvable_iff (devnet_run (fun _ => 0) devnet_issue_and_burn)
  ⟨hiff.1, hiff.2.2 fun t ht => ⟨hunwrapped t ht, hinitial t ht⟩⟩

/-- A burn of two of the five initial units on the executable chain. -/
def devnet_initial_burn : List ℕ := Preimage.encode (.burn 1 devnet_asset 2 [])

def devnet_burn_initial : List (Extrinsic ℕ (List ℕ)) :=
  devnet_opening ++ [⟨.signed 1, 0, .carbonAssets (.submit_burn devnet_asset 2 [])⟩]

/-- The state in which it is pending. -/
def devnet_burn_pending : World ℕ (List ℕ) :=
  (runtime devnet).final (genesis fun _ => 0) devnet_burn_initial

def devnet_approve_initial : Extrinsic ℕ (List ℕ) :=
  ⟨.system .Root, 0, .carbonAssets (.approve_burn devnet_initial_burn)⟩

/-- **A burn that underflows.** The project's total does not know of the initial units;
the approval of the burn succeeds and wraps it. -/
theorem initial_burn_underflows :
    (∃ tr, (runtime devnet).Run (fun _ => True) (genesis fun _ => 0) tr devnet_burn_pending)
    ∧ ¬BurnsApprovable devnet devnet_burn_pending
    ∧ Applied.Succeeded ((runtime devnet).fire devnet_burn_pending devnet_approve_initial)
    ∧ ((runtime devnet).fire devnet_burn_pending
        devnet_approve_initial).post.carbon.Projects.get devnet_project
      = some { symbol := [], max_supply := 1000, total_supply := 18446744073709551614,
               status := 1, owner := 1 } := by
  refine ⟨⟨_, devnet_run _ _⟩, fun happrovable => ?_, by decide, by decide⟩
  have hrun := devnet_run (fun _ => 0) devnet_burn_initial
  have hfit := (burnsApprovable_iff (Registered.run hrun).carbon).mp happrovable
  have hle := hfit devnet_initial_burn
    { asset_id := devnet_asset, amount := 2, status := 0, additional := [] }
    { project_id := devnet_project, vintage := [], initial_supply := 5, total_supply := 5,
      status := 1 }
    { symbol := [], max_supply := 1000, total_supply := 0, status := 1, owner := 1 }
    ⟨by decide, rfl, by decide, by decide⟩
  exact absurd hle.2 (by decide)

end Chain

end Eco2
