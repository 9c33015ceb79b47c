/-
What every record of the chain points at.

`approve_asset` writes the initial supply over whatever balance the project's
owner has in the asset, and `approve_issue` credits an asset without looking at its
status. Both are sound only because units, issues, burns and orders of an asset
exist from its approval on and not before, and because no call takes an approval
back. `Registry` states this for the carbon pallet; the orders join it in
`OrderBook`.
-/
import Eco2.Ledger
import Eco2.Runtime

set_option autoImplicit false
set_option linter.unusedSectionVars false

namespace Eco2

namespace CarbonAssets

variable {AccountId Hash : Type} [DecidableEq AccountId] [DecidableEq Hash]
variable {T : Trait AccountId Hash} {origin : Origin AccountId} {now : Moment}
  {s s' : Storage AccountId Hash} {call : Call AccountId Hash}
  {events : List (Event AccountId Hash)} {ops : List (Op AccountId Hash)}

/-! ## Approvals are never taken back -/

theorem Storage.Approved.status_eq {a : Hash} {asset : CarbonAsset Hash} (h : s.Approved a)
    (hasset : s.Assets.get a = some asset) : asset.status = 1 := by
  obtain ⟨asset', hasset', hstatus⟩ := h
  cases hasset.symm.trans hasset'
  exact hstatus

/-- Writing an asset that is approved, or not the one asked about, keeps the approval. -/
theorem Storage.Approved.insert {a : Hash} (h : s.Approved a) (asset_id : Hash)
    (asset : CarbonAsset Hash) (hkeep : a = asset_id → asset.status = 1) :
    ({ s with Assets := s.Assets.insert asset_id asset } : Storage AccountId Hash).Approved a := by
  obtain ⟨old, hold, hstatus⟩ := h
  by_cases ha : a = asset_id
  · subst ha
    exact ⟨asset, StorageMap.get_insert_self _ _ _, hkeep rfl⟩
  · exact ⟨old, by rw [StorageMap.get_insert_of_ne _ _ ha, hold], hstatus⟩

/-- An approved asset stays approved. -/
theorem Step.approved (h : Step T origin now s call s' events ops) {a : Hash}
    (ha : s.Approved a) : s'.Approved a := by
  cases h with
  | submit_asset sender project_id vintage initial_supply additional project asset_id horigin
      hproject hstatus howner hlimit hid hfresh =>
    -- an approved asset is in the map, so its identifier is not a fresh one
    refine ha.insert _ _ fun hc => ?_
    obtain ⟨old, hold, _⟩ := ha
    rw [hc, hfresh] at hold
    cases hold
  | approve_asset asset_id asset project horigin hasset hstatus hproject hlimit =>
    exact ha.insert _ _ fun _ => rfl
  | approve_issue issue_id issue_info asset project horigin hissue hstatus hasset hproject hlimit =>
    refine ha.insert _ _ fun hc => ?_
    subst hc
    have hstatus' := ha.status_eq hasset
    exact hstatus'
  | approve_burn burn_id burn_info asset project horigin hburn hstatus hasset hproject =>
    refine ha.insert _ _ fun hc => ?_
    subst hc
    have hstatus' := ha.status_eq hasset
    exact hstatus'
  | submit_project => exact ha
  | approve_project => exact ha
  | submit_issue => exact ha
  | submit_burn => exact ha
  | transfer sender asset_id to_ amount =>
    unfold Storage.move
    split <;> exact ha
  | neutralize => exact ha

/-! ## The registry of the carbon pallet -/

/-- What the records of the pallet point at exists. -/
structure Registry (s : Storage AccountId Hash) : Prop where
  /-- Nobody holds units of an asset that is not approved. -/
  unapproved : ∀ a x, ¬s.Approved a → s.balance a x = 0
  /-- Issues are of approved assets. -/
  issue_asset : ∀ id issue_info, s.Issues.get id = some issue_info →
    s.Approved issue_info.asset_id
  /-- Burns are of approved assets. -/
  burn_asset : ∀ id burn_info, s.Burns.get id = some burn_info → s.Approved burn_info.asset_id
  /-- Assets are of known projects. -/
  asset_project : ∀ a asset, s.Assets.get a = some asset →
    ∃ project, s.Projects.get asset.project_id = some project

theorem Registry.empty : Registry (Storage.empty : Storage AccountId Hash) where
  unapproved _ _ _ := rfl
  issue_asset _ _ h := nomatch h
  burn_asset _ _ h := nomatch h
  asset_project _ _ h := nomatch h

/-- Whoever holds units of an asset holds units of an approved one. -/
theorem Registry.approved_of_le (h : Registry s) {a : Hash} {x : AccountId} {amount : UInt64}
    (hamount : amount ≠ 0) (hbalance : amount ≤ s.balance a x) : s.Approved a := by
  by_contra hc
  rw [h.unapproved a x hc] at hbalance
  exact hamount (UInt64.le_zero_iff.mp hbalance)

/-! ### One write at a time -/

/-- Balances of approved assets may be written freely. -/
theorem Registry.set_balance (h : Registry s) {a : Hash} (ha : s.Approved a) (x : AccountId)
    (value : UInt64) : Registry (s.set_balance a x value) where
  unapproved a' x' hc := by
    have hne : ¬(a' = a ∧ x' = x) := fun heq => hc (heq.1.symm ▸ ha : s.Approved a')
    rw [balance_set_balance_of_ne _ _ _ _ hne]
    exact h.unapproved a' x' hc
  issue_asset := h.issue_asset
  burn_asset := h.burn_asset
  asset_project := h.asset_project

theorem Registry.move (h : Registry s) {a : Hash} (ha : s.Approved a) (x y : AccountId)
    (amount : UInt64) : Registry (s.move a x y amount) := by
  unfold Storage.move
  split
  · exact (h.set_balance ha x _).set_balance ha y _
  · exact h

/-- Known projects may be written, and new ones added. -/
theorem Registry.insert_project (h : Registry s) (id : Hash) (project : CarbonProject AccountId) :
    Registry { s with Projects := s.Projects.insert id project } where
  unapproved := h.unapproved
  issue_asset := h.issue_asset
  burn_asset := h.burn_asset
  asset_project a asset ha := by
    by_cases hid : asset.project_id = id
    · exact ⟨project, by rw [hid]; exact StorageMap.get_insert_self _ _ _⟩
    · obtain ⟨old, hold⟩ := h.asset_project a asset ha
      exact ⟨old, (StorageMap.get_insert_of_ne _ _ hid).trans hold⟩

/-- An asset may be written if that does not take an approval back. -/
theorem Registry.insert_asset (h : Registry s) (id : Hash) (asset : CarbonAsset Hash)
    (hkeep : s.Approved id → asset.status = 1)
    (hproject : ∃ project, s.Projects.get asset.project_id = some project) :
    Registry { s with Assets := s.Assets.insert id asset } := by
  -- approvals only grow, so every clause that speaks of them is kept
  have hmono {a : Hash} (ha : s.Approved a) :
      ({ s with Assets := s.Assets.insert id asset } : Storage AccountId Hash).Approved a :=
    ha.insert _ _ fun hid => hkeep (hid ▸ ha)
  constructor
  case unapproved => exact fun a x hc => h.unapproved a x fun ha => hc (hmono ha)
  case issue_asset => exact fun id' info hinfo => hmono (h.issue_asset id' info hinfo)
  case burn_asset => exact fun id' info hinfo => hmono (h.burn_asset id' info hinfo)
  case asset_project =>
    intro a asset' ha
    by_cases hid : a = id
    · subst hid
      cases (StorageMap.get_insert_self _ _ _).symm.trans ha
      exact hproject
    · exact h.asset_project a asset' ((StorageMap.get_insert_of_ne _ _ hid).symm.trans ha)

theorem Registry.insert_issue (h : Registry s) (id : Hash) (issue_info : IssueInfo Hash)
    (hasset : s.Approved issue_info.asset_id) :
    Registry { s with Issues := s.Issues.insert id issue_info } where
  unapproved := h.unapproved
  issue_asset id' info hinfo := by
    by_cases hid : id' = id
    · subst hid
      cases (StorageMap.get_insert_self _ _ _).symm.trans hinfo
      exact hasset
    · exact h.issue_asset id' info ((StorageMap.get_insert_of_ne _ _ hid).symm.trans hinfo)
  burn_asset := h.burn_asset
  asset_project := h.asset_project

theorem Registry.insert_burn (h : Registry s) (id : Hash) (burn_info : BurnInfo Hash)
    (hasset : s.Approved burn_info.asset_id) :
    Registry { s with Burns := s.Burns.insert id burn_info } where
  unapproved := h.unapproved
  issue_asset := h.issue_asset
  burn_asset id' info hinfo := by
    by_cases hid : id' = id
    · subst hid
      cases (StorageMap.get_insert_self _ _ _).symm.trans hinfo
      exact hasset
    · exact h.burn_asset id' info ((StorageMap.get_insert_of_ne _ _ hid).symm.trans hinfo)
  asset_project := h.asset_project

/-- The total supplies of an approved asset and its project may be written. -/
theorem Registry.set_totals (h : Registry s) {asset_id : Hash} {asset : CarbonAsset Hash}
    {project : CarbonProject AccountId} (happroved : s.Approved asset_id)
    (hasset : s.Assets.get asset_id = some asset)
    (hproject : s.Projects.get asset.project_id = some project)
    (asset_total project_total : UInt64) :
    Registry { s with
      Assets := s.Assets.insert asset_id { asset with total_supply := asset_total }
      Projects := s.Projects.insert asset.project_id
        { project with total_supply := project_total } } := by
  have hstatus := happroved.status_eq hasset
  have hassets := h.insert_asset asset_id { asset with total_supply := asset_total }
    (fun _ => hstatus) ⟨project, hproject⟩
  exact hassets.insert_project asset.project_id { project with total_supply := project_total }

/-- Every step of the pallet keeps the registry. -/
theorem Registry.step (hreg : Registry s) (h : Step T origin now s call s' events ops) :
    Registry s' := by
  cases h with
  | submit_project sender symbol max_supply additional project_id =>
    have h := hreg.insert_project project_id
      { symbol, max_supply, total_supply := 0, status := 0, owner := sender }
    exact ⟨h.unapproved, h.issue_asset, h.burn_asset, h.asset_project⟩
  | approve_project project_id project => exact hreg.insert_project project_id _
  | submit_asset sender project_id vintage initial_supply additional project asset_id horigin
      hproject hstatus howner hlimit hid hfresh =>
    have hkeep : ¬s.Approved asset_id := fun ⟨_, hold, _⟩ => nomatch hfresh.symm.trans hold
    have h := hreg.insert_asset asset_id
      { project_id, vintage, initial_supply, total_supply := 0, status := 0 }
      (fun ha => absurd ha hkeep) ⟨project, hproject⟩
    exact ⟨h.unapproved, h.issue_asset, h.burn_asset, h.asset_project⟩
  | approve_asset asset_id asset project horigin hasset hstatus hproject hlimit =>
    have happroved := hreg.insert_asset asset_id
      { asset with status := 1, total_supply := asset.initial_supply }
      (fun _ => rfl) ⟨project, hproject⟩
    -- the owner's balance is written once the asset is approved
    exact happroved.set_balance ⟨_, StorageMap.get_insert_self _ _ _, rfl⟩ _ _
  | submit_issue sender asset_id amount additional asset project issue_id horigin hasset hstatus =>
    exact hreg.insert_issue issue_id _ ⟨asset, hasset, hstatus⟩
  | approve_issue issue_id issue_info asset project horigin hissue hstatus hasset hproject hlimit =>
    -- `approve_issue` does not look at the asset's status: the registry knows it
    have happroved := hreg.issue_asset issue_id issue_info hissue
    have hstatus' := happroved.status_eq hasset
    have hkept := happroved.insert issue_info.asset_id
      { asset with total_supply := asset.total_supply + issue_info.amount } fun _ => hstatus'
    have htotals := hreg.set_totals happroved hasset hproject
      (asset.total_supply + issue_info.amount) (project.total_supply + issue_info.amount)
    have hissues := htotals.insert_issue issue_id { issue_info with status := 1 } hkept
    exact hissues.set_balance hkept _ _
  | submit_burn sender asset_id amount additional asset project burn_id horigin hasset hstatus =>
    have happroved : s.Approved asset_id := ⟨asset, hasset, hstatus⟩
    exact (hreg.insert_burn burn_id _ happroved).set_balance happroved _ _
  | approve_burn burn_id burn_info asset project horigin hburn hstatus hasset hproject =>
    have happroved := hreg.burn_asset burn_id burn_info hburn
    have hstatus' := happroved.status_eq hasset
    have hkept := happroved.insert burn_info.asset_id
      { asset with total_supply := asset.total_supply - burn_info.amount } fun _ => hstatus'
    have htotals := hreg.set_totals happroved hasset hproject
      (asset.total_supply - burn_info.amount) (project.total_supply - burn_info.amount)
    exact htotals.insert_burn burn_id { burn_info with status := 1 } hkept
  | transfer sender asset_id to_ amount horigin hamount hbalance =>
    -- what is sent is held by somebody, so the asset is approved
    exact hreg.move (hreg.approved_of_le hamount hbalance) _ _ _
  | neutralize sender asset_id amount additional horigin hamount hbalance =>
    exact hreg.set_balance (hreg.approved_of_le hamount hbalance) _ _

end CarbonAssets

/-! ## Approvals on the chain -/

section Chain

open CarbonExchange

variable {AccountId Hash : Type} [DecidableEq AccountId] [DecidableEq Hash]
variable {T : Trait AccountId Hash}

theorem approved_move {s : CarbonAssets.Storage AccountId Hash} {a b : Hash} {x y : AccountId}
    {amount : UInt64} : (s.move b x y amount).Approved a ↔ s.Approved a := by
  unfold CarbonAssets.Storage.move
  split <;> exact Iff.rfl

/-- An approved asset stays approved whatever happens on the chain. -/
theorem Outcome.approved {t : Applied AccountId Hash} (h : Outcome T t) {a : Hash}
    (ha : t.pre.carbon.Approved a) : t.post.carbon.Approved a := by
  cases h with
  | refused w x e => exact ha
  | carbonAssets w origin now call s' events ops hstep => exact hstep.approved ha
  | carbonExchange w origin now call w' events ops hstep =>
    cases hstep with
    | make_ask => exact approved_move.mpr ha
    | make_bid => exact ha
    | take_ask => exact approved_move.mpr ha
    | take_bid => exact approved_move.mpr ha
    | cancel_ask => exact approved_move.mpr ha
    | cancel_bid => exact ha
  | half_take w origin now call w' e ops hhalf =>
    cases hhalf with
    | take_bid => exact approved_move.mpr ha
  | standardAssets => exact ha
  | balances_transfer => exact ha

end Chain

end Eco2
