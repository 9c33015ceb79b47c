/-
The registry as a whole.

`Registry` says that units, issues, burns and orders are of approved assets. Here
the rest joins it: an asset is of an approved project, the two maps of a record have
the same keys, and an asset that is not approved has no supply. Together they make
the lookups after the first one of each call succeed, and make sure that the one
write that overwrites a balance finds none.
-/
import Eco2.OrderBook

set_option autoImplicit false
set_option linter.unusedSectionVars false

open Eco2.Dispatch

namespace Eco2

namespace CarbonAssets

variable {AccountId Hash : Type} [DecidableEq AccountId] [DecidableEq Hash]

/-! ## What the records vouch for -/

/-- The records of projects and assets are linked as they should be. -/
structure Linked (s : Storage AccountId Hash) : Prop where
  /-- Assets are of approved projects. -/
  project : ∀ a asset, s.Assets.get a = some asset →
    ∃ project, s.Projects.get asset.project_id = some project ∧ project.status = 1
  project_keys : ∀ id, s.ProjectAdditionals.get id = none ↔ s.Projects.get id = none
  asset_keys : ∀ id, s.AssetAdditionals.get id = none ↔ s.Assets.get id = none
  /-- An asset has no supply before its approval. -/
  supply : ∀ a asset, s.Assets.get a = some asset → asset.status = 0 → asset.total_supply = 0

theorem Linked.empty : Linked (Storage.empty : Storage AccountId Hash) where
  project _ _ h := nomatch h
  project_keys _ := iff_of_true rfl rfl
  asset_keys _ := iff_of_true rfl rfl
  supply _ _ h := nomatch h

section Writes

variable {s : Storage AccountId Hash}

/-- Balances, issues and burns are linked to nothing here. -/
theorem Linked.of_records (h : Linked s) (issues : StorageMap Hash (IssueInfo Hash))
    (burns : StorageMap Hash (BurnInfo Hash))
    (balances : StorageMap (Hash × AccountId) UInt64) :
    Linked { s with Issues := issues, Burns := burns, Balances := balances } :=
  ⟨h.project, h.project_keys, h.asset_keys, h.supply⟩

/-- A known project may be written if that does not take its approval back. -/
theorem Linked.insert_project (h : Linked s) {id : Hash} {old : CarbonProject AccountId}
    (hold : s.Projects.get id = some old) (project : CarbonProject AccountId)
    (hkeep : old.status = 1 → project.status = 1) :
    Linked { s with Projects := s.Projects.insert id project } where
  project a asset hasset := by
    obtain ⟨found, hfound, hstatus⟩ := h.project a asset hasset
    by_cases hid : asset.project_id = id
    · rw [hid] at hfound ⊢
      cases hold.symm.trans hfound
      exact ⟨project, StorageMap.get_insert_self _ _ _, hkeep hstatus⟩
    · exact ⟨found, (StorageMap.get_insert_of_ne _ _ hid).trans hfound, hstatus⟩
  project_keys id' := by
    rw [h.project_keys id', StorageMap.get_insert_eq_none]
    constructor
    · intro hnone
      refine ⟨fun hid => ?_, hnone⟩
      rw [hid, hold] at hnone
      cases hnone
    · exact And.right
  asset_keys := h.asset_keys
  supply := h.supply

/-- A new project is written to both maps. -/
theorem Linked.add_project (h : Linked s) {id : Hash} (hfresh : s.Projects.get id = none)
    (project : CarbonProject AccountId) (additional : Bytes) :
    Linked { s with
      Projects := s.Projects.insert id project
      ProjectAdditionals := s.ProjectAdditionals.insert id additional } where
  project a asset hasset := by
    obtain ⟨found, hfound, hstatus⟩ := h.project a asset hasset
    have hid : asset.project_id ≠ id := fun hid => by
      rw [hid, hfresh] at hfound
      cases hfound
    exact ⟨found, (StorageMap.get_insert_of_ne _ _ hid).trans hfound, hstatus⟩
  project_keys id' := by
    rw [StorageMap.get_insert_eq_none, StorageMap.get_insert_eq_none, h.project_keys id']
  asset_keys := h.asset_keys
  supply := h.supply

/-- A known asset may be written if it stays with its project, and without supply
until it is approved. -/
theorem Linked.insert_asset (h : Linked s) {id : Hash} {old : CarbonAsset Hash}
    (hold : s.Assets.get id = some old) (asset : CarbonAsset Hash)
    (hproject : asset.project_id = old.project_id)
    (hsupply : asset.status = 0 → asset.total_supply = 0) :
    Linked { s with Assets := s.Assets.insert id asset } where
  project a asset' hasset := by
    rcases StorageMap.get_insert_eq_some hasset with ⟨-, rfl⟩ | ⟨-, hasset⟩
    · rw [hproject]
      exact h.project id old hold
    · exact h.project a asset' hasset
  project_keys := h.project_keys
  asset_keys id' := by
    rw [h.asset_keys id', StorageMap.get_insert_eq_none]
    constructor
    · intro hnone
      refine ⟨fun hid => ?_, hnone⟩
      rw [hid, hold] at hnone
      cases hnone
    · exact And.right
  supply a asset' hasset := by
    rcases StorageMap.get_insert_eq_some hasset with ⟨-, rfl⟩ | ⟨-, hasset⟩
    · exact hsupply
    · exact h.supply a asset' hasset

/-- A new asset of an approved project is written to both maps. -/
theorem Linked.add_asset (h : Linked s) {id : Hash} (asset : CarbonAsset Hash) (additional : Bytes)
    (hproject : ∃ project, s.Projects.get asset.project_id = some project ∧ project.status = 1)
    (hsupply : asset.total_supply = 0) :
    Linked { s with
      Assets := s.Assets.insert id asset
      AssetAdditionals := s.AssetAdditionals.insert id additional } where
  project a asset' hasset := by
    rcases StorageMap.get_insert_eq_some hasset with ⟨-, rfl⟩ | ⟨-, hasset⟩
    · exact hproject
    · exact h.project a asset' hasset
  project_keys := h.project_keys
  asset_keys id' := by
    rw [StorageMap.get_insert_eq_none, StorageMap.get_insert_eq_none, h.asset_keys id']
  supply a asset' hasset := by
    rcases StorageMap.get_insert_eq_some hasset with ⟨-, rfl⟩ | ⟨-, hasset⟩
    · exact fun _ => hsupply
    · exact h.supply a asset' hasset

/-- The total supplies of an approved asset and its project may be written. -/
theorem Linked.set_totals (h : Linked s) {asset_id : Hash} {asset : CarbonAsset Hash}
    {project : CarbonProject AccountId} (hstatus : asset.status = 1)
    (hasset : s.Assets.get asset_id = some asset)
    (hproject : s.Projects.get asset.project_id = some project)
    (asset_total project_total : UInt64) :
    Linked { s with
      Assets := s.Assets.insert asset_id { asset with total_supply := asset_total }
      Projects := s.Projects.insert asset.project_id
        { project with total_supply := project_total } } := by
  have hassets := h.insert_asset hasset { asset with total_supply := asset_total } rfl
    fun hzero => by
      change asset.status = 0 at hzero
      rw [hstatus] at hzero
      cases hzero
  exact hassets.insert_project hproject { project with total_supply := project_total } id

end Writes

section Steps

variable {T : Trait AccountId Hash} {origin : Origin AccountId} {now : Moment}
  {s s' : Storage AccountId Hash} {call : Call AccountId Hash}
  {events : List (Event AccountId Hash)} {ops : List (Op AccountId Hash)}

/-- Every step of the pallet keeps the records linked. -/
theorem Linked.step (hlinked : Linked s) (hreg : Registry s)
    (h : Step T origin now s call s' events ops) : Linked s' := by
  cases h with
  | submit_project sender symbol max_supply additional project_id horigin hid hfresh =>
    exact hlinked.add_project hfresh _ additional
  | approve_project project_id project horigin hproject hstatus =>
    exact hlinked.insert_project hproject _ fun _ => rfl
  | submit_asset sender project_id vintage initial_supply additional project asset_id horigin
      hproject hstatus =>
    exact hlinked.add_asset _ additional ⟨project, hproject, hstatus⟩ rfl
  | approve_asset asset_id asset project horigin hasset hstatus hproject hlimit =>
    have happroved := hlinked.insert_asset hasset
      { asset with status := 1, total_supply := asset.initial_supply } rfl fun hc => nomatch hc
    exact happroved.of_records _ _ _
  | submit_issue => exact hlinked.of_records _ _ _
  | approve_issue issue_id issue_info asset project horigin hissue hstatus hasset hproject hlimit =>
    -- only an approved asset is issued, so its supply may grow
    have happroved := (hreg.issue_asset issue_id issue_info hissue).status_eq hasset
    have htotals := hlinked.set_totals happroved hasset hproject
      (asset.total_supply + issue_info.amount) (project.total_supply + issue_info.amount)
    exact htotals.of_records _ _ _
  | submit_burn => exact hlinked.of_records _ _ _
  | approve_burn burn_id burn_info asset project horigin hburn hstatus hasset hproject =>
    have happroved := (hreg.burn_asset burn_id burn_info hburn).status_eq hasset
    have htotals := hlinked.set_totals happroved hasset hproject
      (asset.total_supply - burn_info.amount) (project.total_supply - burn_info.amount)
    exact htotals.of_records _ _ _
  | transfer sender asset_id to_ amount =>
    unfold Storage.move
    split
    · exact hlinked.of_records _ _ _
    · exact hlinked
  | neutralize => exact hlinked.of_records _ _ _

end Steps

/-! ## The lookups of a call -/

/-- The call finds the record it looks up first. -/
def Call.FindsFirst (s : Storage AccountId Hash) : Call AccountId Hash → Prop
  | .approve_project project_id => s.Projects.contains_key project_id = true
  | .submit_asset project_id _ _ _ => s.Projects.contains_key project_id = true
  | .approve_asset asset_id => s.Assets.contains_key asset_id = true
  | .submit_issue asset_id _ _ => s.Assets.contains_key asset_id = true
  | .approve_issue issue_id => s.Issues.contains_key issue_id = true
  | .submit_burn asset_id _ _ => s.Assets.contains_key asset_id = true
  | .approve_burn burn_id => s.Burns.contains_key burn_id = true
  | _ => True

section Failures

variable {T : Trait AccountId Hash} {origin : Origin AccountId} {c c' : Ctx AccountId Hash}

theorem not_contains_key {V : Type} {m : StorageMap Hash V} {k : Hash} (h : m.get k = none) :
    ¬m.contains_key k = true := by
  rw [StorageMap.contains_key, h]
  exact Bool.false_ne_true

/-- The project of a known asset is known. -/
theorem Linked.project_ne_none (h : Linked c.world.carbon) {a : Hash} {asset : CarbonAsset Hash}
    (hasset : c.world.carbon.Assets.get a = some asset) :
    c.world.carbon.Projects.get asset.project_id ≠ none := by
  obtain ⟨project, hproject, -⟩ := h.project a asset hasset
  rw [hproject]
  exact Option.some_ne_none project

/-- **Only the first lookup can fail.** -/
theorem not_findsFirst_of_invalidIndex (hlinked : Linked c.world.carbon)
    (hreg : Registry c.world.carbon) {call : Call AccountId Hash}
    (h : call.dispatch T origin c = .error (.carbonAssets .InvalidIndex) c') :
    ¬call.FindsFirst c.world.carbon := by
  have hbad : DispatchError.carbonAssets .InvalidIndex ≠ .BadOrigin := by decide
  -- the other checks have errors of their own, and the writes none
  cases call with
  | submit_project symbol max_supply additional =>
    obtain ⟨sender, -, h⟩ := ensure_signed_bind_eq_error_of_ne hbad h
    simp (disch := decide) only [read_bind, ensure_bind_eq_error_of_ne] at h
    exact absurd h.2 ((infallible_update _).bind (fun _ => (infallible_update _).bind fun _ =>
      infallible_stamp _) _ _ _)
  | approve_project project_id =>
    have h := of_ensure_origin_bind_error h hbad
    simp (disch := decide) only [get_project, read_bind, ok_or_bind_eq_error,
      ensure_bind_eq_error_of_ne] at h
    rcases h with ⟨hnone, -⟩ | ⟨project, -, -, h⟩
    · exact not_contains_key hnone
    · exact absurd h ((infallible_update _).bind (fun _ => infallible_deposit_event _) _ _ _)
  | submit_asset project_id vintage initial_supply additional =>
    obtain ⟨sender, -, h⟩ := ensure_signed_bind_eq_error_of_ne hbad h
    simp (disch := decide) only [get_project, read_bind, ok_or_bind_eq_error,
      ensure_bind_eq_error_of_ne] at h
    rcases h with ⟨hnone, -⟩ | ⟨project, -, -, -, -, -, h⟩
    · exact not_contains_key hnone
    · exact absurd h ((infallible_update _).bind (fun _ => (infallible_update _).bind fun _ =>
        infallible_stamp _) _ _ _)
  | approve_asset asset_id =>
    have h := of_ensure_origin_bind_error h hbad
    simp (disch := decide) only [get_asset, get_project, read_bind, ok_or_bind_eq_error,
      ensure_bind_eq_error_of_ne] at h
    rcases h with ⟨hnone, -⟩ | ⟨asset, hasset, -, ⟨hnone, -⟩ | ⟨project, -, -, h⟩⟩
    · exact not_contains_key hnone
    -- a known asset has a known project
    · exact absurd hnone (hlinked.project_ne_none hasset)
    · exact absurd h ((infallible_update _).bind (fun _ => (infallible_update _).bind fun _ =>
        infallible_deposit_event _) _ _ _)
  | submit_issue asset_id amount additional =>
    obtain ⟨sender, -, h⟩ := ensure_signed_bind_eq_error_of_ne hbad h
    simp (disch := decide) only [get_asset, get_project, read_bind, ok_or_bind_eq_error,
      ensure_bind_eq_error_of_ne] at h
    rcases h with ⟨hnone, -⟩ | ⟨asset, hasset, -, ⟨hnone, -⟩ | ⟨project, -, -, -, -, h⟩⟩
    · exact not_contains_key hnone
    · exact absurd hnone (hlinked.project_ne_none hasset)
    · exact absurd h ((infallible_update _).bind (fun _ => infallible_stamp _) _ _ _)
  | approve_issue issue_id =>
    have h := of_ensure_origin_bind_error h hbad
    simp (disch := decide) only [get_issue, get_asset, get_project, read_bind,
      ok_or_bind_eq_error, ensure_bind_eq_error_of_ne] at h
    rcases h with ⟨hnone, -⟩ | ⟨issue_info, hissue, -, ⟨hnone, -⟩ | ⟨asset, hasset,
      ⟨hnone, -⟩ | ⟨project, -, -, h⟩⟩⟩
    · exact not_contains_key hnone
    -- an issue is of an approved asset
    · obtain ⟨asset, hasset, -⟩ := hreg.issue_asset issue_id issue_info hissue
      cases hasset.symm.trans hnone
    · exact absurd hnone (hlinked.project_ne_none hasset)
    · exact absurd h ((infallible_update _).bind (fun _ => (infallible_update _).bind fun _ =>
        (infallible_update _).bind fun _ => (infallible_balance_add _ _ _).bind fun _ =>
          infallible_deposit_event _) _ _ _)
  | submit_burn asset_id amount additional =>
    obtain ⟨sender, -, h⟩ := ensure_signed_bind_eq_error_of_ne hbad h
    simp (disch := decide) only [get_asset, get_project, get_balance, read_bind,
      ok_or_bind_eq_error, ensure_bind_eq_error_of_ne] at h
    rcases h with ⟨hnone, -⟩ | ⟨asset, hasset, -, ⟨hnone, -⟩ | ⟨project, -, -, -, -, h⟩⟩
    · exact not_contains_key hnone
    · exact absurd hnone (hlinked.project_ne_none hasset)
    · exact absurd h ((infallible_update _).bind (fun _ => (infallible_balance_sub _ _ _).bind
        fun _ => infallible_stamp _) _ _ _)
  | approve_burn burn_id =>
    have h := of_ensure_origin_bind_error h hbad
    simp (disch := decide) only [get_burn, get_asset, get_project, read_bind,
      ok_or_bind_eq_error, ensure_bind_eq_error_of_ne] at h
    rcases h with ⟨hnone, -⟩ | ⟨burn_info, hburn, -, ⟨hnone, -⟩ | ⟨asset, hasset,
      ⟨hnone, -⟩ | ⟨project, -, h⟩⟩⟩
    · exact not_contains_key hnone
    · obtain ⟨asset, hasset, -⟩ := hreg.burn_asset burn_id burn_info hburn
      cases hasset.symm.trans hnone
    · exact absurd hnone (hlinked.project_ne_none hasset)
    · exact absurd h ((infallible_update _).bind (fun _ => (infallible_update _).bind fun _ =>
        (infallible_update _).bind fun _ => infallible_deposit_event _) _ _ _)
  | transfer asset_id to_ amount =>
    obtain ⟨sender, -, h⟩ := ensure_signed_bind_eq_error_of_ne hbad h
    simp (disch := decide) only [get_balance, read_bind, ensure_bind_eq_error_of_ne] at h
    exact absurd h.2.2
      ((infallible_make_transfer _ _ _ _).bind (fun _ => infallible_stamp _) _ _ _)
  | neutralize asset_id amount additional =>
    obtain ⟨sender, -, h⟩ := ensure_signed_bind_eq_error_of_ne hbad h
    simp (disch := decide) only [get_balance, read_bind, ensure_bind_eq_error_of_ne] at h
    exact absurd h.2.2
      ((infallible_balance_sub _ _ _).bind (fun _ => infallible_stamp _) _ _ _)

end Failures

end CarbonAssets

/-! ## On the chain -/

section Chain

open CarbonAssets

variable {AccountId Hash : Type} [DecidableEq AccountId] [DecidableEq Hash]
variable {T : Trait AccountId Hash}

/-- What a transition is to the records of the carbon pallet: a call of its own, or
something that writes nothing but balances and deposits none of the pallet's events. -/
inductive RecordsOutcome (T : Trait AccountId Hash) (t : Applied AccountId Hash) : Prop
  | call (call : CarbonAssets.Call AccountId Hash)
      (events : List (CarbonAssets.Event AccountId Hash)) (hok : t.Succeeded)
      (hcall : t.input.call = .carbonAssets call)
      (hevents : t.output.events = events.map .carbonAssets)
      (hstep : Step T t.input.origin t.input.now t.pre.carbon call t.post.carbon events
        t.output.ops)
  | other (hother : ∀ call, t.Succeeded → t.input.call ≠ .carbonAssets call)
      (hquiet : ∀ e, Event.carbonAssets e ∉ t.output.events)
      (hsame : ∃ balances, t.post.carbon = { t.pre.carbon with Balances := balances })

theorem move_eq (s : CarbonAssets.Storage AccountId Hash) (asset_id : Hash)
    (from_ to_ : AccountId) (amount : UInt64) :
    ∃ balances, s.move asset_id from_ to_ amount = { s with Balances := balances } := by
  unfold Storage.move
  split
  · exact ⟨_, rfl⟩
  · exact ⟨s.Balances, rfl⟩

theorem Outcome.records {t : Applied AccountId Hash} (h : Outcome T t) : RecordsOutcome T t := by
  cases h with
  | refused w x e => exact .other (fun _ hok => nomatch hok) (by simp) ⟨_, rfl⟩
  | carbonAssets w origin now call s' events ops hstep =>
    exact .call call events rfl rfl rfl hstep
  | standardAssets => exact .other (fun _ _ hc => nomatch hc) (by simp) ⟨_, rfl⟩
  | balances_transfer => exact .other (fun _ _ hc => nomatch hc) (by simp) ⟨_, rfl⟩
  -- the exchange reaches the pallet through `make_transfer` only
  | half_take w origin now call w' e ops hhalf =>
    obtain ⟨asset_id, from_, to_, amount, hmove⟩ := hhalf.carbon
    refine .other (fun _ hok => nomatch hok) (by simp) ?_
    show ∃ balances, w'.carbon = _
    rw [hmove]
    exact move_eq _ _ _ _ _
  | carbonExchange w origin now call w' events ops hstep =>
    refine .other (fun _ _ hc => nomatch hc) (by simp) ?_
    show ∃ balances, w'.carbon = { w.carbon with Balances := balances }
    rcases hstep.carbon with hsame | ⟨asset_id, from_, to_, amount, hmove⟩
    · rw [hsame]
      exact ⟨_, rfl⟩
    · rw [hmove]
      exact move_eq _ _ _ _ _

/-- Every transition of the chain keeps the records linked. -/
theorem CarbonAssets.Linked.outcome {t : Applied AccountId Hash} (hlinked : Linked t.pre.carbon)
    (hreg : Registry t.pre.carbon) (h : Outcome T t) : Linked t.post.carbon := by
  cases h.records with
  | call call events hok hcall hevents hstep => exact hlinked.step hreg hstep
  | other hother hquiet hsame =>
    obtain ⟨balances, hsame⟩ := hsame
    rw [hsame]
    exact hlinked.of_records _ _ _

/-- The records are linked in every state reached. -/
theorem CarbonAssets.Linked.run {allowed : Applied AccountId Hash → Prop} {native : AccountId → ℕ}
    {tr : List (Applied AccountId Hash)} {w : World AccountId Hash}
    (hrun : (runtime T).Run allowed (genesis native) tr w) : Linked w.carbon := by
  apply hrun.invariant (I := fun _ w => Linked w.carbon)
  · exact .empty
  intro tr w x hrun hlinked _
  exact Linked.outcome (t := (runtime T).fire w x) hlinked (Registered.run hrun).carbon
    (outcome_of_fire T w x)

/-- Two maps with the same absent keys have the same keys. -/
theorem keys_eq_of_get {V V' : Type} {m : StorageMap Hash V} {m' : StorageMap Hash V'}
    (h : ∀ id, m.get id = none ↔ m'.get id = none) : m.keys = m'.keys := by
  ext id
  rw [m.mem_keys, m'.mem_keys, Option.isSome_iff_ne_none, Option.isSome_iff_ne_none]
  exact not_congr (h id)

/-- A call that returns `InvalidIndex` in a state with linked records did not find
the first record it looked up. -/
theorem not_findsFirst_of_fire {w : World AccountId Hash} (hlinked : Linked w.carbon)
    (hreg : Registry w.carbon) {x : Extrinsic AccountId Hash}
    {call : CarbonAssets.Call AccountId Hash} (hcall : x.call = .carbonAssets call)
    (h : ((runtime T).fire w x).output.result = .error (.carbonAssets .InvalidIndex)) :
    ¬call.FindsFirst w.carbon := by
  obtain ⟨origin, now, call'⟩ := x
  obtain rfl : call' = _ := hcall
  simp only [Machine.fire, runtime, apply_extrinsic, Call.dispatch] at h
  cases hdispatch : call.dispatch T origin ⟨w, now, [], []⟩ with
  | ok u c =>
    rw [hdispatch] at h
    cases h
  | error e c =>
    rw [hdispatch] at h
    cases h
    exact not_findsFirst_of_invalidIndex hlinked hreg hdispatch

/-- A successful `approve_asset` finds an asset that is not yet approved. -/
theorem not_approved_of_approve_asset {t : Applied AccountId Hash} (h : Outcome T t) {a : Hash}
    (hcall : t.input.call = .carbonAssets (.approve_asset a)) (hok : t.Succeeded) :
    ¬t.pre.carbon.Approved a := by
  cases h.records with
  | other hother hquiet hsame => exact absurd hcall (hother _ hok)
  | call call events hok hcall' hevents hstep =>
    cases hcall.symm.trans hcall'
    generalize t.post.carbon = s', t.output.ops = ops at hstep
    cases hstep with
    | approve_asset asset_id asset project horigin hasset hstatus hproject hlimit =>
      intro happroved
      rw [happroved.status_eq hasset] at hstatus
      cases hstatus

/-- **Referential integrity.** In every state reached from genesis: assets are of
approved projects; issues, burns and orders are of approved assets; a record and its
additional data are stored under the same keys; an asset that is not approved has no
supply and nobody holds units of it; a call fails with `InvalidIndex` only if it does
not find the record it looks up first; and the balance that `approve_asset` overwrites
is zero, as everybody's is. -/
theorem referential_integrity {native : AccountId → ℕ} {tr : List (Applied AccountId Hash)}
    {w : World AccountId Hash}
    (hrun : (runtime T).Run (fun _ => True) (genesis native) tr w) :
    (∀ a asset, w.carbon.Assets.get a = some asset →
      ∃ project, w.carbon.Projects.get asset.project_id = some project ∧ project.status = 1)
    ∧ (∀ id issue_info, w.carbon.Issues.get id = some issue_info →
      w.carbon.Approved issue_info.asset_id)
    ∧ (∀ id burn_info, w.carbon.Burns.get id = some burn_info →
      w.carbon.Approved burn_info.asset_id)
    ∧ (∀ id order, w.Orders.get id = some order → w.carbon.Approved order.asset_id)
    ∧ w.carbon.ProjectAdditionals.keys = w.carbon.Projects.keys
    ∧ w.carbon.AssetAdditionals.keys = w.carbon.Assets.keys
    ∧ (∀ a, w.carbon.Assets.get a = none → ∀ x, w.carbon.balance a x = 0)
    ∧ (∀ a asset, w.carbon.Assets.get a = some asset → asset.status = 0 →
      asset.total_supply = 0 ∧ ∀ x, w.carbon.balance a x = 0)
    ∧ (∀ x call, x.call = .carbonAssets call →
      ((runtime T).fire w x).output.result = .error (.carbonAssets .InvalidIndex) →
      ¬call.FindsFirst w.carbon)
    ∧ ∀ x a, x.call = .carbonAssets (.approve_asset a) →
      Applied.Succeeded ((runtime T).fire w x) → ∀ y, w.carbon.balance a y = 0 := by
  have hreg := Registered.run hrun
  have hlinked := Linked.run hrun
  refine ⟨hlinked.project, hreg.carbon.issue_asset, hreg.carbon.burn_asset, hreg.order_asset,
    keys_eq_of_get hlinked.project_keys, keys_eq_of_get hlinked.asset_keys, ?_, ?_, ?_, ?_⟩
  · intro a hnone x
    apply hreg.carbon.unapproved
    rintro ⟨asset, hasset, -⟩
    cases hnone.symm.trans hasset
  · intro a asset hasset hstatus
    refine ⟨hlinked.supply a asset hasset hstatus, fun x => ?_⟩
    apply hreg.carbon.unapproved
    intro happroved
    rw [happroved.status_eq hasset] at hstatus
    cases hstatus
  · intro x call hcall hresult
    exact not_findsFirst_of_fire hlinked hreg.carbon hcall hresult
  · intro x a hcall hok y
    apply hreg.carbon.unapproved
    exact not_approved_of_approve_asset (outcome_of_fire T w x) hcall hok

theorem referential_integrity_opening :
    ∃ project, ((runtime devnet).final (genesis fun _ => 1000) devnet_opening).carbon.Projects.get
      devnet_project = some project ∧ project.status = 1 :=
  (referential_integrity (devnet_run (fun _ => 1000) devnet_opening)).1 devnet_asset
    { project_id := devnet_project, vintage := [], initial_supply := 5, total_supply := 5,
      status := 1 } (by decide)

end Chain

end Eco2
