/-
The guard against over-issue at the end of `u64`.

Four calls compare `amount + project.total_supply` with the project's cap. The sum
is a `u64`, and where the exact sum passes `2 ^ 64` it is small again: the guard
then lets through what it is there to refuse. `over_issue_guard_iff` says that it is
sound on exactly the requests on which this does not happen.
-/
import Eco2.Supply

set_option autoImplicit false
set_option linter.unusedSectionVars false

namespace Eco2

namespace CarbonAssets

variable {AccountId Hash : Type} [DecidableEq AccountId] [DecidableEq Hash]

/-! ## What the guard stands for -/

/-- The quantity that a guarded call asks for, and the project it asks. -/
def Call.asks (s : Storage AccountId Hash) :
    Call AccountId Hash → Option (UInt64 × CarbonProject AccountId)
  | .submit_asset project_id _ initial_supply _ => do
      let project ← s.Projects.get project_id
      some (initial_supply, project)
  | .approve_asset asset_id => do
      let asset ← s.Assets.get asset_id
      let project ← s.Projects.get asset.project_id
      some (asset.initial_supply, project)
  | .submit_issue asset_id amount _ => do
      let asset ← s.Assets.get asset_id
      let project ← s.Projects.get asset.project_id
      some (amount, project)
  | .approve_issue issue_id => do
      let issue_info ← s.Issues.get issue_id
      let asset ← s.Assets.get issue_info.asset_id
      let project ← s.Projects.get asset.project_id
      some (issue_info.amount, project)
  | _ => none

/-- The calls that compare their quantity with the project's cap. -/
def Call.Guarded : Call AccountId Hash → Prop
  | .submit_asset .. => True
  | .approve_asset _ => True
  | .submit_issue .. => True
  | .approve_issue _ => True
  | _ => False

/-- The guarded call passes all its other checks. -/
def Call.Otherwise (T : Trait AccountId Hash) (origin : Origin AccountId)
    (s : Storage AccountId Hash) : Call AccountId Hash → Prop
  | .submit_asset project_id vintage initial_supply additional =>
      ∃ sender, origin = .signed sender
        ∧ (∀ project ∈ s.Projects.get project_id, project.status = 1 ∧ project.owner = sender)
        ∧ s.Assets.get (T.hash_of (.asset sender project_id vintage initial_supply additional))
          = none
  | .approve_asset asset_id =>
      ApproveOrigin.Allows origin ∧ ∀ asset ∈ s.Assets.get asset_id, asset.status = 0
  | .submit_issue asset_id amount additional =>
      ∃ sender, origin = .signed sender
        ∧ (∀ asset ∈ s.Assets.get asset_id, asset.status = 1
          ∧ ∀ project ∈ s.Projects.get asset.project_id, project.owner = sender)
        ∧ s.Issues.get (T.hash_of (.issue sender asset_id amount additional)) = none
  | .approve_issue issue_id =>
      ApproveOrigin.Allows origin ∧ ∀ issue_info ∈ s.Issues.get issue_id, issue_info.status = 0
  | _ => False

variable {T : Trait AccountId Hash} {origin : Origin AccountId} {now : Moment}
  {s : Storage AccountId Hash} {call : Call AccountId Hash} {amount : UInt64}
  {project : CarbonProject AccountId}

/-- A guarded call goes through if the wrapped sum is within the cap and it passes its
other checks. -/
theorem step_iff_of_asks (h : call.asks s = some (amount, project)) :
    (∃ s' events ops, Step T origin now s call s' events ops)
      ↔ call.Otherwise T origin s ∧ amount + project.total_supply ≤ project.max_supply := by
  cases call with
  | submit_asset project_id vintage initial_supply additional =>
    obtain ⟨project', hproject, hsome⟩ := Option.bind_eq_some_iff.mp h
    cases hsome
    constructor
    · rintro ⟨_, _, _, hstep⟩
      cases hstep with
      | submit_asset sender _ _ _ _ project' asset_id horigin hproject' hstatus howner hlimit hid
          hfresh =>
        cases hproject.symm.trans hproject'
        refine ⟨⟨sender, horigin, fun other hother => ?_, hid ▸ hfresh⟩, hlimit⟩
        cases hproject.symm.trans hother
        exact ⟨hstatus, howner⟩
    · rintro ⟨⟨sender, horigin, hchecks, hfresh⟩, hlimit⟩
      obtain ⟨hstatus, howner⟩ := hchecks project hproject
      exact ⟨_, _, _, .submit_asset sender project_id vintage _ additional project _ horigin
        hproject hstatus howner hlimit rfl hfresh⟩
  | approve_asset asset_id =>
    obtain ⟨asset, hasset, hrest⟩ := Option.bind_eq_some_iff.mp h
    obtain ⟨project', hproject, hsome⟩ := Option.bind_eq_some_iff.mp hrest
    cases hsome
    constructor
    · rintro ⟨_, _, _, hstep⟩
      cases hstep with
      | approve_asset _ asset' project' horigin hasset' hstatus hproject' hlimit =>
        cases hasset.symm.trans hasset'
        cases hproject.symm.trans hproject'
        refine ⟨⟨horigin, fun other hother => ?_⟩, hlimit⟩
        cases hasset.symm.trans hother
        exact hstatus
    · rintro ⟨⟨horigin, hstatus⟩, hlimit⟩
      exact ⟨_, _, _, .approve_asset asset_id asset project horigin hasset (hstatus asset hasset)
        hproject hlimit⟩
  | submit_issue asset_id amount' additional =>
    obtain ⟨asset, hasset, hrest⟩ := Option.bind_eq_some_iff.mp h
    obtain ⟨project', hproject, hsome⟩ := Option.bind_eq_some_iff.mp hrest
    cases hsome
    constructor
    · rintro ⟨_, _, _, hstep⟩
      cases hstep with
      | submit_issue sender _ _ _ asset' project' issue_id horigin hasset' hstatus hproject' howner
          hlimit hid hfresh =>
        cases hasset.symm.trans hasset'
        cases hproject.symm.trans hproject'
        refine ⟨⟨sender, horigin, fun other hother => ?_, hid ▸ hfresh⟩, hlimit⟩
        cases hasset.symm.trans hother
        refine ⟨hstatus, fun other' hother' => ?_⟩
        cases hproject.symm.trans hother'
        exact howner
    · rintro ⟨⟨sender, horigin, hchecks, hfresh⟩, hlimit⟩
      obtain ⟨hstatus, howner⟩ := hchecks asset hasset
      exact ⟨_, _, _, .submit_issue sender asset_id _ additional asset project _ horigin hasset
        hstatus hproject (howner project hproject) hlimit rfl hfresh⟩
  | approve_issue issue_id =>
    obtain ⟨issue_info, hissue, hrest⟩ := Option.bind_eq_some_iff.mp h
    obtain ⟨asset, hasset, hrest⟩ := Option.bind_eq_some_iff.mp hrest
    obtain ⟨project', hproject, hsome⟩ := Option.bind_eq_some_iff.mp hrest
    cases hsome
    constructor
    · rintro ⟨_, _, _, hstep⟩
      cases hstep with
      | approve_issue _ issue_info' asset' project' horigin hissue' hstatus hasset' hproject'
          hlimit =>
        cases hissue.symm.trans hissue'
        cases hasset.symm.trans hasset'
        cases hproject.symm.trans hproject'
        refine ⟨⟨horigin, fun other hother => ?_⟩, hlimit⟩
        cases hissue.symm.trans hother
        exact hstatus
    · rintro ⟨⟨horigin, hstatus⟩, hlimit⟩
      exact ⟨_, _, _, .approve_issue issue_id issue_info asset project horigin hissue
        (hstatus issue_info hissue) hasset hproject hlimit⟩
  | submit_project => cases h
  | approve_project => cases h
  | submit_burn => cases h
  | approve_burn => cases h
  | transfer => cases h
  | neutralize => cases h

/-- A guarded call that goes through has asked a project for a quantity. -/
theorem Step.asks {s' : Storage AccountId Hash} {events : List (Event AccountId Hash)}
    {ops : List (Op AccountId Hash)} (h : Step T origin now s call s' events ops)
    (hguarded : call.Guarded) : ∃ amount project, call.asks s = some (amount, project) := by
  cases h with
  | submit_asset _ _ _ _ _ _ _ _ hproject => simp [Call.asks, hproject]
  | approve_asset _ _ _ _ hasset _ hproject => simp [Call.asks, hasset, hproject]
  | submit_issue _ _ _ _ _ _ _ _ hasset _ hproject => simp [Call.asks, hasset, hproject]
  | approve_issue _ _ _ _ _ hissue _ hasset hproject =>
    simp [Call.asks, hissue, hasset, hproject]
  | submit_project => exact hguarded.elim
  | approve_project => exact hguarded.elim
  | submit_burn => exact hguarded.elim
  | approve_burn => exact hguarded.elim
  | transfer => exact hguarded.elim
  | neutralize => exact hguarded.elim

/-- Only guarded calls ask. -/
theorem Call.guarded_of_asks (h : call.asks s = some (amount, project)) : call.Guarded := by
  cases call <;> trivial

end CarbonAssets

/-! ## The guard over a run -/

section Chain

open CarbonAssets

variable {AccountId Hash : Type} [DecidableEq AccountId] [DecidableEq Hash]
variable {T : Trait AccountId Hash}

/-- If the transition is a successful guarded call, then the quantity and the project's
total supply are within the project's cap, as integers. -/
def WithinLimit (t : Applied AccountId Hash) : Prop :=
  ∀ call, t.Succeeded → t.input.call = .carbonAssets call → call.Guarded →
    ∃ amount project, call.asks t.pre.carbon = some (amount, project)
      ∧ amount.toNat + project.total_supply.toNat ≤ project.max_supply.toNat

/-- The call passes every check but that of the limit, and the sum that it compares has
wrapped to within the cap. -/
def WrapsWithinLimit (T : Trait AccountId Hash) (t : Applied AccountId Hash) : Prop :=
  ∃ call amount project, t.input.call = .carbonAssets call
    ∧ call.asks t.pre.carbon = some (amount, project)
    ∧ call.Otherwise T t.input.origin t.pre.carbon
    ∧ amount + project.total_supply ≤ project.max_supply
    ∧ 2 ^ 64 ≤ amount.toNat + project.total_supply.toNat

/-- A wrapped sum within the cap is an exact one, or it has wrapped. -/
theorem exact_le_iff {amount total cap : UInt64} (h : amount + total ≤ cap) :
    amount.toNat + total.toNat ≤ cap.toNat ↔ ¬2 ^ 64 ≤ amount.toNat + total.toNat := by
  have hcap := cap.toNat_lt
  rw [Nat.not_le]
  refine ⟨fun hle => hle.trans_lt hcap, fun hlt => ?_⟩
  rw [UInt64.le_iff_toNat_le, U64.toNat_add_of_lt hlt] at h
  exact h

/-- **The guard of one call**, in any state. -/
theorem within_limit_iff (w : World AccountId Hash) (x : Extrinsic AccountId Hash) :
    WithinLimit ((runtime T).fire w x) ↔ ¬WrapsWithinLimit T ((runtime T).fire w x) := by
  obtain ⟨origin, now, call⟩ := x
  constructor
  · rintro hwithin ⟨call', amount, project, hcall, hasks, hother, hlimit, hwrap⟩
    obtain rfl : call = .carbonAssets call' := hcall
    have hok : Applied.Succeeded ((runtime T).fire w ⟨origin, now, .carbonAssets call'⟩) := by
      rw [carbon_succeeded_iff]
      exact (step_iff_of_asks hasks).mpr ⟨hother, hlimit⟩
    obtain ⟨amount', project', hasks', hle⟩ :=
      hwithin call' hok rfl (Call.guarded_of_asks hasks)
    cases hasks.symm.trans hasks'
    exact (exact_le_iff hlimit).mp hle hwrap
  · rintro hnot call' hok hcall hguarded
    obtain rfl : call = .carbonAssets call' := hcall
    obtain ⟨s', events, ops, hstep⟩ := (carbon_succeeded_iff T w origin now call').mp hok
    obtain ⟨amount, project, hasks⟩ := hstep.asks hguarded
    obtain ⟨hother, hlimit⟩ := (step_iff_of_asks hasks).mp ⟨s', events, ops, hstep⟩
    refine ⟨amount, project, hasks, (exact_le_iff hlimit).mpr fun hwrap => hnot ?_⟩
    exact ⟨call', amount, project, rfl, hasks, hother, hlimit, hwrap⟩

/-- **The over-issue guards.** In every state reached from genesis a call is guarded
exactly if the sum it compares does not wrap to within the cap; so all calls of a run
are guarded if and only if no sum of the run does. -/
theorem over_issue_guard_iff {native : AccountId → ℕ} {w : World AccountId Hash}
    {tr : List (Applied AccountId Hash)}
    (hrun : (runtime T).Run (fun _ => True) (genesis native) tr w) :
    (∀ x, WithinLimit ((runtime T).fire w x) ↔ ¬WrapsWithinLimit T ((runtime T).fire w x))
      ∧ ((∀ t ∈ tr, WithinLimit t) ↔ ∀ t ∈ tr, ¬WrapsWithinLimit T t) := by
  refine ⟨within_limit_iff w, forall₂_congr fun t ht => ?_⟩
  obtain ⟨_, -, hfire, -⟩ := hrun.of_mem ht
  rw [hfire]
  exact within_limit_iff t.pre t.input

/-- The guards of a run that has issued and burned. -/
theorem over_issue_guard_issue_and_burn :
    let w := (runtime devnet).final (genesis fun _ => 0) devnet_issue_and_burn
    let tr := (runtime devnet).trace (genesis fun _ => 0) devnet_issue_and_burn
    (∀ x, WithinLimit ((runtime devnet).fire w x)
        ↔ ¬WrapsWithinLimit devnet ((runtime devnet).fire w x))
      ∧ ((∀ t ∈ tr, WithinLimit t) ↔ ∀ t ∈ tr, ¬WrapsWithinLimit devnet t) :=
  over_issue_guard_iff (devnet_run (fun _ => 0) devnet_issue_and_burn)

/-- A request for the largest `u64`, of a project that has five units out. -/
def devnet_wrapping_asset : Extrinsic ℕ (List ℕ) :=
  ⟨.signed 1, 0, .carbonAssets (.submit_asset devnet_project [1] 18446744073709551615 [])⟩

/-- **A request past the cap that is not refused.** In a state reached from genesis the
sum wraps to 4, and the asset is submitted. -/
theorem wrapping_asset_submitted :
    (runtime devnet).Run (fun _ => True) (genesis fun _ => 0)
      ((runtime devnet).trace (genesis fun _ => 0) devnet_issue_and_burn)
      ((runtime devnet).final (genesis fun _ => 0) devnet_issue_and_burn)
    ∧ Applied.Succeeded ((runtime devnet).fire
        ((runtime devnet).final (genesis fun _ => 0) devnet_issue_and_burn) devnet_wrapping_asset)
    ∧ ¬WithinLimit ((runtime devnet).fire
        ((runtime devnet).final (genesis fun _ => 0) devnet_issue_and_burn)
        devnet_wrapping_asset) := by
  refine ⟨devnet_run _ _, by decide, fun hwithin => ?_⟩
  refine (within_limit_iff _ _).mp hwithin ⟨_, _, _, rfl, rfl, ⟨1, rfl, ?_, by decide⟩, ?_, ?_⟩
  all_goals decide

end Chain

end Eco2
