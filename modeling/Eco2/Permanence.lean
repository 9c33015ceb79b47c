/-
Projects, assets and issues are permanent.

Six calls write records they have read before, whole, and two of them write three at
once. `Persists` compares two storages: every record of the first is in the second,
with the fields that were submitted as they were. Each step persists, so any two
states of a run do. What the committee decides is in the statuses, and `Requests`
has shown how they move.
-/
import Eco2.Requests

set_option autoImplicit false
set_option linter.unusedSectionVars false

namespace Eco2

namespace CarbonAssets

variable {AccountId Hash : Type} [DecidableEq AccountId] [DecidableEq Hash]

/-! ## What a submission fixes -/

/-- The fields of a project that its submission fixes. -/
def SameProject (old new : CarbonProject AccountId) : Prop :=
  new.symbol = old.symbol ∧ new.max_supply = old.max_supply ∧ new.owner = old.owner

/-- The fields of an asset that its submission fixes. -/
def SameAsset (old new : CarbonAsset Hash) : Prop :=
  new.project_id = old.project_id ∧ new.vintage = old.vintage
    ∧ new.initial_supply = old.initial_supply

/-- The fields of an issue that its submission fixes. -/
def SameIssue (old new : IssueInfo Hash) : Prop :=
  new.asset_id = old.asset_id ∧ new.amount = old.amount ∧ new.additional = old.additional

/-- Whatever is recorded in `s` is recorded in `s'`, with what was submitted. -/
structure Persists (s s' : Storage AccountId Hash) : Prop where
  projects : s.Projects.Carried SameProject s'.Projects
  assets : s.Assets.Carried SameAsset s'.Assets
  issues : s.Issues.Carried SameIssue s'.Issues
  project_additionals : s.ProjectAdditionals.Carried Eq s'.ProjectAdditionals
  asset_additionals : s.AssetAdditionals.Carried Eq s'.AssetAdditionals

theorem SameProject.refl (project : CarbonProject AccountId) : SameProject project project :=
  ⟨rfl, rfl, rfl⟩

theorem SameAsset.refl (asset : CarbonAsset Hash) : SameAsset asset asset := ⟨rfl, rfl, rfl⟩

theorem SameIssue.refl (issue_info : IssueInfo Hash) : SameIssue issue_info issue_info :=
  ⟨rfl, rfl, rfl⟩

theorem Persists.refl (s : Storage AccountId Hash) : Persists s s where
  projects := .refl SameProject.refl _
  assets := .refl SameAsset.refl _
  issues := .refl SameIssue.refl _
  project_additionals := .refl Eq.refl _
  asset_additionals := .refl Eq.refl _

theorem Persists.trans {s s' s'' : Storage AccountId Hash} (h : Persists s s')
    (h' : Persists s' s'') : Persists s s'' where
  projects := by
    apply h.projects.trans _ h'.projects
    rintro u v w ⟨h1, h2, h3⟩ ⟨h1', h2', h3'⟩
    exact ⟨h1'.trans h1, h2'.trans h2, h3'.trans h3⟩
  assets := by
    apply h.assets.trans _ h'.assets
    rintro u v w ⟨h1, h2, h3⟩ ⟨h1', h2', h3'⟩
    exact ⟨h1'.trans h1, h2'.trans h2, h3'.trans h3⟩
  issues := by
    apply h.issues.trans _ h'.issues
    rintro u v w ⟨h1, h2, h3⟩ ⟨h1', h2', h3'⟩
    exact ⟨h1'.trans h1, h2'.trans h2, h3'.trans h3⟩
  project_additionals := h.project_additionals.trans (fun _ _ _ => Eq.trans) h'.project_additionals
  asset_additionals := h.asset_additionals.trans (fun _ _ _ => Eq.trans) h'.asset_additionals

section Steps

variable {T : Trait AccountId Hash} {origin : Origin AccountId} {now : Moment}
  {s s' : Storage AccountId Hash} {call : Call AccountId Hash}
  {events : List (Event AccountId Hash)} {ops : List (Op AccountId Hash)}

/-- Every step of the pallet persists. -/
theorem Step.persists (hlinked : Linked s) (h : Step T origin now s call s' events ops) :
    Persists s s' := by
  have hrefl := Persists.refl s
  cases h with
  | submit_project sender symbol max_supply additional project_id horigin hid hfresh =>
    -- the additional data is new as well, since it has the keys of the projects
    have hnone := (hlinked.project_keys project_id).mpr hfresh
    exact { hrefl with
      projects := .insert_of_none SameProject.refl hfresh _
      project_additionals := .insert_of_none Eq.refl hnone _ }
  | approve_project project_id project horigin hproject hstatus =>
    exact { hrefl with projects := .insert SameProject.refl hproject ⟨rfl, rfl, rfl⟩ }
  | submit_asset sender project_id vintage initial_supply additional project asset_id horigin
      hproject hstatus howner hlimit hid hfresh =>
    have hnone := (hlinked.asset_keys asset_id).mpr hfresh
    exact { hrefl with
      assets := .insert_of_none SameAsset.refl hfresh _
      asset_additionals := .insert_of_none Eq.refl hnone _ }
  | approve_asset asset_id asset project horigin hasset hstatus hproject hlimit =>
    exact { hrefl with assets := .insert SameAsset.refl hasset ⟨rfl, rfl, rfl⟩ }
  | submit_issue sender asset_id amount additional asset project issue_id horigin hasset hstatus
      hproject howner hlimit hid hfresh =>
    exact { hrefl with issues := .insert_of_none SameIssue.refl hfresh _ }
  | approve_issue issue_id issue_info asset project horigin hissue hstatus hasset hproject hlimit =>
    exact { hrefl with
      projects := .insert SameProject.refl hproject ⟨rfl, rfl, rfl⟩
      assets := .insert SameAsset.refl hasset ⟨rfl, rfl, rfl⟩
      issues := .insert SameIssue.refl hissue ⟨rfl, rfl, rfl⟩ }
  | submit_burn => exact { hrefl with }
  | approve_burn burn_id burn_info asset project horigin hburn hstatus hasset hproject =>
    exact { hrefl with
      projects := .insert SameProject.refl hproject ⟨rfl, rfl, rfl⟩
      assets := .insert SameAsset.refl hasset ⟨rfl, rfl, rfl⟩ }
  | transfer sender asset_id to_ amount =>
    unfold Storage.move
    split
    · exact { hrefl with }
    · exact hrefl
  | neutralize => exact { hrefl with }

end Steps

end CarbonAssets

/-! ## On the chain -/

section Chain

open CarbonAssets

variable {AccountId Hash : Type} [DecidableEq AccountId] [DecidableEq Hash]
variable {T : Trait AccountId Hash}

/-- Every transition of the chain persists. -/
theorem Outcome.persists {t : Applied AccountId Hash} (h : Outcome T t)
    (hlinked : Linked t.pre.carbon) : Persists t.pre.carbon t.post.carbon := by
  cases h.records with
  | call call events hok hcall hevents hstep => exact hstep.persists hlinked
  | other hother hquiet hsame =>
    obtain ⟨balances, hsame⟩ := hsame
    rw [hsame]
    exact { Persists.refl t.pre.carbon with }

/-- Two states of a run, the earlier one first. -/
theorem CarbonAssets.Persists.run {allowed : Applied AccountId Hash → Prop} {native : AccountId → ℕ}
    {tr₁ tr₂ : List (Applied AccountId Hash)} {w₁ w₂ : World AccountId Hash}
    (hrun₁ : (runtime T).Run allowed (genesis native) tr₁ w₁)
    (hrun₂ : (runtime T).Run allowed w₁ tr₂ w₂) : Persists w₁.carbon w₂.carbon := by
  apply hrun₂.invariant (I := fun _ w => Persists w₁.carbon w.carbon)
  · exact .refl _
  intro tr w x hrun hpersists _
  have hlinked : Linked w.carbon := .run (hrun₁.append hrun)
  exact hpersists.trans ((outcome_of_fire T w x).persists hlinked)

/-- **Permanence.** For any two states of a run from genesis, the earlier one first:
the projects, assets and issues of the first are in the second, with all that was
submitted; their statuses are 0 or 1, and the same or gone from 0 to 1. Over the whole
run a status becomes 1 only in the approval of that request, made under
`ApproveOrigin`, and no request is approved twice. -/
theorem records_permanent {native : AccountId → ℕ} {tr₁ tr₂ : List (Applied AccountId Hash)}
    {w₁ w₂ : World AccountId Hash}
    (hrun₁ : (runtime T).Run (fun _ => True) (genesis native) tr₁ w₁)
    (hrun₂ : (runtime T).Run (fun _ => True) w₁ tr₂ w₂) :
    Persists w₁.carbon w₂.carbon
    ∧ ∀ k, k ≠ RequestKind.burn → ∀ id,
      (∀ st, w₁.carbon.status k id = some st → (st = 0 ∨ st = 1)
        ∧ (w₂.carbon.status k id = some st ∨ (st = 0 ∧ w₂.carbon.status k id = some 1)))
      ∧ (∀ t ∈ tr₁ ++ tr₂, t.pre.carbon.status k id ≠ some 1 →
        t.post.carbon.status k id = some 1 →
        t.Approves k id ∧ ApproveOrigin.Allows t.input.origin)
      ∧ (tr₁ ++ tr₂).Pairwise fun t u => ¬(t.Approves k id ∧ u.Approves k id) := by
  have hrun := hrun₁.append hrun₂
  refine ⟨Persists.run hrun₁ hrun₂, fun k hk id => ⟨?_, ?_, ?_⟩⟩
  · intro st hst
    exact ⟨status_range hrun₁ hst, status_final_run hrun₂ (freshIn_of_ne_burn hrun₂ hk) hst⟩
  · intro t ht hpre hpost
    have h := outcome_of_mem hrun ht
    have happ := approves_of_status h hpre hpost
    exact ⟨happ, (happ.status h).2.2⟩
  · exact approved_once hrun (freshIn_of_ne_burn hrun hk)

/-- The records of `devnet_opening` before and after the submission of an issue. -/
theorem records_permanent_submission :
    Persists ((runtime devnet).final (genesis fun _ => 1000) devnet_opening).carbon
      ((runtime devnet).fire ((runtime devnet).final (genesis fun _ => 1000) devnet_opening)
        ⟨.signed 1, 0, .carbonAssets (.submit_issue devnet_asset 7 [])⟩).post.carbon :=
  (records_permanent (devnet_run (fun _ => 1000) devnet_opening)
    (Machine.Run.snoc ⟨.signed 1, 0, .carbonAssets (.submit_issue devnet_asset 7 [])⟩ .nil
      trivial)).1

end Chain

end Eco2
