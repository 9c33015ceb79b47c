/-
The life of a request.

Projects, assets, issues and burns are all requests: somebody submits one, it is
stored with status 0, and the committee approves it, which makes the status 1. The
four kinds share one pattern, and `RequestStep` is that pattern as a state machine
of one status: kept, submitted, or approved. A submission finds the identifier
unused for every kind but burns, which the source looks up in the wrong map, so the
theorems here take it as a hypothesis that a submission is fresh and `Submits.fresh`
provides it for the other three.
-/
import Eco2.Integrity

set_option autoImplicit false
set_option linter.unusedSectionVars false

namespace Eco2

namespace CarbonAssets

variable {AccountId Hash : Type} [DecidableEq AccountId] [DecidableEq Hash]

/-! ## Requests -/

/-- What the committee approves. -/
inductive RequestKind
  | project
  | asset
  | issue
  | burn
  deriving DecidableEq

/-- The stored status of a request. -/
def Storage.status (s : Storage AccountId Hash) : RequestKind → Hash → Option UInt8
  | .project, id => (s.Projects.get id).map CarbonProject.status
  | .asset, id => (s.Assets.get id).map CarbonAsset.status
  | .issue, id => (s.Issues.get id).map IssueInfo.status
  | .burn, id => (s.Burns.get id).map BurnInfo.status

/-- The call that approves a request. -/
def RequestKind.approve : RequestKind → Hash → Call AccountId Hash
  | .project, id => .approve_project id
  | .asset, id => .approve_asset id
  | .issue, id => .approve_issue id
  | .burn, id => .approve_burn id

/-- The request that a call submits. -/
def submission (T : Trait AccountId Hash) (origin : Origin AccountId)
    (call : Call AccountId Hash) : Option (RequestKind × Hash) :=
  match origin, call with
  | .signed sender, .submit_project symbol max_supply additional =>
      some (.project, T.hash_of (.project sender symbol max_supply additional))
  | .signed sender, .submit_asset project_id vintage initial_supply additional =>
      some (.asset, T.hash_of (.asset sender project_id vintage initial_supply additional))
  | .signed sender, .submit_issue asset_id amount additional =>
      some (.issue, T.hash_of (.issue sender asset_id amount additional))
  | .signed sender, .submit_burn asset_id amount additional =>
      some (.burn, T.hash_of (.burn sender asset_id amount additional))
  | _, _ => none

theorem approve_inj {k k' : RequestKind} {id id' : Hash}
    (h : (k.approve id : Call AccountId Hash) = k'.approve id') : k = k' ∧ id = id' := by
  cases k <;> cases k' <;> cases h <;> exact ⟨rfl, rfl⟩

@[simp] theorem submission_approve (T : Trait AccountId Hash) (origin : Origin AccountId)
    (k : RequestKind) (id : Hash) : submission T origin (k.approve id) = none := by
  cases k <;> (unfold submission RequestKind.approve; split <;> first | rfl | contradiction)

/-! ## What a step does to the statuses -/

/-- A step submits one request, approves one, or touches no status. -/
inductive StatusWrite (T : Trait AccountId Hash) (origin : Origin AccountId)
    (s s' : Storage AccountId Hash) (call : Call AccountId Hash) : Prop
  | submits (k : RequestKind) (id : Hash) (hsub : submission T origin call = some (k, id))
      (hfresh : k ≠ .burn → s.status k id = none)
      (hpost : ∀ k' id', s'.status k' id' = if k' = k ∧ id' = id then some 0 else s.status k' id')
  | approves (k : RequestKind) (id : Hash) (hcall : call = k.approve id)
      (horigin : ApproveOrigin.Allows origin) (hpre : s.status k id = some 0)
      (hpost : ∀ k' id', s'.status k' id' = if k' = k ∧ id' = id then some 1 else s.status k' id')
  | keeps (hsub : submission T origin call = none)
      (hcall : ∀ (k : RequestKind) id, call ≠ k.approve id)
      (hpost : ∀ k' id', s'.status k' id' = s.status k' id')

section Slots

variable {V F : Type} {m : StorageMap Hash V} {id : Hash}

/-- One cell of a map, seen through a field, after a write. -/
theorem map_get_insert (f : V → F) (v : V) (id' : Hash) :
    ((m.insert id v).get id').map f = if id' = id then some (f v) else (m.get id').map f := by
  rw [StorageMap.get_insert]
  split <;> rfl

/-- Rewriting a record but for the field changes nothing. -/
theorem map_get_insert_of_eq (f : V → F) {old : V} (hold : m.get id = some old) (v : V)
    (heq : f v = f old) (id' : Hash) :
    ((m.insert id v).get id').map f = (m.get id').map f := by
  rw [map_get_insert]
  by_cases hid : id' = id
  · rw [if_pos hid, hid, hold, heq]
    rfl
  · rw [if_neg hid]

end Slots

section Steps

variable {T : Trait AccountId Hash} {origin : Origin AccountId} {now : Moment}
  {s s' : Storage AccountId Hash} {call : Call AccountId Hash}
  {events : List (Event AccountId Hash)} {ops : List (Op AccountId Hash)}

/-- Rewriting the total supplies of an asset and its project touches no status. -/
private theorem status_set_totals {asset_id : Hash} {asset : CarbonAsset Hash}
    {project : CarbonProject AccountId} (hasset : s.Assets.get asset_id = some asset)
    (hproject : s.Projects.get asset.project_id = some project)
    (asset_total project_total : UInt64) (k : RequestKind) (id : Hash) :
    ({ s with
      Assets := s.Assets.insert asset_id { asset with total_supply := asset_total }
      Projects := s.Projects.insert asset.project_id
        { project with total_supply := project_total } } : Storage AccountId Hash).status k id
      = s.status k id := by
  cases k with
  | project =>
    exact map_get_insert_of_eq CarbonProject.status hproject
      { project with total_supply := project_total } rfl id
  | asset =>
    exact map_get_insert_of_eq CarbonAsset.status hasset
      { asset with total_supply := asset_total } rfl id
  | issue => rfl
  | burn => rfl

/-- What a successful call does to the statuses. -/
theorem Step.status (h : Step T origin now s call s' events ops) :
    StatusWrite T origin s s' call := by
  cases h with
  | submit_project sender symbol max_supply additional project_id horigin hid hfresh =>
    subst horigin hid
    refine .submits .project _ rfl (fun _ => by rw [Storage.status, hfresh]; rfl) fun k id => ?_
    cases k with
    | project => simp [Storage.status, map_get_insert]
    | _ => simp [Storage.status]
  | approve_project project_id project horigin hproject hstatus =>
    refine .approves .project project_id rfl horigin
      (by rw [Storage.status, hproject, Option.map_some, hstatus]) fun k id => ?_
    cases k with
    | project => simp [Storage.status, map_get_insert]
    | _ => simp [Storage.status]
  | submit_asset sender project_id vintage initial_supply additional project asset_id horigin
      hproject hstatus howner hlimit hid hfresh =>
    subst horigin hid
    refine .submits .asset _ rfl (fun _ => by rw [Storage.status, hfresh]; rfl) fun k id => ?_
    cases k with
    | asset => simp [Storage.status, map_get_insert]
    | _ => simp [Storage.status]
  | approve_asset asset_id asset project horigin hasset hstatus hproject hlimit =>
    refine .approves .asset asset_id rfl horigin
      (by rw [Storage.status, hasset, Option.map_some, hstatus]) fun k id => ?_
    cases k with
    | asset => simp [Storage.status, map_get_insert]
    | _ => simp [Storage.status, Storage.set_balance]
  | submit_issue sender asset_id amount additional asset project issue_id horigin hasset hstatus
      hproject howner hlimit hid hfresh =>
    subst horigin hid
    refine .submits .issue _ rfl (fun _ => by rw [Storage.status, hfresh]; rfl) fun k id => ?_
    cases k with
    | issue => simp [Storage.status, map_get_insert]
    | _ => simp [Storage.status]
  | approve_issue issue_id issue_info asset project horigin hissue hstatus hasset hproject hlimit =>
    refine .approves .issue issue_id rfl horigin
      (by rw [Storage.status, hissue, Option.map_some, hstatus]) fun k id => ?_
    -- the asset and the project are rewritten with the status they have
    have htotals := status_set_totals hasset hproject
      (asset.total_supply + issue_info.amount) (project.total_supply + issue_info.amount) k id
    cases k with
    | issue => simp [Storage.status, Storage.credit, Storage.set_balance, map_get_insert]
    | _ =>
      rw [if_neg (by simp)]
      exact htotals
  | submit_burn sender asset_id amount additional asset project burn_id horigin hasset hstatus
      hproject howner hid =>
    subst horigin hid
    -- nothing is known of the entry that is overwritten, if there is one
    refine .submits .burn _ rfl (fun hne => absurd rfl hne) fun k id => ?_
    cases k with
    | burn => simp [Storage.status, Storage.debit, Storage.set_balance, map_get_insert]
    | _ => simp [Storage.status, Storage.debit, Storage.set_balance]
  | approve_burn burn_id burn_info asset project horigin hburn hstatus hasset hproject =>
    refine .approves .burn burn_id rfl horigin
      (by rw [Storage.status, hburn, Option.map_some, hstatus]) fun k id => ?_
    have htotals := status_set_totals hasset hproject
      (asset.total_supply - burn_info.amount) (project.total_supply - burn_info.amount) k id
    cases k with
    | burn => simp [Storage.status, map_get_insert]
    | _ =>
      rw [if_neg (by simp)]
      exact htotals
  | transfer sender asset_id to_ amount horigin =>
    subst horigin
    refine .keeps rfl (fun k id => by cases k <;> simp [RequestKind.approve]) fun k id => ?_
    unfold Storage.move
    split <;> cases k <;> rfl
  | neutralize sender asset_id amount additional horigin =>
    subst horigin
    refine .keeps rfl (fun k id => by cases k <;> simp [RequestKind.approve]) fun k id => ?_
    cases k <;> rfl

end Steps

end CarbonAssets

/-! ## One request on the chain -/

section Chain

open CarbonAssets

variable {AccountId Hash : Type} [DecidableEq AccountId] [DecidableEq Hash]
variable {T : Trait AccountId Hash} {t : Applied AccountId Hash} {k : RequestKind} {id : Hash}

/-- The transition submits the request. -/
def Applied.Submits (T : Trait AccountId Hash) (t : Applied AccountId Hash) (k : RequestKind)
    (id : Hash) : Prop :=
  t.Succeeded ∧ ∃ call, t.input.call = .carbonAssets call
    ∧ submission T t.input.origin call = some (k, id)

/-- The transition approves the request. -/
def Applied.Approves (t : Applied AccountId Hash) (k : RequestKind) (id : Hash) : Prop :=
  t.Succeeded ∧ t.input.call = .carbonAssets (k.approve id)

/-- The kind of request that a preimage is of. -/
def Preimage.request : Preimage AccountId Hash → Option RequestKind
  | .project .. => some .project
  | .asset .. => some .asset
  | .issue .. => some .issue
  | .burn .. => some .burn
  | _ => none

/-- A request is submitted under the hash of a preimage of its kind. -/
theorem preimage_of_submits (h : t.Submits T k id) :
    ∃ p, id = T.hash_of p ∧ p.request = some k ∧ t.input.preimage = some p := by
  obtain ⟨-, call, hcall, hsub⟩ := h
  unfold submission at hsub
  split at hsub
  case h_5 => cases hsub
  all_goals
    rename_i horigin
    cases hsub
    exact ⟨_, rfl, rfl, preimage_eq_some_iff.mpr ⟨horigin, hcall⟩⟩

/-- What a transition does to the status of one request. -/
inductive RequestStep (T : Trait AccountId Hash) (t : Applied AccountId Hash) (k : RequestKind)
    (id : Hash) : Option UInt8 → Option UInt8 → Prop
  | kept (slot : Option UInt8) (hsub : ¬t.Submits T k id) (happ : ¬t.Approves k id) :
      RequestStep T t k id slot slot
  | submitted (slot : Option UInt8) (hsub : t.Submits T k id)
      (hfresh : k ≠ .burn → slot = none) : RequestStep T t k id slot (some 0)
  | approved (happ : t.Approves k id) (horigin : ApproveOrigin.Allows t.input.origin) :
      RequestStep T t k id (some 0) (some 1)

/-- **One transition, one request.** -/
theorem request_step (h : Outcome T t) (k : RequestKind) (id : Hash) :
    RequestStep T t k id (t.pre.carbon.status k id) (t.post.carbon.status k id) := by
  cases h.records with
  | other hother hquiet hsame =>
    obtain ⟨balances, hsame⟩ := hsame
    have hstatus : t.post.carbon.status k id = t.pre.carbon.status k id := by
      rw [hsame]
      cases k <;> rfl
    rw [hstatus]
    apply RequestStep.kept
    · rintro ⟨hok, call, hcall, -⟩
      exact hother call hok hcall
    · rintro ⟨hok, hcall⟩
      exact hother _ hok hcall
  | call call events hok hcall hevents hstep =>
    have hsubmits : t.Submits T k id ↔ submission T t.input.origin call = some (k, id) := by
      constructor
      · rintro ⟨-, call', hcall', hsub⟩
        cases hcall.symm.trans hcall'
        exact hsub
      · exact fun hsub => ⟨hok, call, hcall, hsub⟩
    have happroves : t.Approves k id ↔ call = k.approve id := by
      constructor
      · rintro ⟨-, hcall'⟩
        cases hcall.symm.trans hcall'
        rfl
      · rintro rfl
        exact ⟨hok, hcall⟩
    cases hstep.status with
    | submits k' id' hsub hfresh hpost =>
      rw [hpost]
      by_cases hslot : k = k' ∧ id = id'
      · obtain ⟨rfl, rfl⟩ := hslot
        rw [if_pos ⟨rfl, rfl⟩]
        exact .submitted _ (hsubmits.mpr hsub) hfresh
      · rw [if_neg hslot]
        apply RequestStep.kept
        · rw [hsubmits, hsub]
          intro hc
          cases hc
          exact hslot ⟨rfl, rfl⟩
        · rw [happroves]
          rintro rfl
          rw [submission_approve] at hsub
          cases hsub
    | approves k' id' hcall' horigin hpre hpost =>
      rw [hpost]
      by_cases hslot : k = k' ∧ id = id'
      · obtain ⟨rfl, rfl⟩ := hslot
        rw [if_pos ⟨rfl, rfl⟩, hpre]
        exact .approved (happroves.mpr hcall') horigin
      · rw [if_neg hslot]
        apply RequestStep.kept
        · rw [hsubmits, hcall', submission_approve]
          exact nofun
        · rw [happroves, hcall']
          intro hc
          obtain ⟨rfl, rfl⟩ := approve_inj hc
          exact hslot ⟨rfl, rfl⟩
    | keeps hsub hcall' hpost =>
      rw [hpost]
      apply RequestStep.kept
      · rw [hsubmits, hsub]
        exact nofun
      · rw [happroves]
        exact hcall' k id

/-- The submission of anything but a burn is fresh. -/
theorem Applied.Submits.fresh (hsub : t.Submits T k id) (h : Outcome T t) (hk : k ≠ .burn) :
    t.pre.carbon.status k id = none := by
  have hslot := request_step h k id
  generalize t.pre.carbon.status k id = before at hslot ⊢
  generalize t.post.carbon.status k id = after at hslot
  cases hslot with
  | kept slot hnot => exact absurd hsub hnot
  | submitted slot hsub hfresh => exact hfresh hk
  | approved happ =>
    obtain ⟨-, call, hcall, hsub⟩ := hsub
    cases hcall.symm.trans happ.2
    rw [submission_approve] at hsub
    cases hsub

/-- An approval takes the status from 0 to 1, and is made under `ApproveOrigin`. -/
theorem Applied.Approves.status (happ : t.Approves k id) (h : Outcome T t) :
    t.pre.carbon.status k id = some 0 ∧ t.post.carbon.status k id = some 1
      ∧ ApproveOrigin.Allows t.input.origin := by
  have hslot := request_step h k id
  generalize t.pre.carbon.status k id = before at hslot ⊢
  generalize t.post.carbon.status k id = after at hslot ⊢
  cases hslot with
  | kept slot hsub hnot => exact absurd happ hnot
  | submitted slot hsub =>
    obtain ⟨-, call, hcall, hsub⟩ := hsub
    cases hcall.symm.trans happ.2
    rw [submission_approve] at hsub
    cases hsub
  | approved happ horigin => exact ⟨rfl, rfl, horigin⟩

/-- A request whose submissions are fresh keeps its status or goes from 0 to 1. -/
theorem status_final (h : Outcome T t)
    (hfresh : t.Submits T k id → t.pre.carbon.status k id = none) {st : UInt8}
    (hpre : t.pre.carbon.status k id = some st) :
    t.post.carbon.status k id = some st ∨ (st = 0 ∧ t.post.carbon.status k id = some 1) := by
  have hslot := request_step h k id
  rw [hpre] at hslot
  generalize t.post.carbon.status k id = after at hslot ⊢
  cases hslot with
  | kept => exact .inl rfl
  | submitted slot hsub => exact absurd (hpre.symm.trans (hfresh hsub)) (Option.some_ne_none st)
  | approved => exact .inr ⟨rfl, rfl⟩

/-- A status becomes 1 in an approval only. -/
theorem approves_of_status (h : Outcome T t) (hpre : t.pre.carbon.status k id ≠ some 1)
    (hpost : t.post.carbon.status k id = some 1) : t.Approves k id := by
  have hslot := request_step h k id
  rw [hpost] at hslot
  generalize t.pre.carbon.status k id = before at hslot hpre
  cases hslot with
  | kept => exact absurd rfl hpre
  | approved happ => exact happ

/-! ## One request over a run -/

section Run

variable {allowed : Applied AccountId Hash → Prop} {w w' : World AccountId Hash}
  {tr : List (Applied AccountId Hash)}

/-- The submissions of the request find its identifier unused. -/
def FreshIn (T : Trait AccountId Hash) (tr : List (Applied AccountId Hash)) (k : RequestKind)
    (id : Hash) : Prop :=
  ∀ t ∈ tr, t.Submits T k id → t.pre.carbon.status k id = none

/-- Only burns are ever submitted anew. -/
theorem freshIn_of_ne_burn (hrun : (runtime T).Run allowed w tr w') (hk : k ≠ .burn) :
    FreshIn T tr k id :=
  fun _ ht hsub => hsub.fresh (outcome_of_mem hrun ht) hk

/-- From any status on, a request keeps it or goes from 0 to 1. -/
theorem status_final_run (hrun : (runtime T).Run allowed w tr w') (hfresh : FreshIn T tr k id)
    {st : UInt8} (hstart : w.carbon.status k id = some st) :
    w'.carbon.status k id = some st ∨ (st = 0 ∧ w'.carbon.status k id = some 1) := by
  apply (hrun.restrict hfresh).state_invariant (I := fun w' =>
    w'.carbon.status k id = some st ∨ (st = 0 ∧ w'.carbon.status k id = some 1))
  · exact .inl hstart
  intro w x hI hfresh
  have h := outcome_of_fire T w x
  rcases hI with hpre | ⟨hzero, hpre⟩
  · exact status_final h hfresh hpre
  · -- from 1 on there is nowhere to go
    rcases status_final h hfresh hpre with hpost | ⟨hone, -⟩
    · exact .inr ⟨hzero, hpost⟩
    · cases hone

/-- A status is 0 or 1. -/
theorem status_range {native : AccountId → ℕ} (hrun : (runtime T).Run allowed (genesis native) tr w)
    {st : UInt8} (hst : w.carbon.status k id = some st) : st = 0 ∨ st = 1 := by
  have hrange : w.carbon.status k id = none ∨ w.carbon.status k id = some 0
      ∨ w.carbon.status k id = some 1 := by
    apply hrun.state_invariant (I := fun w => w.carbon.status k id = none
      ∨ w.carbon.status k id = some 0 ∨ w.carbon.status k id = some 1)
    · exact .inl (by cases k <;> rfl)
    intro w x hI _
    have hslot := request_step (outcome_of_fire T w x) k id
    generalize ((runtime T).fire w x).post.carbon.status k id = after at hslot ⊢
    rw [Machine.fire_pre] at hslot
    generalize w.carbon.status k id = before at hslot hI
    cases hslot with
    | kept => exact hI
    | submitted => exact .inr (.inl rfl)
    | approved => exact .inr (.inr rfl)
  rw [hst] at hrange
  rcases hrange with hnone | hzero | hone
  · cases hnone
  · exact .inl (Option.some.inj hzero)
  · exact .inr (Option.some.inj hone)

/-- Whatever is stored has been submitted. -/
theorem submitted_of_status {native : AccountId → ℕ}
    (hrun : (runtime T).Run allowed (genesis native) tr w)
    (h : w.carbon.status k id ≠ none) : ∃ t ∈ tr, Applied.Submits T t k id := by
  revert h
  apply hrun.invariant (I := fun tr w =>
    w.carbon.status k id ≠ none → ∃ t ∈ tr, Applied.Submits T t k id)
  · intro h
    exact absurd (by cases k <;> rfl) h
  intro tr w x _ ih _ hpost
  have hslot := request_step (outcome_of_fire T w x) k id
  generalize ((runtime T).fire w x).post.carbon.status k id = after at hslot hpost
  rw [Machine.fire_pre] at hslot
  generalize w.carbon.status k id = before at hslot ih
  -- what was stored before was submitted before
  have hearlier (hpre : before ≠ none) :
      ∃ t ∈ tr ++ [(runtime T).fire w x], Applied.Submits T t k id := by
    obtain ⟨t, ht, hsub⟩ := ih hpre
    exact ⟨t, List.mem_append_left _ ht, hsub⟩
  cases hslot with
  | kept => exact hearlier hpost
  | submitted _ hsub => exact ⟨_, List.mem_append_right _ List.mem_cons_self, hsub⟩
  | approved => exact hearlier (Option.some_ne_none 0)

/-- A request whose submissions are fresh is approved at most once. -/
theorem approved_once (hrun : (runtime T).Run allowed w tr w') (hfresh : FreshIn T tr k id) :
    tr.Pairwise fun t u => ¬(t.Approves k id ∧ u.Approves k id) := by
  rw [← Machine.along_iff_pairwise]
  rintro tr₁ u tr₂ rfl t ht ⟨hfirst, hsecond⟩
  obtain ⟨tr₀, tr₃, rfl⟩ := List.append_of_mem ht
  rw [List.append_assoc, List.cons_append] at hrun
  -- between the two approvals the status stays 1, and the second wants it 0
  have hone := (hfirst.status (outcome_of_mem hrun (by simp))).2.1
  have hzero := (hsecond.status (outcome_of_mem hrun (by simp))).1
  obtain ⟨-, -, -, hrest⟩ := hrun.split
  obtain ⟨hbetween, -, -, -⟩ := hrest.split
  have hfresh' : FreshIn T tr₃ k id := fun v hv => hfresh v (by simp [hv])
  have hkept := status_final_run hbetween hfresh' hone
  rw [hzero] at hkept
  rcases hkept with hc | ⟨hc, -⟩
  · cases hc
  · cases hc

end Run

end Chain

end Eco2
