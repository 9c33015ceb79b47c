/-
Approvals and the events that announce them.

The indexer knows the chain only by its events, so the statuses should be readable
off the log. For projects, assets and issues they are: an approval deposits one event,
of that request, and there is at most one. The approval of a burn deposits the event
of an issue, and nothing deposits `BurnApproved`, so a log mirrors storage exactly as
long as no burn is approved.
-/
import Eco2.BurnRequests

set_option autoImplicit false
set_option linter.unusedSectionVars false

namespace Eco2

namespace CarbonAssets

variable {AccountId Hash : Type} [DecidableEq AccountId] [DecidableEq Hash]

/-- The event that stands for an approval. -/
def RequestKind.approved : RequestKind → Hash → Event AccountId Hash
  | .project, id => .ProjectApproved id
  | .asset, id => .AssetApproved id
  | .issue, id => .IssueApproved id
  | .burn, id => .BurnApproved id

section Steps

variable {T : Trait AccountId Hash} {origin : Origin AccountId} {now : Moment}
  {s s' : Storage AccountId Hash} {call : Call AccountId Hash}
  {events : List (Event AccountId Hash)} {ops : List (Op AccountId Hash)}

/-- Every step deposits one event, which is that of an approval if the call is that
approval, but for the approval of a burn; and none is a burn's. -/
theorem Step.event (h : Step T origin now s call s' events ops) :
    ∃ e, events = [e]
      ∧ ((∀ id, call ≠ .approve_burn id) →
        ∀ k, k ≠ RequestKind.burn → ∀ id, e = k.approved id ↔ call = k.approve id)
      ∧ ∀ id, e ≠ .BurnApproved id := by
  cases h with
  | approve_burn burn_id =>
    exact ⟨_, rfl, fun hburn => absurd rfl (hburn burn_id), by simp⟩
  | _ =>
    refine ⟨_, rfl, fun _ k hk id => ?_, by simp⟩
    -- each kind has an event and a call of its own
    cases k <;> simp [RequestKind.approved, RequestKind.approve]

end Steps

end CarbonAssets

/-! ## The log of a history -/

section Chain

open CarbonAssets

variable {AccountId Hash : Type} [DecidableEq AccountId] [DecidableEq Hash]
variable {T : Trait AccountId Hash}

/-- All events of a history, in order. -/
def log (tr : List (Applied AccountId Hash)) : List (Event AccountId Hash) :=
  tr.flatMap fun t => t.output.events

theorem log_snoc (tr : List (Applied AccountId Hash)) (t : Applied AccountId Hash) :
    log (tr ++ [t]) = log tr ++ t.output.events := by
  simp [log]

/-- A `BurnApproved` of the burn is in the log, after the last `BurnSubmited` of it. -/
def BurnApprovedSince (events : List (Event AccountId Hash)) (id : Hash) : Prop :=
  ∃ before after, events = before ++ .carbonAssets (.BurnApproved id) :: after
    ∧ ∀ asset_id owner amount now,
      Event.carbonAssets (.BurnSubmited id asset_id owner amount now) ∉ after

/-- The statuses are what the log says. -/
structure Mirrors (events : List (Event AccountId Hash)) (w : World AccountId Hash) : Prop where
  approved : ∀ k, k ≠ RequestKind.burn → ∀ id, w.carbon.status k id = some 1
    ↔ events.count (.carbonAssets (k.approved id)) = 1
  burn : ∀ id, w.carbon.status .burn id = some 1 ↔ BurnApprovedSince events id
  issue_key : ∀ id, Event.carbonAssets (.IssueApproved id) ∈ events →
    w.carbon.Issues.contains_key id = true
  burn_key : ∀ id, Event.carbonAssets (.BurnApproved id) ∈ events →
    w.carbon.Burns.contains_key id = true

/-- The events of a transition that approves no burn count its approvals. -/
theorem Outcome.count_approved {t : Applied AccountId Hash} (h : Outcome T t)
    (hburn : ∀ id, ¬t.Approves .burn id) {k : RequestKind} (hk : k ≠ .burn) (id : Hash) :
    (t.Approves k id → t.output.events.count (.carbonAssets (k.approved id)) = 1)
      ∧ (¬t.Approves k id → t.output.events.count (.carbonAssets (k.approved id)) = 0) := by
  cases h.records with
  | other hother hquiet hsame =>
    refine ⟨fun happ => absurd happ.2 (hother _ happ.1), fun _ => ?_⟩
    exact List.count_eq_zero_of_not_mem (hquiet _)
  | call call events hok hcall hevents hstep =>
    obtain ⟨e, rfl, hiff, -⟩ := hstep.event
    have hnot : ∀ id, call ≠ .approve_burn id := by
      rintro id rfl
      exact hburn id ⟨hok, hcall⟩
    rw [hevents]
    constructor
    · rintro ⟨-, hcall'⟩
      cases hcall.symm.trans hcall'
      rw [(hiff hnot k hk id).mpr rfl, List.map_singleton, List.count_singleton_self]
    · intro happ
      apply List.count_eq_zero_of_not_mem
      intro hmem
      obtain ⟨e', he', heq⟩ := List.mem_map.mp hmem
      cases heq
      rw [List.mem_singleton] at he'
      exact happ ⟨hok, (hiff hnot k hk id).mp he'.symm ▸ hcall⟩

/-- No transition deposits `BurnApproved`. -/
theorem Outcome.not_burnApproved {t : Applied AccountId Hash} (h : Outcome T t) (id : Hash) :
    Event.carbonAssets (.BurnApproved id) ∉ t.output.events := by
  cases h.records with
  | other hother hquiet hsame => exact hquiet _
  | call call events hok hcall hevents hstep =>
    obtain ⟨e, rfl, -, hne⟩ := hstep.event
    rw [hevents]
    intro hmem
    obtain ⟨e', he', heq⟩ := List.mem_map.mp hmem
    cases heq
    rw [List.mem_singleton] at he'
    exact hne id he'.symm

section Run

variable {allowed : Applied AccountId Hash → Prop} {native : AccountId → ℕ}
  {tr : List (Applied AccountId Hash)} {w : World AccountId Hash}

/-- No run deposits `BurnApproved`. -/
theorem not_burnApproved_log {w₀ : World AccountId Hash}
    (hrun : (runtime T).Run allowed w₀ tr w) (id : Hash) :
    Event.carbonAssets (.BurnApproved id) ∉ log tr := by
  intro hmem
  obtain ⟨t, ht, he⟩ := List.mem_flatMap.mp hmem
  exact (outcome_of_mem hrun ht).not_burnApproved id he

/-- In a run that approves no burn, the log has one event of a request that is
approved, and none of one that is not. -/
theorem count_approved_log
    (hrun : (runtime T).Run (fun t => ∀ id, ¬Applied.Approves t .burn id) (genesis native) tr w)
    {k : RequestKind} (hk : k ≠ .burn) (id : Hash) :
    (w.carbon.status k id = some 1 → (log tr).count (.carbonAssets (k.approved id)) = 1)
      ∧ (w.carbon.status k id ≠ some 1 →
        (log tr).count (.carbonAssets (k.approved id)) = 0) := by
  apply hrun.invariant (I := fun tr w =>
    (w.carbon.status k id = some 1 → (log tr).count (.carbonAssets (k.approved id)) = 1)
      ∧ (w.carbon.status k id ≠ some 1 →
        (log tr).count (.carbonAssets (k.approved id)) = 0))
  · refine ⟨fun hone => ?_, fun _ => rfl⟩
    cases k <;> cases hone
  intro tr w x hrun ih hburn
  have h := outcome_of_fire T w x
  obtain ⟨hone, hzero⟩ := h.count_approved hburn hk id
  rw [log_snoc, List.count_append]
  by_cases happ : Applied.Approves ((runtime T).fire w x) k id
  · -- approved now: the one event is this one's, since the status was 0
    obtain ⟨hpre, hpost, -⟩ := happ.status h
    rw [Machine.fire_pre] at hpre
    have hnone := ih.2 (by rw [hpre]; decide)
    rw [hpost, hone happ, hnone]
    exact ⟨fun _ => rfl, fun hne => absurd rfl hne⟩
  · rw [hzero happ, Nat.add_zero]
    constructor
    · intro hpost
      apply ih.1
      by_contra hpre
      exact happ (approves_of_status h hpre hpost)
    · intro hpost
      apply ih.2
      intro hpre
      -- an approved request stays approved
      rcases status_final h (fun hsub => hsub.fresh h hk) hpre with hkept | ⟨hc, -⟩
      · exact hpost hkept
      · cases hc

/-- In a run that approves no burn, no burn has status 1. -/
theorem burn_not_approved
    (hrun : (runtime T).Run (fun t => ∀ id, ¬Applied.Approves t .burn id) (genesis native) tr w)
    (id : Hash) : w.carbon.status .burn id ≠ some 1 := by
  apply hrun.state_invariant (I := fun w => w.carbon.status .burn id ≠ some 1)
  · exact nofun
  intro w x hpre hburn hpost
  exact hburn id (approves_of_status (outcome_of_fire T w x) hpre hpost)

theorem contains_key_of_status {V : Type} {m : StorageMap Hash V} {id : Hash} {f : V → UInt8}
    {st : UInt8} (h : (m.get id).map f = some st) : m.contains_key id = true := by
  obtain ⟨v, hv, -⟩ := Option.map_eq_some_iff.mp h
  rw [StorageMap.contains_key, hv]
  rfl

/-- A run that approves no burn is mirrored by its log. -/
theorem mirrors_of_no_burn
    (hrun : (runtime T).Run (fun t => ∀ id, ¬Applied.Approves t .burn id) (genesis native) tr w) :
    Mirrors (log tr) w where
  approved k hk id := by
    obtain ⟨hone, hzero⟩ := count_approved_log hrun hk id
    refine ⟨hone, fun hcount => ?_⟩
    by_contra hne
    rw [hzero hne] at hcount
    cases hcount
  burn id := by
    apply iff_of_false (burn_not_approved hrun id)
    rintro ⟨before, after, hlog, -⟩
    exact not_burnApproved_log hrun id (hlog ▸ by simp)
  issue_key id hmem := by
    obtain ⟨-, hzero⟩ := count_approved_log hrun (k := .issue) (by decide) id
    by_contra hne
    have hcount := hzero fun hone => hne (contains_key_of_status hone)
    exact List.count_eq_zero.mp hcount hmem
  burn_key id hmem := absurd hmem (not_burnApproved_log hrun id)

/-- **The log mirrors storage** in every state of a run from genesis if and only if no
burn is approved in it. -/
theorem mirrors_iff (hrun : (runtime T).Run (fun _ => True) (genesis native) tr w) :
    Machine.Along (fun tr₁ t => Mirrors (log (tr₁ ++ [t])) t.post) tr
      ↔ ∀ t ∈ tr, ∀ id, ¬Applied.Approves t .burn id := by
  constructor
  · intro hmirrors t ht id happ
    obtain ⟨tr₁, tr₂, rfl⟩ := List.append_of_mem ht
    obtain ⟨-, hone, -⟩ := happ.status (outcome_of_mem hrun ht)
    -- the burn has status 1, and no `BurnApproved` in the log to say so
    obtain ⟨before, after, hlog, -⟩ := ((hmirrors tr₁ t tr₂ rfl).burn id).mp hone
    have hmem : Event.carbonAssets (.BurnApproved id) ∈ log (tr₁ ++ [t]) := by
      rw [hlog]
      exact List.mem_append_right _ List.mem_cons_self
    obtain ⟨u, hu, he⟩ := List.mem_flatMap.mp hmem
    have hu' : u ∈ tr₁ ++ t :: tr₂ := by
      rcases List.mem_append.mp hu with hu | hu
      · exact List.mem_append_left _ hu
      · rw [List.mem_singleton.mp hu]
        exact ht
    exact (outcome_of_mem hrun hu').not_burnApproved id he
  · rintro hburn tr₁ t tr₂ rfl
    obtain ⟨hbefore, hfire, -, -⟩ := (hrun.restrict hburn).split
    rw [hfire]
    apply mirrors_of_no_burn
    exact hbefore.snoc t.input (hfire ▸ hburn t (by simp))

end Run

/-- The opening on the executable chain approves no burn. -/
theorem mirrors_opening :
    Machine.Along (fun tr₁ t => Mirrors (log (tr₁ ++ [t])) t.post)
      ((runtime devnet).trace (genesis fun _ => 1000) devnet_opening) := by
  refine (mirrors_iff (devnet_run _ _)).mpr fun t ht id happ => ?_
  have hinput := Machine.input_mem_of_mem_trace ht
  simp only [devnet_opening, List.mem_cons, List.not_mem_nil, or_false] at hinput
  rcases hinput with h | h | h | h <;> (have hcall := happ.2; rw [h] at hcall; cases hcall)

/-- **A burn approved in silence.** The burn has status 1, and the log an
`IssueApproved` of it. -/
theorem burn_once_not_mirrored :
    (runtime devnet).Run (fun _ => True) (genesis fun _ => 1000)
      ((runtime devnet).trace (genesis fun _ => 1000) devnet_burn_once)
      ((runtime devnet).final (genesis fun _ => 1000) devnet_burn_once)
    ∧ ¬Mirrors (log ((runtime devnet).trace (genesis fun _ => 1000) devnet_burn_once))
      ((runtime devnet).final (genesis fun _ => 1000) devnet_burn_once) := by
  refine ⟨devnet_run _ _, fun hmirrors => ?_⟩
  have hkey := hmirrors.issue_key devnet_burn
  revert hkey
  decide

end Chain

end Eco2
