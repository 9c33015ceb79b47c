/-
The order of events in the log of a run.

A reader of the log meets nothing out of nothing: an asset has been announced before
anything is said of it, and a request has been submitted before it is approved.
`Grounded` is that property of an event and those before it, and `grounded_log` says
that every event of every run has it. What makes it true is the registry: what a call
finds in storage was stored by a submission, and a submission deposits its event.
-/
import Eco2.ApprovalEvents

set_option autoImplicit false
set_option linter.unusedSectionVars false

namespace Eco2

open CarbonAssets

variable {AccountId Hash : Type} [DecidableEq AccountId] [DecidableEq Hash]
variable {T : Trait AccountId Hash}

/-! ## What events say -/

/-- The request that an event announces. -/
def Event.submits : Event AccountId Hash → Option (RequestKind × Hash)
  | .carbonAssets (.ProjectSubmited id _ _ _) => some (.project, id)
  | .carbonAssets (.AssetSubmited _ id _ _ _ _) => some (.asset, id)
  | .carbonAssets (.IssueSubmited id _ _ _ _) => some (.issue, id)
  | .carbonAssets (.BurnSubmited id _ _ _ _) => some (.burn, id)
  | _ => none

/-- The request whose approval an event announces; of a burn it says that an issue has
been approved. -/
def Event.approves : Event AccountId Hash → Option Hash
  | .carbonAssets (.ProjectApproved id) => some id
  | .carbonAssets (.AssetApproved id) => some id
  | .carbonAssets (.IssueApproved id) => some id
  | .carbonAssets (.BurnApproved id) => some id
  | _ => none

/-- The asset that an event speaks of, other than to announce it. -/
def Event.asset : Event AccountId Hash → Option Hash
  | .carbonAssets (.AssetApproved asset_id) => some asset_id
  | .carbonAssets (.IssueSubmited _ asset_id _ _ _) => some asset_id
  | .carbonAssets (.BurnSubmited _ asset_id _ _ _) => some asset_id
  | .carbonAssets (.Transferred asset_id _ _ _ _) => some asset_id
  | .carbonExchange (.NewOrder _ _ asset_id _ _ _) => some asset_id
  | .carbonExchange (.NewDeal _ asset_id _ _ _ _ _ _ _) => some asset_id
  | _ => none

/-- The time that an event carries. -/
def Event.stamp : Event AccountId Hash → Option Moment
  | .carbonAssets (.ProjectSubmited _ _ _ now) => some now
  | .carbonAssets (.AssetSubmited _ _ _ _ _ now) => some now
  | .carbonAssets (.IssueSubmited _ _ _ _ now) => some now
  | .carbonAssets (.BurnSubmited _ _ _ _ now) => some now
  | .carbonAssets (.Transferred _ _ _ _ now) => some now
  | .carbonAssets (.Neutralized _ _ _ now) => some now
  | .carbonExchange (.NewOrder _ _ _ _ _ now) => some now
  | .carbonExchange (.NewDeal _ _ _ _ _ _ _ _ now) => some now
  | .standardAssets (.NewAsset _ _ _ _ _ now) => some now
  | .standardAssets (.Transferred _ _ _ _ now) => some now
  | _ => none

/-- The request has been announced. -/
def Announced (events : List (Event AccountId Hash)) (k : RequestKind) (id : Hash) : Prop :=
  ∃ e ∈ events, e.submits = some (k, id)

theorem Announced.append {events : List (Event AccountId Hash)} {k : RequestKind} {id : Hash}
    (h : Announced events k id) (more : List (Event AccountId Hash)) :
    Announced (events ++ more) k id := by
  obtain ⟨e, he, hsubmits⟩ := h
  exact ⟨e, List.mem_append_left _ he, hsubmits⟩

/-- No identifier is announced as of two kinds. -/
def OneKind (events : List (Event AccountId Hash)) : Prop :=
  ∀ k k' id, Announced events k id → Announced events k' id → k = k'

/-- The event speaks of an announced asset, and approves an announced request. -/
structure Grounded (before : List (Event AccountId Hash)) (e : Event AccountId Hash) : Prop where
  asset : ∀ a, e.asset = some a → Announced before .asset a
  approved : ∀ id, e.approves = some id → ∃ k, Announced before k id

theorem Grounded.append {before : List (Event AccountId Hash)} {e : Event AccountId Hash}
    (h : Grounded before e) (more : List (Event AccountId Hash)) : Grounded (before ++ more) e where
  asset a ha := (h.asset a ha).append more
  approved id hid := by
    obtain ⟨k, hk⟩ := h.approved id hid
    exact ⟨k, hk.append more⟩

/-- Events that are all grounded in a history are grounded one after the other. -/
theorem along_grounded_append {before events : List (Event AccountId Hash)}
    (hbefore : Machine.Along Grounded before) (h : ∀ e ∈ events, Grounded before e) :
    Machine.Along Grounded (before ++ events) := by
  induction events using List.reverseRecOn with
  | nil => rwa [List.append_nil]
  | append_singleton events e ih =>
    rw [← List.append_assoc, Machine.along_snoc]
    refine ⟨ih fun e' he' => h e' (List.mem_append_left _ he'), ?_⟩
    exact (h e (List.mem_append_right _ (List.mem_singleton.mpr rfl))).append events

/-! ## Submissions and their events -/

section Steps

variable {origin : Origin AccountId} {now : Moment} {s s' : Storage AccountId Hash}
  {call : CarbonAssets.Call AccountId Hash} {events : List (CarbonAssets.Event AccountId Hash)}
  {ops : List (Op AccountId Hash)}

/-- Every step deposits one event, which announces what the call submits. -/
theorem CarbonAssets.Step.submits (h : Step T origin now s call s' events ops) :
    ∃ e, events = [e] ∧ (Event.carbonAssets e).submits = submission T origin call := by
  cases h with
  | submit_project sender symbol max_supply additional project_id horigin hid =>
    subst horigin hid
    exact ⟨_, rfl, rfl⟩
  | submit_asset sender project_id vintage initial_supply additional project asset_id horigin
      hproject hstatus howner hlimit hid =>
    subst horigin hid
    exact ⟨_, rfl, rfl⟩
  | submit_issue sender asset_id amount additional asset project issue_id horigin hasset hstatus
      hproject howner hlimit hid =>
    subst horigin hid
    exact ⟨_, rfl, rfl⟩
  | submit_burn sender asset_id amount additional asset project burn_id horigin hasset hstatus
      hproject howner hid =>
    subst horigin hid
    exact ⟨_, rfl, rfl⟩
  | transfer sender asset_id to_ amount horigin =>
    subst horigin
    exact ⟨_, rfl, rfl⟩
  | neutralize sender asset_id amount additional horigin =>
    subst horigin
    exact ⟨_, rfl, rfl⟩
  | approve_project project_id => exact ⟨_, rfl, (submission_approve T origin .project _).symm⟩
  | approve_asset asset_id => exact ⟨_, rfl, (submission_approve T origin .asset _).symm⟩
  | approve_issue issue_id => exact ⟨_, rfl, (submission_approve T origin .issue _).symm⟩
  | approve_burn burn_id => exact ⟨_, rfl, (submission_approve T origin .burn _).symm⟩

/-- The event is that of an approval exactly where the call approves. -/
theorem CarbonAssets.Step.approves (h : Step T origin now s call s' events ops)
    {e : CarbonAssets.Event AccountId Hash} (he : e ∈ events) (id : Hash) :
    (Event.carbonAssets e).approves = some id ↔ ∃ k : RequestKind, call = k.approve id := by
  have happroval (k : RequestKind) (id' : Hash) (hcall : call = k.approve id')
      (he : (Event.carbonAssets e).approves = some id') :
      (Event.carbonAssets e).approves = some id ↔ ∃ k : RequestKind, call = k.approve id := by
    rw [he, hcall]
    constructor
    · rintro ⟨⟩
      exact ⟨k, rfl⟩
    · rintro ⟨k', hk'⟩
      rw [(approve_inj hk').2]
  have hother (hcall : ∀ k : RequestKind, call ≠ k.approve id)
      (he : (Event.carbonAssets e).approves = none) :
      (Event.carbonAssets e).approves = some id ↔ ∃ k : RequestKind, call = k.approve id := by
    refine iff_of_false (fun hsome => ?_) fun ⟨k, hk⟩ => hcall k hk
    cases he.symm.trans hsome
  cases h with
  | approve_project project_id =>
    cases List.mem_singleton.mp he
    exact happroval .project project_id rfl rfl
  | approve_asset asset_id =>
    cases List.mem_singleton.mp he
    exact happroval .asset asset_id rfl rfl
  | approve_issue issue_id =>
    cases List.mem_singleton.mp he
    exact happroval .issue issue_id rfl rfl
  | approve_burn burn_id =>
    cases List.mem_singleton.mp he
    exact happroval .burn burn_id rfl rfl
  | _ =>
    cases List.mem_singleton.mp he
    exact hother (fun k => by cases k <;> simp [RequestKind.approve]) rfl

end Steps

/-- The events of a transition announce what it submits. -/
theorem announced_iff_submits {t : Applied AccountId Hash} (h : Outcome T t) {k : RequestKind}
    {id : Hash} : Announced t.output.events k id ↔ t.Submits T k id := by
  constructor
  · rintro ⟨e, he, hsubmits⟩
    cases h.records with
    | other hother hquiet hsame =>
      -- the events of the other pallets announce nothing
      cases e with
      | carbonAssets e => exact absurd he (hquiet e)
      | carbonExchange e => cases hsubmits
      | standardAssets e => cases hsubmits
    | call call events hok hcall hevents hstep =>
      obtain ⟨e', rfl, hsub⟩ := hstep.submits
      rw [hevents, List.map_singleton, List.mem_singleton] at he
      rw [he, hsub] at hsubmits
      exact ⟨hok, call, hcall, hsubmits⟩
  · rintro ⟨hok, call, hcall, hsub⟩
    cases h.records with
    | other hother => exact absurd hcall (hother call hok)
    | call call' events hok' hcall' hevents hstep =>
      cases hcall.symm.trans hcall'
      obtain ⟨e, rfl, hsubmits⟩ := hstep.submits
      refine ⟨_, ?_, hsubmits.trans hsub⟩
      rw [hevents, List.map_singleton]
      exact List.mem_singleton.mpr rfl

/-- What an event speaks of is in the state: its asset, and the request it approves. -/
structure Known (w : World AccountId Hash) (e : Event AccountId Hash) : Prop where
  asset : ∀ a, e.asset = some a → w.carbon.status .asset a ≠ none
  approved : ∀ id, e.approves = some id → ∃ k, w.carbon.status k id ≠ none

/-- An event that speaks of nothing. -/
theorem Known.of_none {w : World AccountId Hash} {e : Event AccountId Hash}
    (hasset : e.asset = none) (happroves : e.approves = none) : Known w e where
  asset a ha := by
    rw [hasset] at ha
    cases ha
  approved id hid := by
    rw [happroves] at hid
    cases hid

/-- An event of an approved asset, which approves nothing. -/
theorem Known.of_approved {w : World AccountId Hash} {e : Event AccountId Hash} {a : Hash}
    (ha : w.carbon.Approved a) (hasset : e.asset = some a) (happroves : e.approves = none) :
    Known w e where
  asset a' ha' := by
    cases hasset.symm.trans ha'
    obtain ⟨asset, hasset, -⟩ := ha
    rw [Storage.status, hasset]
    exact Option.some_ne_none _
  approved id hid := by
    rw [happroves] at hid
    cases hid

theorem status_ne_none {V : Type} {m : StorageMap Hash V} {id : Hash} {v : V} (f : V → UInt8)
    (h : m.get id = some v) : (m.get id).map f ≠ none := by
  rw [h]
  exact Option.some_ne_none _

/-- The event of a step of the carbon pallet. -/
theorem CarbonAssets.Step.known {w : World AccountId Hash} (hreg : Registry w.carbon)
    {origin : Origin AccountId} {now : Moment} {s' : Storage AccountId Hash}
    {call : CarbonAssets.Call AccountId Hash} {events : List (CarbonAssets.Event AccountId Hash)}
    {ops : List (Op AccountId Hash)} (h : Step T origin now w.carbon call s' events ops) :
    ∀ e ∈ events, Known w (.carbonAssets e) := by
  cases h with
  | submit_project => exact List.forall_mem_singleton.mpr (.of_none rfl rfl)
  | submit_asset => exact List.forall_mem_singleton.mpr (.of_none rfl rfl)
  | submit_issue sender asset_id amount additional asset project issue_id horigin hasset hstatus =>
    exact List.forall_mem_singleton.mpr (.of_approved ⟨asset, hasset, hstatus⟩ rfl rfl)
  | submit_burn sender asset_id amount additional asset project burn_id horigin hasset hstatus =>
    exact List.forall_mem_singleton.mpr (.of_approved ⟨asset, hasset, hstatus⟩ rfl rfl)
  | transfer sender asset_id to_ amount horigin hamount hbalance =>
    have happroved := hreg.approved_of_le hamount hbalance
    exact List.forall_mem_singleton.mpr (.of_approved happroved rfl rfl)
  | neutralize => exact List.forall_mem_singleton.mpr (.of_none rfl rfl)
  | approve_project project_id project horigin hproject =>
    refine List.forall_mem_singleton.mpr ⟨nofun, fun id hid => ?_⟩
    cases hid
    exact ⟨.project, status_ne_none _ hproject⟩
  | approve_asset asset_id asset project horigin hasset =>
    refine List.forall_mem_singleton.mpr ⟨fun a ha => ?_, fun id hid => ?_⟩
    · cases ha
      exact status_ne_none _ hasset
    · cases hid
      exact ⟨.asset, status_ne_none _ hasset⟩
  | approve_issue issue_id issue_info asset project horigin hissue =>
    refine List.forall_mem_singleton.mpr ⟨nofun, fun id hid => ?_⟩
    cases hid
    exact ⟨.issue, status_ne_none _ hissue⟩
  | approve_burn burn_id burn_info asset project horigin hburn =>
    refine List.forall_mem_singleton.mpr ⟨nofun, fun id hid => ?_⟩
    cases hid
    exact ⟨.burn, status_ne_none _ hburn⟩

/-- The events of a step of the exchange: orders are of approved assets. -/
theorem CarbonExchange.Step.known {w w' : World AccountId Hash} (hreg : Registered w)
    {origin : Origin AccountId} {now : Moment} {call : CarbonExchange.Call Hash}
    {events : List (CarbonExchange.Event AccountId Hash)} {ops : List (Op AccountId Hash)}
    (h : CarbonExchange.Step T origin now w call w' events ops) :
    ∀ e ∈ events, Known w (.carbonExchange e) := by
  -- a take deposits its deal, and where nothing is left that the order is finished
  have htake (id : Hash) (order left : CarbonExchange.Order AccountId Hash) (taker : AccountId)
      (amount : UInt64) (horder : w.Orders.get id = some order) :
      ∀ e ∈ CarbonExchange.take_events id left (order.new_deal id taker amount now),
        Known w (.carbonExchange e) := by
    have hdeal : Known w (.carbonExchange (order.new_deal id taker amount now)) :=
      .of_approved (hreg.order_asset id order horder) rfl rfl
    intro e he
    unfold CarbonExchange.take_events at he
    by_cases hleft : left.left_amount > 0
    · rw [if_pos hleft, List.mem_singleton] at he
      exact he ▸ hdeal
    · rw [if_neg hleft, List.mem_cons, List.mem_singleton] at he
      obtain rfl | rfl := he
      · exact .of_none rfl rfl
      · exact hdeal
  cases h with
  | make_ask maker asset_id money_id price amount salt order_id horigin hmoney hprice hamount
      hasset => exact List.forall_mem_singleton.mpr (.of_approved hasset rfl rfl)
  | make_bid maker asset_id money_id price amount salt order_id native horigin hmoney hprice
      hamount hasset => exact List.forall_mem_singleton.mpr (.of_approved hasset rfl rfl)
  | take_ask taker order_id amount order native horigin horder => exact htake _ _ _ _ _ horder
  | take_bid taker order_id amount order native horigin horder => exact htake _ _ _ _ _ horder
  | cancel_ask => exact List.forall_mem_singleton.mpr (.of_none rfl rfl)
  | cancel_bid => exact List.forall_mem_singleton.mpr (.of_none rfl rfl)

/-- What a transition says is known in the state before it. -/
theorem Outcome.known {t : Applied AccountId Hash} (h : Outcome T t) (hreg : Registered t.pre) :
    ∀ e ∈ t.output.events, Known t.pre e := by
  cases h with
  | refused => exact List.forall_mem_nil _
  | half_take => exact List.forall_mem_nil _
  | balances_transfer => exact List.forall_mem_nil _
  | carbonAssets w origin now call s' events ops hstep =>
    exact List.forall_mem_map.mpr (hstep.known hreg.carbon)
  | carbonExchange w origin now call w' events ops hstep =>
    exact List.forall_mem_map.mpr (hstep.known hreg)
  | standardAssets w origin now call s' events ops hstep =>
    exact List.forall_mem_map.mpr fun e _ => .of_none rfl rfl

/-- The events of a transition say what it approves. -/
theorem approves_iff_approved {t : Applied AccountId Hash} (h : Outcome T t) {id : Hash} :
    (∃ e ∈ t.output.events, e.approves = some id) ↔ ∃ k, t.Approves k id := by
  cases h.records with
  | other hother hquiet hsame =>
    refine iff_of_false ?_ fun ⟨k, hok, hcall⟩ => hother _ hok hcall
    rintro ⟨e, he, happroves⟩
    cases e with
    | carbonAssets e => exact hquiet e he
    | carbonExchange e => cases happroves
    | standardAssets e => cases happroves
  | call call events hok hcall hevents hstep =>
    rw [hevents]
    constructor
    · rintro ⟨e, he, happroves⟩
      obtain ⟨e', he', rfl⟩ := List.mem_map.mp he
      obtain ⟨k, rfl⟩ := (hstep.approves he' id).mp happroves
      exact ⟨k, hok, hcall⟩
    · rintro ⟨k, -, hcall'⟩
      cases hcall.symm.trans hcall'
      obtain ⟨e, rfl, -⟩ := hstep.submits
      have he := List.mem_singleton.mpr (rfl : e = e)
      exact ⟨_, List.mem_map_of_mem he, (hstep.approves he id).mpr ⟨k, rfl⟩⟩

/-! ## A whole run -/

section Run

variable {allowed : Applied AccountId Hash → Prop} {native : AccountId → ℕ}
  {tr : List (Applied AccountId Hash)} {w : World AccountId Hash}

/-- What the log announces has been submitted. -/
theorem announced_log_iff {w₀ : World AccountId Hash} (hrun : (runtime T).Run allowed w₀ tr w)
    {k : RequestKind} {id : Hash} :
    Announced (log tr) k id ↔ ∃ t ∈ tr, Applied.Submits T t k id := by
  constructor
  · rintro ⟨e, he, hsubmits⟩
    obtain ⟨t, ht, het⟩ := List.mem_flatMap.mp he
    exact ⟨t, ht, (announced_iff_submits (outcome_of_mem hrun ht)).mp ⟨e, het, hsubmits⟩⟩
  · rintro ⟨t, ht, hsub⟩
    obtain ⟨e, he, hsubmits⟩ := (announced_iff_submits (outcome_of_mem hrun ht)).mpr hsub
    exact ⟨e, List.mem_flatMap.mpr ⟨t, ht, he⟩, hsubmits⟩

/-- What the log approves has been approved. -/
theorem approves_log_iff {w₀ : World AccountId Hash} (hrun : (runtime T).Run allowed w₀ tr w)
    {id : Hash} :
    (∃ e ∈ log tr, e.approves = some id) ↔ ∃ t ∈ tr, ∃ k, Applied.Approves t k id := by
  constructor
  · rintro ⟨e, he, happroves⟩
    obtain ⟨t, ht, het⟩ := List.mem_flatMap.mp he
    exact ⟨t, ht, (approves_iff_approved (outcome_of_mem hrun ht)).mp ⟨e, het, happroves⟩⟩
  · rintro ⟨t, ht, k, happ⟩
    obtain ⟨e, he, happroves⟩ := (approves_iff_approved (outcome_of_mem hrun ht)).mpr ⟨k, happ⟩
    exact ⟨e, List.mem_flatMap.mpr ⟨t, ht, he⟩, happroves⟩

/-- Where the hash does not collide, no identifier is announced as of two kinds. -/
theorem oneKind_log {w₀ : World AccountId Hash} (hrun : (runtime T).Run allowed w₀ tr w)
    (hhash : HashSeparates T (tr.map Transition.input)) : OneKind (log tr) := by
  intro k k' id h h'
  obtain ⟨t, ht, hsub⟩ := (announced_log_iff hrun).mp h
  obtain ⟨t', ht', hsub'⟩ := (announced_log_iff hrun).mp h'
  obtain ⟨p, hid, hk, hp⟩ := preimage_of_submits hsub
  obtain ⟨p', hid', hk', hp'⟩ := preimage_of_submits hsub'
  obtain rfl := hhash.preimage_eq ht ht' hp hp' (hid.symm.trans hid')
  exact Option.some.inj (hk.symm.trans hk')

/-- Whatever is stored has been announced. -/
theorem announced_of_status (hrun : (runtime T).Run allowed (genesis native) tr w)
    {k : RequestKind} {id : Hash} (h : w.carbon.status k id ≠ none) : Announced (log tr) k id :=
  (announced_log_iff hrun).mpr (submitted_of_status hrun h)

/-- **The log of a run is grounded**: it speaks of announced assets only, and approves
announced requests only. -/
theorem grounded_log (hrun : (runtime T).Run allowed (genesis native) tr w) :
    Machine.Along Grounded (log tr) := by
  apply hrun.invariant (I := fun tr _ => Machine.Along Grounded (log tr)) Machine.along_nil
  intro tr w x hrun ih hok
  rw [log_snoc]
  refine along_grounded_append ih fun e he => ?_
  have hknown := (outcome_of_fire T w x).known (Registered.run hrun) e he
  constructor
  · exact fun a ha => announced_of_status hrun (hknown.asset a ha)
  · intro id hid
    obtain ⟨k, hk⟩ := hknown.approved id hid
    exact ⟨k, announced_of_status hrun hk⟩

end Run

end Eco2
