/-
The collection of proposals, and what the committee proposes.

A submission puts a document on file, an approval on the chain closes it, and in between
the events of the committee are to fill it in. The handler of `Proposed` finds the
document by the index of the proposed call, and the indices it knows are those of pallet
11. In `construct_runtime!` that is `Council`, and `CarbonAssets` has 29, so no approval
is ever recognised: a document stays as it was submitted until it is approved.
`proposals_follow_iff` says that this is all that is wrong, and that it shows as soon as
the approval of a submitted request is proposed.
-/
import Eco2.Indexed

set_option autoImplicit false
set_option linter.unusedSectionVars false

namespace Eco2.Indexer

open CarbonAssets

/-! ## The calls of the runtime, as the node prints them -/

/-- The position of `Council` in `construct_runtime!`. -/
def PalletInfo.Council : UInt8 := 11

/-- The position of `CarbonAssets` in `construct_runtime!`. -/
def PalletInfo.CarbonAssets : UInt8 := 29

/-- The position of an approval among the functions of `decl_module!`. -/
def function_index : RequestKind → UInt8
  | .project => 1
  | .asset => 3
  | .issue => 5
  | .burn => 7

/-- The argument of an approval. -/
def argument : RequestKind → String
  | .project => "project_id"
  | .asset => "asset_id"
  | .issue => "issue_id"
  | .burn => "burn_id"

/-- A call that the committee proposes: an approval, or another one of which only its
index and the arguments that are printed matter. -/
inductive ProposedCall (Hash : Type)
  | approve (k : RequestKind) (id : Hash)
  | other (pallet function : UInt8) (args : String → Option String)

/-- The request whose approval is proposed. -/
def ProposedCall.subject {Hash : Type} : ProposedCall Hash → Option Hash
  | .approve _ id => some id
  | .other _ _ _ => none

def hex_digits (n : UInt8) : List Char :=
  [Nat.digitChar (n.toNat / 16), Nat.digitChar (n.toNat % 16)]

/-- `callIndex` in JSON: the bytes of the pallet and of the function. -/
def call_index (pallet function : UInt8) : String :=
  String.ofList ('0' :: 'x' :: (hex_digits pallet ++ hex_digits function))

/-- The pallet that is printed as `0b`. -/
theorem council_of_digits {pallet : UInt8} (h : hex_digits pallet = ['0', 'b']) :
    pallet = PalletInfo.Council := by
  have hdigit : ∀ d < 16, (Nat.digitChar d = '0' → d = 0) ∧ (Nat.digitChar d = 'b' → d = 11) := by
    decide
  have hlt := pallet.toNat_lt
  obtain ⟨hhigh, hlow⟩ := List.cons.inj h
  have hzero := (hdigit (pallet.toNat / 16) (by omega)).1 hhigh
  have heleven := (hdigit (pallet.toNat % 16) (by omega)).2 (List.cons.inj hlow).1
  apply UInt8.toNat_inj.mp
  change pallet.toNat = 11
  omega

theorem council_of_call_index {pallet function : UInt8} {d d' : Char}
    (h : call_index pallet function = String.ofList ['0', 'x', '0', 'b', d, d']) :
    pallet = PalletInfo.Council := by
  have hlist := String.ofList_injective h
  apply council_of_digits
  simp only [hex_digits, List.cons_append, List.nil_append, List.cons.injEq] at hlist ⊢
  exact ⟨hlist.2.2.1, hlist.2.2.2.1, trivial⟩

section Calls

variable {AccountId Hash : Type} (codec : Codec AccountId Hash)

def ProposedCall.toJSON : ProposedCall Hash → Proposal
  | .approve k id =>
      { callIndex := call_index PalletInfo.CarbonAssets (function_index k)
        args := fun name => if name = argument k then some (codec.hash id) else none }
  | .other pallet function args => { callIndex := call_index pallet function, args }

/-- No call of `Council` has an argument of one of the four approvals. -/
def ProposedCall.Printed : ProposedCall Hash → Prop
  | .approve _ _ => True
  | .other pallet _ args => pallet = PalletInfo.Council → ∀ k, args (argument k) = none

/-- No proposal is recognised: the indices that are looked for are those of another
pallet. -/
theorem proposal_key_toJSON {call : ProposedCall Hash} (h : call.Printed) :
    proposal_key (call.toJSON codec) = none := by
  have hcouncil (k : RequestKind) (d d' : Char)
      (hindex : (call.toJSON codec).callIndex = String.ofList ['0', 'x', '0', 'b', d, d']) :
      (call.toJSON codec).args (argument k) = none := by
    cases call with
    | approve k' id => exact absurd (council_of_call_index hindex) (by decide)
    | other pallet function args => exact h (council_of_call_index hindex) k
  unfold proposal_key
  split
  · exact hcouncil .project '0' '1' ‹_›
  · exact hcouncil .asset '0' '3' ‹_›
  · exact hcouncil .issue '0' '5' ‹_›
  · exact hcouncil .burn '0' '7' ‹_›
  · rfl

end Calls

/-! ## What an event does to the documents -/

section Filing

variable {AccountId Hash : Type} (codec : Codec AccountId Hash) (api : Api)

/-- `{ $set: { state: 2, approved: 1 } }`. -/
def CarbonProposalDoc.closed (doc : CarbonProposalDoc) : CarbonProposalDoc :=
  { doc with state := 2, approved := some 1 }

/-- What the event of a pallet does to the documents of proposals: a submission adds
one, an approval closes one, and nothing else changes them. A submission is refused where
its project or asset is on file already. -/
inductive Filing (data data' : Data) (e : Event AccountId Hash) : Prop
  | submitted (k : RequestKind) (id : Hash) (title : String) (type : ProposalType)
      (height timestamp : ℕ) (hsubmits : e.submits = some (k, id))
      (hstamp : ∀ now, e.stamp = some now → now.toNat < 2 ^ 53)
      (hrows : data'.carbonProposals = Table.insert CarbonProposalDoc.key
        (proposal_doc title type (codec.hash id) height timestamp) data.carbonProposals)
  | refused (k : RequestKind) (id : Hash) (hsubmits : e.submits = some (k, id))
      (hknown : data.project (codec.hash id) ≠ none ∨ data.asset (codec.hash id) ≠ none)
      (hrows : data'.carbonProposals = data.carbonProposals)
  | approved (id : Hash) (happroves : e.approves = some id)
      (hrows : data'.carbonProposals = Table.modify CarbonProposalDoc.key (codec.hash id)
        CarbonProposalDoc.closed data.carbonProposals)
  | quiet (hquiet : Handled codec data e → e.submits = none ∧ e.approves = none)
      (hrows : data'.carbonProposals = data.carbonProposals)

/-- An event that carries a time is handled only where the time can be converted. -/
theorem Handled.lt {data : Data} {e : Event AccountId Hash} {now : Moment}
    (h : Handled codec data e) (hstamp : e.stamp = some now) : now.toNat < 2 ^ 53 :=
  h.stamp now hstamp

theorem lt_of_stamp {e : Event AccountId Hash} {now now' : Moment} (hstamp : e.stamp = some now)
    (hnow : now.toNat < 2 ^ 53) (h : e.stamp = some now') : now'.toNat < 2 ^ 53 := by
  cases hstamp.symm.trans h
  exact hnow

theorem filing_request_submited (title : String) (type : ProposalType) {e : Event AccountId Hash}
    {k : RequestKind} {id asset_id : Hash} {now : Moment} (height : ℕ) (data : Data)
    (hsubmits : e.submits = some (k, id)) (hasset : e.asset = some asset_id)
    (hstamp : e.stamp = some now) :
    Filing codec data ((request_submited codec title type id asset_id now height).exec data) e := by
  unfold request_submited
  rw [exec_toNumber_bind]
  by_cases hnow : now.toNat < 2 ^ 53
  · rw [if_pos hnow, exec_asset_of_bind]
    cases hfound : data.asset (codec.hash asset_id) with
    | none => exact .quiet (fun h => absurd hfound (h.asset asset_id hasset)) rfl
    | some asset =>
      simp only [exec_insertAsync, keyed_carbonProposals.insert_eq]
      exact .submitted k id _ type height now.toNat hsubmits (fun _ => lt_of_stamp hstamp hnow) rfl
  · rw [if_neg hnow]
    exact .quiet (fun h => absurd (h.lt codec hstamp) hnow) rfl

/-- A submission of a project or an asset, which inserts into another collection first. -/
theorem filing_submited {D : Type} {c : Collection D} (hc : c.Lawful)
    (hname : .carbonProposals ≠ c.name) (doc : ℕ → D) (title : String) (type : ProposalType)
    {e : Event AccountId Hash} {k : RequestKind} {id : Hash} {now : Moment} (height : ℕ)
    (data : Data)
    (hconflict : (c.docs data).any (c.conflict (doc now.toNat)) = true →
      data.project (codec.hash id) ≠ none ∨ data.asset (codec.hash id) ≠ none)
    (hsubmits : e.submits = some (k, id)) (hstamp : e.stamp = some now) :
    Filing codec data ((toNumber now >>= fun timestamp => insertAsync c (doc timestamp) >>= fun _ =>
      insertAsync carbonProposals
        (proposal_doc title type (codec.hash id) height timestamp)).exec data) e := by
  rw [exec_toNumber_bind]
  by_cases hnow : now.toNat < 2 ^ 53
  · rw [if_pos hnow, exec_insertAsync_bind, exec_insertAsync, keyed_carbonProposals.insert_eq]
    by_cases h : (c.docs data).any (c.conflict (doc now.toNat)) = true
    · rw [if_pos h]
      exact .refused k id hsubmits (hconflict h) rfl
    · rw [if_neg h]
      have hsame : (c.insert (doc now.toNat) data).carbonProposals = data.carbonProposals :=
        hc.insert_sameAt (doc now.toNat) data hname
      refine .submitted k id title type height now.toNat hsubmits
        (fun _ => lt_of_stamp hstamp hnow) ?_
      exact congrArg (Table.insert CarbonProposalDoc.key _) hsame
  · rw [if_neg hnow]
    exact .quiet (fun h => absurd (h.lt codec hstamp) hnow) rfl

/-- `{ $set: { approved: 1 } }` of an asset. -/
def CarbonAssetDoc.approve (doc : CarbonAssetDoc) : CarbonAssetDoc := { doc with approved := 1 }

/-- The approval of an asset, which is looked up before its proposal is closed. -/
theorem filing_AssetApproved (asset_id : Hash) (data : Data) :
    Filing codec data ((carbonAssets_AssetApproved codec asset_id).exec data)
      (.carbonAssets (.AssetApproved asset_id)) := by
  let data' : Data :=
    { data with
      carbonAssets := Table.modify CarbonAssetDoc.assetId (codec.hash asset_id)
        CarbonAssetDoc.approve data.carbonAssets }
  change Filing codec data ((asset_of (codec.hash asset_id) >>= fun asset =>
    upsert_potential_balance (constructPotentialBalanceDoc asset.owner (codec.hash asset_id)
      (asset_symbol asset) 0 .carbon) >>= fun _ => close_approved (codec.hash asset_id)).exec
    data') _
  rw [exec_asset_of_bind]
  cases hfound : data'.asset (codec.hash asset_id) with
  | some asset => exact .approved asset_id rfl rfl
  | none =>
    refine .quiet (fun h => absurd ?_ (h.asset asset_id rfl)) rfl
    refine (Table.lookup_modify_eq_none_iff ?_).mp hfound
    exact fun doc hdoc => hdoc

/-- What the handler of each event does to the documents of proposals. -/
theorem process_event_filing (height : ℕ) (event : Event AccountId Hash) (data : Data) :
    Filing codec data ((process_event codec api height (.pallet event)).exec data) event := by
  have hquiet (hproposals : .carbonProposals ∉ touched (.pallet event))
      (hsubmits : event.submits = none) (happroves : event.approves = none) :
      Filing codec data ((process_event codec api height (.pallet event)).exec data) event := by
    have hsame : data.SameAt _ .carbonProposals :=
      exec_sameAt (process_event_within codec api height _) hproposals data
    exact .quiet (fun _ => ⟨hsubmits, happroves⟩) hsame
  rw [exec_process_event] at hquiet ⊢
  cases event with
  | carbonAssets event =>
    cases event with
    | ProjectSubmited project_id owner symbol now =>
      refine filing_submited codec lawful_carbonProjects (by decide) _ _ _ height data
        (fun h => .inl ((keyed_carbonProjects.conflict_iff _ data).mp h)) rfl rfl
    | ProjectApproved project_id => exact .approved project_id rfl rfl
    | AssetSubmited project_id asset_id symbol vintage owner now =>
      refine filing_submited codec lawful_carbonAssets (by decide) _ _ _ height data
        (fun h => .inr ((keyed_carbonAssets.conflict_iff _ data).mp h)) rfl rfl
    | AssetApproved asset_id => exact filing_AssetApproved codec asset_id data
    | IssueSubmited issue_id asset_id owner amount now =>
      exact filing_request_submited codec _ _ height data rfl rfl rfl
    | IssueApproved issue_id => exact .approved issue_id rfl rfl
    | BurnSubmited burn_id asset_id owner amount now =>
      exact filing_request_submited codec _ _ height data rfl rfl rfl
    | BurnApproved burn_id => exact .approved burn_id rfl rfl
    | Transferred => exact hquiet (by simp [touched]) rfl rfl
    | Neutralized => exact hquiet (by simp [touched]) rfl rfl
  | carbonExchange event => cases event <;> exact hquiet (by simp [touched]) rfl rfl
  | standardAssets event => cases event <;> exact hquiet (by simp [touched]) rfl rfl

theorem project_insert (doc : CarbonProjectDoc) (data : Data) :
    (carbonProjects.insert doc data).project
      = FirstWrite.write data.project (some (doc.projectId, doc)) := by
  rw [keyed_carbonProjects.insert_eq]
  exact Table.lookup_insert doc data.carbonProjects

theorem project_insert_carbonProposals (doc : CarbonProposalDoc) (data : Data) :
    (carbonProposals.insert doc data).project = data.project := by
  have hrows : data.SameAt (carbonProposals.insert doc data) .carbonProjects :=
    lawful_carbonProposals.insert_sameAt doc data (by decide)
  exact congrArg (Table.lookup CarbonProjectDoc.projectId) hrows

/-- Of the projects on file, an event adds at most the one that it submits. -/
theorem process_event_project (height : ℕ) (event : Event AccountId Hash) (data : Data)
    {projectId : String}
    (h : ((process_event codec api height (.pallet event)).exec data).project projectId ≠ none) :
    data.project projectId ≠ none
      ∨ ∃ id, event.submits = some (.project, id) ∧ projectId = codec.hash id := by
  have hsame (htouched : .carbonProjects ∉ touched (.pallet event)) :
      data.project projectId ≠ none := by
    have hrows : data.SameAt _ .carbonProjects :=
      exec_sameAt (process_event_within codec api height _) htouched data
    unfold Data.project at h ⊢
    rwa [hrows] at h
  rw [exec_process_event] at h
  cases event with
  | carbonAssets event =>
    cases event with
    | ProjectSubmited project_id owner symbol now =>
      simp only [eco2EventHandlers, carbonAssets_ProjectSubmited] at h
      rw [exec_toNumber_bind] at h
      by_cases hnow : now.toNat < 2 ^ 53
      · rw [if_pos hnow, exec_insertAsync_bind, exec_insertAsync] at h
        split at h
        · exact .inl h
        · rw [project_insert_carbonProposals, project_insert] at h
          obtain ⟨doc, hdoc⟩ := Option.ne_none_iff_exists'.mp h
          obtain hold | ⟨-, hwrite⟩ := FirstWrite.write_eq_some_iff.mp hdoc
          · exact .inl (Option.ne_none_iff_exists'.mpr ⟨doc, hold⟩)
          · cases hwrite
            exact .inr ⟨project_id, rfl, rfl⟩
      · rw [if_neg hnow] at h
        exact .inl h
    | ProjectApproved project_id =>
      refine .inl fun hnone => h ?_
      refine (Table.lookup_modify_eq_none_iff ?_).mpr hnone
      exact fun doc hdoc => hdoc
    | _ => exact .inl (hsame (by simp [touched]))
  | carbonExchange event => cases event <;> exact .inl (hsame (by simp [touched]))
  | standardAssets event => cases event <;> exact .inl (hsame (by simp [touched]))

/-- An update that finds no document changes nothing. -/
theorem exec_updateAsync_of_none {query : CarbonProposalDoc → Bool}
    (set : CarbonProposalDoc → CarbonProposalDoc) {data : Data}
    (h : ∀ doc ∈ data.carbonProposals, query doc = false) :
    (updateAsync carbonProposals query set).exec data = data := by
  have hrows : (data.carbonProposals.replaceF fun doc => if query doc then some (set doc) else none)
      = data.carbonProposals :=
    List.replaceF_of_forall_none fun doc hdoc => if_neg (by rw [h doc hdoc]; exact nofun)
  exact congrArg (fun rows => { data with carbonProposals := rows }) hrows

variable {codec api}

/-- Where no document has a proposal's identifier, and none is recognised, the events of the
committee change nothing. -/
theorem process_event_committee (hprint : ∀ id, codec.hash id ≠ "") (height : ℕ)
    (event : CommitteeEvent AccountId Hash) {data : Data}
    (hblank : ∀ doc ∈ data.carbonProposals, doc.proposalId = "")
    (hkey : ∀ account index id threshold, event = .Proposed account index id threshold →
      ∀ proposal, api.proposalOf (codec.hash id) = some (some proposal) →
        proposal_key proposal = none) :
    (process_event codec api height (.carbonCommittee event)).exec data = data := by
  have hupdate (id : Hash) (set : CarbonProposalDoc → CarbonProposalDoc) :
      (update_proposal codec id set).exec data = data := by
    refine exec_updateAsync_of_none set fun doc hdoc => beq_false_of_ne ?_
    rw [hblank doc hdoc]
    exact (hprint id).symm
  rw [exec_process_event]
  cases event with
  | Proposed account index id threshold =>
    simp only [eco2EventHandlers, carbonCommittee_Proposed]
    cases hanswer : api.proposalOf (codec.hash id) with
    | none => rfl
    | some answer =>
      cases answer with
      | none => rfl
      | some proposal =>
        refine exec_updateAsync_of_none _ fun doc _ => ?_
        rw [hkey account index id threshold rfl proposal hanswer]
        rfl
  | Voted account id voted yes no => exact hupdate id _
  | Approved id => exact hupdate id _
  | Disapproved id => exact hupdate id _
  | Closed id yes no => exact hupdate id _
  | Executed id => rfl
  | MemberExecuted id => rfl

end Filing

/-! ## What the documents should say -/

section Track

variable {AccountId Hash : Type} [DecidableEq Hash]

/-- What the committee and the chain have made of a request. -/
structure Tracked (Hash : Type) where
  latest : Option (Hash × UInt32)
  closed : Bool
  approved : Bool

def Tracked.state (x : Tracked Hash) : ℕ :=
  if x.closed || x.approved then 2 else if x.latest.isSome then 1 else 0

/-- One more event, for the request `id`. -/
def Tracked.see (proposed : Hash → ProposedCall Hash) (id : Hash) (x : Tracked Hash) :
    Record AccountId Hash → Tracked Hash
  | .carbonCommittee (.Proposed _ index proposal _) =>
      if (proposed proposal).subject = some id then
        { x with latest := some (proposal, index), closed := false }
      else x
  | .carbonCommittee (.Closed proposal _ _) =>
      if x.latest.map Prod.fst = some proposal then { x with closed := true } else x
  | .pallet event => if event.approves = some id then { x with approved := true } else x
  | _ => x

def track (proposed : Hash → ProposedCall Hash) (id : Hash) (es : List (Entry AccountId Hash)) :
    Tracked Hash :=
  es.foldl (fun x e => x.see proposed id e.2) { latest := none, closed := false, approved := false }

/-- The proposal that an entry announces. -/
def proposes : Entry AccountId Hash → Option Hash
  | (_, .carbonCommittee (.Proposed _ _ proposal _)) => some proposal
  | _ => none

variable {proposed : Hash → ProposedCall Hash} {id : Hash} {es : List (Entry AccountId Hash)}

theorem track_snoc (e : Entry AccountId Hash) :
    track proposed id (es ++ [e]) = (track proposed id es).see proposed id e.2 :=
  List.foldl_append

/-- As long as no approval of the request is proposed, its proposal is not there. -/
theorem track_of_not_proposed
    (h : ∀ e ∈ es, ∀ p, proposes e = some p → (proposed p).subject ≠ some id) :
    (track proposed id es).latest = none ∧ (track proposed id es).closed = false := by
  induction es using List.reverseRecOn with
  | nil => exact ⟨rfl, rfl⟩
  | append_singleton es e ih =>
    obtain ⟨hlatest, hclosed⟩ := ih fun e he => h e (List.mem_append_left _ he)
    have hlast := h e (List.mem_append_right _ (List.mem_singleton.mpr rfl))
    rw [track_snoc]
    obtain ⟨height, record⟩ := e
    cases record with
    | pallet event =>
      simp only [Tracked.see]
      split <;> exact ⟨hlatest, hclosed⟩
    | carbonCommittee event =>
      cases event with
      | Proposed account index proposal threshold =>
        simp only [Tracked.see, if_neg (hlast proposal rfl)]
        exact ⟨hlatest, hclosed⟩
      | Closed proposal yes no =>
        simp only [Tracked.see, hlatest]
        exact ⟨hlatest, hclosed⟩
      | _ => exact ⟨hlatest, hclosed⟩
    | other => exact ⟨hlatest, hclosed⟩

theorem see_approved_iff (x : Tracked Hash) (record : Record AccountId Hash) :
    (x.see proposed id record).approved = true
      ↔ x.approved = true ∨ ∃ event, record = .pallet event ∧ event.approves = some id := by
  unfold Tracked.see
  split
  · split <;> simp
  · split <;> simp
  · rename_i event
    by_cases happroves : event.approves = some id
    · simp [happroves]
    · simp [happroves]
  · rename_i hpallet
    simp only [iff_self_or, forall_exists_index, and_imp]
    exact fun event hevent => absurd hevent (hpallet event)

/-- A request is approved where an event has said so. -/
theorem track_approved_iff :
    (track proposed id es).approved = true
      ↔ ∃ event ∈ pallet_events es, event.approves = some id := by
  induction es using List.reverseRecOn with
  | nil => simp [track, pallet_events]
  | append_singleton es e ih =>
    rw [track_snoc, see_approved_iff, ih, pallet_events_append]
    obtain ⟨height, record⟩ := e
    cases record with
    | pallet event => simp [pallet_events, pallet_event, or_and_right, exists_or]
    | carbonCommittee event => simp [pallet_events, pallet_event]
    | other => simp [pallet_events, pallet_event]

/-- A proposal of the request leaves one that is the latest. -/
theorem track_latest_ne_none {e : Entry AccountId Hash} {p : Hash} (he : e ∈ es)
    (hp : proposes e = some p) (hsubject : (proposed p).subject = some id) :
    (track proposed id es).latest ≠ none := by
  induction es using List.reverseRecOn with
  | nil => cases he
  | append_singleton es e' ih =>
    rw [track_snoc]
    obtain ⟨height, record⟩ := e'
    obtain hmem | hlast := List.mem_append.mp he
    · have hlatest := ih hmem
      cases record with
      | pallet event =>
        simp only [Tracked.see]
        split <;> exact hlatest
      | carbonCommittee event =>
        cases event with
        | Proposed =>
          simp only [Tracked.see]
          split
          · exact Option.some_ne_none _
          · exact hlatest
        | Closed =>
          simp only [Tracked.see]
          split <;> exact hlatest
        | _ => exact hlatest
      | other => exact hlatest
    · rw [List.mem_singleton.mp hlast] at hp
      cases record with
      | pallet event => cases hp
      | carbonCommittee event =>
        cases event with
        | Proposed account index proposal threshold =>
          cases hp
          simp only [Tracked.see, if_pos hsubject]
          exact Option.some_ne_none _
        | _ => cases hp
      | other => cases hp

end Track

/-! ## What they do say -/

section Run

variable {AccountId Hash : Type} [DecidableEq AccountId] [DecidableEq Hash]
variable (codec : Codec AccountId Hash) (api : Api) (proposed : Hash → ProposedCall Hash)

/-- The node answers for whatever the committee has proposed, and prints it. -/
def Answers (es : List (Entry AccountId Hash)) : Prop :=
  ∀ e ∈ es, ∀ p, proposes e = some p → (proposed p).Printed
    ∧ api.proposalOf (codec.hash p) = some (some ((proposed p).toJSON codec))

/-- What the collections hold whatever happens: no proposal has been filled in, and what
is on file has been announced. -/
structure Blank (es : List (Entry AccountId Hash)) (data : Data) : Prop where
  proposal : ∀ doc ∈ data.carbonProposals, doc.proposalId = "" ∧ doc.proposalIndex = -1
  key : ∀ doc ∈ data.carbonProposals, ∃ k id, Announced (pallet_events es) k id
    ∧ doc.key = codec.hash id
  project : ∀ projectId, data.project projectId ≠ none →
    ∃ id, Announced (pallet_events es) .project id ∧ projectId = codec.hash id

variable {codec api proposed} {es : List (Entry AccountId Hash)}

theorem announced_snoc_iff {e : Entry AccountId Hash} {k : RequestKind} {id : Hash} :
    Announced (pallet_events (es ++ [e])) k id
      ↔ Announced (pallet_events es) k id
        ∨ ∃ event, pallet_event e = some event ∧ event.submits = some (k, id) := by
  unfold Announced
  rw [pallet_events_append]
  cases h : pallet_event e <;> simp [pallet_events, h, or_and_right, exists_or]

theorem announced_snoc {k : RequestKind} {id : Hash} (h : Announced (pallet_events es) k id)
    (e : Entry AccountId Hash) : Announced (pallet_events (es ++ [e])) k id :=
  announced_snoc_iff.mpr (.inl h)

/-- The committee changes no document. -/
theorem committee_step (hprint : ∀ id, codec.hash id ≠ "") {data : Data}
    (hblank : Blank codec es data) {height : ℕ} {event : CommitteeEvent AccountId Hash}
    (hanswers : Answers codec api proposed (es ++ [(height, .carbonCommittee event)])) :
    (process_entry codec api (height, .carbonCommittee event)).exec data = data := by
  refine process_event_committee hprint height event
    (fun doc hdoc => (hblank.proposal doc hdoc).1) ?_
  rintro account index id threshold rfl proposal hanswer
  obtain ⟨hprinted, hcall⟩ :=
    hanswers _ (List.mem_append_right _ (List.mem_singleton.mpr rfl)) id rfl
  cases hcall.symm.trans hanswer
  exact proposal_key_toJSON codec hprinted

/-- Where a document comes from: it was there, perhaps not yet closed, or it is that of a
request just submitted. -/
theorem Filing.row {data data' : Data} {event : Event AccountId Hash}
    (h : Filing codec data data' event) {doc : CarbonProposalDoc}
    (hdoc : doc ∈ data'.carbonProposals) :
    (∃ old ∈ data.carbonProposals, doc = old ∨ doc = old.closed)
      ∨ ∃ k id title type height timestamp, event.submits = some (k, id)
        ∧ doc = proposal_doc title type (codec.hash id) height timestamp := by
  cases h with
  | submitted k id title type height timestamp hsubmits hstamp hrows =>
    rw [hrows] at hdoc
    obtain hold | rfl := Table.mem_insert hdoc
    · exact .inl ⟨doc, hold, .inl rfl⟩
    · exact .inr ⟨k, id, title, type, height, timestamp, hsubmits, rfl⟩
  | refused k id hsubmits hknown hrows => exact .inl ⟨doc, hrows ▸ hdoc, .inl rfl⟩
  | approved id happroves hrows =>
    rw [hrows] at hdoc
    obtain hold | ⟨old, hold, -, rfl⟩ := Table.mem_modify hdoc
    · exact .inl ⟨doc, hold, .inl rfl⟩
    · exact .inl ⟨old, hold, .inr rfl⟩
  | quiet hquiet hrows => exact .inl ⟨doc, hrows ▸ hdoc, .inl rfl⟩

/-- More has been announced. -/
theorem Blank.snoc {data : Data} (h : Blank codec es data) (e : Entry AccountId Hash) :
    Blank codec (es ++ [e]) data where
  proposal := h.proposal
  key doc hdoc := by
    obtain ⟨k, id, hannounced, hkey⟩ := h.key doc hdoc
    exact ⟨k, id, announced_snoc hannounced e, hkey⟩
  project projectId hfound := by
    obtain ⟨id, hannounced, hid⟩ := h.project projectId hfound
    exact ⟨id, announced_snoc hannounced e, hid⟩

theorem Blank.step_pallet {data : Data} (h : Blank codec es data) (height : ℕ)
    (event : Event AccountId Hash) :
    Blank codec (es ++ [(height, .pallet event)])
      ((process_entry codec api (height, .pallet event)).exec data) := by
  have hfiling := process_event_filing codec api height event data
  have hsnoc := h.snoc (height, .pallet event)
  have hnew {k : RequestKind} {id : Hash} (hsubmits : event.submits = some (k, id)) :
      Announced (pallet_events (es ++ [(height, .pallet event)])) k id :=
    announced_snoc_iff.mpr (.inr ⟨event, rfl, hsubmits⟩)
  constructor
  · intro doc hdoc
    obtain ⟨old, hold, rfl | rfl⟩ | ⟨k, id, title, type, height, timestamp, -, rfl⟩ :=
      hfiling.row hdoc
    · exact h.proposal doc hold
    · exact h.proposal old hold
    · exact ⟨rfl, rfl⟩
  · intro doc hdoc
    obtain ⟨old, hold, rfl | rfl⟩ | ⟨k, id, title, type, height, timestamp, hsubmits, rfl⟩ :=
      hfiling.row hdoc
    · exact hsnoc.key doc hold
    · exact hsnoc.key old hold
    · exact ⟨k, id, hnew hsubmits, rfl⟩
  · intro projectId hfound
    obtain hold | ⟨id, hsubmits, hid⟩ := process_event_project codec api height event data hfound
    · exact hsnoc.project projectId hold
    · exact ⟨id, hnew hsubmits, hid⟩

/-- No document of a proposal is ever filled in. -/
theorem blank_indexed (hprint : ∀ id, codec.hash id ≠ "")
    (hanswers : Answers codec api proposed es) : Blank codec es (indexed codec api es) := by
  induction es using List.reverseRecOn with
  | nil =>
    exact { proposal := fun _ h => absurd h List.not_mem_nil
            key := fun _ h => absurd h List.not_mem_nil
            project := fun _ h => absurd rfl h }
  | append_singleton es e ih =>
    have hblank := ih fun e he => hanswers e (List.mem_append_left _ he)
    rw [indexed_snoc]
    obtain ⟨height, record⟩ := e
    cases record with
    | pallet event => exact hblank.step_pallet height event
    | carbonCommittee event =>
      rw [committee_step hprint hblank hanswers]
      exact hblank.snoc _
    | other => exact hblank.snoc _

/-! ### Where the documents are right -/

/-- The first submission of a request is at a time that can be converted. -/
def ReadableSubmissions (es : List (Entry AccountId Hash)) : Prop :=
  Machine.Along (fun before e => ∀ event, pallet_event e = some event →
    ∀ k id now, event.submits = some (k, id) → event.stamp = some now →
      (∀ k', ¬Announced (pallet_events before) k' id) → now.toNat < 2 ^ 53) es

theorem submits_asset_iff {event : Event AccountId Hash} {a : Hash}
    (h : event.submits = some (.asset, a)) : ∃ project_id symbol vintage owner now,
      event = .carbonAssets (.AssetSubmited project_id a symbol vintage owner now) := by
  unfold Event.submits at h
  split at h <;> cases h
  exact ⟨_, _, _, _, _, rfl⟩

theorem approves_of_submits {event : Event AccountId Hash} {k : RequestKind} {id : Hash}
    (h : event.submits = some (k, id)) : event.approves = none := by
  unfold Event.submits at h
  split at h <;> cases h <;> rfl

theorem OneKind.init {e : Entry AccountId Hash} (h : OneKind (pallet_events (es ++ [e]))) :
    OneKind (pallet_events es) :=
  fun k k' id hk hk' => h k k' id (announced_snoc hk e) (announced_snoc hk' e)

/-- An announced asset is on file. -/
theorem on_file (hkind : OneKind (pallet_events es)) (hreadable : ReadableSubmissions es) {a : Hash}
    (h : Announced (pallet_events es) .asset a) :
    (indexed codec api es).asset (codec.hash a) ≠ none := by
  rw [asset_indexed_iff]
  induction es using List.reverseRecOn with
  | nil =>
    obtain ⟨event, hevent, -⟩ := h
    exact absurd hevent List.not_mem_nil
  | append_singleton es e ih =>
    obtain ⟨hbefore, hlast⟩ := (Machine.along_snoc e).mp hreadable
    by_cases hold : Announced (pallet_events es) .asset a
    · obtain ⟨e', he', hannounced⟩ := ih (OneKind.init hkind) hbefore hold
      exact ⟨e', List.mem_append_left _ he', hannounced⟩
    · -- announced now, and as no other kind before
      obtain ⟨event, hevent, hsubmits⟩ := (announced_snoc_iff.mp h).resolve_left hold
      have hfirst : ∀ k', ¬Announced (pallet_events es) k' a := by
        intro k' hk'
        cases hkind k' .asset a (announced_snoc hk' e) h
        exact hold hk'
      obtain ⟨height, record⟩ := e
      obtain ⟨project_id, symbol, vintage, owner, now, rfl⟩ := submits_asset_iff hsubmits
      have hnow := hlast _ hevent .asset a now rfl rfl hfirst
      refine ⟨(height, record), List.mem_append_right _ (List.mem_singleton.mpr rfl),
        codec.utf8 symbol ++ "." ++ codec.utf8 vintage, ?_⟩
      cases record with
      | pallet event =>
        cases hevent
        exact if_pos hnow
      | carbonCommittee event => cases hevent
      | other => cases hevent

/-- No approval of a submitted request is proposed. -/
def NothingProposed (proposed : Hash → ProposedCall Hash) (es : List (Entry AccountId Hash)) :
    Prop :=
  ∀ e ∈ es, ∀ p, proposes e = some p → ∀ id, (proposed p).subject = some id →
    ∀ k, ¬Announced (pallet_events es) k id

/-- What is approved has been announced. -/
theorem announced_of_approves (hground : Machine.Along Grounded (pallet_events es)) {id : Hash}
    (h : ∃ event ∈ pallet_events es, event.approves = some id) :
    ∃ k, Announced (pallet_events es) k id := by
  obtain ⟨event, hevent, happroves⟩ := h
  obtain ⟨before, after, hsplit⟩ := List.append_of_mem hevent
  obtain ⟨k, hk⟩ := (hground before event after hsplit).approved id happroves
  rw [hsplit]
  exact ⟨k, hk.append _⟩

/-- Nothing stops the handler of an approval, nor that of the first submission of a request. -/
theorem handled_of_grounded (hkind : OneKind (pallet_events es))
    (hreadable : ReadableSubmissions es) {event : Event AccountId Hash}
    (hground : Grounded (pallet_events es) event)
    (hstamp : ∀ now, event.stamp = some now → now.toNat < 2 ^ 53) :
    Handled codec (indexed codec api es) event where
  stamp := hstamp
  asset a ha := on_file hkind hreadable (hground.asset a ha)

theorem stamp_of_approves {event : Event AccountId Hash} {id : Hash}
    (h : event.approves = some id) : event.stamp = none := by
  unfold Event.approves at h
  split at h <;> cases h <;> rfl

section Filing

variable {data data' : Data} {event : Event AccountId Hash} (h : Filing codec data data' event)

include h

/-- A document stays on file, and is closed by the approval of its request. -/
theorem Filing.kept (hcodec : Function.Injective codec.hash) {id : Hash} {doc : CarbonProposalDoc}
    (hdoc : data.proposal (codec.hash id) = some doc)
    (hhandled : event.approves = some id → Handled codec data event) :
    ∃ doc', data'.proposal (codec.hash id) = some doc'
      ∧ doc'.state = if event.approves = some id then 2 else doc.state := by
  have hsame (hrows : data'.carbonProposals = data.carbonProposals)
      (hnot : event.approves ≠ some id) : ∃ doc', data'.proposal (codec.hash id) = some doc'
        ∧ doc'.state = if event.approves = some id then 2 else doc.state := by
    refine ⟨doc, ?_, (if_neg hnot).symm⟩
    unfold Data.proposal
    rw [hrows]
    exact hdoc
  cases h with
  | submitted k id' title type height timestamp hsubmits hstamp hrows =>
    refine ⟨doc, ?_, ?_⟩
    · unfold Data.proposal
      rw [hrows, Table.lookup_insert]
      exact FirstWrite.extends_write _ _ _ _ hdoc
    · rw [approves_of_submits hsubmits, if_neg nofun]
  | refused k id' hsubmits hknown hrows =>
    exact hsame hrows (by rw [approves_of_submits hsubmits]; exact nofun)
  | approved id' happroves hrows =>
    have hlookup : data'.proposal = Function.update data.proposal (codec.hash id')
        ((data.proposal (codec.hash id')).map CarbonProposalDoc.closed) := by
      unfold Data.proposal
      rw [hrows]
      refine Table.lookup_modify ?_ data.carbonProposals
      exact fun doc hkey => hkey
    rw [hlookup, happroves]
    by_cases hid : id = id'
    · subst hid
      rw [Function.update_self, hdoc, if_pos rfl]
      exact ⟨doc.closed, rfl, rfl⟩
    · have hne : codec.hash id ≠ codec.hash id' := fun hc => hid (hcodec hc)
      rw [Function.update_of_ne hne, if_neg fun hc => hid (Option.some.inj hc).symm]
      exact ⟨doc, hdoc, rfl⟩
  | quiet hquiet hrows =>
    refine hsame hrows fun happroves => ?_
    rw [(hquiet (hhandled happroves)).2] at happroves
    cases happroves

/-- A submission that is handled puts a new document on file. -/
theorem Filing.first {k : RequestKind} {id : Hash} (hsubmits : event.submits = some (k, id))
    (hhandled : Handled codec data event) (hproposal : data.proposal (codec.hash id) = none)
    (hproject : data.project (codec.hash id) = none) (hasset : data.asset (codec.hash id) = none) :
    ∃ doc, data'.proposal (codec.hash id) = some doc ∧ doc.state = 0 := by
  cases h with
  | submitted k' id' title type height timestamp hsubmits' hstamp hrows =>
    cases hsubmits.symm.trans hsubmits'
    refine ⟨proposal_doc title type (codec.hash id) height timestamp, ?_, rfl⟩
    unfold Data.proposal
    rw [hrows, Table.lookup_insert]
    exact FirstWrite.write_eq_some_iff.mpr (.inr ⟨hproposal, rfl⟩)
  | refused k' id' hsubmits' hknown =>
    cases hsubmits.symm.trans hsubmits'
    obtain hc | hc := hknown
    · exact absurd hproject hc
    · exact absurd hasset hc
  | approved id' happroves =>
    rw [approves_of_submits hsubmits] at happroves
    cases happroves
  | quiet hquiet =>
    rw [(hquiet hhandled).1] at hsubmits
    cases hsubmits

end Filing

/-- What has not been announced is not on file. -/
theorem Blank.unknown {data : Data} (hcodec : Function.Injective codec.hash)
    (hblank : Blank codec es data) {id : Hash} (hid : ∀ k, ¬Announced (pallet_events es) k id) :
    data.proposal (codec.hash id) = none ∧ data.project (codec.hash id) = none := by
  constructor
  · by_contra hne
    obtain ⟨doc, hdoc⟩ := Option.ne_none_iff_exists'.mp hne
    obtain ⟨hmem, hkey⟩ := Table.mem_of_lookup hdoc
    obtain ⟨k, id', hannounced, hkey'⟩ := hblank.key doc hmem
    cases hcodec (hkey.symm.trans hkey')
    exact hid k hannounced
  · by_contra hne
    obtain ⟨id', hannounced, hkey⟩ := hblank.project _ hne
    cases hcodec hkey
    exact hid _ hannounced

theorem asset_unknown (hcodec : Function.Injective codec.hash) {id : Hash}
    (hid : ∀ k, ¬Announced (pallet_events es) k id) :
    (indexed codec api es).asset (codec.hash id) = none := by
  by_contra hne
  obtain ⟨e, he, symbol, hannounced⟩ := (asset_indexed_iff codec api es _).mp hne
  unfold announced at hannounced
  split at hannounced
  · rename_i height project_id asset_id symbol' vintage owner now
    split at hannounced
    · cases hcodec (Prod.ext_iff.mp (Option.some.inj hannounced)).1
      exact hid .asset ⟨_, List.mem_filterMap.mpr ⟨_, he, rfl⟩, rfl⟩
    · cases hannounced
  · cases hannounced

/-- The documents of submitted requests: where submissions can be converted, every
request has its document, and it is closed where the request has been approved. -/
theorem filed_indexed (hcodec : Function.Injective codec.hash) (hprint : ∀ id, codec.hash id ≠ "")
    (hanswers : Answers codec api proposed es) (hkind : OneKind (pallet_events es))
    (hground : Machine.Along Grounded (pallet_events es)) (hreadable : ReadableSubmissions es)
    {k : RequestKind} {id : Hash} (hid : Announced (pallet_events es) k id) :
    ∃ doc, (indexed codec api es).proposal (codec.hash id) = some doc
      ∧ doc.state = if (track proposed id es).approved then 2 else 0 := by
  induction es using List.reverseRecOn generalizing k id with
  | nil =>
    obtain ⟨event, hevent, -⟩ := hid
    exact absurd hevent List.not_mem_nil
  | append_singleton es e ih =>
    obtain ⟨hbefore, hlast⟩ := (Machine.along_snoc e).mp hreadable
    have hkind' := OneKind.init hkind
    have hanswers' : Answers codec api proposed es :=
      fun e he => hanswers e (List.mem_append_left _ he)
    have hblank := blank_indexed hprint hanswers'
    obtain ⟨height, record⟩ := e
    rw [indexed_snoc, track_snoc]
    cases record with
    | pallet event =>
      rw [pallet_events_snoc_pallet, Machine.along_snoc] at hground
      obtain ⟨hground, hevent⟩ := hground
      have hfiling := process_event_filing codec api height event (indexed codec api es)
      by_cases hold : ∃ k, Announced (pallet_events es) k id
      · obtain ⟨k, hk⟩ := hold
        obtain ⟨doc, hdoc, hstate⟩ := ih hanswers' hkind' hground hbefore hk
        obtain ⟨doc', hdoc', hstate'⟩ := hfiling.kept hcodec hdoc fun happroves =>
          handled_of_grounded hkind' hbefore hevent
            (by rw [stamp_of_approves happroves]; exact nofun)
        refine ⟨doc', hdoc', ?_⟩
        rw [hstate', hstate]
        simp only [Tracked.see]
        split <;> rfl
      · obtain ⟨event', hevent', hsubmits⟩ :=
          (announced_snoc_iff.mp hid).resolve_left fun hk => hold ⟨k, hk⟩
        cases hevent'
        rw [not_exists] at hold
        obtain ⟨hproposal, hproject⟩ := hblank.unknown hcodec hold
        obtain ⟨doc, hdoc, hstate⟩ := hfiling.first hsubmits
          (handled_of_grounded hkind' hbefore hevent
            fun now hstamp => hlast event rfl k id now hsubmits hstamp hold)
          hproposal hproject (asset_unknown hcodec hold)
        refine ⟨doc, hdoc, ?_⟩
        -- nothing has been said of the request before, so it is not approved
        have hnot : (track proposed id es).approved ≠ true := fun happroved => by
          obtain ⟨k, hk⟩ := announced_of_approves hground (track_approved_iff.mp happroved)
          exact hold k hk
        rw [hstate]
        simp only [Tracked.see, approves_of_submits hsubmits]
        exact (if_neg hnot).symm
    | carbonCommittee event =>
      have hevents := pallet_events_snoc_of_none es
        (rfl : pallet_event (height, .carbonCommittee event) = none)
      rw [hevents] at hground hid
      obtain ⟨doc, hdoc, hstate⟩ := ih hanswers' hkind' hground hbefore hid
      refine ⟨doc, ?_, ?_⟩
      · rwa [committee_step hprint hblank hanswers]
      · have happroved : (track proposed id (es ++ [(height, .carbonCommittee event)])).approved
            = (track proposed id es).approved := by
          rw [Bool.eq_iff_iff, track_approved_iff, track_approved_iff, hevents]
        rw [track_snoc] at happroved
        rw [hstate, happroved]
    | other =>
      rw [pallet_events_snoc_of_none es (rfl : pallet_event (height, .other) = none)] at hground hid
      exact ih hanswers' hkind' hground hbefore hid

/-! ### When the index follows the committee -/

variable (codec) in
/-- The document says what the committee and the chain have made of its request. -/
structure Follows (x : Tracked Hash) (doc : CarbonProposalDoc) : Prop where
  proposal : ∀ p index, x.latest = some (p, index) →
    doc.proposalId = codec.hash p ∧ doc.proposalIndex = index.toNat
  state : doc.state = x.state

variable (codec api proposed) in
/-- After every event, each submitted request has its document, up to date; and the
proposal of a call that approves nothing changes no document. -/
structure CommitteeFollowed (es : List (Entry AccountId Hash)) : Prop where
  followed : ∀ before after, es = before ++ after →
    ∀ k id, Announced (pallet_events before) k id →
      ∃ doc, (indexed codec api before).proposal (codec.hash id) = some doc
        ∧ Follows codec (track proposed id before) doc
  others : Machine.Along (fun before e => ∀ p, proposes e = some p →
    (proposed p).subject = none → indexed codec api (before ++ [e]) = indexed codec api before) es

/-- A submission that cannot be converted leaves the documents as they are. -/
theorem Filing.unreadable {data data' : Data} {event : Event AccountId Hash}
    (h : Filing codec data data' event) {k : RequestKind} {id : Hash} {now : Moment}
    (hsubmits : event.submits = some (k, id)) (hstamp : event.stamp = some now)
    (hnow : ¬now.toNat < 2 ^ 53) : data'.carbonProposals = data.carbonProposals := by
  cases h with
  | submitted k' id' title type height timestamp hsubmits' hlt => exact absurd (hlt now hstamp) hnow
  | refused k' id' hsubmits' hknown hrows => exact hrows
  | approved id' happroves =>
    rw [approves_of_submits hsubmits] at happroves
    cases happroves
  | quiet hquiet hrows => exact hrows

section Follow

variable {T : Trait AccountId Hash} {allowed : Applied AccountId Hash → Prop}
  {native : AccountId → ℕ} {tr : List (Applied AccountId Hash)} {w : World AccountId Hash}

/-- A request is tracked as approved once a call has approved it. -/
theorem track_approved_log_iff (hrun : (runtime T).Run allowed (genesis native) tr w)
    (hes : pallet_events es = log tr) {id : Hash} :
    (track proposed id es).approved = true ↔ ∃ t ∈ tr, ∃ k, Applied.Approves t k id := by
  rw [track_approved_iff, hes]
  exact approves_log_iff hrun

/-- **When the index follows the committee.** For the events of a run, with any events of
the committee in between: exactly where every request is first submitted at a time below
`2 ^ 53`, and no approval of a submitted request is ever proposed. -/
theorem proposals_follow_iff (hcodec : Function.Injective codec.hash)
    (hprint : ∀ id, codec.hash id ≠ "") (hrun : (runtime T).Run allowed (genesis native) tr w)
    (hes : pallet_events es = log tr) (hkind : OneKind (log tr))
    (hanswers : Answers codec api proposed es) :
    CommitteeFollowed codec api proposed es
      ↔ ReadableSubmissions es ∧ NothingProposed proposed es := by
  have hground := grounded_log hrun
  rw [← hes] at hground hkind
  constructor
  · intro hfollowed
    constructor
    · rintro before e after rfl event hevent k id now hsubmits hstamp hfirst
      by_contra hnow
      have hanswers' : Answers codec api proposed before :=
        fun e he => hanswers e (List.mem_append_left _ he)
      obtain ⟨doc, hdoc, -⟩ := hfollowed.followed (before ++ [e]) after (List.append_cons _ _ _)
        k id (announced_snoc_iff.mpr (.inr ⟨event, hevent, hsubmits⟩))
      obtain ⟨height, record⟩ := e
      cases record with
      | pallet event' =>
        cases hevent
        -- the handler has thrown, so the document was there before
        have hsame : ((process_entry codec api (height, .pallet event)).exec
            (indexed codec api before)).proposal = (indexed codec api before).proposal :=
          congrArg (Table.lookup CarbonProposalDoc.key) ((process_event_filing codec api height
            event (indexed codec api before)).unreadable hsubmits hstamp hnow)
        rw [indexed_snoc, hsame, ((blank_indexed hprint hanswers').unknown hcodec hfirst).1] at hdoc
        cases hdoc
      | carbonCommittee event' => cases hevent
      | other => cases hevent
    · intro e he p hp id hsubject k hannounced
      obtain ⟨doc, hdoc, hfollows⟩ :=
        hfollowed.followed es [] (List.append_nil es).symm k id hannounced
      obtain ⟨⟨latest, index⟩, hlatest⟩ :=
        Option.ne_none_iff_exists'.mp (track_latest_ne_none he hp hsubject)
      -- the document is as it was submitted
      have hblank := (blank_indexed hprint hanswers).proposal doc (Table.mem_of_lookup hdoc).1
      exact hprint latest ((hfollows.proposal latest index hlatest).1.symm.trans hblank.1)
  · rintro ⟨hreadable, hnothing⟩
    constructor
    · rintro before after rfl k id hannounced
      rw [pallet_events_append] at hground hkind
      obtain ⟨doc, hdoc, hstate⟩ := filed_indexed hcodec hprint
        (fun e he => hanswers e (List.mem_append_left _ he))
        (fun k k' id hk hk' => hkind k k' id (hk.append _) (hk'.append _)) hground.init
        hreadable.init hannounced
      obtain ⟨hlatest, hclosed⟩ := track_of_not_proposed fun e he p hp hsubject =>
        hnothing e (List.mem_append_left _ he) p hp id hsubject k
          (by rw [pallet_events_append]; exact hannounced.append _)
      refine ⟨doc, hdoc, ⟨fun p index hsome => ?_, ?_⟩⟩
      · cases hlatest.symm.trans hsome
      · unfold Tracked.state
        rw [hstate, hlatest, hclosed, Bool.false_or]
        rfl
    · rintro before e after rfl p hp -
      have hanswers' : Answers codec api proposed (before ++ [e]) :=
        fun e' he' => hanswers e' (by rw [List.append_cons]; exact List.mem_append_left _ he')
      have hblank := blank_indexed hprint fun e' he' => hanswers' e' (List.mem_append_left _ he')
      obtain ⟨height, record⟩ := e
      cases record with
      | pallet event => cases hp
      | carbonCommittee event =>
        exact (indexed_snoc codec api _ _).trans (committee_step hprint hblank hanswers')
      | other => cases hp

end Follow

end Run

/-- The opening of the executable chain, and a proposal to make an order meanwhile. -/
def devnet_entries : List (Entry ℕ (List ℕ)) :=
  [(1, .pallet (.carbonAssets (.ProjectSubmited devnet_project 1 [] 0))),
    (1, .carbonCommittee (.Proposed 1 0 [7] 2)),
    (2, .pallet (.carbonAssets (.ProjectApproved devnet_project))),
    (2, .carbonCommittee (.Closed [7] 2 0)),
    (3, .pallet (.carbonAssets (.AssetSubmited devnet_project devnet_asset [] [] 1 0))),
    (4, .pallet (.carbonAssets (.AssetApproved devnet_asset)))]

/-- The node answers with the call, whatever is asked. -/
def answering (call : ProposedCall (List ℕ)) : Api where
  proposalOf _ := some (some (call.toJSON devnet_codec))

theorem committeeFollowed_devnet_entries :
    CommitteeFollowed devnet_codec (answering (.other 31 0 fun _ => none))
      (fun _ => .other 31 0 fun _ => none) devnet_entries := by
  have hrun := devnet_run (fun _ => 1000) devnet_opening
  refine (proposals_follow_iff devnet_codec_hash_injective devnet_codec_hash_ne hrun (by decide)
    (oneKind_log hrun (hashSeparates_of_injective Preimage.encode_injective _)) ?_).mpr ⟨?_, ?_⟩
  · exact fun e he p hp => ⟨fun hpallet => absurd hpallet (by decide), rfl⟩
  · have hstamps : ∀ e ∈ devnet_entries, (pallet_event e).bind Event.stamp = none
        ∨ (pallet_event e).bind Event.stamp = some 0 := by decide
    rintro before e after hsplit event hevent k id now - hstamp -
    have hnow := hstamps e (hsplit ▸ List.mem_append_right _ List.mem_cons_self)
    rw [hevent, Option.bind_some, hstamp] at hnow
    cases hnow.resolve_left (Option.some_ne_none now)
    decide
  · intro e he p hp id hsubject
    cases hsubject

/-- The project of the opening, submitted, and its approval proposed. -/
def devnet_proposed : List (Entry ℕ (List ℕ)) :=
  [(1, .pallet (.carbonAssets (.ProjectSubmited devnet_project 1 [] 0))),
    (2, .carbonCommittee (.Proposed 1 0 [7] 2))]

/-- A proposal that is not recognised. The committee votes on the project, and its
document has no proposal. -/
theorem proposed_project_not_followed :
    (runtime devnet).Run (fun _ => True) (genesis fun _ => 1000)
      ((runtime devnet).trace (genesis fun _ => 1000) (devnet_opening.take 1))
      ((runtime devnet).final (genesis fun _ => 1000) (devnet_opening.take 1))
    ∧ pallet_events devnet_proposed
      = log ((runtime devnet).trace (genesis fun _ => 1000) (devnet_opening.take 1))
    ∧ Answers devnet_codec (answering (.approve .project devnet_project))
      (fun _ => .approve .project devnet_project) devnet_proposed
    ∧ ¬CommitteeFollowed devnet_codec (answering (.approve .project devnet_project))
      (fun _ => .approve .project devnet_project) devnet_proposed := by
  have hanswers : Answers devnet_codec (answering (.approve .project devnet_project))
      (fun _ => .approve .project devnet_project) devnet_proposed :=
    fun e he p hp => ⟨trivial, rfl⟩
  refine ⟨devnet_run _ _, by decide, hanswers, fun hfollowed => ?_⟩
  obtain ⟨doc, hdoc, hfollows⟩ := hfollowed.followed devnet_proposed [] rfl .project devnet_project
    ⟨_, List.mem_cons_self, rfl⟩
  have hblank := (blank_indexed devnet_codec_hash_ne hanswers).proposal doc
    (Table.mem_of_lookup hdoc).1
  have hid := (hfollows.proposal [7] 0 (by decide)).1
  exact devnet_codec_hash_ne [7] (hid.symm.trans hblank.1)

end Eco2.Indexer
