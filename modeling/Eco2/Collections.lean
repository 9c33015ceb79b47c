/-
Which collections a handler writes, and what it leaves of the others.

A handler touches a few of the eight collections, whatever it finds there and wherever it
stops. `touched` lists them for every event, and `process_event_within` says that the
operations of a handler keep to that list. Whoever is interested in some collections only
looks at the events that touch them. For those events the second half of the file says
what running a handler to its end does, one operation at a time.
-/
import Eco2.EventsListener
import Eco2.Table

set_option autoImplicit false

namespace Eco2.Indexer

/-! ## Operations on some of the collections -/

/-- A collection is as it was. -/
def Data.SameAt (data data' : Data) : CollectionName → Prop
  | .carbonProjects => data'.carbonProjects = data.carbonProjects
  | .carbonAssets => data'.carbonAssets = data.carbonAssets
  | .orders => data'.orders = data.orders
  | .deals => data'.deals = data.deals
  | .userDeals => data'.userDeals = data.userDeals
  | .standardAssets => data'.standardAssets = data.standardAssets
  | .potentialBalances => data'.potentialBalances = data.potentialBalances
  | .carbonProposals => data'.carbonProposals = data.carbonProposals

theorem Data.SameAt.refl (data : Data) (name : CollectionName) : data.SameAt data name := by
  cases name <;> rfl

theorem Data.SameAt.trans {data data' data'' : Data} {name : CollectionName}
    (h : data.SameAt data' name) (h' : data'.SameAt data'' name) : data.SameAt data'' name := by
  cases name <;> exact Eq.trans h' h

/-- The collection that an operation writes. -/
def Operation.writes : Operation → Option CollectionName
  | .findOne _ => none
  | .insert name => some name
  | .update name => some name
  | .saveLastBlockNumber => none

/-- An operation of a handler that writes the collections `S` only. -/
structure Within (S : List CollectionName) (op : Operation) (data data' : Data) : Prop where
  writes : ∀ name, op.writes = some name → name ∈ S
  no_save : op ≠ .saveLastBlockNumber
  same : ∀ name, name ∉ S → data.SameAt data' name
  file : data'.lastBlockNumberFile = data.lastBlockNumberFile

/-- Writing a collection leaves the others and the file alone. -/
structure Collection.Lawful {D : Type} (c : Collection D) : Prop where
  same : ∀ (data : Data) docs name, name ≠ c.name → data.SameAt (c.set_docs data docs) name
  file : ∀ (data : Data) docs, (c.set_docs data docs).lastBlockNumberFile = data.lastBlockNumberFile

theorem lawful_carbonProjects : carbonProjects.Lawful where
  same _ _ name h := by cases name <;> first | rfl | exact absurd rfl h
  file _ _ := rfl

theorem lawful_carbonAssets : carbonAssets.Lawful where
  same _ _ name h := by cases name <;> first | rfl | exact absurd rfl h
  file _ _ := rfl

theorem lawful_orders : orders.Lawful where
  same _ _ name h := by cases name <;> first | rfl | exact absurd rfl h
  file _ _ := rfl

theorem lawful_deals : deals.Lawful where
  same _ _ name h := by cases name <;> first | rfl | exact absurd rfl h
  file _ _ := rfl

theorem lawful_userDeals : userDeals.Lawful where
  same _ _ name h := by cases name <;> first | rfl | exact absurd rfl h
  file _ _ := rfl

theorem lawful_standardAssets : standardAssets.Lawful where
  same _ _ name h := by cases name <;> first | rfl | exact absurd rfl h
  file _ _ := rfl

theorem lawful_potentialBalances : potentialBalances.Lawful where
  same _ _ name h := by cases name <;> first | rfl | exact absurd rfl h
  file _ _ := rfl

theorem lawful_carbonProposals : carbonProposals.Lawful where
  same _ _ name h := by cases name <;> first | rfl | exact absurd rfl h
  file _ _ := rfl

/-- An insert leaves the other collections alone, whether it is refused or not. -/
theorem Collection.Lawful.insert_sameAt {D : Type} {c : Collection D} (h : c.Lawful) (doc : D)
    (data : Data) {name : CollectionName} (hname : name ≠ c.name) :
    data.SameAt (c.insert doc data) name := by
  unfold Collection.insert
  split
  · exact .refl data name
  · exact h.same data _ name hname

section Operations

variable {D : Type} {c : Collection D} {S : List CollectionName}

theorem within_findOneAsync (c : Collection D) (query : D → Bool) :
    (findOneAsync c query).Always (Within S) :=
  fun data => ⟨⟨nofun, nofun, fun name _ => .refl data name, rfl⟩, trivial⟩

theorem within_found (doc : Option D) : (found doc).Always (Within S) := by
  cases doc with
  | none => trivial
  | some doc => trivial

theorem within_toNumber (n : UInt64) : (toNumber n).Always (Within S) := by
  unfold toNumber
  by_cases h : n.toNat < 2 ^ 53
  · rw [if_pos h]
    trivial
  · rw [if_neg h]
    trivial

theorem within_asset_of (assetId : String) : (asset_of assetId).Always (Within S) :=
  (within_findOneAsync _ _).bind fun asset => within_found asset

variable (h : c.Lawful) (hS : c.name ∈ S)

include h hS

/-- What writes one collection is within all that list it. -/
theorem Collection.Lawful.within (op : Operation) (hop : op.writes = some c.name)
    (hsave : op ≠ .saveLastBlockNumber) (data : Data) (docs : List D) :
    Within S op data (c.set_docs data docs) where
  writes name hname := by
    cases hop.symm.trans hname
    exact hS
  no_save := hsave
  same name hname := h.same data docs name fun hc => hname (hc ▸ hS)
  file := h.file data docs

theorem Collection.Lawful.insertAsync (doc : D) : (insertAsync c doc).Always (Within S) := by
  intro data
  unfold Collection.insert
  by_cases hconflict : (c.docs data).any (c.conflict doc) = true
  · simp only [if_pos hconflict]
    refine ⟨⟨fun name hname => ?_, nofun, fun name _ => .refl data name, rfl⟩, trivial⟩
    cases hname
    exact hS
  · simp only [if_neg hconflict]
    exact ⟨h.within hS (.insert c.name) rfl nofun data _, trivial⟩

theorem Collection.Lawful.updateAsync (query : D → Bool) (set : D → D) :
    (updateAsync c query set).Always (Within S) :=
  fun data => ⟨h.within hS (.update c.name) rfl nofun data _, trivial⟩

theorem Collection.Lawful.upsertAsync (query : D → Bool) (doc : D) :
    (upsertAsync c query doc).Always (Within S) :=
  fun data => ⟨h.within hS (.update c.name) rfl nofun data _, trivial⟩

end Operations

/-- The collections that a program does not write are as they were. -/
theorem exec_sameAt {α : Type} {p : Handler α} {S : List CollectionName}
    (hp : p.Always (Within S)) {name : CollectionName} (hname : name ∉ S) (data : Data) :
    data.SameAt (p.exec data) name :=
  hp.exec (R := fun data data' => data.SameAt data' name) (fun data => .refl data name)
    (fun _ _ _ _ hwithin h => (hwithin.same name hname).trans h) data

/-! ## Collections with a unique index -/

/-- The unique index of a collection. -/
structure Collection.Keyed {D : Type} (c : Collection D) (key : D → String) : Prop where
  conflict : ∀ doc doc', c.conflict doc doc' = (key doc == key doc')
  set_docs : ∀ data, c.set_docs data (c.docs data) = data

theorem keyed_carbonProjects : carbonProjects.Keyed CarbonProjectDoc.projectId :=
  ⟨fun _ _ => rfl, fun _ => rfl⟩

theorem keyed_carbonAssets : carbonAssets.Keyed CarbonAssetDoc.assetId :=
  ⟨fun _ _ => rfl, fun _ => rfl⟩

theorem keyed_carbonProposals : carbonProposals.Keyed CarbonProposalDoc.key :=
  ⟨fun _ _ => rfl, fun _ => rfl⟩

section Keyed

variable {D : Type} {c : Collection D} {key : D → String} (h : c.Keyed key) (doc : D) (data : Data)

include h

theorem Collection.Keyed.any_conflict :
    (c.docs data).any (c.conflict doc) = (c.docs data).any fun old => key old == key doc := by
  congr 1
  funext old
  rw [h.conflict, BEq.comm]

/-- An insert is refused where its key is on file. -/
theorem Collection.Keyed.conflict_iff :
    (c.docs data).any (c.conflict doc) = true
      ↔ Table.lookup key (c.docs data) (key doc) ≠ none := by
  rw [h.any_conflict, Table.any_key_eq]
  exact Option.isSome_iff_ne_none

/-- An insert into the collection is one into a table. -/
theorem Collection.Keyed.insert_eq :
    c.insert doc data = c.set_docs data (Table.insert key doc (c.docs data)) := by
  unfold Collection.insert Table.insert
  rw [h.any_conflict]
  split
  · exact (h.set_docs data).symm
  · rfl

end Keyed

/-! ## The events -/

section Events

variable {AccountId Hash : Type}

/-- The collections that the handler of an event writes. -/
def touched : Record AccountId Hash → List CollectionName
  | .pallet (.carbonAssets (.ProjectSubmited ..)) => [.carbonProjects, .carbonProposals]
  | .pallet (.carbonAssets (.ProjectApproved _)) => [.carbonProjects, .carbonProposals]
  | .pallet (.carbonAssets (.AssetSubmited ..)) => [.carbonAssets, .carbonProposals]
  | .pallet (.carbonAssets (.AssetApproved _)) =>
      [.carbonAssets, .potentialBalances, .carbonProposals]
  | .pallet (.carbonAssets (.IssueSubmited ..)) => [.carbonProposals]
  | .pallet (.carbonAssets (.IssueApproved _)) => [.carbonProposals]
  | .pallet (.carbonAssets (.BurnSubmited ..)) => [.carbonProposals]
  | .pallet (.carbonAssets (.BurnApproved _)) => [.carbonProposals]
  | .pallet (.carbonAssets (.Transferred ..)) => [.potentialBalances]
  | .pallet (.carbonAssets (.Neutralized ..)) => []
  | .pallet (.carbonExchange (.NewOrder ..)) => [.orders]
  | .pallet (.carbonExchange (.NewDeal ..)) => [.deals, .userDeals, .potentialBalances]
  | .pallet (.carbonExchange (.OrderFinished _)) => [.orders]
  | .pallet (.carbonExchange (.OrderCanceled _)) => [.orders]
  | .pallet (.standardAssets (.NewAsset ..)) => [.standardAssets, .potentialBalances]
  | .pallet (.standardAssets (.Transferred ..)) => [.potentialBalances]
  | .pallet (.standardAssets (.Minted ..)) => []
  | .pallet (.standardAssets (.Burned ..)) => []
  | .carbonCommittee _ => [.carbonProposals]
  | .other => []

section Handlers

variable {codec : Codec AccountId Hash} {api : Api} {S : List CollectionName}

theorem within_close_approved (hS : .carbonProposals ∈ S) (key : String) :
    (close_approved key).Always (Within S) :=
  lawful_carbonProposals.updateAsync hS _ _

theorem within_upsert_potential_balance (hS : .potentialBalances ∈ S)
    (pbd : PotentialBalanceDoc) : (upsert_potential_balance pbd).Always (Within S) :=
  lawful_potentialBalances.upsertAsync hS _ _

theorem within_AssetApproved (asset_id : Hash) : (carbonAssets_AssetApproved codec asset_id).Always
    (Within [.carbonAssets, .potentialBalances, .carbonProposals]) :=
  (lawful_carbonAssets.updateAsync (by decide) _ _).bind fun _ => (within_asset_of _).bind fun _ =>
    (within_upsert_potential_balance (by decide) _).bind fun _ =>
      within_close_approved (by decide) _

theorem within_request_submited (title : String) (type : ProposalType)
    (request_id asset_id : Hash) (now : Moment) (height : ℕ) :
    (request_submited codec title type request_id asset_id now height).Always
      (Within [.carbonProposals]) :=
  (within_toNumber _).bind fun _ => (within_asset_of _).bind fun _ =>
    lawful_carbonProposals.insertAsync (by decide) _

theorem within_NewDeal (order_id asset_id money_id : Hash) (maker taker : AccountId)
    (price amount : UInt64) (direction : UInt8) (now : Moment) (height : ℕ) :
    (carbonExchange_NewDeal codec order_id asset_id money_id maker taker price amount direction
      now height).Always (Within [.deals, .userDeals, .potentialBalances]) :=
  (within_toNumber _).bind fun _ => (within_asset_of _).bind fun _ =>
    (lawful_deals.insertAsync (by decide) _).bind fun _ =>
      (lawful_userDeals.insertAsync (by decide) _).bind fun _ =>
        (lawful_userDeals.insertAsync (by decide) _).bind fun _ =>
          within_upsert_potential_balance (by decide) _

theorem within_Proposed (proposal_index : UInt32) (proposal_hash : Hash) (threshold : UInt32) :
    (carbonCommittee_Proposed codec api proposal_index proposal_hash threshold).Always
      (Within [.carbonProposals]) := by
  unfold carbonCommittee_Proposed
  simp only
  cases api.proposalOf (codec.hash proposal_hash) with
  | none => trivial
  | some answer =>
    cases answer with
    | none => trivial
    | some proposal => exact lawful_carbonProposals.updateAsync (by decide) _ _

theorem within_update_proposal (proposal_hash : Hash)
    (set : CarbonProposalDoc → CarbonProposalDoc) :
    (update_proposal codec proposal_hash set).Always (Within [.carbonProposals]) :=
  lawful_carbonProposals.updateAsync (by decide) _ _

end Handlers

variable (codec : Codec AccountId Hash) (api : Api)

/-- **A handler keeps to its collections**, wherever it stops. -/
theorem process_event_within (height : ℕ) (record : Record AccountId Hash) :
    (process_event codec api height record).Always (Within (touched record)) := by
  cases record with
  | pallet event =>
    cases event with
    | carbonAssets event =>
      cases event with
      | ProjectSubmited project_id owner symbol now =>
        exact Program.Always.attempt ((within_toNumber _).bind fun _ =>
          (lawful_carbonProjects.insertAsync (.head _) _).bind fun _ =>
            lawful_carbonProposals.insertAsync (.tail _ (.head _)) _)
      | ProjectApproved project_id =>
        exact Program.Always.attempt ((lawful_carbonProjects.updateAsync (.head _) _ _).bind
          fun _ => within_close_approved (.tail _ (.head _)) _)
      | AssetSubmited project_id asset_id symbol vintage owner now =>
        exact Program.Always.attempt ((within_toNumber _).bind fun _ =>
          (lawful_carbonAssets.insertAsync (.head _) _).bind fun _ =>
            lawful_carbonProposals.insertAsync (.tail _ (.head _)) _)
      | AssetApproved asset_id => exact Program.Always.attempt (within_AssetApproved asset_id)
      | IssueSubmited issue_id asset_id owner amount now =>
        exact Program.Always.attempt (within_request_submited _ _ _ _ _ _)
      | IssueApproved issue_id =>
        exact Program.Always.attempt (within_close_approved (.head _) _)
      | BurnSubmited burn_id asset_id owner amount now =>
        exact Program.Always.attempt (within_request_submited _ _ _ _ _ _)
      | BurnApproved burn_id =>
        exact Program.Always.attempt (within_close_approved (.head _) _)
      | Transferred asset_id from_ to_ amount now =>
        exact Program.Always.attempt ((within_toNumber _).bind fun _ =>
          (within_asset_of _).bind fun _ =>
            within_upsert_potential_balance (.head _) _)
      | Neutralized asset_id owner amount now => trivial
    | carbonExchange event =>
      cases event with
      | NewOrder order_id maker asset_id money_id direction now =>
        exact Program.Always.attempt ((within_toNumber _).bind fun _ =>
          (within_asset_of _).bind fun _ => lawful_orders.insertAsync (.head _) _)
      | NewDeal => exact Program.Always.attempt (within_NewDeal _ _ _ _ _ _ _ _ _ _)
      | OrderFinished order_id =>
        exact Program.Always.attempt (lawful_orders.updateAsync (.head _) _ _)
      | OrderCanceled order_id =>
        exact Program.Always.attempt (lawful_orders.updateAsync (.head _) _ _)
    | standardAssets event =>
      cases event with
      | NewAsset asset_id symbol owner first_supply decimals now =>
        exact Program.Always.attempt ((within_toNumber _).bind fun _ =>
          (lawful_standardAssets.insertAsync (.head _) _).bind fun _ =>
            within_upsert_potential_balance (.tail _ (.head _)) _)
      | Transferred asset_id from_ to_ amount now =>
        exact Program.Always.attempt ((within_findOneAsync _ _).bind fun _ =>
          (within_found _).bind fun _ =>
            within_upsert_potential_balance (.head _) _)
      | Minted asset_id owner amount => trivial
      | Burned asset_id owner amount => trivial
  | carbonCommittee event =>
    cases event with
    | Proposed account proposal_index proposal_hash threshold =>
      exact Program.Always.attempt (within_Proposed _ _ _)
    | Executed proposal_hash => trivial
    | MemberExecuted proposal_hash => trivial
    | _ => exact Program.Always.attempt (within_update_proposal _ _)
  | other => trivial

end Events

end Eco2.Indexer
