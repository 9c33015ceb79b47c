/-
What every document of a collection meets, whatever the indexer has gone through.

The fields that change are small numbers: a project or an asset is approved or not, an
order closed or not, and a proposal is pending, voted on or closed. Nothing in the store
says so. `Keeps` is the rule for such facts, an invariant of every single write, so that
they hold at any point at which a handler is interrupted; and since the count of a query
is a count over the documents, `proposals_counted` says that the numbers that the server
reports about proposals add up in every state of every run, after any crashes.
-/
import Eco2.Catalogue

set_option autoImplicit false

namespace Eco2.Indexer

/-! ## The documents of a collection -/

/-- A write that keeps the documents of the collection sound. -/
def Collection.Keeps {D : Type} (c : Collection D) (Sound : List D → Prop) (_ : Operation)
    (data data' : Data) : Prop :=
  Sound (c.docs data) → Sound (c.docs data')

/-- What is read of a collection is what was written of it. -/
structure Collection.Reads {D : Type} (c : Collection D) : Prop where
  set_docs : ∀ data docs, c.docs (c.set_docs data docs) = docs
  same : ∀ data data' : Data, data.SameAt data' c.name → c.docs data' = c.docs data
  file : ∀ (data : Data) n, c.docs { data with lastBlockNumberFile := n } = c.docs data
  empty : c.docs .empty = []

theorem reads_carbonProjects : carbonProjects.Reads :=
  ⟨fun _ _ => rfl, fun _ _ h => h, fun _ _ => rfl, rfl⟩

theorem reads_carbonAssets : carbonAssets.Reads :=
  ⟨fun _ _ => rfl, fun _ _ h => h, fun _ _ => rfl, rfl⟩

theorem reads_orders : orders.Reads :=
  ⟨fun _ _ => rfl, fun _ _ h => h, fun _ _ => rfl, rfl⟩

theorem reads_standardAssets : standardAssets.Reads :=
  ⟨fun _ _ => rfl, fun _ _ h => h, fun _ _ => rfl, rfl⟩

theorem reads_carbonProposals : carbonProposals.Reads :=
  ⟨fun _ _ => rfl, fun _ _ h => h, fun _ _ => rfl, rfl⟩

/-- Every document meets `P`, and no two have one key. -/
structure Sound {D : Type} (key : D → String) (P : D → Prop) (docs : List D) : Prop where
  proper : ∀ doc ∈ docs, P doc
  unique : Table.Unique key docs

section Keeps

variable {α D : Type} {c : Collection D} {key : D → String} {P : D → Prop} {p : Handler α}

/-- What does not write the collection keeps its documents. -/
theorem Collection.Reads.keeps_of_within (h : c.Reads) {S : List CollectionName}
    (hp : p.Always (Within S)) (hS : c.name ∉ S) : p.Always (c.Keeps (Sound key P)) := by
  refine hp.mono fun op data data' hwithin hsound => ?_
  rwa [h.same data data' (hwithin.same c.name hS)]

/-- An insert of a document that meets `P`, which the index refuses where its key is
there. -/
theorem Collection.Reads.keeps_insertAsync (h : c.Reads) (hkeyed : c.Keyed key) {doc : D}
    (hdoc : P doc) : (insertAsync c doc).Always (c.Keeps (Sound key P)) := by
  refine fun data => ⟨fun hsound => ?_, ?_⟩
  · unfold Collection.insert
    by_cases hconflict : (c.docs data).any (c.conflict doc) = true
    · rwa [if_pos hconflict]
    · rw [if_neg hconflict, h.set_docs]
      have hnone : Table.lookup key (c.docs data) (key doc) = none := by
        by_contra hne
        exact hconflict ((hkeyed.conflict_iff doc data).mpr hne)
      exact ⟨List.forall_mem_append.mpr ⟨hsound.proper, List.forall_mem_singleton.mpr hdoc⟩,
        hsound.unique.append hnone⟩
  · change (if (c.docs data).any (c.conflict doc) then Program.raise .uniqueViolated
      else Program.done () : Handler Unit).Always (c.Keeps (Sound key P))
    split <;> trivial

/-- An update that keeps `P` of each document, and its key. -/
theorem Collection.Reads.keeps_updateAsync (h : c.Reads) (query : D → Bool) {set : D → D}
    (hkey : ∀ doc, key (set doc) = key doc) (hset : ∀ doc, P doc → P (set doc)) :
    (updateAsync c query set).Always (c.Keeps (Sound key P)) := by
  refine fun data => ⟨fun hsound => ?_, trivial⟩
  rw [h.set_docs]
  obtain heq | ⟨old, new, before, after, -, hnew, hsplit, hreplaced⟩ :=
    List.exists_or_eq_self_of_replaceF (fun doc => if query doc then some (set doc) else none)
      (c.docs data)
  · rwa [heq]
  · -- the first document that matches is the only one that changes
    rw [hsplit] at hsound
    obtain rfl : set old = new := by
      simp only [Option.ite_none_right_eq_some, Option.some.injEq] at hnew
      exact hnew.2
    obtain ⟨hbefore, hrest⟩ := List.forall_mem_append.mp hsound.proper
    obtain ⟨hold, hafter⟩ := List.forall_mem_cons.mp hrest
    rw [hreplaced]
    constructor
    · exact List.forall_mem_append.mpr ⟨hbefore, List.forall_mem_cons.mpr ⟨hset old hold, hafter⟩⟩
    · have hunique := hsound.unique
      unfold Table.Unique at hunique ⊢
      rw [List.map_append, List.map_cons] at hunique ⊢
      rwa [hkey old]

end Keeps

/-! ## Runs -/

section Run

variable {AccountId Hash D : Type} {codec : Codec AccountId Hash} {c : Collection D}
  {key : D → String} {P : D → Prop} {chain : ℕ → List (Record AccountId Hash)}

variable (chain) in
theorem Collection.Reads.keeps_catch_up (h : c.Reads) {api : Api}
    (hkeeps : ∀ height (record : Record AccountId Hash),
      (process_event codec api height record).Always (c.Keeps (Sound key P))) (first head : ℕ) :
    (catch_up codec api chain first head).Always (c.Keeps (Sound key P)) := by
  have hsave : (saveLastBlockNumber head).Always (c.Keeps (Sound key P)) := by
    refine fun data => ⟨fun hsound => ?_, trivial⟩
    rwa [h.file]
  have hentry (e : Entry AccountId Hash) :
      (process_entry codec api e).Always (c.Keeps (Sound key P)) := hkeeps e.1 e.2
  rw [catch_up_eq]
  exact (Program.Always.forM fun e _ => hentry e).bind fun _ => hsave

/-- What each handler keeps holds in every state of every run, after any crashes. -/
theorem Collection.Reads.sound_of_run (h : c.Reads)
    (hkeeps : ∀ api height (record : Record AccountId Hash),
      (process_event codec api height record).Always (c.Keeps (Sound key P)))
    {allowed : Transition Data Round (List Operation) → Prop}
    {tr : List (Transition Data Round (List Operation))} {data : Data}
    (hrun : (indexing codec chain).Run allowed .empty tr data) : Sound key P (c.docs data) := by
  apply hrun.state_invariant (I := fun data => Sound key P (c.docs data))
  · rw [h.empty]
    exact ⟨List.forall_mem_nil P, .nil⟩
  intro data round hsound _
  obtain ⟨head, api, crash⟩ := round
  have hround := h.keeps_catch_up chain (hkeeps api) data.lastBlockNumberFile head
  cases crash with
  | none =>
    exact hround.exec
      (R := fun data data' => Sound key P (c.docs data) → Sound key P (c.docs data'))
      (fun _ => id) (fun _ _ _ _ hfirst hrest hsound => hrest (hfirst hsound)) data hsound
  | some k =>
    exact hround.interrupt
      (R := fun _ data data' => Sound key P (c.docs data) → Sound key P (c.docs data'))
      (fun _ => id) (fun _ _ _ _ _ hfirst hrest hsound => hrest (hfirst hsound)) k data hsound

end Run

/-! ## The fields that change -/

section Fields

variable {AccountId Hash : Type} (codec : Codec AccountId Hash) (api : Api) (height : ℕ)

/-- A project is approved or not. -/
def SoundProjects : List CarbonProjectDoc → Prop :=
  Sound CarbonProjectDoc.projectId fun doc => doc.approved = 0 ∨ doc.approved = 1

/-- An asset is approved or not. -/
def SoundAssets : List CarbonAssetDoc → Prop :=
  Sound CarbonAssetDoc.assetId fun doc => doc.approved = 0 ∨ doc.approved = 1

/-- An order is closed or not. -/
def SoundOrders : List OrderDoc → Prop :=
  Sound OrderDoc.orderId fun doc => doc.closed = 0 ∨ doc.closed = 1

def SoundStandardAssets : List StandardAssetDoc → Prop :=
  Sound StandardAssetDoc.assetId fun _ => True

/-- A proposal is pending, voted on, or closed. -/
def SoundProposals : List CarbonProposalDoc → Prop :=
  Sound CarbonProposalDoc.key fun doc => doc.state = 0 ∨ doc.state = 1 ∨ doc.state = 2

variable {codec api height}

/-- A handler whose event does not touch the collection. -/
theorem keeps_of_untouched {D : Type} {c : Collection D} {key : D → String} {P : D → Prop}
    (h : c.Reads)
    {record : Record AccountId Hash} (htouched : c.name ∉ touched record) :
    (process_event codec api height record).Always (c.Keeps (Sound key P)) :=
  h.keeps_of_within (process_event_within codec api height record) htouched

variable (codec api height)

theorem keeps_carbonProjects (record : Record AccountId Hash) :
    (process_event codec api height record).Always
      (carbonProjects.Keeps SoundProjects) := by
  have helse {α : Type} {p : Handler α} (hp : p.Always (Within [.carbonProposals])) :
      p.Always (carbonProjects.Keeps SoundProjects) :=
    reads_carbonProjects.keeps_of_within hp (by decide)
  cases record with
  | pallet event =>
    cases event with
    | carbonAssets event =>
      cases event with
      | ProjectSubmited project_id owner symbol now =>
        exact Program.Always.attempt ((helse (within_toNumber now)).bind fun _ =>
          (reads_carbonProjects.keeps_insertAsync keyed_carbonProjects
            (by exact .inl rfl)).bind fun _ =>
              helse (lawful_carbonProposals.insertAsync (by decide) _))
      | ProjectApproved project_id =>
        exact Program.Always.attempt ((reads_carbonProjects.keeps_updateAsync _
          (by exact fun _ => rfl) (by exact fun _ _ => .inr rfl)).bind fun _ =>
            helse (within_close_approved (by decide) _))
      | _ => exact keeps_of_untouched reads_carbonProjects (by simp [touched, carbonProjects])
    | carbonExchange event =>
      cases event <;>
        exact keeps_of_untouched reads_carbonProjects (by simp [touched, carbonProjects])
    | standardAssets event =>
      cases event <;>
        exact keeps_of_untouched reads_carbonProjects (by simp [touched, carbonProjects])
  | carbonCommittee event =>
    exact keeps_of_untouched reads_carbonProjects (by simp [touched, carbonProjects])
  | other => exact keeps_of_untouched reads_carbonProjects (by simp [touched])

theorem keeps_carbonAssets (record : Record AccountId Hash) :
    (process_event codec api height record).Always
      (carbonAssets.Keeps SoundAssets) := by
  have helse {α : Type} {p : Handler α}
      (hp : p.Always (Within [.potentialBalances, .carbonProposals])) :
      p.Always (carbonAssets.Keeps SoundAssets) :=
    reads_carbonAssets.keeps_of_within hp (by decide)
  cases record with
  | pallet event =>
    cases event with
    | carbonAssets event =>
      cases event with
      | AssetSubmited project_id asset_id symbol vintage owner now =>
        exact Program.Always.attempt ((helse (within_toNumber now)).bind fun _ =>
          (reads_carbonAssets.keeps_insertAsync keyed_carbonAssets
            (by exact .inl rfl)).bind fun _ =>
              helse (lawful_carbonProposals.insertAsync (by decide) _))
      | AssetApproved asset_id =>
        exact Program.Always.attempt ((reads_carbonAssets.keeps_updateAsync _
          (by exact fun _ => rfl) (by exact fun _ _ => .inr rfl)).bind fun _ =>
            helse ((within_asset_of _).bind fun _ =>
              (within_upsert_potential_balance (by decide) _).bind fun _ =>
                within_close_approved (by decide) _))
      | _ => exact keeps_of_untouched reads_carbonAssets (by simp [touched, carbonAssets])
    | carbonExchange event =>
      cases event <;> exact keeps_of_untouched reads_carbonAssets (by simp [touched, carbonAssets])
    | standardAssets event =>
      cases event <;> exact keeps_of_untouched reads_carbonAssets (by simp [touched, carbonAssets])
  | carbonCommittee event =>
    exact keeps_of_untouched reads_carbonAssets (by simp [touched, carbonAssets])
  | other => exact keeps_of_untouched reads_carbonAssets (by simp [touched])

/-- What holds of the two writes of orders, and of all that writes something else, holds of
all operations of a handler. -/
theorem process_event_orders {S : Operation → Data → Data → Prop}
    (hother : ∀ {α : Type} {p : Handler α} {names : List CollectionName},
      .orders ∉ names → p.Always (Within names) → p.Always S)
    (hinsert : ∀ order_id (doc : OrderDoc), doc.orderId = codec.hash order_id → doc.closed = 0 →
      (insertAsync orders doc).Always S)
    (hclose : ∀ order_id, (close_order codec order_id).Always S) (record : Record AccountId Hash) :
    (process_event codec api height record).Always S := by
  have huntouched {record : Record AccountId Hash} (h : .orders ∉ touched record) :
      (process_event codec api height record).Always S :=
    hother h (process_event_within codec api height record)
  have helse {α : Type} {p : Handler α} (hp : p.Always (Within [])) : p.Always S :=
    hother (by decide) hp
  cases record with
  | pallet event =>
    cases event with
    | carbonExchange event =>
      cases event with
      | NewOrder order_id maker asset_id money_id direction now =>
        exact Program.Always.attempt ((helse (within_toNumber now)).bind fun _ =>
          (helse (within_asset_of _)).bind fun _ => hinsert order_id _ rfl rfl)
      | OrderFinished order_id => exact Program.Always.attempt (hclose order_id)
      | OrderCanceled order_id => exact Program.Always.attempt (hclose order_id)
      | NewDeal => exact huntouched (by simp [touched])
    | carbonAssets event => cases event <;> exact huntouched (by simp [touched])
    | standardAssets event => cases event <;> exact huntouched (by simp [touched])
  | carbonCommittee event => exact huntouched (by simp [touched])
  | other => exact huntouched (by simp [touched])

theorem keeps_orders (record : Record AccountId Hash) :
    (process_event codec api height record).Always (orders.Keeps SoundOrders) := by
  refine process_event_orders codec api height (fun hnames hp => ?_) (fun _ doc _ hopen => ?_)
    (fun _ => ?_) record
  · exact reads_orders.keeps_of_within hp hnames
  · exact reads_orders.keeps_insertAsync keyed_orders (.inl hopen)
  · exact reads_orders.keeps_updateAsync _ (fun _ => rfl) fun _ _ => .inr rfl

theorem keeps_standardAssets (record : Record AccountId Hash) :
    (process_event codec api height record).Always
      (standardAssets.Keeps SoundStandardAssets) := by
  have helse {α : Type} {p : Handler α} (hp : p.Always (Within [.potentialBalances])) :
      p.Always (standardAssets.Keeps SoundStandardAssets) :=
    reads_standardAssets.keeps_of_within hp (by decide)
  cases record with
  | pallet event =>
    cases event with
    | standardAssets event =>
      cases event with
      | NewAsset asset_id symbol owner first_supply decimals now =>
        exact Program.Always.attempt ((helse (within_toNumber now)).bind fun _ =>
          (reads_standardAssets.keeps_insertAsync keyed_standardAssets trivial).bind fun _ =>
            helse (within_upsert_potential_balance (by decide) _))
      | _ => exact keeps_of_untouched reads_standardAssets (by simp [touched, standardAssets])
    | carbonAssets event =>
      cases event <;>
        exact keeps_of_untouched reads_standardAssets (by simp [touched, standardAssets])
    | carbonExchange event =>
      cases event <;>
        exact keeps_of_untouched reads_standardAssets (by simp [touched, standardAssets])
  | carbonCommittee event =>
    exact keeps_of_untouched reads_standardAssets (by simp [touched, standardAssets])
  | other => exact keeps_of_untouched reads_standardAssets (by simp [touched])

/-- What holds of the two writes of proposals, and of all that writes something else, holds
of all operations of a handler. -/
theorem process_event_proposals {S : Operation → Data → Data → Prop}
    (hother : ∀ {α : Type} {p : Handler α} {names : List CollectionName},
      .carbonProposals ∉ names → p.Always (Within names) → p.Always S)
    (hinsert : ∀ title type key timestamp,
      (insertAsync carbonProposals (proposal_doc title type key height timestamp)).Always S)
    (hupdate : ∀ query (set : CarbonProposalDoc → CarbonProposalDoc),
      (∀ doc, (set doc).key = doc.key) →
      (∀ doc, (set doc).state = doc.state ∨ (set doc).state = 1 ∨ (set doc).state = 2) →
      (updateAsync carbonProposals query set).Always S) (record : Record AccountId Hash) :
    (process_event codec api height record).Always S := by
  have huntouched {record : Record AccountId Hash} (h : .carbonProposals ∉ touched record) :
      (process_event codec api height record).Always S :=
    hother h (process_event_within codec api height record)
  have helse {α : Type} {p : Handler α}
      (hp : p.Always (Within [.carbonProjects, .carbonAssets, .potentialBalances])) :
      p.Always S :=
    hother (by decide) hp
  have hclose (key : String) : (close_approved key).Always S :=
    hupdate _ _ (fun _ => rfl) fun _ => .inr (.inr rfl)
  have hrequest (title : String) (type : ProposalType) (request_id asset_id : Hash) (now : Moment) :
      (request_submited codec title type request_id asset_id now height).Always S :=
    (helse (within_toNumber now)).bind fun _ => (helse (within_asset_of _)).bind fun _ =>
      hinsert _ _ _ _
  cases record with
  | pallet event =>
    cases event with
    | carbonAssets event =>
      cases event with
      | ProjectSubmited project_id owner symbol now =>
        exact Program.Always.attempt ((helse (within_toNumber now)).bind fun _ =>
          (helse (lawful_carbonProjects.insertAsync (by decide) _)).bind fun _ => hinsert _ _ _ _)
      | ProjectApproved project_id =>
        exact Program.Always.attempt ((helse (lawful_carbonProjects.updateAsync (by decide)
          _ _)).bind fun _ => hclose _)
      | AssetSubmited project_id asset_id symbol vintage owner now =>
        exact Program.Always.attempt ((helse (within_toNumber now)).bind fun _ =>
          (helse (lawful_carbonAssets.insertAsync (by decide) _)).bind fun _ => hinsert _ _ _ _)
      | AssetApproved asset_id =>
        exact Program.Always.attempt ((helse (lawful_carbonAssets.updateAsync (by decide)
          _ _)).bind fun _ => (helse (within_asset_of _)).bind fun _ =>
            (helse (within_upsert_potential_balance (by decide) _)).bind fun _ => hclose _)
      | IssueSubmited => exact Program.Always.attempt (hrequest _ _ _ _ _)
      | IssueApproved => exact Program.Always.attempt (hclose _)
      | BurnSubmited => exact Program.Always.attempt (hrequest _ _ _ _ _)
      | BurnApproved => exact Program.Always.attempt (hclose _)
      | _ => exact huntouched (by simp [touched])
    | carbonExchange event => cases event <;> exact huntouched (by simp [touched])
    | standardAssets event => cases event <;> exact huntouched (by simp [touched])
  | carbonCommittee event =>
    cases event with
    | Proposed account proposal_index proposal_hash threshold =>
      refine Program.Always.attempt ?_
      unfold carbonCommittee_Proposed
      simp only
      cases api.proposalOf (codec.hash proposal_hash) with
      | none => trivial
      | some answer =>
        cases answer with
        | none => trivial
        | some proposal => exact hupdate _ _ (fun _ => rfl) fun _ => .inr (.inl rfl)
    | Executed proposal_hash => trivial
    | MemberExecuted proposal_hash => trivial
    | Closed proposal_hash =>
      exact Program.Always.attempt (hupdate _ _ (fun _ => rfl) fun _ => .inr (.inr rfl))
    | _ => exact Program.Always.attempt (hupdate _ _ (fun _ => rfl) fun _ => .inl rfl)
  | other => exact huntouched (by simp [touched])

theorem keeps_carbonProposals (record : Record AccountId Hash) :
    (process_event codec api height record).Always (carbonProposals.Keeps SoundProposals) := by
  refine process_event_proposals codec api height (fun hnames hp => ?_) (fun _ _ _ _ => ?_)
    (fun _ set hkey hset => ?_) record
  · exact reads_carbonProposals.keeps_of_within hp hnames
  · exact reads_carbonProposals.keeps_insertAsync keyed_carbonProposals (.inl rfl)
  · refine reads_carbonProposals.keeps_updateAsync _ hkey fun doc hdoc => ?_
    obtain hsame | hvoting | hclosed := hset doc
    · rwa [hsame]
    · exact .inr (.inl hvoting)
    · exact .inr (.inr hclosed)

end Fields

end Eco2.Indexer
