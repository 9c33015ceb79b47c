/-
The catalogue: the collections that say what there is.

Projects, assets, orders and standard assets are each put on file once, under a unique
index, and of the first three one field changes later, once: a project or an asset is
approved, an order is closed. `Catalogue` is those four collections as rows that are
written once and flags that are put on them, and `Catalogue.handle` what an event does to
it. A handler writes to the catalogue at most once, whatever else it writes, so a crash
leaves the catalogue as it was before the handler or as it is after it.
-/
import Eco2.Indexed
import Eco2.Replay

set_option autoImplicit false

namespace Eco2.Indexer

/-! ## The catalogue of the collections -/

def Data.order (data : Data) : String → Option OrderDoc :=
  Table.lookup OrderDoc.orderId data.orders

def Data.standard_asset (data : Data) : String → Option StandardAssetDoc :=
  Table.lookup StandardAssetDoc.assetId data.standardAssets

theorem keyed_orders : orders.Keyed OrderDoc.orderId := ⟨fun _ _ => rfl, fun _ => rfl⟩

theorem keyed_standardAssets : standardAssets.Keyed StandardAssetDoc.assetId :=
  ⟨fun _ _ => rfl, fun _ => rfl⟩

/-- A project as it was submitted. -/
def CarbonProjectDoc.base (doc : CarbonProjectDoc) : CarbonProjectDoc := { doc with approved := 0 }

/-- An asset as it was submitted. -/
def CarbonAssetDoc.base (doc : CarbonAssetDoc) : CarbonAssetDoc := { doc with approved := 0 }

/-- An order as it was made. -/
def OrderDoc.base (doc : OrderDoc) : OrderDoc := { doc with closed := 0 }

@[ext]
structure Catalogue where
  projects : Flagged String CarbonProjectDoc
  assets : Flagged String CarbonAssetDoc
  orders : Flagged String OrderDoc
  standardAssets : Flagged String StandardAssetDoc

instance : PartialOrder Catalogue :=
  PartialOrder.lift (fun c => (c.projects, c.assets, c.orders, c.standardAssets)) fun c c' h => by
    simp only [Prod.mk.injEq] at h
    exact Catalogue.ext h.1 h.2.1 h.2.2.1 h.2.2.2

def Data.catalogue (data : Data) : Catalogue where
  projects := .of CarbonProjectDoc.base (fun doc => doc.approved = 1) data.project
  assets := .of CarbonAssetDoc.base (fun doc => doc.approved = 1) data.asset
  orders := .of OrderDoc.base (fun doc => doc.closed = 1) data.order
  -- nothing ever changes in a standard asset
  standardAssets := .of id (fun _ => False) data.standard_asset

/-! ## What an event does to it -/

section Handle

variable {AccountId Hash : Type} (codec : Codec AccountId Hash)

/-- The project that an event puts on file. -/
def project_row : Entry AccountId Hash → Option (String × CarbonProjectDoc)
  | (height, .pallet (.carbonAssets (.ProjectSubmited project_id owner symbol now))) =>
      if now.toNat < 2 ^ 53 then
        some (codec.hash project_id,
          { projectId := codec.hash project_id, owner := codec.account owner
            symbol := codec.utf8 symbol, approved := 0, timestamp := now.toNat, height })
      else none
  | _ => none

/-- The project that an event approves. -/
def project_flag : Entry AccountId Hash → Option String
  | (_, .pallet (.carbonAssets (.ProjectApproved project_id))) => some (codec.hash project_id)
  | _ => none

/-- The asset that an event puts on file. -/
def asset_row : Entry AccountId Hash → Option (String × CarbonAssetDoc)
  | (height, .pallet (.carbonAssets
      (.AssetSubmited project_id asset_id symbol vintage owner now))) =>
      if now.toNat < 2 ^ 53 then
        some (codec.hash asset_id,
          { projectId := codec.hash project_id, assetId := codec.hash asset_id
            owner := codec.account owner, approved := 0, timestamp := now.toNat
            symbol := codec.utf8 symbol, vintage := codec.utf8 vintage, height })
      else none
  | _ => none

/-- The asset that an event approves. -/
def asset_flag : Entry AccountId Hash → Option String
  | (_, .pallet (.carbonAssets (.AssetApproved asset_id))) => some (codec.hash asset_id)
  | _ => none

/-- The order that an event puts on file, which repeats the symbol of its asset. -/
def order_row (assets : String → Option CarbonAssetDoc) :
    Entry AccountId Hash → Option (String × OrderDoc)
  | (height, .pallet (.carbonExchange
      (.NewOrder order_id maker asset_id money_id direction now))) =>
      if now.toNat < 2 ^ 53 then
        (assets (codec.hash asset_id)).map fun asset => (codec.hash order_id,
          { orderId := codec.hash order_id, owner := codec.account maker, closed := 0
            direction := direction.toNat, timestamp := now.toNat
            assetId := codec.hash asset_id, moneyId := codec.hash money_id
            assetSymbol := asset_symbol asset, moneySymbol := "ECO2"
            pair := asset_symbol asset ++ "/" ++ "ECO2", height })
      else none
  | _ => none

/-- The order that an event closes. -/
def order_flag : Entry AccountId Hash → Option String
  | (_, .pallet (.carbonExchange (.OrderFinished order_id))) => some (codec.hash order_id)
  | (_, .pallet (.carbonExchange (.OrderCanceled order_id))) => some (codec.hash order_id)
  | _ => none

/-- The standard asset that an event puts on file. -/
def standard_row : Entry AccountId Hash → Option (String × StandardAssetDoc)
  | (height, .pallet (.standardAssets
      (.NewAsset asset_id symbol owner _ decimals now))) =>
      if now.toNat < 2 ^ 53 then
        some (codec.hash asset_id,
          { assetId := codec.hash asset_id, symbol := codec.utf8 symbol
            owner := codec.account owner, timestamp := now.toNat, decimals := decimals.toNat
            height })
      else none
  | _ => none

def Catalogue.handle (c : Catalogue) (e : Entry AccountId Hash) : Catalogue where
  projects := c.projects.step (project_row codec e) (project_flag codec e)
  assets := c.assets.step (asset_row codec e) (asset_flag codec e)
  orders := c.orders.step (order_row codec c.assets.rows e) (order_flag codec e)
  standardAssets := c.standardAssets.step (standard_row codec e) none

end Handle

/-! ## Writes to the catalogue -/

section Tables

variable {R : Type} {key : R → String} {base : R → R} {flagged : R → Prop} {rows : List R}

/-- An insert of a row without a flag. -/
theorem of_lookup_insert {row : R} (hrow : ¬flagged row) :
    Flagged.of base flagged (Table.lookup key (Table.insert key row rows))
      = (Flagged.of base flagged (Table.lookup key rows)).step (some (key row, base row)) none := by
  rw [Table.lookup_insert]
  exact Flagged.of_write hrow

/-- A change that puts the flag on. -/
theorem of_lookup_modify {k : String} {set : R → R} (hkey : ∀ row, key (set row) = key row)
    (hbase : ∀ row, base (set row) = base row) (hset : ∀ row, flagged (set row)) :
    Flagged.of base flagged (Table.lookup key (Table.modify key k set rows))
      = (Flagged.of base flagged (Table.lookup key rows)).step none (some k) := by
  rw [Table.lookup_modify fun row hrow => (hkey row).trans hrow]
  exact Flagged.of_update hbase hset

end Tables

section Writes

variable (data : Data)

theorem catalogue_insert_carbonProjects {doc : CarbonProjectDoc} (h : doc.approved = 0) :
    (carbonProjects.insert doc data).catalogue = { data.catalogue with
      projects := data.catalogue.projects.step (some (doc.projectId, doc.base)) none } := by
  rw [keyed_carbonProjects.insert_eq]
  exact Catalogue.ext (of_lookup_insert (by simp [h])) rfl rfl rfl

theorem catalogue_insert_carbonAssets {doc : CarbonAssetDoc} (h : doc.approved = 0) :
    (carbonAssets.insert doc data).catalogue = { data.catalogue with
      assets := data.catalogue.assets.step (some (doc.assetId, doc.base)) none } := by
  rw [keyed_carbonAssets.insert_eq]
  exact Catalogue.ext rfl (of_lookup_insert (by simp [h])) rfl rfl

theorem catalogue_insert_orders {doc : OrderDoc} (h : doc.closed = 0) :
    (orders.insert doc data).catalogue = { data.catalogue with
      orders := data.catalogue.orders.step (some (doc.orderId, doc.base)) none } := by
  rw [keyed_orders.insert_eq]
  exact Catalogue.ext rfl rfl (of_lookup_insert (by simp [h])) rfl

theorem catalogue_insert_standardAssets (doc : StandardAssetDoc) :
    (standardAssets.insert doc data).catalogue = { data.catalogue with
      standardAssets := data.catalogue.standardAssets.step (some (doc.assetId, doc)) none } := by
  rw [keyed_standardAssets.insert_eq]
  exact Catalogue.ext rfl rfl rfl (of_lookup_insert id)

end Writes

/-! ## Programs that keep off the catalogue -/

/-- The collections of the catalogue. -/
def catalogue_names : List CollectionName :=
  [.carbonProjects, .carbonAssets, .orders, .standardAssets]

section Programs

variable {α D : Type} {p : Handler α} {c : Collection D}

/-- What writes none of the four collections does not change the catalogue. -/
theorem quiet_of_within {S : List CollectionName} (hp : p.Always (Within S))
    (hS : ∀ name ∈ catalogue_names, name ∉ S) : p.Quiet Data.catalogue := by
  refine hp.mono fun op data data' hwithin => ?_
  have hprojects : data'.carbonProjects = data.carbonProjects :=
    hwithin.same .carbonProjects (hS _ (by decide))
  have hassets : data'.carbonAssets = data.carbonAssets :=
    hwithin.same .carbonAssets (hS _ (by decide))
  have horders : data'.orders = data.orders := hwithin.same .orders (hS _ (by decide))
  have hstandard : data'.standardAssets = data.standardAssets :=
    hwithin.same .standardAssets (hS _ (by decide))
  simp only [Data.catalogue, Data.project, Data.asset, Data.order, Data.standard_asset, hprojects,
    hassets, horders, hstandard]

theorem quiet_toNumber (n : UInt64) : (toNumber n).Quiet Data.catalogue :=
  quiet_of_within (S := []) (within_toNumber n) (by decide)

theorem quiet_asset_of (assetId : String) : (asset_of assetId).Quiet Data.catalogue :=
  quiet_of_within (S := []) (within_asset_of assetId) (by decide)

theorem quiet_insert_carbonProposals (doc : CarbonProposalDoc) :
    (insertAsync carbonProposals doc).Quiet Data.catalogue :=
  quiet_of_within (S := [.carbonProposals]) (lawful_carbonProposals.insertAsync (by decide) doc)
    (by decide)

theorem quiet_close_approved (key : String) : (close_approved key).Quiet Data.catalogue :=
  quiet_of_within (S := [.carbonProposals]) (within_close_approved (by decide) key) (by decide)

theorem quiet_upsert_potential_balance (pbd : PotentialBalanceDoc) :
    (upsert_potential_balance pbd).Quiet Data.catalogue :=
  quiet_of_within (S := [.potentialBalances]) (within_upsert_potential_balance (by decide) pbd)
    (by decide)

/-- One insert is one write. -/
theorem once_insertAsync (doc : D) : (insertAsync c doc).Once Data.catalogue := by
  intro data
  refine .inr ?_
  change (if (c.docs data).any (c.conflict doc) then Program.raise .uniqueViolated
    else Program.done () : Handler Unit).Quiet Data.catalogue
  split <;> trivial

theorem once_updateAsync (query : D → Bool) (set : D → D) :
    (updateAsync c query set).Once Data.catalogue :=
  fun _ => .inr trivial

/-- What follows an insert does not matter if it keeps off the catalogue. -/
theorem catalogue_insertAsync_bind (doc : D) {f : Unit → Handler Unit}
    (hf : (f ()).Quiet Data.catalogue) (data : Data) :
    ((insertAsync c doc >>= f).exec data).catalogue = (c.insert doc data).catalogue := by
  rw [exec_insertAsync_bind]
  by_cases h : (c.docs data).any (c.conflict doc) = true
  · rw [if_pos h]
    unfold Collection.insert
    rw [if_pos h]
  · rw [if_neg h]
    exact hf.exec _

end Programs

/-! ## The handlers -/

section Handlers

variable {AccountId Hash : Type} (codec : Codec AccountId Hash) (api : Api)

/-- The program does to the catalogue what the event is meant to do, in one write. -/
structure Catalogued (p : Handler Unit) (e : Entry AccountId Hash) : Prop where
  once : p.Once Data.catalogue
  handle : ∀ data, (p.exec data).catalogue = data.catalogue.handle codec e

/-- An event of which the catalogue does not speak. -/
theorem catalogued_of_quiet {p : Handler Unit} {e : Entry AccountId Hash}
    (hp : p.Quiet Data.catalogue) (he : ∀ c : Catalogue, c.handle codec e = c) :
    Catalogued codec p e where
  once := hp.once
  handle data := (hp.exec data).trans (he _).symm

variable (height : ℕ)

/-- A submission, which inserts a row and then something else. -/
theorem catalogued_insert {D : Type} {c : Collection D} (now : Moment) (doc : ℕ → D)
    (rest : ℕ → Handler Unit) {e : Entry AccountId Hash}
    (hrest : ∀ timestamp, (rest timestamp).Quiet Data.catalogue)
    (hhandle : ∀ data : Data, data.catalogue.handle codec e = if now.toNat < 2 ^ 53 then
      (c.insert (doc now.toNat) data).catalogue else data.catalogue) :
    Catalogued codec (toNumber now >>= fun timestamp => insertAsync c (doc timestamp) >>= fun _ =>
      rest timestamp) e where
  once := (quiet_toNumber now).bind_once fun timestamp =>
    (once_insertAsync (doc timestamp)).bind_quiet fun _ => hrest timestamp
  handle data := by
    rw [exec_toNumber_bind, hhandle]
    split
    · exact catalogue_insertAsync_bind _ (hrest _) data
    · rfl

theorem catalogued_ProjectSubmited (project_id : Hash) (owner : AccountId) (symbol : Bytes)
    (now : Moment) :
    Catalogued codec (carbonAssets_ProjectSubmited codec project_id owner symbol now height)
      (height, .pallet (.carbonAssets (.ProjectSubmited project_id owner symbol now))) := by
  refine catalogued_insert codec now _ _ (fun _ => quiet_insert_carbonProposals _) fun data => ?_
  by_cases hnow : now.toNat < 2 ^ 53
  · rw [if_pos hnow, catalogue_insert_carbonProjects data rfl]
    exact Catalogue.ext (congrArg (Flagged.step _ · none) (if_pos hnow)) (Flagged.step_none _)
      (Flagged.step_none _) (Flagged.step_none _)
  · rw [if_neg hnow]
    exact Catalogue.ext ((congrArg (Flagged.step _ · none) (if_neg hnow)).trans
      (Flagged.step_none _)) (Flagged.step_none _) (Flagged.step_none _) (Flagged.step_none _)

theorem catalogued_AssetSubmited (project_id asset_id : Hash) (symbol vintage : Bytes)
    (owner : AccountId) (now : Moment) :
    Catalogued codec
      (carbonAssets_AssetSubmited codec project_id asset_id symbol vintage owner now height)
      (height, .pallet (.carbonAssets
        (.AssetSubmited project_id asset_id symbol vintage owner now))) := by
  refine catalogued_insert codec now _ _ (fun _ => quiet_insert_carbonProposals _) fun data => ?_
  by_cases hnow : now.toNat < 2 ^ 53
  · rw [if_pos hnow, catalogue_insert_carbonAssets data rfl]
    exact Catalogue.ext (Flagged.step_none _) (congrArg (Flagged.step _ · none) (if_pos hnow))
      (Flagged.step_none _) (Flagged.step_none _)
  · rw [if_neg hnow]
    exact Catalogue.ext (Flagged.step_none _) ((congrArg (Flagged.step _ · none)
      (if_neg hnow)).trans (Flagged.step_none _)) (Flagged.step_none _) (Flagged.step_none _)

theorem catalogued_NewAsset (asset_id : Hash) (symbol : Bytes) (owner : AccountId)
    (first_supply : UInt64) (decimals : UInt8) (now : Moment) :
    Catalogued codec (standardAssets_NewAsset codec asset_id symbol owner decimals now height)
      (height, .pallet (.standardAssets
        (.NewAsset asset_id symbol owner first_supply decimals now))) := by
  refine catalogued_insert codec now _ _ (fun _ => quiet_upsert_potential_balance _) fun data => ?_
  by_cases hnow : now.toNat < 2 ^ 53
  · rw [if_pos hnow, catalogue_insert_standardAssets data]
    exact Catalogue.ext (Flagged.step_none _) (Flagged.step_none _) (Flagged.step_none _)
      (congrArg (Flagged.step _ · none) (if_pos hnow))
  · rw [if_neg hnow]
    exact Catalogue.ext (Flagged.step_none _) (Flagged.step_none _) (Flagged.step_none _)
      ((congrArg (Flagged.step _ · none) (if_neg hnow)).trans (Flagged.step_none _))

/-- A new order looks its asset up before it is put on file. -/
theorem catalogued_NewOrder (order_id : Hash) (maker : AccountId) (asset_id money_id : Hash)
    (direction : UInt8) (now : Moment) :
    Catalogued codec
      (carbonExchange_NewOrder codec order_id maker asset_id money_id direction now height)
      (height, .pallet (.carbonExchange
        (.NewOrder order_id maker asset_id money_id direction now))) where
  once := (quiet_toNumber now).bind_once fun _ => (quiet_asset_of _).bind_once fun _ =>
    once_insertAsync _
  handle data := by
    let e : Entry AccountId Hash := (height, .pallet (.carbonExchange
      (.NewOrder order_id maker asset_id money_id direction now)))
    have hsame (hrow : order_row codec data.catalogue.assets.rows e = none) :
        data.catalogue.handle codec e = data.catalogue :=
      Catalogue.ext (Flagged.step_none _) (Flagged.step_none _)
        ((congrArg (Flagged.step _ · none) hrow).trans (Flagged.step_none _))
        (Flagged.step_none _)
    unfold carbonExchange_NewOrder
    rw [exec_toNumber_bind]
    by_cases hnow : now.toNat < 2 ^ 53
    · rw [if_pos hnow, exec_asset_of_bind]
      have hrow : order_row codec data.catalogue.assets.rows e
          = (data.catalogue.assets.rows (codec.hash asset_id)).map _ := if_pos hnow
      have hbase : data.catalogue.assets.rows (codec.hash asset_id)
          = (data.asset (codec.hash asset_id)).map CarbonAssetDoc.base := rfl
      rw [hbase] at hrow
      cases hasset : data.asset (codec.hash asset_id) with
      | none =>
        rw [hasset] at hrow
        exact (hsame hrow).symm
      | some asset =>
        rw [hasset] at hrow
        simp only [exec_insertAsync]
        rw [catalogue_insert_orders data rfl]
        exact (Catalogue.ext (Flagged.step_none _) (Flagged.step_none _)
          (congrArg (Flagged.step _ · none) hrow) (Flagged.step_none _)).symm
    · rw [if_neg hnow]
      exact (hsame (if_neg hnow)).symm

/-- An update that puts a flag on, and what follows it. -/
theorem catalogued_update {D : Type} {c : Collection D} (query : D → Bool) (set : D → D)
    {rest : Handler Unit} {e : Entry AccountId Hash} (hrest : rest.Quiet Data.catalogue)
    (hhandle : ∀ data : Data, ((updateAsync c query set).exec data).catalogue
      = data.catalogue.handle codec e) :
    Catalogued codec (updateAsync c query set >>= fun _ => rest) e where
  once := (once_updateAsync query set).bind_quiet fun _ => hrest
  handle data := (hrest.exec _).trans (hhandle data)

theorem catalogued_ProjectApproved (project_id : Hash) :
    Catalogued codec (carbonAssets_ProjectApproved codec project_id)
      (height, .pallet (.carbonAssets (.ProjectApproved project_id))) := by
  refine catalogued_update codec _ _ (quiet_close_approved _) fun data => ?_
  exact Catalogue.ext (of_lookup_modify (fun _ => rfl) (fun _ => rfl) fun _ => rfl)
    (Flagged.step_none _).symm (Flagged.step_none _).symm (Flagged.step_none _).symm

theorem catalogued_AssetApproved (asset_id : Hash) :
    Catalogued codec (carbonAssets_AssetApproved codec asset_id)
      (height, .pallet (.carbonAssets (.AssetApproved asset_id))) := by
  refine catalogued_update codec _ _ ?_ fun data => ?_
  · exact (quiet_asset_of _).bind fun _ => (quiet_upsert_potential_balance _).bind fun _ =>
      quiet_close_approved _
  · exact Catalogue.ext (Flagged.step_none _).symm
      (of_lookup_modify (fun _ => rfl) (fun _ => rfl) fun _ => rfl)
      (Flagged.step_none _).symm (Flagged.step_none _).symm

/-- An order is closed in the same way whether it is filled up or cancelled. -/
theorem catalogued_close_order (order_id : Hash) {e : Entry AccountId Hash}
    (he : ∀ c : Catalogue, c.handle codec e
      = { c with orders := c.orders.step none (some (codec.hash order_id)) }) :
    Catalogued codec (close_order codec order_id) e where
  once := once_updateAsync _ _
  handle data := by
    rw [he]
    exact Catalogue.ext rfl rfl (of_lookup_modify (fun _ => rfl) (fun _ => rfl) fun _ => rfl) rfl

theorem Catalogued.attempt {p : Handler Unit} {e : Entry AccountId Hash}
    (h : Catalogued codec p e) : Catalogued codec p.attempt e where
  once := h.once.attempt
  handle data := (congrArg Data.catalogue (Program.attempt_exec p data)).trans (h.handle data)

/-- **What the handlers do to the catalogue**: what the event is meant to do, in at most
one write. -/
theorem process_entry_catalogued (e : Entry AccountId Hash) :
    Catalogued codec (process_entry codec api e) e := by
  obtain ⟨height, record⟩ := e
  -- most events touch other collections only
  have hquiet (htouched : ∀ name ∈ catalogue_names, name ∉ touched record)
      (hhandle : ∀ c : Catalogue, c.handle codec (height, record) = c) :
      Catalogued codec (process_entry codec api (height, record)) (height, record) :=
    catalogued_of_quiet codec
      (quiet_of_within (process_event_within codec api height record) htouched) hhandle
  have hnone (c : Catalogue) : (⟨c.projects.step none none, c.assets.step none none,
      c.orders.step none none, c.standardAssets.step none none⟩ : Catalogue) = c := by
    simp only [Flagged.step_none]
  cases record with
  | pallet event =>
    cases event with
    | carbonAssets event =>
      cases event with
      | ProjectSubmited => exact (catalogued_ProjectSubmited codec height _ _ _ _).attempt
      | ProjectApproved => exact (catalogued_ProjectApproved codec height _).attempt
      | AssetSubmited => exact (catalogued_AssetSubmited codec height _ _ _ _ _ _).attempt
      | AssetApproved => exact (catalogued_AssetApproved codec height _).attempt
      | _ => exact hquiet (by simp [catalogue_names, touched]) hnone
    | carbonExchange event =>
      cases event with
      | NewOrder => exact (catalogued_NewOrder codec height _ _ _ _ _ _).attempt
      | NewDeal => exact hquiet (by simp [catalogue_names, touched]) hnone
      | OrderFinished order_id =>
        refine (catalogued_close_order codec order_id fun c => ?_).attempt
        exact Catalogue.ext (Flagged.step_none _) (Flagged.step_none _) rfl (Flagged.step_none _)
      | OrderCanceled order_id =>
        refine (catalogued_close_order codec order_id fun c => ?_).attempt
        exact Catalogue.ext (Flagged.step_none _) (Flagged.step_none _) rfl (Flagged.step_none _)
    | standardAssets event =>
      cases event with
      | NewAsset => exact (catalogued_NewAsset codec height _ _ _ _ _ _).attempt
      | _ => exact hquiet (by simp [catalogue_names, touched]) hnone
  | carbonCommittee event => exact hquiet (by simp [catalogue_names, touched]) hnone
  | other => exact hquiet (by simp [catalogue_names, touched]) hnone

/-- Going through events. -/
theorem forM_catalogue (es : List (Entry AccountId Hash)) (data : Data) :
    ((es.forM (process_entry codec api)).exec data).catalogue
      = es.foldl (Catalogue.handle codec) data.catalogue := by
  rw [Program.exec_forM (process_entry_result codec api)]
  induction es generalizing data with
  | nil => rfl
  | cons e es ih =>
    rw [List.foldl_cons, List.foldl_cons, ih, (process_entry_catalogued codec api e).handle]

end Handlers

end Eco2.Indexer
