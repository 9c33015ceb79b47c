/-
The collection of potential balances.

A document says that an account may have units of an asset. The handlers put one in for
the owner of an asset that is approved, for whoever is sent units, and for whoever gets
them in a deal, and they put it under a key that holds a few characters of the account and
of the asset. What they know is less than what the chain knows: `Heard` is what the events
have told them, the owners of assets and who has received what, and `indexes_indexed` says
that under each key stands the last receipt that was heard under it.
-/
import Eco2.Indexed
import Eco2.LastWrite

set_option autoImplicit false

namespace Eco2

variable {AccountId Hash : Type}

/-! ## What the events tell -/

/-- The asset that an event announces, with its owner; `none` also where its time cannot
be converted. -/
def Event.new_asset : Event AccountId Hash → Option (Hash × AccountId)
  | .carbonAssets (.AssetSubmited _ asset_id _ _ owner now) =>
      if now.toNat < 2 ^ 53 then some (asset_id, owner) else none
  | _ => none

/-- What a listener has heard: who owns an asset, and the receipts of units, the last one
at the end. -/
structure Heard (AccountId Hash : Type) where
  owners : Hash → Option AccountId
  receipts : List (AccountId × Hash)

/-- Before the first event. -/
def Heard.nothing : Heard AccountId Hash := ⟨fun _ => none, []⟩

/-- Who has received units of which asset, as far as the event says it to somebody who
knows the assets: an approval pays the owner, a deal the taker of an ask order and the
maker of a bid order. -/
def Heard.receipt (x : Heard AccountId Hash) : Event AccountId Hash → Option (AccountId × Hash)
  | .carbonAssets (.AssetApproved asset_id) =>
      (x.owners asset_id).map fun owner => (owner, asset_id)
  | .carbonAssets (.Transferred asset_id _ to_ _ now) =>
      if now.toNat < 2 ^ 53 ∧ (x.owners asset_id).isSome then some (to_, asset_id) else none
  | .carbonExchange (.NewDeal _ asset_id _ maker taker _ _ direction now) =>
      if now.toNat < 2 ^ 53 ∧ (x.owners asset_id).isSome then
        some (if direction = 0 then taker else maker, asset_id)
      else none
  | _ => none

/-- The receipt of an approval is the owner's. -/
theorem Heard.receipt_AssetApproved (x : Heard AccountId Hash) {asset_id : Hash}
    {owner : Option AccountId} (howner : x.owners asset_id = owner) :
    x.receipt (.carbonAssets (.AssetApproved asset_id))
      = owner.map fun owner => (owner, asset_id) :=
  congrArg (Option.map _) howner

section Hear

variable [DecidableEq Hash]

/-- Hearing an event. -/
def Heard.hear (x : Heard AccountId Hash) (e : Event AccountId Hash) : Heard AccountId Hash where
  owners := FirstWrite.write x.owners e.new_asset
  receipts := x.receipts ++ (x.receipt e).toList

/-- Hearing one event after the other. -/
def heard (events : List (Event AccountId Hash)) : Heard AccountId Hash :=
  events.foldl Heard.hear .nothing

variable {x : Heard AccountId Hash} {e : Event AccountId Hash}

theorem heard_append (events more : List (Event AccountId Hash)) :
    heard (events ++ more) = more.foldl Heard.hear (heard events) :=
  List.foldl_append

/-- An event that tells nothing. -/
theorem Heard.hear_of_none (hnew : e.new_asset = none) (hreceipt : x.receipt e = none) :
    x.hear e = x := by
  unfold Heard.hear
  rw [hnew, hreceipt]
  exact congrArg _ (List.append_nil _)

/-- An event that announces an asset. -/
theorem Heard.hear_of_new_asset {asset : Hash × AccountId} (hnew : e.new_asset = some asset)
    (hreceipt : x.receipt e = none) :
    x.hear e = { x with owners := FirstWrite.write x.owners (some asset) } := by
  unfold Heard.hear
  rw [hnew, hreceipt]
  exact congrArg _ (List.append_nil _)

/-- An event that tells of a receipt. -/
theorem Heard.hear_of_receipt {p : AccountId × Hash} (hnew : e.new_asset = none)
    (hreceipt : x.receipt e = some p) :
    x.hear e = { x with receipts := x.receipts ++ [p] } := by
  unfold Heard.hear
  rw [hnew, hreceipt]
  rfl

/-- No receipt is forgotten. -/
theorem Heard.receipts_subset (x : Heard AccountId Hash) (events : List (Event AccountId Hash)) :
    x.receipts ⊆ (events.foldl Heard.hear x).receipts := by
  induction events generalizing x with
  | nil => exact fun p hp => hp
  | cons e events ih => exact fun p hp => ih (x.hear e) (List.mem_append_left _ hp)

end Hear

namespace Indexer

/-! ## The documents -/

/-- The key of the document of an account and an asset. -/
def potential_key (account assetId : String) : String :=
  (constructPotentialBalanceDoc account assetId "" 0 .carbon).key

/-- Account and asset of a document. -/
def PotentialBalanceDoc.pair (doc : PotentialBalanceDoc) : String × String :=
  (doc.account, doc.assetId)

/-- `GET /potential_balances`: `find({ account })`, without limits. -/
def potential_balances (data : Data) (account : String) : List PotentialBalanceDoc :=
  data.potentialBalances.filter fun doc => doc.account == account

/-- A document in the place of the one under its key, or added. -/
def Data.put (data : Data) (doc : PotentialBalanceDoc) : Data :=
  { data with potentialBalances := Table.upsert PotentialBalanceDoc.key doc data.potentialBalances }

theorem exec_upsert_potential_balance (doc : PotentialBalanceDoc) (data : Data) :
    (upsert_potential_balance doc).exec data = data.put doc := rfl

section Codec

variable (codec : Codec AccountId Hash)

/-- Account and asset as they are printed. -/
def Codec.print (p : AccountId × Hash) : String × String := (codec.account p.1, codec.hash p.2)

/-- The key under which a receipt is written. -/
def Codec.key (p : AccountId × Hash) : String :=
  potential_key (codec.account p.1) (codec.hash p.2)

theorem Codec.print_injective (haccount : Function.Injective codec.account)
    (hhash : Function.Injective codec.hash) : Function.Injective codec.print := by
  intro p q h
  obtain ⟨hfst, hsnd⟩ := Prod.ext_iff.mp h
  exact Prod.ext (haccount hfst) (hhash hsnd)

/-- The collections say what has been heard: of each asset on file the owner, and under
each key the last receipt. -/
structure Indexes (x : Heard AccountId Hash) (data : Data) : Prop where
  owner : ∀ a, (data.asset (codec.hash a)).map CarbonAssetDoc.owner
    = (x.owners a).map codec.account
  unique : Table.Unique PotentialBalanceDoc.key data.potentialBalances
  key : ∀ doc ∈ data.potentialBalances, doc.key = potential_key doc.account doc.assetId
  pair : ∀ k, (data.potential_balance k).map PotentialBalanceDoc.pair
    = (LastWrite.entries codec.key x.receipts k).map codec.print

variable {codec} {x : Heard AccountId Hash} {data data' : Data}

theorem indexes_empty : Indexes codec .nothing .empty where
  owner _ := rfl
  unique := .nil
  key _ hdoc := absurd hdoc List.not_mem_nil
  pair _ := rfl

/-- With the same documents of balances, only the owners of assets matter. -/
theorem Indexes.congr (h : Indexes codec x data) {x' : Heard AccountId Hash}
    (hreceipts : x'.receipts = x.receipts)
    (howner : ∀ a, (data'.asset (codec.hash a)).map CarbonAssetDoc.owner
      = (x'.owners a).map codec.account)
    (hbalances : data'.potentialBalances = data.potentialBalances) : Indexes codec x' data' where
  owner := howner
  unique := hbalances ▸ h.unique
  key := hbalances ▸ h.key
  pair k := by
    unfold Data.potential_balance
    rw [hbalances, hreceipts]
    exact h.pair k

/-- An asset on file is one that was heard of. -/
theorem Indexes.isSome_owners (h : Indexes codec x data) (a : Hash) :
    (x.owners a).isSome = (data.asset (codec.hash a)).isSome := by
  have howner := congrArg Option.isSome (h.owner a)
  rw [Option.isSome_map, Option.isSome_map] at howner
  exact howner.symm

/-- A document that is put in for a receipt. -/
theorem Indexes.put (h : Indexes codec x data) (p : AccountId × Hash) (symbol : String) :
    Indexes codec { x with receipts := x.receipts ++ [p] }
      (data.put (constructPotentialBalanceDoc (codec.account p.1) (codec.hash p.2) symbol 0
        .carbon)) where
  owner := h.owner
  unique := h.unique.upsert _
  key doc hdoc := by
    obtain hold | rfl := Table.mem_upsert hdoc
    · exact h.key doc hold
    · rfl
  pair k := by
    unfold Data.potential_balance Data.put
    have hkey : (constructPotentialBalanceDoc (codec.account p.1) (codec.hash p.2) symbol 0
        .carbon).key = codec.key p := rfl
    rw [Table.lookup_upsert, LastWrite.entries_snoc, hkey]
    by_cases hk : k = codec.key p
    · rw [hk, Function.update_self, Function.update_self]
      rfl
    · rw [Function.update_of_ne hk, Function.update_of_ne hk]
      exact h.pair k

/-- **What the query finds.** An asset is listed for an account exactly where the account's
receipt of it is the last one under its key. -/
theorem Indexes.listed_iff (h : Indexes codec x data) (haccount : Function.Injective codec.account)
    (hhash : Function.Injective codec.hash) (y : AccountId) (a : Hash) :
    (∃ doc ∈ potential_balances data (codec.account y), doc.assetId = codec.hash a)
      ↔ LastWrite.entries codec.key x.receipts (codec.key (y, a)) = some (y, a) := by
  have hpair := h.pair (codec.key (y, a))
  constructor
  · rintro ⟨doc, hdoc, hasset⟩
    obtain ⟨hmem, hfound⟩ := List.mem_filter.mp hdoc
    have hfound : doc.account = codec.account y := beq_iff_eq.mp hfound
    have hkey : doc.key = codec.key (y, a) := by rw [h.key doc hmem, hfound, hasset]; rfl
    have hlookup : data.potential_balance (codec.key (y, a)) = some doc :=
      hkey ▸ h.unique.lookup hmem
    rw [hlookup, Option.map_some] at hpair
    obtain ⟨p, hp, hprint⟩ := Option.map_eq_some_iff.mp hpair.symm
    have hprint' : codec.print p = codec.print (y, a) := hprint.trans (Prod.ext hfound hasset)
    rw [hp, codec.print_injective haccount hhash hprint']
  · intro hlast
    rw [hlast, Option.map_some] at hpair
    obtain ⟨doc, hlookup, hprint⟩ := Option.map_eq_some_iff.mp hpair
    obtain ⟨hfst, hsnd⟩ := Prod.ext_iff.mp hprint
    exact ⟨doc, List.mem_filter.mpr ⟨(Table.mem_of_lookup hlookup).1, beq_iff_eq.mpr hfst⟩, hsnd⟩

/-! ## The handlers -/

/-- Where the two collections are as they were, they say the same. -/
theorem Indexes.same (h : Indexes codec x data) (hassets : data.SameAt data' .carbonAssets)
    (hbalances : data.SameAt data' .potentialBalances) : Indexes codec x data' := by
  refine h.congr rfl (fun a => ?_) hbalances
  have hassets : data'.carbonAssets = data.carbonAssets := hassets
  unfold Data.asset
  rw [hassets]
  exact h.owner a

/-- An insert into another collection, refused or not. -/
theorem Indexes.insert (h : Indexes codec x data) {D : Type} {c : Collection D} (hc : c.Lawful)
    (hassets : .carbonAssets ≠ c.name) (hbalances : .potentialBalances ≠ c.name) (doc : D) :
    Indexes codec x (c.insert doc data) :=
  h.same (hc.insert_sameAt doc data hassets) (hc.insert_sameAt doc data hbalances)

/-- The first submission of an asset that can be converted puts its owner on file. -/
theorem Indexes.announce [DecidableEq Hash] (h : Indexes codec x data)
    (hhash : Function.Injective codec.hash) (a : Hash) (owner : AccountId) (doc : CarbonAssetDoc)
    (hid : doc.assetId = codec.hash a) (howner : doc.owner = codec.account owner) :
    Indexes codec { x with owners := FirstWrite.write x.owners (some (a, owner)) }
      (carbonAssets.insert doc data) := by
  have hasset : (carbonAssets.insert doc data).asset
      = FirstWrite.write data.asset (some (codec.hash a, doc)) := by
    rw [keyed_carbonAssets.insert_eq, ← hid]
    exact Table.lookup_insert doc data.carbonAssets
  refine h.congr rfl (fun b => ?_) (lawful_carbonAssets.insert_sameAt doc data
    (by decide : CollectionName.potentialBalances ≠ .carbonAssets))
  change _ = (FirstWrite.write x.owners (some (a, owner)) b).map codec.account
  rw [hasset]
  have hsome := h.isSome_owners a
  cases hfile : data.asset (codec.hash a) with
  | some old =>
    have hfile' : (data.asset (codec.hash a)).isSome := by rw [hfile]; rfl
    rw [FirstWrite.write_some_of_isSome hfile',
      FirstWrite.write_some_of_isSome (hsome.trans hfile')]
    exact h.owner b
  | none =>
    rw [hfile, Option.isSome_none, Option.isSome_eq_false_iff, Option.isNone_iff_eq_none] at hsome
    rw [FirstWrite.write_some_of_none hfile, FirstWrite.write_some_of_none hsome]
    by_cases hb : b = a
    · rw [hb, Function.update_self, Function.update_self, Option.map_some, howner]
      rfl
    · have hne : codec.hash b ≠ codec.hash a := fun heq => hb (hhash heq)
      rw [Function.update_of_ne hb, Function.update_of_ne hne]
      exact h.owner b

section Events

variable [DecidableEq Hash] {e : Event AccountId Hash}

/-- An event that tells nothing leaves the two collections alone. -/
theorem Indexes.silent (h : Indexes codec x data) (hnew : e.new_asset = none)
    (hreceipt : x.receipt e = none) (hassets : data.SameAt data' .carbonAssets)
    (hbalances : data.SameAt data' .potentialBalances) : Indexes codec (x.hear e) data' := by
  rw [Heard.hear_of_none hnew hreceipt]
  exact h.same hassets hbalances

/-- An event of a receipt, whose handler converts the time and looks the asset up before it
does anything. -/
theorem Indexes.received (h : Indexes codec x data) {now : Moment} {a : Hash}
    {p : AccountId × Hash} (hnew : e.new_asset = none)
    (hreceipt : x.receipt e
      = if now.toNat < 2 ^ 53 ∧ (x.owners a).isSome then some p else none)
    {f : ℕ → CarbonAssetDoc → Handler Unit}
    (hf : ∀ timestamp asset, Indexes codec { x with receipts := x.receipts ++ [p] }
      ((f timestamp asset).exec data)) :
    Indexes codec (x.hear e)
      ((toNumber now >>= fun timestamp => asset_of (codec.hash a) >>= f timestamp).exec data) := by
  rw [exec_toNumber_bind]
  by_cases hnow : now.toNat < 2 ^ 53
  · rw [if_pos hnow, exec_asset_of_bind]
    have hsome := h.isSome_owners a
    cases hfile : data.asset (codec.hash a) with
    | some asset =>
      rw [hfile] at hsome
      rw [Heard.hear_of_receipt hnew (hreceipt.trans (if_pos ⟨hnow, hsome⟩))]
      exact hf now.toNat asset
    | none =>
      rw [hfile] at hsome
      have hnot : ¬(now.toNat < 2 ^ 53 ∧ (x.owners a).isSome) := fun hc =>
        Bool.false_ne_true (hsome.symm.trans hc.2)
      exact h.silent hnew (hreceipt.trans (if_neg hnot)) (.refl data _) (.refl data _)
  · rw [if_neg hnow]
    exact h.silent hnew (hreceipt.trans (if_neg fun hc => hnow hc.1)) (.refl data _)
      (.refl data _)

/-- An insert into a collection without a unique index is never refused. -/
theorem exec_insertAsync_bind_of_free {β D : Type} (c : Collection D)
    (hfree : ∀ doc doc', c.conflict doc doc' = false) (doc : D) (f : Unit → Handler β)
    (data : Data) : (insertAsync c doc >>= f).exec data = (f ()).exec (c.insert doc data) := by
  have hany : (c.docs data).any (c.conflict doc) = false :=
    List.any_eq_false.mpr fun doc' _ => by rw [hfree doc doc']; exact Bool.false_ne_true
  rw [exec_insertAsync_bind, hany]
  exact if_neg Bool.false_ne_true

theorem indexes_AssetSubmited (h : Indexes codec x data) (hhash : Function.Injective codec.hash)
    (project_id asset_id : Hash) (symbol vintage : Bytes) (owner : AccountId) (now : Moment)
    (height : ℕ) :
    Indexes codec
      (x.hear (.carbonAssets (.AssetSubmited project_id asset_id symbol vintage owner now)))
      ((carbonAssets_AssetSubmited codec project_id asset_id symbol vintage owner now height).exec
        data) := by
  unfold carbonAssets_AssetSubmited
  simp only
  rw [exec_toNumber_bind]
  by_cases hnow : now.toNat < 2 ^ 53
  · let doc : CarbonAssetDoc :=
      { projectId := codec.hash project_id, assetId := codec.hash asset_id
        owner := codec.account owner, approved := 0, timestamp := now.toNat
        symbol := codec.utf8 symbol, vintage := codec.utf8 vintage, height }
    have hheard : x.hear (.carbonAssets
        (.AssetSubmited project_id asset_id symbol vintage owner now))
        = { x with owners := FirstWrite.write x.owners (some (asset_id, owner)) } := by
      refine Heard.hear_of_new_asset ?_ rfl
      exact if_pos hnow
    have hannounced := h.announce hhash asset_id owner doc rfl rfl
    rw [if_pos hnow, hheard, exec_insertAsync_bind]
    by_cases hconflict : (carbonAssets.docs data).any (carbonAssets.conflict doc) = true
    · -- the document is refused, and so is the owner
      rw [if_pos hconflict]
      have hrefused : carbonAssets.insert doc data = data := if_pos hconflict
      rwa [hrefused] at hannounced
    · rw [if_neg hconflict, exec_insertAsync]
      exact hannounced.insert lawful_carbonProposals (by decide) (by decide) _
  · rw [if_neg hnow]
    refine h.silent ?_ rfl (.refl data _) (.refl data _)
    exact if_neg hnow

theorem indexes_AssetApproved (h : Indexes codec x data) (asset_id : Hash) :
    Indexes codec (x.hear (.carbonAssets (.AssetApproved asset_id)))
      ((carbonAssets_AssetApproved codec asset_id).exec data) := by
  let data' : Data :=
    { data with
      carbonAssets := Table.modify CarbonAssetDoc.assetId (codec.hash asset_id)
        (fun doc => { doc with approved := 1 }) data.carbonAssets }
  change Indexes codec _ ((asset_of (codec.hash asset_id) >>= fun asset =>
    upsert_potential_balance (constructPotentialBalanceDoc asset.owner (codec.hash asset_id)
      (asset_symbol asset) 0 .carbon) >>= fun _ => close_approved (codec.hash asset_id)).exec
    data')
  -- an approval is no change of the owner
  have h' : Indexes codec x data' := by
    refine h.congr rfl (fun a => ?_) rfl
    rw [← h.owner a]
    unfold Data.asset
    rw [Table.lookup_modify (by exact fun doc hdoc => hdoc)]
    by_cases ha : codec.hash a = codec.hash asset_id
    · rw [ha, Function.update_self, Option.map_map]
      rfl
    · rw [Function.update_of_ne ha]
  rw [exec_asset_of_bind]
  have howner := h'.owner asset_id
  cases hfile : data'.asset (codec.hash asset_id) with
  | some asset =>
    rw [hfile] at howner
    obtain ⟨owner, hheard, hprint⟩ := Option.map_eq_some_iff.mp howner.symm
    rw [Heard.hear_of_receipt rfl (x.receipt_AssetApproved hheard)]
    simp only [← hprint]
    exact (h'.put (owner, asset_id) (asset_symbol asset)).same rfl rfl
  | none =>
    rw [hfile, Option.map_none, eq_comm, Option.map_eq_none_iff] at howner
    exact h'.silent rfl (x.receipt_AssetApproved howner) (.refl data' _) (.refl data' _)

theorem indexes_NewDeal (h : Indexes codec x data) (order_id asset_id money_id : Hash)
    (maker taker : AccountId) (price amount : UInt64) (direction : UInt8) (now : Moment)
    (height : ℕ) :
    Indexes codec
      (x.hear (.carbonExchange (.NewDeal order_id asset_id money_id maker taker price amount
        direction now)))
      ((carbonExchange_NewDeal codec order_id asset_id money_id maker taker price amount direction
        now height).exec data) := by
  refine h.received rfl rfl fun timestamp asset => ?_
  simp only [exec_insertAsync_bind_of_free deals fun _ _ => rfl,
    exec_insertAsync_bind_of_free userDeals fun _ _ => rfl, exec_upsert_potential_balance]
  let doc := deal_doc codec order_id asset_id money_id maker taker price amount direction timestamp
    height (asset_symbol asset)
  have hdeals := h.insert lawful_deals (by decide) (by decide) doc
  have hmaker := hdeals.insert lawful_userDeals (by decide) (by decide) (makerDealDoc doc direction)
  have htaker := hmaker.insert lawful_userDeals (by decide) (by decide) (takerDealDoc doc)
  have hput := htaker.put (if direction = 0 then taker else maker, asset_id) (asset_symbol asset)
  rw [apply_ite codec.account] at hput
  exact hput

variable (api : Api)

/-- **A handler puts on file what its event tells.** -/
theorem process_event_indexes (h : Indexes codec x data) (hhash : Function.Injective codec.hash)
    (height : ℕ) (event : Event AccountId Hash) (hcarbon : ∀ e, event ≠ .standardAssets e) :
    Indexes codec (x.hear event) ((process_event codec api height (.pallet event)).exec data) := by
  have hsilent (hassets : .carbonAssets ∉ touched (.pallet event))
      (hbalances : .potentialBalances ∉ touched (.pallet event))
      (hnew : event.new_asset = none) (hreceipt : x.receipt event = none) :
      Indexes codec (x.hear event) ((process_event codec api height (.pallet event)).exec data) :=
    h.silent hnew hreceipt
      (exec_sameAt (process_event_within codec api height _) hassets data)
      (exec_sameAt (process_event_within codec api height _) hbalances data)
  rw [exec_process_event] at hsilent ⊢
  cases event with
  | carbonAssets event =>
    cases event with
    | AssetSubmited project_id asset_id symbol vintage owner now =>
      exact indexes_AssetSubmited h hhash project_id asset_id symbol vintage owner now height
    | AssetApproved asset_id => exact indexes_AssetApproved h asset_id
    | Transferred asset_id from_ to_ amount now =>
      exact h.received rfl rfl fun timestamp asset => h.put (to_, asset_id) (asset_symbol asset)
    | _ => exact hsilent (by simp [touched]) (by simp [touched]) rfl rfl
  | carbonExchange event =>
    cases event with
    | NewDeal order_id asset_id money_id maker taker price amount direction now =>
      exact indexes_NewDeal h order_id asset_id money_id maker taker price amount direction now
        height
    | _ => exact hsilent (by simp [touched]) (by simp [touched]) rfl rfl
  | standardAssets event => exact absurd rfl (hcarbon event)

/-- What the collections hold when events have been processed is what has been heard. -/
theorem indexes_indexed (hhash : Function.Injective codec.hash) (es : List (Entry AccountId Hash))
    (hcarbon : ∀ e, Event.standardAssets e ∉ pallet_events es) :
    Indexes codec (heard (pallet_events es)) (indexed codec api es) := by
  induction es using List.reverseRecOn with
  | nil => exact indexes_empty
  | append_singleton es e ih =>
    rw [pallet_events_append] at hcarbon
    have hbefore := ih fun e' he' => hcarbon e' (List.mem_append_left _ he')
    obtain ⟨height, record⟩ := e
    rw [indexed_snoc]
    -- the records of other pallets touch neither collection
    have hother (hassets : .carbonAssets ∉ touched record)
        (hbalances : .potentialBalances ∉ touched record)
        (hnone : pallet_event (height, record) = none) :
        Indexes codec (heard (pallet_events (es ++ [(height, record)])))
          ((process_entry codec api (height, record)).exec (indexed codec api es)) := by
      rw [pallet_events_snoc_of_none es hnone]
      exact hbefore.same
        (exec_sameAt (process_event_within codec api height record) hassets _)
        (exec_sameAt (process_event_within codec api height record) hbalances _)
    cases record with
    | pallet event =>
      rw [pallet_events_snoc_pallet, heard_append]
      refine process_event_indexes api hbefore hhash height event fun e he => ?_
      exact hcarbon e (List.mem_append_right _ (he ▸ List.mem_singleton.mpr rfl))
    | carbonCommittee event => exact hother (by simp [touched]) (by simp [touched]) rfl
    | other => exact hother (by simp [touched]) (by simp [touched]) rfl

end Events

end Codec

end Indexer

end Eco2
