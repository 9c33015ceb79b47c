/-
What the indexer keeps about deals.

Of all its collections only three matter to the documents of deals: `deals` and
`userDeals` themselves, and the carbon assets, whose symbol a deal's documents repeat.
`DealIndex` is their content as the deals see it, with the saved block number, and
`DealIndex.handle` what an event is meant to do to it: an announced asset gets its symbol
once, and a deal in a known asset gets one document, and two for its parties. The
handlers do exactly that when they run to the end, and `Interrupted` says what is left
where one of them is interrupted.
-/
import Eco2.Collections

set_option autoImplicit false

namespace Eco2.Indexer

variable {AccountId Hash : Type} (codec : Codec AccountId Hash) (api : Api)

/-! ## The abstract index -/

structure DealIndex where
  symbols : String → Option String
  deals : List DealDoc
  userDeals : List UserDealDoc
  lastBlockNumberFile : ℕ

def Data.index (data : Data) : DealIndex :=
  { symbols := fun assetId =>
      (data.carbonAssets.find? fun doc => doc.assetId == assetId).map asset_symbol
    deals := data.deals
    userDeals := data.userDeals
    lastBlockNumberFile := data.lastBlockNumberFile }

/-- An event, with the height of its block. -/
abbrev Entry (AccountId Hash : Type) := ℕ × Record AccountId Hash

/-- The asset that an event announces, with its symbol; `none` also where the handler
throws for its time. -/
def announced : Entry AccountId Hash → Option (String × String)
  | (_, .pallet (.carbonAssets (.AssetSubmited _ asset_id symbol vintage _ now))) =>
      if now.toNat < 2 ^ 53 then
        some (codec.hash asset_id, codec.utf8 symbol ++ "." ++ codec.utf8 vintage)
      else none
  | _ => none

/-- The document of a deal, without the symbol of its asset. -/
def deal_of : Entry AccountId Hash → Option DealDoc
  | (height, .pallet (.carbonExchange
      (.NewDeal order_id asset_id money_id maker taker price amount direction now))) =>
      some (deal_doc codec order_id asset_id money_id maker taker price amount direction
        now.toNat height "")
  | _ => none

def DealDoc.with_symbol (doc : DealDoc) (assetSymbol : String) : DealDoc :=
  { doc with assetSymbol, pair := assetSymbol ++ "/" ++ "ECO2" }

/-- The documents of a deal's two parties. -/
def DealDoc.parties (doc : DealDoc) : List UserDealDoc :=
  [user_deal_doc doc doc.maker doc.taker (1 - doc.direction), takerDealDoc doc]

/-- The documents of deals that an event adds. -/
def DealIndex.added (x : DealIndex) (e : Entry AccountId Hash) : List DealDoc :=
  match deal_of codec e with
  | some doc =>
      if doc.timestamp < 2 ^ 53 then (x.symbols doc.assetId).toList.map doc.with_symbol else []
  | none => []

/-- What an event does to the index. -/
def DealIndex.handle (x : DealIndex) (e : Entry AccountId Hash) : DealIndex :=
  { x with
    symbols := FirstWrite.write x.symbols (announced codec e)
    deals := x.deals ++ x.added codec e
    userDeals := x.userDeals ++ (x.added codec e).flatMap DealDoc.parties }

/-! ## Operations that do not touch the index -/

/-- The operation inserts no deal, is no write of the file, and leaves the index as it
is. -/
structure Idle (op : Operation) (data data' : Data) : Prop where
  no_deal : op ≠ .insert .deals
  no_save : op ≠ .saveLastBlockNumber
  index : data'.index = data.index

/-- A collection apart from those of the index. -/
structure Collection.Apart {D : Type} (c : Collection D) : Prop where
  name : c.name ≠ .deals
  index : ∀ data docs, (c.set_docs data docs).index = data.index

theorem apart_potentialBalances : potentialBalances.Apart := ⟨nofun, fun _ _ => rfl⟩
theorem apart_carbonProposals : carbonProposals.Apart := ⟨nofun, fun _ _ => rfl⟩

section Apart

variable {D : Type} {c : Collection D}

theorem idle_findOneAsync (c : Collection D) (query : D → Bool) :
    (findOneAsync c query).Always Idle :=
  fun _ => ⟨⟨nofun, nofun, rfl⟩, trivial⟩

theorem Collection.Apart.insertAsync (h : c.Apart) (doc : D) :
    (insertAsync c doc).Always Idle := by
  intro data
  refine ⟨⟨fun hop => h.name (Operation.insert.inj hop), nofun, ?_⟩, ?_⟩
  · unfold Collection.insert
    by_cases hconflict : (c.docs data).any (c.conflict doc) = true
    · rw [if_pos hconflict]
    · rw [if_neg hconflict]
      exact h.index data _
  · by_cases hconflict : (c.docs data).any (c.conflict doc) = true
    · simp only [if_pos hconflict]
      trivial
    · simp only [if_neg hconflict]
      trivial

theorem Collection.Apart.updateAsync (h : c.Apart) (query : D → Bool) (set : D → D) :
    (updateAsync c query set).Always Idle :=
  fun data => ⟨⟨nofun, nofun, h.index data _⟩, trivial⟩

theorem Collection.Apart.upsertAsync (h : c.Apart) (query : D → Bool) (doc : D) :
    (upsertAsync c query doc).Always Idle :=
  fun data => ⟨⟨nofun, nofun, h.index data _⟩, trivial⟩

theorem idle_found (doc : Option D) : (found doc).Always Idle := by
  cases doc with
  | none => trivial
  | some doc => trivial

end Apart

/-- An operation that writes none of the collections of the index. -/
theorem Within.idle {S : List CollectionName} {op : Operation} {data data' : Data}
    (h : Within S op data data') (hassets : .carbonAssets ∉ S) (hdeals : .deals ∉ S)
    (huser : .userDeals ∉ S) : Idle op data data' where
  no_deal hop := hdeals (h.writes .deals (by rw [hop]; rfl))
  no_save := h.no_save
  index := by
    have hsymbols : data'.carbonAssets = data.carbonAssets := h.same .carbonAssets hassets
    have hdeal : data'.deals = data.deals := h.same .deals hdeals
    have huserDeal : data'.userDeals = data.userDeals := h.same .userDeals huser
    unfold Data.index
    rw [hsymbols, hdeal, huserDeal, h.file]

/-- An update of a carbon asset that keeps its identifier and its symbol. -/
theorem idle_update_carbonAssets (assetId : String) (set : CarbonAssetDoc → CarbonAssetDoc)
    (hid : ∀ doc, (set doc).assetId = doc.assetId)
    (hsymbol : ∀ doc, asset_symbol (set doc) = asset_symbol doc) :
    (updateAsync carbonAssets (fun doc => doc.assetId == assetId) set).Always Idle := by
  intro data
  refine ⟨⟨nofun, nofun, ?_⟩, trivial⟩
  have hlookup : Table.lookup CarbonAssetDoc.assetId
      (Table.modify CarbonAssetDoc.assetId assetId set data.carbonAssets)
      = Function.update (Table.lookup CarbonAssetDoc.assetId data.carbonAssets) assetId
        ((Table.lookup CarbonAssetDoc.assetId data.carbonAssets assetId).map set) :=
    Table.lookup_modify (fun doc hdoc => (hid doc).trans hdoc) data.carbonAssets
  unfold Data.index
  congr 1
  funext k
  refine (congrArg (Option.map asset_symbol) (congrFun hlookup k)).trans ?_
  by_cases hk : k = assetId
  · subst hk
    rw [Function.update_self, Option.map_map]
    congr 1
    funext doc
    exact hsymbol doc
  · rw [Function.update_of_ne hk]
    rfl

section Idle

variable {codec api}

theorem idle_close_approved (key : String) : (close_approved key).Always Idle :=
  apart_carbonProposals.updateAsync _ _

theorem idle_asset_of (assetId : String) : (asset_of assetId).Always Idle :=
  (idle_findOneAsync _ _).bind fun asset => idle_found asset

theorem idle_upsert_potential_balance (pbd : PotentialBalanceDoc) :
    (upsert_potential_balance pbd).Always Idle :=
  apart_potentialBalances.upsertAsync _ _

theorem idle_AssetApproved (asset_id : Hash) :
    (carbonAssets_AssetApproved codec asset_id).Always Idle := by
  have hupdate : (updateAsync carbonAssets (fun doc => doc.assetId == codec.hash asset_id)
      fun doc => { doc with approved := 1 }).Always Idle :=
    idle_update_carbonAssets _ _ (fun _ => rfl) fun _ => rfl
  exact hupdate.bind fun _ => (idle_asset_of _).bind fun _ =>
    (idle_upsert_potential_balance _).bind fun _ => idle_close_approved _

end Idle

/-- What operations have done to the deals: as long as no deal is inserted, nothing. -/
structure Touched (ops : List Operation) (x x' : DealIndex) : Prop where
  untouched : .insert .deals ∉ ops → x'.deals = x.deals ∧ x'.userDeals = x.userDeals
  inserted : .insert .deals ∈ ops → x.deals.length < x'.deals.length

theorem Touched.refl {ops : List Operation} {x : DealIndex} (h : .insert .deals ∉ ops) :
    Touched ops x x :=
  ⟨fun _ => ⟨rfl, rfl⟩, fun hmem => absurd hmem h⟩

theorem Touched.le {ops : List Operation} {x x' : DealIndex} (h : Touched ops x x') :
    x.deals.length ≤ x'.deals.length := by
  by_cases hmem : .insert .deals ∈ ops
  · exact Nat.le_of_lt (h.inserted hmem)
  · rw [(h.untouched hmem).1]

theorem Touched.trans {ops ops' : List Operation} {x x' x'' : DealIndex} (h : Touched ops x x')
    (h' : Touched ops' x' x'') : Touched (ops ++ ops') x x'' := by
  constructor
  · intro hnot
    rw [List.mem_append, not_or] at hnot
    obtain ⟨hdeals, huser⟩ := h.untouched hnot.1
    obtain ⟨hdeals', huser'⟩ := h'.untouched hnot.2
    exact ⟨hdeals'.trans hdeals, huser'.trans huser⟩
  · intro hmem
    obtain hmem | hmem := List.mem_append.mp hmem
    · exact Nat.lt_of_lt_of_le (h.inserted hmem) h'.le
    · exact Nat.lt_of_le_of_lt h.le (h'.inserted hmem)

/-- What is left of the index where the handler of an event is interrupted: the symbol is
written or not, and a deal inserted or not, with any number of its parties' documents. -/
structure Interrupted (e : Entry AccountId Hash) (ops : List Operation) (x x' : DealIndex) :
    Prop extends Touched ops x x' where
  symbols : x'.symbols = x.symbols ∨ x'.symbols = FirstWrite.write x.symbols (announced codec e)
  no_save : .saveLastBlockNumber ∉ ops
  file : x'.lastBlockNumberFile = x.lastBlockNumberFile

/-- An idle program does nothing to the index, as far as it gets. -/
theorem idle_interrupt {α : Type} {p : Handler α} (hp : p.Always Idle) (k : ℕ) (data : Data) :
    (.insert .deals ∉ (p.labels data).take k ∧ .saveLastBlockNumber ∉ (p.labels data).take k)
      ∧ (p.interrupt k data).index = data.index := by
  refine hp.interrupt
    (R := fun ops data data' => (.insert .deals ∉ ops ∧ .saveLastBlockNumber ∉ ops)
      ∧ data'.index = data.index) ?_ ?_ k data
  · exact fun data => ⟨⟨List.not_mem_nil, List.not_mem_nil⟩, rfl⟩
  · rintro op ops data data' data'' hidle ⟨⟨hdeal, hsave⟩, hindex⟩
    rw [List.mem_cons, not_or, List.mem_cons, not_or]
    exact ⟨⟨⟨Ne.symm hidle.no_deal, hdeal⟩, ⟨Ne.symm hidle.no_save, hsave⟩⟩,
      hindex.trans hidle.index⟩

theorem idle_exec {α : Type} {p : Handler α} (hp : p.Always Idle) (data : Data) :
    (p.exec data).index = data.index := by
  refine hp.exec (R := fun data data' => data'.index = data.index) (fun _ => rfl) ?_ data
  intro op data data' data'' hidle hindex
  exact hindex.trans hidle.index

/-- Before its first operation a handler has done nothing. -/
theorem interrupted_nil (e : Entry AccountId Hash) (x : DealIndex) :
    Interrupted codec e [] x x :=
  { Touched.refl List.not_mem_nil with
    symbols := .inl rfl, no_save := List.not_mem_nil, file := rfl }

theorem idle_interrupted {p : Handler Unit} (hp : p.Always Idle) (e : Entry AccountId Hash)
    (k : ℕ) (data : Data) :
    Interrupted codec e ((p.labels data).take k) data.index (p.interrupt k data).index := by
  obtain ⟨⟨hdeal, hsave⟩, hindex⟩ := idle_interrupt hp k data
  rw [hindex]
  exact { Touched.refl hdeal with symbols := .inl rfl, no_save := hsave, file := rfl }

/-! ## The handlers -/

section Handlers

/-- Every event but the announcement of an asset and a deal is idle. -/
theorem process_event_idle (height : ℕ) (record : Record AccountId Hash)
    (hasset : ∀ project_id asset_id symbol vintage owner now,
      record ≠ .pallet (.carbonAssets
        (.AssetSubmited project_id asset_id symbol vintage owner now)))
    (hdeal : ∀ order_id asset_id money_id maker taker price amount direction now,
      record ≠ .pallet (.carbonExchange
        (.NewDeal order_id asset_id money_id maker taker price amount direction now))) :
    announced codec (height, record) = none ∧ deal_of codec (height, record) = none
      ∧ (process_event codec api height record).Always Idle := by
  -- none but the approval of an asset touches a collection of the index
  have hwithin := process_event_within codec api height record
  cases record with
  | pallet event =>
    cases event with
    | carbonAssets event =>
      cases event with
      | AssetSubmited project_id asset_id symbol vintage owner now =>
        exact absurd rfl (hasset project_id asset_id symbol vintage owner now)
      | AssetApproved asset_id =>
        exact ⟨rfl, rfl, Program.Always.attempt (idle_AssetApproved asset_id)⟩
      | _ =>
        exact ⟨rfl, rfl, hwithin.mono fun _ _ _ h => h.idle (by simp [touched])
          (by simp [touched]) (by simp [touched])⟩
    | carbonExchange event =>
      cases event with
      | NewDeal order_id asset_id money_id maker taker price amount direction now =>
        exact absurd rfl
          (hdeal order_id asset_id money_id maker taker price amount direction now)
      | _ =>
        exact ⟨rfl, rfl, hwithin.mono fun _ _ _ h => h.idle (by simp [touched])
          (by simp [touched]) (by simp [touched])⟩
    | standardAssets event =>
      cases event with
      | _ =>
        exact ⟨rfl, rfl, hwithin.mono fun _ _ _ h => h.idle (by simp [touched])
          (by simp [touched]) (by simp [touched])⟩
  | carbonCommittee event =>
    exact ⟨rfl, rfl, hwithin.mono fun _ _ _ h => h.idle (by simp [touched])
      (by simp [touched]) (by simp [touched])⟩
  | other => exact ⟨rfl, rfl, trivial⟩

theorem toNumber_bind_of_ge {n : UInt64} (h : ¬n.toNat < 2 ^ 53) (f : ℕ → Handler Unit) :
    (toNumber n >>= f) = .raise .unsafeNumber := by
  unfold toNumber
  rw [if_neg h]
  rfl

section Handle

variable {codec}

theorem added_of_none {x : DealIndex} {e : Entry AccountId Hash} (h : deal_of codec e = none) :
    x.added codec e = [] := by
  unfold DealIndex.added
  rw [h]

theorem added_of_some {x : DealIndex} {e : Entry AccountId Hash} {doc : DealDoc}
    (h : deal_of codec e = some doc) (hnow : doc.timestamp < 2 ^ 53) :
    x.added codec e = (x.symbols doc.assetId).toList.map doc.with_symbol := by
  unfold DealIndex.added
  rw [h]
  exact if_pos hnow

theorem handle_of_not_announced {x : DealIndex} {e : Entry AccountId Hash}
    (hannounced : announced codec e = none) :
    x.handle codec e
      = { x with
          deals := x.deals ++ x.added codec e
          userDeals := x.userDeals ++ (x.added codec e).flatMap DealDoc.parties } := by
  unfold DealIndex.handle
  rw [hannounced]
  rfl

theorem handle_of_none {x : DealIndex} {e : Entry AccountId Hash}
    (hannounced : announced codec e = none) (hdeal : deal_of codec e = none) :
    x.handle codec e = x := by
  rw [handle_of_not_announced hannounced, added_of_none hdeal, List.append_nil, List.flatMap_nil,
    List.append_nil]

end Handle

/-! ### The announcement of an asset -/

/-- Inserting an asset writes its symbol, once. -/
theorem symbols_insert (doc : CarbonAssetDoc) (data : Data) :
    (carbonAssets.insert doc data).index
      = { data.index with
          symbols := FirstWrite.write data.index.symbols
            (some (doc.assetId, asset_symbol doc)) } := by
  rw [keyed_carbonAssets.insert_eq]
  change { data with
    carbonAssets := Table.insert CarbonAssetDoc.assetId doc data.carbonAssets }.index = _
  unfold Data.index
  congr 1
  change (fun assetId => (Table.lookup CarbonAssetDoc.assetId (Table.insert CarbonAssetDoc.assetId
    doc data.carbonAssets) assetId).map asset_symbol) = _
  rw [Table.lookup_insert]
  exact FirstWrite.write_map asset_symbol _ doc.assetId doc

/-- The program of an announcement: the insert of the asset, and what follows it. -/
theorem AssetSubmited_eq (project_id asset_id : Hash) (symbol vintage : Bytes)
    (owner : AccountId) (height : ℕ) {now : Moment} (hnow : now.toNat < 2 ^ 53) :
    ∃ (doc : CarbonAssetDoc) (next : Data → Handler Unit),
      carbonAssets_AssetSubmited codec project_id asset_id symbol vintage owner now height
        = .step (.insert .carbonAssets) (carbonAssets.insert doc) next
      ∧ (∀ data, (next data).Always Idle)
      ∧ announced codec (height, .pallet (.carbonAssets
          (.AssetSubmited project_id asset_id symbol vintage owner now)))
        = some (doc.assetId, asset_symbol doc) := by
  let doc : CarbonAssetDoc :=
    { projectId := codec.hash project_id, assetId := codec.hash asset_id
      owner := codec.account owner, approved := 0, timestamp := now.toNat
      symbol := codec.utf8 symbol, vintage := codec.utf8 vintage, height }
  let proposal : CarbonProposalDoc :=
    proposal_doc ("Proposal for new asset(" ++ doc.symbol ++ "." ++ doc.vintage ++ ")") .asset
      doc.assetId height doc.timestamp
  refine ⟨doc, fun data => (if data.carbonAssets.any (carbonAssets.conflict doc)
    then .raise .uniqueViolated else .done ()) >>= fun _ => insertAsync carbonProposals proposal,
    ?_, fun data => ?_, if_pos hnow⟩
  · unfold carbonAssets_AssetSubmited toNumber
    rw [if_pos hnow]
    rfl
  · dsimp only
    by_cases hconflict : data.carbonAssets.any (carbonAssets.conflict doc) = true
    · rw [if_pos hconflict]
      trivial
    · rw [if_neg hconflict]
      exact apart_carbonProposals.insertAsync proposal

/-! ### A deal -/

theorem insertAsync_deals (doc : DealDoc) :
    insertAsync deals doc
      = .step (.insert .deals) (fun data => { data with deals := data.deals ++ [doc] })
        fun _ => .done () := by
  unfold insertAsync Collection.insert
  congr 1
  · funext data
    exact if_neg (by simp [deals])
  · funext data
    exact if_neg (by simp [deals])

theorem insertAsync_userDeals (doc : UserDealDoc) :
    insertAsync userDeals doc
      = .step (.insert .userDeals) (fun data => { data with userDeals := data.userDeals ++ [doc] })
        fun _ => .done () := by
  unfold insertAsync Collection.insert
  congr 1
  · funext data
    exact if_neg (by simp [userDeals])
  · funext data
    exact if_neg (by simp [userDeals])

/-- After the insert of the deal, only its parties' documents and what is idle follow. -/
structure AfterDeal (op : Operation) (data data' : Data) : Prop where
  no_save : op ≠ .saveLastBlockNumber
  deals : data'.deals = data.deals
  symbols : data'.index.symbols = data.index.symbols
  file : data'.lastBlockNumberFile = data.lastBlockNumberFile

theorem afterDeal_parties (doc doc' : UserDealDoc) {rest : Handler Unit}
    (hrest : rest.Always Idle) :
    (insertAsync userDeals doc >>= fun _ => insertAsync userDeals doc' >>= fun _ =>
      rest).Always AfterDeal := by
  have hinsert (doc : UserDealDoc) : (insertAsync userDeals doc).Always AfterDeal := by
    rw [insertAsync_userDeals]
    exact fun data => ⟨⟨nofun, rfl, rfl, rfl⟩, trivial⟩
  refine (hinsert doc).bind fun _ => (hinsert doc').bind fun _ => hrest.mono ?_
  exact fun op data data' hidle => ⟨hidle.no_save, congrArg DealIndex.deals hidle.index,
    congrArg DealIndex.symbols hidle.index, congrArg DealIndex.lastBlockNumberFile hidle.index⟩

theorem afterDeal_interrupt {p : Handler Unit} (hp : p.Always AfterDeal) (k : ℕ) (data : Data) :
    .saveLastBlockNumber ∉ (p.labels data).take k ∧ (p.interrupt k data).deals = data.deals
      ∧ (p.interrupt k data).index.symbols = data.index.symbols
      ∧ (p.interrupt k data).lastBlockNumberFile = data.lastBlockNumberFile := by
  refine hp.interrupt (R := fun ops data data' => .saveLastBlockNumber ∉ ops
    ∧ data'.deals = data.deals ∧ data'.index.symbols = data.index.symbols
    ∧ data'.lastBlockNumberFile = data.lastBlockNumberFile) ?_ ?_ k data
  · exact fun data => ⟨List.not_mem_nil, rfl, rfl, rfl⟩
  · rintro op ops data data' data'' hafter ⟨hsave, hdeals, hsymbols, hfile⟩
    rw [List.mem_cons, not_or]
    exact ⟨⟨Ne.symm hafter.no_save, hsave⟩, hdeals.trans hafter.deals,
      hsymbols.trans hafter.symbols, hfile.trans hafter.file⟩

/-- The program of a deal: the look-up of the asset, which may fail, and then the inserts
of the deal and of its parties' documents. -/
theorem NewDeal_eq (order_id asset_id money_id : Hash) (maker taker : AccountId)
    (price amount : UInt64) (direction : UInt8) (height : ℕ) {now : Moment}
    (hnow : now.toNat < 2 ^ 53) :
    ∃ (doc : DealDoc) (next : Data → Handler Unit),
      carbonExchange_NewDeal codec order_id asset_id money_id maker taker price amount direction
          now height
        = .step (.findOne .carbonAssets) id next
      ∧ deal_of codec (height, .pallet (.carbonExchange
          (.NewDeal order_id asset_id money_id maker taker price amount direction now))) = some doc
      ∧ doc.timestamp = now.toNat
      ∧ (∀ data, data.index.symbols doc.assetId = none → next data = .raise .nullDocument)
      ∧ ∀ data symbol, data.index.symbols doc.assetId = some symbol →
        ∃ rest : Handler Unit,
          next data = .step (.insert .deals)
            (fun data => { data with deals := data.deals ++ [doc.with_symbol symbol] })
            (fun _ => rest)
          ∧ rest.Always AfterDeal
          ∧ ∀ data, (rest.exec data).index
            = { data.index with
                userDeals := data.userDeals ++ (doc.with_symbol symbol).parties } := by
  let doc : DealDoc :=
    deal_doc codec order_id asset_id money_id maker taker price amount direction now.toNat height ""
  let balance (symbol : String) : PotentialBalanceDoc :=
    constructPotentialBalanceDoc (if direction = 0 then doc.taker else doc.maker) doc.assetId
      symbol 0 .carbon
  let parties (symbol : String) : Handler Unit :=
    insertAsync userDeals (makerDealDoc (doc.with_symbol symbol) direction) >>= fun _ =>
      insertAsync userDeals (takerDealDoc (doc.with_symbol symbol)) >>= fun _ =>
      upsert_potential_balance (balance symbol)
  refine ⟨doc, fun data => found (data.carbonAssets.find? fun asset => asset.assetId == doc.assetId)
    >>= fun asset => insertAsync deals (doc.with_symbol (asset_symbol asset)) >>= fun _ =>
      parties (asset_symbol asset), ?_, rfl, rfl, fun data hnone => ?_, fun data symbol hsome => ?_⟩
  · unfold carbonExchange_NewDeal toNumber
    rw [if_pos hnow]
    rfl
  · have hfind := Option.map_eq_none_iff.mp hnone
    dsimp only
    rw [hfind]
    rfl
  · obtain ⟨asset, hfind, rfl⟩ := Option.map_eq_some_iff.mp hsome
    refine ⟨parties (asset_symbol asset), ?_, ?_, fun data => ?_⟩
    · dsimp only
      rw [hfind]
      change (insertAsync deals (doc.with_symbol (asset_symbol asset)) >>= fun _ =>
        parties (asset_symbol asset)) = _
      rw [insertAsync_deals]
      rfl
    · exact afterDeal_parties _ _ (idle_upsert_potential_balance _)
    · simp only [parties]
      rw [insertAsync_userDeals, insertAsync_userDeals]
      refine (idle_exec (idle_upsert_potential_balance (balance (asset_symbol asset))) _).trans ?_
      have hparties : (doc.with_symbol (asset_symbol asset)).parties
          = [makerDealDoc (doc.with_symbol (asset_symbol asset)) direction,
            takerDealDoc (doc.with_symbol (asset_symbol asset))] := by
        have hdirection : 1 - (doc.with_symbol (asset_symbol asset)).direction = direction.toNat :=
          Int.sub_sub_self 1 direction.toNat
        unfold DealDoc.parties makerDealDoc
        rw [hdirection]
      unfold Data.index
      congr 1
      rw [hparties, List.append_cons]

/-! ### Every event -/

section AssetSubmited

variable (project_id asset_id : Hash) (symbol vintage : Bytes) (owner : AccountId)
  (now : Moment) (height : ℕ) (data : Data)

theorem AssetSubmited_index :
    ((carbonAssets_AssetSubmited codec project_id asset_id symbol vintage owner now height).exec
        data).index
      = data.index.handle codec (height, .pallet (.carbonAssets
        (.AssetSubmited project_id asset_id symbol vintage owner now))) := by
  by_cases hnow : now.toNat < 2 ^ 53
  · obtain ⟨doc, next, heq, hnext, hannounced⟩ := AssetSubmited_eq codec project_id
      asset_id symbol vintage owner height hnow
    rw [heq]
    refine (idle_exec (hnext data) (carbonAssets.insert doc data)).trans ?_
    unfold DealIndex.handle
    rw [symbols_insert, hannounced, added_of_none rfl, List.append_nil, List.flatMap_nil,
      List.append_nil]
  · unfold carbonAssets_AssetSubmited
    rw [toNumber_bind_of_ge hnow, handle_of_none ?_ rfl]
    · rfl
    · exact if_neg hnow

theorem AssetSubmited_interrupted (k : ℕ) :
    Interrupted codec (height, .pallet (.carbonAssets
        (.AssetSubmited project_id asset_id symbol vintage owner now)))
      (((carbonAssets_AssetSubmited codec project_id asset_id symbol vintage owner now
        height).labels data).take k) data.index
      ((carbonAssets_AssetSubmited codec project_id asset_id symbol vintage owner now
        height).interrupt k data).index := by
  by_cases hnow : now.toNat < 2 ^ 53
  · obtain ⟨doc, next, heq, hnext, hannounced⟩ := AssetSubmited_eq codec project_id
      asset_id symbol vintage owner height hnow
    rw [heq]
    cases k with
    | zero => exact interrupted_nil codec _ _
    | succ k =>
      -- the insert has been made, and only what is idle follows
      obtain ⟨⟨hdeal, hsave⟩, hindex⟩ :=
        idle_interrupt (hnext data) k (carbonAssets.insert doc data)
      change Interrupted codec _ (.insert .carbonAssets :: _) data.index
        ((next data).interrupt k (carbonAssets.insert doc data)).index
      rw [hindex, symbols_insert, ← hannounced]
      refine { untouched := fun _ => ⟨rfl, rfl⟩, inserted := fun hmem => ?_,
               symbols := .inr rfl, no_save := ?_, file := rfl }
      · exact absurd ((List.mem_cons.mp hmem).resolve_left nofun) hdeal
      · exact fun hmem => hsave ((List.mem_cons.mp hmem).resolve_left nofun)
  · unfold carbonAssets_AssetSubmited
    rw [toNumber_bind_of_ge hnow]
    exact idle_interrupted codec (Program.always_raise _) _ k data

end AssetSubmited

section NewDeal

variable (order_id asset_id money_id : Hash) (maker taker : AccountId) (price amount : UInt64)
  (direction : UInt8) (now : Moment) (height : ℕ) (data : Data)

theorem NewDeal_index :
    ((carbonExchange_NewDeal codec order_id asset_id money_id maker taker price amount direction
        now height).exec data).index
      = data.index.handle codec (height, .pallet (.carbonExchange
        (.NewDeal order_id asset_id money_id maker taker price amount direction now))) := by
  rw [handle_of_not_announced rfl]
  by_cases hnow : now.toNat < 2 ^ 53
  · obtain ⟨doc, next, heq, hdeal, htime, hunknown, hknown⟩ := NewDeal_eq codec order_id
      asset_id money_id maker taker price amount direction height hnow
    rw [heq, added_of_some hdeal (htime.trans_lt hnow)]
    change ((next data).exec data).index = _
    cases hsymbol : data.index.symbols doc.assetId with
    | none =>
      rw [hunknown data hsymbol]
      simp only [Option.toList_none, List.map_nil, List.append_nil, List.flatMap_nil]
      rfl
    | some symbol =>
      obtain ⟨rest, hrest, -, hparties⟩ := hknown data symbol hsymbol
      rw [hrest]
      refine (hparties _).trans ?_
      simp only [Option.toList_some, List.map_cons, List.map_nil, List.flatMap_cons,
        List.flatMap_nil, List.append_nil]
      rfl
  · unfold carbonExchange_NewDeal
    rw [toNumber_bind_of_ge hnow]
    have hnone : data.index.added codec (height, .pallet (.carbonExchange
        (.NewDeal order_id asset_id money_id maker taker price amount direction now))) = [] :=
      if_neg hnow
    rw [hnone, List.append_nil, List.flatMap_nil, List.append_nil]
    rfl

theorem NewDeal_interrupted (k : ℕ) :
    Interrupted codec (height, .pallet (.carbonExchange
        (.NewDeal order_id asset_id money_id maker taker price amount direction now)))
      (((carbonExchange_NewDeal codec order_id asset_id money_id maker taker price amount
        direction now height).labels data).take k) data.index
      ((carbonExchange_NewDeal codec order_id asset_id money_id maker taker price amount direction
        now height).interrupt k data).index := by
  by_cases hnow : now.toNat < 2 ^ 53
  · obtain ⟨doc, next, heq, -, -, hunknown, hknown⟩ := NewDeal_eq codec order_id
      asset_id money_id maker taker price amount direction height hnow
    rw [heq]
    -- before the look-up, and before the insert of the deal
    obtain _ | k := k
    · exact interrupted_nil codec _ _
    cases hsymbol : data.index.symbols doc.assetId with
    | none =>
      have hraise : (Program.step (.findOne .carbonAssets) id next : Handler Unit).interrupt
          (k + 1) data = data := by
        change (next data).interrupt k data = data
        rw [hunknown data hsymbol]
        cases k <;> rfl
      have hlabels : (Program.step (.findOne .carbonAssets) id next : Handler Unit).labels data
          = [.findOne .carbonAssets] := by
        change _ :: (next data).labels data = _
        rw [hunknown data hsymbol]
        rfl
      rw [hraise, hlabels]
      refine { Touched.refl (fun hmem => ?_) with
               symbols := .inl rfl, file := rfl, no_save := fun hmem => ?_ }
      · exact absurd (List.mem_singleton.mp (List.mem_of_mem_take hmem)) nofun
      · exact absurd (List.mem_singleton.mp (List.mem_of_mem_take hmem)) nofun
    | some symbol =>
      obtain ⟨rest, hrest, hafter, -⟩ := hknown data symbol hsymbol
      change Interrupted codec _ (.findOne .carbonAssets :: ((next data).labels data).take k)
        data.index ((next data).interrupt k data).index
      rw [hrest]
      obtain _ | k := k
      · exact { Touched.refl (by simp) with symbols := .inl rfl, file := rfl, no_save := by simp }
      obtain ⟨hsave, hdeals, hsymbols, hfile⟩ := afterDeal_interrupt hafter k
        { data with deals := data.deals ++ [doc.with_symbol symbol] }
      refine { untouched := fun hnot => absurd ?_ hnot, inserted := fun _ => ?_,
               symbols := .inl hsymbols, no_save := fun hmem => hsave ?_, file := hfile }
      · exact List.mem_cons_of_mem _ List.mem_cons_self
      · change data.deals.length < (rest.interrupt k _).deals.length
        rw [hdeals, List.length_append]
        exact Nat.lt_succ_self _
      · exact (List.mem_cons.mp ((List.mem_cons.mp hmem).resolve_left nofun)).resolve_left nofun
  · unfold carbonExchange_NewDeal
    rw [toNumber_bind_of_ge hnow]
    exact idle_interrupted codec (Program.always_raise _) _ k data

end NewDeal

/-- **The handlers refine the abstract index.** Run to its end, the handler of an event
does to the index what the event is meant to; interrupted after any number of operations,
it leaves it as `Interrupted` says. -/
theorem process_event_refines (height : ℕ) (record : Record AccountId Hash) (data : Data) :
    ((process_event codec api height record).exec data).index
        = data.index.handle codec (height, record)
      ∧ ∀ k, Interrupted codec (height, record)
        (((process_event codec api height record).labels data).take k) data.index
        ((process_event codec api height record).interrupt k data).index := by
  by_cases hasset : ∃ project_id asset_id symbol vintage owner now,
      record = .pallet (.carbonAssets
        (.AssetSubmited project_id asset_id symbol vintage owner now))
  · obtain ⟨project_id, asset_id, symbol, vintage, owner, now, rfl⟩ := hasset
    constructor
    · refine (congrArg Data.index (Program.attempt_exec _ data)).trans ?_
      exact AssetSubmited_index codec project_id asset_id symbol vintage owner now height data
    · intro k
      have h := AssetSubmited_interrupted codec project_id asset_id symbol vintage owner now
        height data k
      rwa [← Program.attempt_labels, ← Program.attempt_interrupt] at h
  by_cases hdeal : ∃ order_id asset_id money_id maker taker price amount direction now,
      record = .pallet (.carbonExchange
        (.NewDeal order_id asset_id money_id maker taker price amount direction now))
  · obtain ⟨order_id, asset_id, money_id, maker, taker, price, amount, direction, now, rfl⟩ :=
      hdeal
    constructor
    · refine (congrArg Data.index (Program.attempt_exec _ data)).trans ?_
      exact NewDeal_index codec order_id asset_id money_id maker taker price amount direction now
        height data
    · intro k
      have h := NewDeal_interrupted codec order_id asset_id money_id maker taker price amount
        direction now height data k
      rwa [← Program.attempt_labels, ← Program.attempt_interrupt] at h
  · obtain ⟨hannounced, hnone, hidle⟩ := process_event_idle codec api height record
      (fun _ _ _ _ _ _ heq => hasset ⟨_, _, _, _, _, _, heq⟩)
      fun _ _ _ _ _ _ _ _ _ heq => hdeal ⟨_, _, _, _, _, _, _, _, _, heq⟩
    rw [idle_exec hidle, handle_of_none hannounced hnone]
    exact ⟨rfl, fun k => idle_interrupted codec hidle _ k data⟩

end Handlers

end Eco2.Indexer
