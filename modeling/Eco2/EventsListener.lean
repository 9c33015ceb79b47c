/-
`example/events-listener.ts`: the collections, the event handlers, and the loops that
feed them.

A handler is a program whose operations are those of the embedded document store, each
taken to be atomic and durable. The store throws where an insert violates a unique
index, `toNumber` throws from `2 ^ 53` on, and reading a field of a document that was
not found throws too; `processEventsAtBlockHash` catches what a handler throws and goes
on with the next event. What is only printed is left out, and so are the requests for
blocks, whose rejection stops the process like a crash between two operations. The query
server is in `QueryServer.lean`.
-/
import Eco2.ParseInt
import Eco2.Program
import Eco2.Storage

set_option autoImplicit false

namespace Eco2.Indexer

/-! ## The documents -/

structure CarbonProjectDoc where
  projectId : String
  owner : String
  symbol : String
  approved : ℕ
  timestamp : ℕ
  height : ℕ
  deriving DecidableEq

structure CarbonAssetDoc where
  projectId : String
  assetId : String
  owner : String
  approved : ℕ
  timestamp : ℕ
  symbol : String
  vintage : String
  height : ℕ
  deriving DecidableEq

/-- What a proposal is for. -/
inductive ProposalType
  | project
  | asset
  | issue
  | burn
  deriving DecidableEq

/-- `approved` and `threshold` are not there when the document is inserted. -/
structure CarbonProposalDoc where
  title : String
  type : ProposalType
  proposalId : String
  proposalIndex : ℤ
  key : String
  height : ℕ
  ayes : ℕ
  nays : ℕ
  state : ℕ
  timestamp : ℕ
  approved : Option ℕ
  threshold : Option ℕ
  deriving DecidableEq

structure OrderDoc where
  orderId : String
  owner : String
  closed : ℕ
  direction : ℕ
  timestamp : ℕ
  assetId : String
  moneyId : String
  assetSymbol : String
  moneySymbol : String
  pair : String
  height : ℕ
  deriving DecidableEq

structure DealDoc where
  orderId : String
  maker : String
  taker : String
  price : String
  amount : String
  timestamp : ℕ
  direction : ℤ
  assetId : String
  moneyId : String
  assetSymbol : String
  moneySymbol : String
  pair : String
  height : ℕ
  deriving DecidableEq

structure UserDealDoc where
  orderId : String
  owner : String
  counterparty : String
  price : String
  amount : String
  timestamp : ℕ
  direction : ℤ
  assetId : String
  moneyId : String
  assetSymbol : String
  moneySymbol : String
  pair : String
  height : ℕ
  deriving DecidableEq

structure StandardAssetDoc where
  assetId : String
  symbol : String
  owner : String
  timestamp : ℕ
  decimals : ℕ
  height : ℕ
  deriving DecidableEq

inductive BalanceType
  | carbon
  | standard
  deriving DecidableEq

structure PotentialBalanceDoc where
  key : String
  account : String
  assetId : String
  type : BalanceType
  symbol : String
  decimals : ℕ
  deriving DecidableEq

/-! ## The collections -/

/-- The directory `./.data`: the collections, in the order of insertion, and the file
of the last block number. -/
structure Data where
  carbonProjects : List CarbonProjectDoc
  carbonAssets : List CarbonAssetDoc
  orders : List OrderDoc
  deals : List DealDoc
  userDeals : List UserDealDoc
  standardAssets : List StandardAssetDoc
  potentialBalances : List PotentialBalanceDoc
  carbonProposals : List CarbonProposalDoc
  lastBlockNumberFile : ℕ
  deriving DecidableEq

/-- Before the first run: no collection, and no file, for which zero is read. -/
def Data.empty : Data :=
  { carbonProjects := [], carbonAssets := [], orders := [], deals := [], userDeals := [],
    standardAssets := [], potentialBalances := [], carbonProposals := [],
    lastBlockNumberFile := 0 }

/-- The names of the collections. -/
inductive CollectionName
  | carbonProjects
  | carbonAssets
  | orders
  | deals
  | userDeals
  | standardAssets
  | potentialBalances
  | carbonProposals
  deriving DecidableEq

/-- The operations of the store, and the write of the file. -/
inductive Operation
  | findOne (name : CollectionName)
  | insert (name : CollectionName)
  | update (name : CollectionName)
  | saveLastBlockNumber
  deriving DecidableEq

/-- What a handler throws. -/
inductive JsError
  /-- An insert violates a unique index. -/
  | uniqueViolated
  /-- A field is read of a document that was not found. -/
  | nullDocument
  /-- `toNumber` of a number above 53 bits. -/
  | unsafeNumber
  /-- A request to the node is rejected. -/
  | rejected
  deriving DecidableEq

abbrev Handler := Program Operation JsError Data

/-- A collection, and when two of its documents violate a unique index of `initDB`. -/
structure Collection (D : Type) where
  name : CollectionName
  docs : Data → List D
  set_docs : Data → List D → Data
  conflict : D → D → Bool

def carbonProjects : Collection CarbonProjectDoc where
  name := .carbonProjects
  docs := Data.carbonProjects
  set_docs data docs := { data with carbonProjects := docs }
  conflict doc doc' := doc.projectId == doc'.projectId

def carbonAssets : Collection CarbonAssetDoc where
  name := .carbonAssets
  docs := Data.carbonAssets
  set_docs data docs := { data with carbonAssets := docs }
  conflict doc doc' := doc.assetId == doc'.assetId

def orders : Collection OrderDoc where
  name := .orders
  docs := Data.orders
  set_docs data docs := { data with orders := docs }
  conflict doc doc' := doc.orderId == doc'.orderId

/-- The indexes of `deals` are not unique. -/
def deals : Collection DealDoc where
  name := .deals
  docs := Data.deals
  set_docs data docs := { data with deals := docs }
  conflict _ _ := false

/-- Nor are those of `userDeals`. -/
def userDeals : Collection UserDealDoc where
  name := .userDeals
  docs := Data.userDeals
  set_docs data docs := { data with userDeals := docs }
  conflict _ _ := false

def standardAssets : Collection StandardAssetDoc where
  name := .standardAssets
  docs := Data.standardAssets
  set_docs data docs := { data with standardAssets := docs }
  conflict doc doc' := doc.assetId == doc'.assetId

def potentialBalances : Collection PotentialBalanceDoc where
  name := .potentialBalances
  docs := Data.potentialBalances
  set_docs data docs := { data with potentialBalances := docs }
  conflict doc doc' := doc.key == doc'.key

def carbonProposals : Collection CarbonProposalDoc where
  name := .carbonProposals
  docs := Data.carbonProposals
  set_docs data docs := { data with carbonProposals := docs }
  conflict doc doc' := doc.key == doc'.key

/-! ## The operations -/

section Operations

variable {D : Type} (c : Collection D)

def findOneAsync (query : D → Bool) : Handler (Option D) :=
  .step (.findOne c.name) id fun data => .done ((c.docs data).find? query)

/-- An insert that violates a unique index changes nothing. -/
def Collection.insert (doc : D) (data : Data) : Data :=
  if (c.docs data).any (c.conflict doc) then data else c.set_docs data (c.docs data ++ [doc])

def insertAsync (doc : D) : Handler Unit :=
  .step (.insert c.name) (c.insert doc) fun data =>
    if (c.docs data).any (c.conflict doc) then .raise .uniqueViolated else .done ()

/-- An update of the first document that matches. It cannot violate an index: the handlers
set no field that has a unique one. -/
def updateAsync (query : D → Bool) (set : D → D) : Handler Unit :=
  .step (.update c.name)
    (fun data => c.set_docs data
      ((c.docs data).replaceF fun doc => if query doc then some (set doc) else none))
    fun _ => .done ()

/-- An update with `upsert` that replaces the document, or inserts it. -/
def upsertAsync (query : D → Bool) (doc : D) : Handler Unit :=
  .step (.update c.name)
    (fun data => c.set_docs data
      (if (c.docs data).any query then
        (c.docs data).replaceF fun old => if query old then some doc else none
      else c.docs data ++ [doc]))
    fun _ => .done ()

/-- Reading a field of what `findOne` has found. -/
def found : Option D → Handler D
  | some doc => pure doc
  | none => .raise .nullDocument

/-- `toNumber` of a `u64`. -/
def toNumber (n : UInt64) : Handler ℕ :=
  if n.toNat < 2 ^ 53 then pure n.toNat else .raise .unsafeNumber

def saveLastBlockNumber (n : ℕ) : Handler Unit :=
  .step .saveLastBlockNumber (fun data => { data with lastBlockNumberFile := n }) fun _ => .done ()

/-- What is read of the file, if it is there; `none` is `NaN`. -/
def readLastBlockNumber : Option String → Option ℤ
  | some content => parseInt content
  | none => some 0

/-- The file holds the number printed, so it is read as the number that was saved. -/
theorem readLastBlockNumber_toString (n : ℕ) :
    readLastBlockNumber (some (toString n)) = some (n : ℤ) :=
  parseInt_toString n

end Operations

/-! ## The events -/

/-- The events of the `carbonCommittee`, an instance of `pallet_collective`. -/
inductive CommitteeEvent (AccountId Hash : Type)
  | Proposed (account : AccountId) (proposal_index : UInt32) (proposal_hash : Hash)
      (threshold : UInt32)
  | Voted (account : AccountId) (proposal_hash : Hash) (voted : Bool) (yes no : UInt32)
  | Approved (proposal_hash : Hash)
  | Disapproved (proposal_hash : Hash)
  | Executed (proposal_hash : Hash)
  | MemberExecuted (proposal_hash : Hash)
  | Closed (proposal_hash : Hash) (yes no : UInt32)
  deriving DecidableEq

/-- An event record of a block; `other` is one of a pallet without handlers. -/
inductive Record (AccountId Hash : Type)
  | pallet (event : Event AccountId Hash)
  | carbonCommittee (event : CommitteeEvent AccountId Hash)
  | other
  deriving DecidableEq

/-- How the client library prints what events carry, and decodes their bytes. -/
structure Codec (AccountId Hash : Type) where
  account : AccountId → String
  hash : Hash → String
  utf8 : Bytes → String

/-- The answer of the node to `proposalOf`, as JSON: a call and its arguments. -/
structure Proposal where
  callIndex : String
  args : String → Option String

/-- What the node answers, or `none` where it rejects the request. -/
structure Api where
  proposalOf : String → Option (Option Proposal)

/-! ## The handlers -/

section Handlers

variable {AccountId Hash : Type} (codec : Codec AccountId Hash) (api : Api)

def constructPotentialBalanceDoc (account assetId symbol : String) (decimals : ℕ)
    (type : BalanceType) : PotentialBalanceDoc :=
  { key := String.ofList (account.toList.take 6) ++ ":" ++ String.ofList (assetId.toList.take 8)
    account, assetId, type, symbol, decimals }

/-- `updateAsync(db.potentialBalances)({ key: pbd.key }, pbd, { upsert: true })`. -/
def upsert_potential_balance (pbd : PotentialBalanceDoc) : Handler Unit :=
  upsertAsync potentialBalances (fun doc => doc.key == pbd.key) pbd

/-- The document of a proposal that nobody has voted on. -/
def proposal_doc (title : String) (type : ProposalType) (key : String) (height timestamp : ℕ) :
    CarbonProposalDoc :=
  { title, type, proposalId := "", proposalIndex := -1, key, height, ayes := 0, nays := 0,
    state := 0, timestamp, approved := none, threshold := none }

/-- `updateAsync(db.carbonProposals)({ key }, { $set: { state: 2, approved: 1 } }, {})`. -/
def close_approved (key : String) : Handler Unit :=
  updateAsync carbonProposals (fun doc => doc.key == key) fun doc =>
    { doc with state := 2, approved := some 1 }

/-- The asset of an event, of which a field is read. -/
def asset_of (assetId : String) : Handler CarbonAssetDoc := do
  let asset ← findOneAsync carbonAssets fun doc => doc.assetId == assetId
  found asset

def asset_symbol (asset : CarbonAssetDoc) : String := asset.symbol ++ "." ++ asset.vintage

def carbonAssets_ProjectSubmited (project_id : Hash) (owner : AccountId) (symbol : Bytes)
    (now : Moment) (height : ℕ) : Handler Unit := do
  let projectId := codec.hash project_id
  let symbol := codec.utf8 symbol
  let timestamp ← toNumber now
  insertAsync carbonProjects
    { projectId, owner := codec.account owner, symbol, approved := 0, timestamp, height }
  insertAsync carbonProposals
    (proposal_doc ("Proposal for new project(" ++ symbol ++ ")") .project projectId height
      timestamp)

def carbonAssets_ProjectApproved (project_id : Hash) : Handler Unit := do
  let projectId := codec.hash project_id
  updateAsync carbonProjects (fun doc => doc.projectId == projectId) fun doc =>
    { doc with approved := 1 }
  close_approved projectId

def carbonAssets_AssetSubmited (project_id asset_id : Hash) (symbol vintage : Bytes)
    (owner : AccountId) (now : Moment) (height : ℕ) : Handler Unit := do
  let projectId := codec.hash project_id
  let assetId := codec.hash asset_id
  let symbol := codec.utf8 symbol
  let vintage := codec.utf8 vintage
  let timestamp ← toNumber now
  insertAsync carbonAssets
    { projectId, assetId, owner := codec.account owner, approved := 0, timestamp, symbol,
      vintage, height }
  insertAsync carbonProposals
    (proposal_doc ("Proposal for new asset(" ++ symbol ++ "." ++ vintage ++ ")") .asset assetId
      height timestamp)

def carbonAssets_AssetApproved (asset_id : Hash) : Handler Unit := do
  let assetId := codec.hash asset_id
  updateAsync carbonAssets (fun doc => doc.assetId == assetId) fun doc =>
    { doc with approved := 1 }
  let asset ← asset_of assetId
  upsert_potential_balance
    (constructPotentialBalanceDoc asset.owner assetId (asset_symbol asset) 0 .carbon)
  close_approved assetId

/-- What the handlers of `IssueSubmited` and `BurnSubmited` do. -/
def request_submited (title : String) (type : ProposalType) (request_id asset_id : Hash)
    (now : Moment) (height : ℕ) : Handler Unit := do
  let timestamp ← toNumber now
  let asset ← asset_of (codec.hash asset_id)
  insertAsync carbonProposals
    (proposal_doc (title ++ "(" ++ asset_symbol asset ++ ")") type (codec.hash request_id) height
      timestamp)

def carbonAssets_IssueSubmited (issue_id asset_id : Hash) (now : Moment) (height : ℕ) :
    Handler Unit :=
  request_submited codec "Proposal for new issuing asset" .issue issue_id asset_id now height

def carbonAssets_IssueApproved (issue_id : Hash) : Handler Unit :=
  close_approved (codec.hash issue_id)

def carbonAssets_BurnSubmited (burn_id asset_id : Hash) (now : Moment) (height : ℕ) :
    Handler Unit :=
  request_submited codec "Proposal for burning asset" .burn burn_id asset_id now height

def carbonAssets_BurnApproved (burn_id : Hash) : Handler Unit :=
  close_approved (codec.hash burn_id)

/-- The time is converted, and so may throw, for nothing but the log. -/
def carbonAssets_Transferred (asset_id : Hash) (to_ : AccountId) (now : Moment) :
    Handler Unit := do
  let assetId := codec.hash asset_id
  let _ ← toNumber now
  let asset ← asset_of assetId
  upsert_potential_balance
    (constructPotentialBalanceDoc (codec.account to_) assetId (asset_symbol asset) 0 .carbon)

def carbonExchange_NewOrder (order_id : Hash) (maker : AccountId) (asset_id money_id : Hash)
    (direction : UInt8) (now : Moment) (height : ℕ) : Handler Unit := do
  let assetId := codec.hash asset_id
  let timestamp ← toNumber now
  let asset ← asset_of assetId
  let assetSymbol := asset_symbol asset
  let moneySymbol := "ECO2"
  insertAsync orders
    { orderId := codec.hash order_id, owner := codec.account maker, closed := 0
      direction := direction.toNat, timestamp, assetId, moneyId := codec.hash money_id
      assetSymbol, moneySymbol, pair := assetSymbol ++ "/" ++ moneySymbol, height }

/-- The document of a deal, whose direction is the taker's. -/
def deal_doc (order_id asset_id money_id : Hash) (maker taker : AccountId)
    (price amount : UInt64) (direction : UInt8) (timestamp height : ℕ) (assetSymbol : String) :
    DealDoc :=
  { orderId := codec.hash order_id, maker := codec.account maker, taker := codec.account taker
    price := toString price, amount := toString amount, timestamp
    direction := 1 - (direction.toNat : ℤ), assetId := codec.hash asset_id
    moneyId := codec.hash money_id, assetSymbol, moneySymbol := "ECO2"
    pair := assetSymbol ++ "/" ++ "ECO2", height }

/-- The document of a deal as of one of its two parties. -/
def user_deal_doc (deal : DealDoc) (owner counterparty : String) (direction : ℤ) :
    UserDealDoc :=
  { orderId := deal.orderId, owner, counterparty, price := deal.price, amount := deal.amount
    timestamp := deal.timestamp, direction, assetId := deal.assetId, moneyId := deal.moneyId
    assetSymbol := deal.assetSymbol, moneySymbol := deal.moneySymbol, pair := deal.pair
    height := deal.height }

def makerDealDoc (deal : DealDoc) (direction : UInt8) : UserDealDoc :=
  user_deal_doc deal deal.maker deal.taker direction.toNat

def takerDealDoc (deal : DealDoc) : UserDealDoc :=
  user_deal_doc deal deal.taker deal.maker deal.direction

def carbonExchange_NewDeal (order_id asset_id money_id : Hash) (maker taker : AccountId)
    (price amount : UInt64) (direction : UInt8) (now : Moment) (height : ℕ) : Handler Unit := do
  let timestamp ← toNumber now
  let asset ← asset_of (codec.hash asset_id)
  let doc := deal_doc codec order_id asset_id money_id maker taker price amount direction
    timestamp height (asset_symbol asset)
  insertAsync deals doc
  insertAsync userDeals (makerDealDoc doc direction)
  insertAsync userDeals (takerDealDoc doc)
  -- who gets the units: the taker of an ask, the maker of a bid
  let carbonAccount := if direction = 0 then doc.taker else doc.maker
  upsert_potential_balance
    (constructPotentialBalanceDoc carbonAccount doc.assetId doc.assetSymbol 0 .carbon)

/-- What the handlers of `OrderCanceled` and `OrderFinished` do. -/
def close_order (order_id : Hash) : Handler Unit :=
  updateAsync orders (fun doc => doc.orderId == codec.hash order_id) fun doc =>
    { doc with closed := 1 }

def carbonExchange_OrderCanceled (order_id : Hash) : Handler Unit := close_order codec order_id

def carbonExchange_OrderFinished (order_id : Hash) : Handler Unit := close_order codec order_id

def standardAssets_NewAsset (asset_id : Hash) (symbol : Bytes) (owner : AccountId)
    (decimals : UInt8) (now : Moment) (height : ℕ) : Handler Unit := do
  let assetId := codec.hash asset_id
  let symbol := codec.utf8 symbol
  let owner := codec.account owner
  let decimals := decimals.toNat
  let timestamp ← toNumber now
  insertAsync standardAssets { assetId, symbol, owner, timestamp, decimals, height }
  upsert_potential_balance (constructPotentialBalanceDoc owner assetId symbol decimals .standard)

def standardAssets_Transferred (asset_id : Hash) (to_ : AccountId) : Handler Unit := do
  let assetId := codec.hash asset_id
  let asset ← findOneAsync standardAssets fun doc => doc.assetId == assetId
  let asset ← found asset
  upsert_potential_balance
    (constructPotentialBalanceDoc (codec.account to_) assetId asset.symbol asset.decimals
      .standard)

/-- Which document a proposal is about. The call indices are those of the four approvals;
of another call the key stays undefined, which matches no document. -/
def proposal_key (proposal : Proposal) : Option String :=
  match proposal.callIndex with
  | "0x0b01" => proposal.args "project_id"
  | "0x0b03" => proposal.args "asset_id"
  | "0x0b05" => proposal.args "issue_id"
  | "0x0b07" => proposal.args "burn_id"
  | _ => none

def carbonCommittee_Proposed (proposal_index : UInt32) (proposal_hash : Hash)
    (threshold : UInt32) : Handler Unit := do
  let proposalId := codec.hash proposal_hash
  match api.proposalOf proposalId with
  | none => .raise .rejected
  | some none => pure ()
  | some (some proposal) =>
    let key := proposal_key proposal
    updateAsync carbonProposals (fun doc => some doc.key == key) fun doc =>
      { doc with
        proposalId, proposalIndex := proposal_index.toNat, state := 1, ayes := 1
        threshold := some threshold.toNat }

/-- The update of the document with a proposal's identifier, for the events that follow. -/
def update_proposal (proposal_hash : Hash) (set : CarbonProposalDoc → CarbonProposalDoc) :
    Handler Unit :=
  updateAsync carbonProposals (fun doc => doc.proposalId == codec.hash proposal_hash) set

def carbonCommittee_Voted (proposal_hash : Hash) (yes no : UInt32) : Handler Unit :=
  update_proposal codec proposal_hash fun doc => { doc with ayes := yes.toNat, nays := no.toNat }

def carbonCommittee_Approved (proposal_hash : Hash) : Handler Unit :=
  update_proposal codec proposal_hash fun doc => { doc with approved := some 1 }

def carbonCommittee_Disapproved (proposal_hash : Hash) : Handler Unit :=
  update_proposal codec proposal_hash fun doc => { doc with approved := some 0 }

def carbonCommittee_Closed (proposal_hash : Hash) : Handler Unit :=
  update_proposal codec proposal_hash fun doc => { doc with state := 2 }

/-- `eco2EventHandlers[eventFullPath]`. -/
def eco2EventHandlers (record : Record AccountId Hash) (height : ℕ) : Option (Handler Unit) :=
  match record with
  | .pallet (.carbonAssets (.ProjectSubmited project_id owner symbol now)) =>
      some (carbonAssets_ProjectSubmited codec project_id owner symbol now height)
  | .pallet (.carbonAssets (.ProjectApproved project_id)) =>
      some (carbonAssets_ProjectApproved codec project_id)
  | .pallet (.carbonAssets (.AssetSubmited project_id asset_id symbol vintage owner now)) =>
      some (carbonAssets_AssetSubmited codec project_id asset_id symbol vintage owner now height)
  | .pallet (.carbonAssets (.AssetApproved asset_id)) =>
      some (carbonAssets_AssetApproved codec asset_id)
  | .pallet (.carbonAssets (.IssueSubmited issue_id asset_id _ _ now)) =>
      some (carbonAssets_IssueSubmited codec issue_id asset_id now height)
  | .pallet (.carbonAssets (.IssueApproved issue_id)) =>
      some (carbonAssets_IssueApproved codec issue_id)
  | .pallet (.carbonAssets (.BurnSubmited burn_id asset_id _ _ now)) =>
      some (carbonAssets_BurnSubmited codec burn_id asset_id now height)
  | .pallet (.carbonAssets (.BurnApproved burn_id)) =>
      some (carbonAssets_BurnApproved codec burn_id)
  | .pallet (.carbonAssets (.Transferred asset_id _ to_ _ now)) =>
      some (carbonAssets_Transferred codec asset_id to_ now)
  | .pallet (.carbonAssets (.Neutralized _ _ _ _)) => none
  | .pallet (.carbonExchange (.NewOrder order_id maker asset_id money_id direction now)) =>
      some (carbonExchange_NewOrder codec order_id maker asset_id money_id direction now height)
  | .pallet (.carbonExchange
      (.NewDeal order_id asset_id money_id maker taker price amount direction now)) =>
      some (carbonExchange_NewDeal codec order_id asset_id money_id maker taker price amount
        direction now height)
  | .pallet (.carbonExchange (.OrderFinished order_id)) =>
      some (carbonExchange_OrderFinished codec order_id)
  | .pallet (.carbonExchange (.OrderCanceled order_id)) =>
      some (carbonExchange_OrderCanceled codec order_id)
  | .pallet (.standardAssets (.NewAsset asset_id symbol owner _ decimals now)) =>
      some (standardAssets_NewAsset codec asset_id symbol owner decimals now height)
  | .pallet (.standardAssets (.Transferred asset_id _ to_ _ _)) =>
      some (standardAssets_Transferred codec asset_id to_)
  | .pallet (.standardAssets (.Minted _ _ _)) => none
  | .pallet (.standardAssets (.Burned _ _ _)) => none
  | .carbonCommittee (.Proposed _ proposal_index proposal_hash threshold) =>
      some (carbonCommittee_Proposed codec api proposal_index proposal_hash threshold)
  | .carbonCommittee (.Voted _ proposal_hash _ yes no) =>
      some (carbonCommittee_Voted codec proposal_hash yes no)
  | .carbonCommittee (.Approved proposal_hash) =>
      some (carbonCommittee_Approved codec proposal_hash)
  | .carbonCommittee (.Disapproved proposal_hash) =>
      some (carbonCommittee_Disapproved codec proposal_hash)
  | .carbonCommittee (.Executed _) => none
  | .carbonCommittee (.MemberExecuted _) => none
  | .carbonCommittee (.Closed proposal_hash _ _) =>
      some (carbonCommittee_Closed codec proposal_hash)
  | .other => none

/-! ## The loops -/

/-- One event of `processEventsAtBlockHash`: what its handler throws is caught. -/
def process_event (height : ℕ) (record : Record AccountId Hash) : Handler Unit :=
  match eco2EventHandlers codec api record height with
  | some handler => handler.attempt
  | none => pure ()

def processEventsAtBlockHash (records : List (Record AccountId Hash)) (n : ℕ) : Handler Unit :=
  records.forM (process_event codec api n)

/-- `getBlockHash(n)` and the events there. -/
def processEventsAtBlockNumber (chain : ℕ → List (Record AccountId Hash)) (n : ℕ) :
    Handler Unit :=
  processEventsAtBlockHash codec api (chain n) n

def processEventsInRange (chain : ℕ → List (Record AccountId Hash)) (from_ to_ : ℕ) :
    Handler Unit :=
  (List.range' from_ (to_ + 1 - from_)).forM (processEventsAtBlockNumber codec api chain)

/-- What `main` does after it has read the file, and `startWorker` in a round during which
no head arrives: the range up to the head, and the file. -/
def catch_up (chain : ℕ → List (Record AccountId Hash)) (lastBlockNumber head : ℕ) :
    Handler Unit := do
  processEventsInRange codec api chain (lastBlockNumber + 1) head
  saveLastBlockNumber head

end Handlers

end Eco2.Indexer
