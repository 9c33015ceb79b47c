/-
`pallets/carbon-assets/src/lib.rs`: the ten dispatchables and the three public
functions the exchange uses.

Each dispatchable is written in the order of the source, check by check and write
by write. That matters here more than usual: nothing is rolled back, so a check
that stands after a write is a different program from one that stands before it.
-/
import Eco2.Storage

set_option autoImplicit false

open Eco2.Dispatch

namespace Eco2.CarbonAssets

variable {AccountId Hash : Type} [DecidableEq AccountId] [DecidableEq Hash]

/-! ## The storage items -/

section Items

/-- A write to the pallet's own storage. -/
def update (f : Storage AccountId Hash → Storage AccountId Hash) :
    Dispatchable AccountId Hash Unit :=
  write fun w => { w with carbon := f w.carbon }

def get_project (project_id : Hash) :
    Dispatchable AccountId Hash (Option (CarbonProject AccountId)) :=
  read fun w => w.carbon.Projects.get project_id

def get_asset (asset_id : Hash) : Dispatchable AccountId Hash (Option (CarbonAsset Hash)) :=
  read fun w => w.carbon.Assets.get asset_id

def get_issue (issue_id : Hash) : Dispatchable AccountId Hash (Option (IssueInfo Hash)) :=
  read fun w => w.carbon.Issues.get issue_id

def get_burn (burn_id : Hash) : Dispatchable AccountId Hash (Option (BurnInfo Hash)) :=
  read fun w => w.carbon.Burns.get burn_id

def get_balance (asset_id : Hash) (account : AccountId) : Dispatchable AccountId Hash UInt64 :=
  read fun w => w.carbon.balance asset_id account

/-- `s` with the balance cell of `account` set to `value`. -/
def Storage.set_balance (s : Storage AccountId Hash) (asset_id : Hash) (account : AccountId)
    (value : UInt64) : Storage AccountId Hash :=
  { s with Balances := s.Balances.insert (asset_id, account) value }

/-- `s` with `amount` added to the balance of `account`. -/
def Storage.credit (s : Storage AccountId Hash) (asset_id : Hash) (account : AccountId)
    (amount : UInt64) : Storage AccountId Hash :=
  s.set_balance asset_id account (s.balance asset_id account + amount)

/-- `s` with `amount` subtracted from the balance of `account`. -/
def Storage.debit (s : Storage AccountId Hash) (asset_id : Hash) (account : AccountId)
    (amount : UInt64) : Storage AccountId Hash :=
  s.set_balance asset_id account (s.balance asset_id account - amount)

/-- `<Balances<T>>::mutate((asset_id, account), |balance| *balance += amount)`. -/
def balance_add (asset_id : Hash) (account : AccountId) (amount : UInt64) :
    Dispatchable AccountId Hash Unit :=
  modify fun c =>
    { c with
      world := { c.world with carbon := c.world.carbon.credit asset_id account amount }
      ops := c.ops ++
        [.carbon (.add (asset_id, account) (c.world.carbon.balance asset_id account) amount)] }

/-- `<Balances<T>>::mutate((asset_id, account), |balance| *balance -= amount)`. -/
def balance_sub (asset_id : Hash) (account : AccountId) (amount : UInt64) :
    Dispatchable AccountId Hash Unit :=
  modify fun c =>
    { c with
      world := { c.world with carbon := c.world.carbon.debit asset_id account amount }
      ops := c.ops ++
        [.carbon (.sub (asset_id, account) (c.world.carbon.balance asset_id account) amount)] }

end Items

/-! ## The public functions -/

section Public

def has_asset (asset_id : Hash) : Dispatchable AccountId Hash Bool := do
  let asset ← get_asset asset_id
  match asset with
  | some val => return val.status == 1
  | none => return false

def balance (asset_id : Hash) (account : AccountId) : Dispatchable AccountId Hash UInt64 :=
  get_balance asset_id account

/-- The subtraction is not checked: the callers are expected to have done that. -/
def make_transfer (asset_id : Hash) (from_ to_ : AccountId) (amount : UInt64) :
    Dispatchable AccountId Hash Unit := do
  record fun w => .make_transfer asset_id from_ to_ (w.carbon.balance asset_id from_) amount
  -- a transfer to oneself is a no-op, also when it is not covered
  if from_ ≠ to_ then
    balance_sub asset_id from_ amount
    balance_add asset_id to_ amount
  else
    pure ()

end Public

/-! ## The dispatchables -/

section Dispatchables

variable (T : Trait AccountId Hash)

def submit_project (origin : Origin AccountId) (symbol : Bytes) (max_supply : UInt64)
    (additional : Bytes) : Dispatchable AccountId Hash Unit := do
  let sender ← ensure_signed origin
  let project_id := T.hash_of (.project sender symbol max_supply additional)
  -- the identifier is a hash of the arguments, so the same submission has the same one
  let known ← read fun w => w.carbon.Projects.contains_key project_id
  ensure (!known) (.carbonAssets .DuplicatedKey)
  let project : CarbonProject AccountId :=
    { symbol, max_supply, total_supply := 0, status := 0, owner := sender }
  update fun s => { s with Projects := s.Projects.insert project_id project }
  update fun s => { s with ProjectAdditionals := s.ProjectAdditionals.insert project_id additional }
  let now ← timestamp_get
  deposit_event (.carbonAssets (.ProjectSubmited project_id sender symbol now))

def approve_project (origin : Origin AccountId) (project_id : Hash) :
    Dispatchable AccountId Hash Unit := do
  ApproveOrigin.ensure_origin origin
  let project ← ok_or (← get_project project_id) (.carbonAssets .InvalidIndex)
  ensure (project.status = 0) (.carbonAssets .AlreadyApproved)
  let project := { project with status := 1 }
  update fun s => { s with Projects := s.Projects.insert project_id project }
  deposit_event (.carbonAssets (.ProjectApproved project_id))

def submit_asset (origin : Origin AccountId) (project_id : Hash) (vintage : Bytes)
    (initial_supply : UInt64) (additional : Bytes) : Dispatchable AccountId Hash Unit := do
  let sender ← ensure_signed origin
  let project ← ok_or (← get_project project_id) (.carbonAssets .InvalidIndex)
  ensure (project.status = 1) (.carbonAssets .ProjectNotApproved)
  ensure (project.owner = sender) (.carbonAssets .PermissionDenied)
  ensure (initial_supply + project.total_supply ≤ project.max_supply)
    (.carbonAssets .OverIssueLimit)
  let asset_id := T.hash_of (.asset sender project_id vintage initial_supply additional)
  let known ← read fun w => w.carbon.Assets.contains_key asset_id
  ensure (!known) (.carbonAssets .DuplicatedKey)
  let asset : CarbonAsset Hash :=
    { project_id, vintage, initial_supply, total_supply := 0, status := 0 }
  update fun s => { s with Assets := s.Assets.insert asset_id asset }
  update fun s => { s with AssetAdditionals := s.AssetAdditionals.insert asset_id additional }
  let now ← timestamp_get
  deposit_event
    (.carbonAssets (.AssetSubmited project_id asset_id project.symbol vintage sender now))

/-- The increased `project` is a local copy: the source never writes it back. -/
def approve_asset (origin : Origin AccountId) (asset_id : Hash) :
    Dispatchable AccountId Hash Unit := do
  ApproveOrigin.ensure_origin origin
  let asset ← ok_or (← get_asset asset_id) (.carbonAssets .InvalidIndex)
  ensure (asset.status = 0) (.carbonAssets .AlreadyApproved)
  let project ← ok_or (← get_project asset.project_id) (.carbonAssets .InvalidIndex)
  let owner := project.owner
  ensure (asset.initial_supply + project.total_supply ≤ project.max_supply)
    (.carbonAssets .OverIssueLimit)
  let asset := { asset with status := 1 }
  let asset := { asset with total_supply := asset.initial_supply }
  -- the source has no `<Projects<T>>::insert` after this
  let _project := { project with total_supply := project.total_supply + asset.initial_supply }
  update fun s => { s with Assets := s.Assets.insert asset_id asset }
  -- an insert, where `approve_issue` adds
  update fun s => s.set_balance asset_id owner asset.initial_supply
  deposit_event (.carbonAssets (.AssetApproved asset_id))

def submit_issue (origin : Origin AccountId) (asset_id : Hash) (amount : UInt64)
    (additional : Bytes) : Dispatchable AccountId Hash Unit := do
  let sender ← ensure_signed origin
  let asset ← ok_or (← get_asset asset_id) (.carbonAssets .InvalidIndex)
  ensure (asset.status = 1) (.carbonAssets .AssetNotApproved)
  let project ← ok_or (← get_project asset.project_id) (.carbonAssets .InvalidIndex)
  ensure (project.owner = sender) (.carbonAssets .PermissionDenied)
  ensure (amount + project.total_supply ≤ project.max_supply) (.carbonAssets .OverIssueLimit)
  let issue_id := T.hash_of (.issue sender asset_id amount additional)
  let known ← read fun w => w.carbon.Issues.contains_key issue_id
  ensure (!known) (.carbonAssets .DuplicatedKey)
  let issue_info : IssueInfo Hash := { asset_id, amount, status := 0, additional }
  update fun s => { s with Issues := s.Issues.insert issue_id issue_info }
  let now ← timestamp_get
  deposit_event (.carbonAssets (.IssueSubmited issue_id asset_id sender amount now))

def approve_issue (origin : Origin AccountId) (issue_id : Hash) :
    Dispatchable AccountId Hash Unit := do
  ApproveOrigin.ensure_origin origin
  let issue_info ← ok_or (← get_issue issue_id) (.carbonAssets .InvalidIndex)
  ensure (issue_info.status = 0) (.carbonAssets .AlreadyApproved)
  let asset_id := issue_info.asset_id
  let asset ← ok_or (← get_asset asset_id) (.carbonAssets .InvalidIndex)
  let project_id := asset.project_id
  let project ← ok_or (← get_project project_id) (.carbonAssets .InvalidIndex)
  let owner := project.owner
  ensure (issue_info.amount + project.total_supply ≤ project.max_supply)
    (.carbonAssets .OverIssueLimit)
  let issue_info := { issue_info with status := 1 }
  -- the sum was checked against the cap as a wrapped `u64`
  let project := { project with total_supply := project.total_supply + issue_info.amount }
  let asset := { asset with total_supply := asset.total_supply + issue_info.amount }
  update fun s => { s with Assets := s.Assets.insert asset_id asset }
  update fun s => { s with Projects := s.Projects.insert project_id project }
  update fun s => { s with Issues := s.Issues.insert issue_id issue_info }
  balance_add asset_id owner issue_info.amount
  deposit_event (.carbonAssets (.IssueApproved issue_id))

/-- The duplicate check looks the burn's id up among the projects. -/
def submit_burn (origin : Origin AccountId) (asset_id : Hash) (amount : UInt64)
    (additional : Bytes) : Dispatchable AccountId Hash Unit := do
  let sender ← ensure_signed origin
  let asset ← ok_or (← get_asset asset_id) (.carbonAssets .InvalidIndex)
  ensure (asset.status = 1) (.carbonAssets .AssetNotApproved)
  let project ← ok_or (← get_project asset.project_id) (.carbonAssets .InvalidIndex)
  ensure (project.owner = sender) (.carbonAssets .PermissionDenied)
  let burn_id := T.hash_of (.burn sender asset_id amount additional)
  -- `<Projects<T>>::contains_key`; `submit_issue` asks its own map
  let known ← read fun w => w.carbon.Projects.contains_key burn_id
  ensure (!known) (.carbonAssets .DuplicatedKey)
  let balance ← get_balance asset_id sender
  ensure (amount ≤ balance) (.carbonAssets .BalanceLow)
  let burn_info : BurnInfo Hash := { asset_id, amount, status := 0, additional }
  update fun s => { s with Burns := s.Burns.insert burn_id burn_info }
  balance_sub asset_id sender amount
  let now ← timestamp_get
  deposit_event (.carbonAssets (.BurnSubmited burn_id asset_id sender amount now))

/-- The event deposited is that of an issue. -/
def approve_burn (origin : Origin AccountId) (burn_id : Hash) :
    Dispatchable AccountId Hash Unit := do
  ApproveOrigin.ensure_origin origin
  let burn_info ← ok_or (← get_burn burn_id) (.carbonAssets .InvalidIndex)
  ensure (burn_info.status = 0) (.carbonAssets .AlreadyApproved)
  let asset_id := burn_info.asset_id
  let asset ← ok_or (← get_asset asset_id) (.carbonAssets .InvalidIndex)
  let project_id := asset.project_id
  let project ← ok_or (← get_project project_id) (.carbonAssets .InvalidIndex)
  let burn_info := { burn_info with status := 1 }
  -- neither subtraction is checked
  let project := { project with total_supply := project.total_supply - burn_info.amount }
  let asset := { asset with total_supply := asset.total_supply - burn_info.amount }
  update fun s => { s with Assets := s.Assets.insert asset_id asset }
  update fun s => { s with Projects := s.Projects.insert project_id project }
  update fun s => { s with Burns := s.Burns.insert burn_id burn_info }
  deposit_event (.carbonAssets (.IssueApproved burn_id))

def transfer (origin : Origin AccountId) (asset_id : Hash) (to_ : AccountId) (amount : UInt64) :
    Dispatchable AccountId Hash Unit := do
  let sender ← ensure_signed origin
  let origin_balance ← get_balance asset_id sender
  ensure (amount ≠ 0) (.carbonAssets .AmountZero)
  ensure (origin_balance ≥ amount) (.carbonAssets .BalanceLow)
  make_transfer asset_id sender to_ amount
  let now ← timestamp_get
  deposit_event (.carbonAssets (.Transferred asset_id sender to_ amount now))

/-- `additional` is recorded in the extrinsic only. -/
def neutralize (origin : Origin AccountId) (asset_id : Hash) (amount : UInt64)
    (_additional : Bytes) : Dispatchable AccountId Hash Unit := do
  let sender ← ensure_signed origin
  let origin_balance ← get_balance asset_id sender
  ensure (amount ≠ 0) (.carbonAssets .AmountZero)
  ensure (origin_balance ≥ amount) (.carbonAssets .BalanceLow)
  balance_sub asset_id sender amount
  let now ← timestamp_get
  deposit_event (.carbonAssets (.Neutralized asset_id sender amount now))

/-- The calls of the pallet, in the order of `decl_module!`. -/
inductive Call (AccountId Hash : Type)
  | submit_project (symbol : Bytes) (max_supply : UInt64) (additional : Bytes)
  | approve_project (project_id : Hash)
  | submit_asset (project_id : Hash) (vintage : Bytes) (initial_supply : UInt64)
      (additional : Bytes)
  | approve_asset (asset_id : Hash)
  | submit_issue (asset_id : Hash) (amount : UInt64) (additional : Bytes)
  | approve_issue (issue_id : Hash)
  | submit_burn (asset_id : Hash) (amount : UInt64) (additional : Bytes)
  | approve_burn (burn_id : Hash)
  | transfer (asset_id : Hash) (to_ : AccountId) (amount : UInt64)
  | neutralize (asset_id : Hash) (amount : UInt64) (additional : Bytes)

def Call.dispatch (origin : Origin AccountId) :
    Call AccountId Hash → Dispatchable AccountId Hash Unit
  | .submit_project symbol max_supply additional =>
      CarbonAssets.submit_project T origin symbol max_supply additional
  | .approve_project project_id => CarbonAssets.approve_project origin project_id
  | .submit_asset project_id vintage initial_supply additional =>
      CarbonAssets.submit_asset T origin project_id vintage initial_supply additional
  | .approve_asset asset_id => CarbonAssets.approve_asset origin asset_id
  | .submit_issue asset_id amount additional =>
      CarbonAssets.submit_issue T origin asset_id amount additional
  | .approve_issue issue_id => CarbonAssets.approve_issue origin issue_id
  | .submit_burn asset_id amount additional =>
      CarbonAssets.submit_burn T origin asset_id amount additional
  | .approve_burn burn_id => CarbonAssets.approve_burn origin burn_id
  | .transfer asset_id to_ amount => CarbonAssets.transfer origin asset_id to_ amount
  | .neutralize asset_id amount additional =>
      CarbonAssets.neutralize origin asset_id amount additional

end Dispatchables

end Eco2.CarbonAssets
