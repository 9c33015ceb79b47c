/-
What a call of `pallets/carbon-assets` can do.

`Step` lists the ten successful outcomes, one constructor for each dispatchable,
with every check the call has passed and everything it has written. The two
theorems at the end connect it to the dispatchables: a call that returns `Ok` has
made a `Step`, and a call that returns `Err` has changed nothing. Every invariant
of the pallet is proved from `Step`, none by unfolding a dispatchable.
-/
import Eco2.CarbonAssets

set_option autoImplicit false
set_option linter.unusedSectionVars false

open Eco2.Dispatch

namespace Eco2.CarbonAssets

variable {AccountId Hash : Type} [DecidableEq AccountId] [DecidableEq Hash]

/-! ## Balance cells -/

section Cells

variable (s : Storage AccountId Hash) (asset_id asset_id' : Hash) (account account' : AccountId)

theorem balance_set_balance (value : UInt64) :
    (s.set_balance asset_id account value).balance asset_id' account'
      = if asset_id' = asset_id ∧ account' = account then value
        else s.balance asset_id' account' := by
  simp only [Storage.balance, Storage.set_balance, StorageMap.get_insert, Prod.mk.injEq]
  by_cases h : asset_id' = asset_id ∧ account' = account
  · rw [if_pos h, if_pos h]
    rfl
  · rw [if_neg h, if_neg h]

@[simp] theorem balance_set_balance_self (value : UInt64) :
    (s.set_balance asset_id account value).balance asset_id account = value := by
  rw [balance_set_balance, if_pos ⟨rfl, rfl⟩]

theorem balance_set_balance_of_ne {asset_id' : Hash} {account' : AccountId} (value : UInt64)
    (h : ¬(asset_id' = asset_id ∧ account' = account)) :
    (s.set_balance asset_id account value).balance asset_id' account'
      = s.balance asset_id' account' := by
  rw [balance_set_balance, if_neg h]

/-- The storage `make_transfer` leaves. -/
def Storage.move (from_ to_ : AccountId) (amount : UInt64) : Storage AccountId Hash :=
  if from_ ≠ to_ then (s.debit asset_id from_ amount).credit asset_id to_ amount else s

theorem move_self (account : AccountId) (amount : UInt64) :
    s.move asset_id account account amount = s := if_neg fun h => h rfl

/-- The balances after a transfer between two different accounts. -/
theorem balance_move {from_ to_ : AccountId} (amount : UInt64) (hne : from_ ≠ to_) :
    (s.move asset_id from_ to_ amount).balance asset_id' account'
      = if asset_id' = asset_id ∧ account' = to_ then s.balance asset_id to_ + amount
        else if asset_id' = asset_id ∧ account' = from_ then s.balance asset_id from_ - amount
        else s.balance asset_id' account' := by
  have hto : ¬(asset_id = asset_id ∧ to_ = from_) := fun h => hne h.2.symm
  -- the credit reads the receiver's cell after the debit, which did not touch it
  rw [Storage.move, if_pos hne, Storage.credit, balance_set_balance, Storage.debit,
    balance_set_balance, balance_set_balance, if_neg hto]

/-- A transfer leaves everybody else's balances alone. -/
theorem balance_move_of_ne {from_ to_ : AccountId} (amount : UInt64) (hfrom : account' ≠ from_)
    (hto : account' ≠ to_) :
    (s.move asset_id from_ to_ amount).balance asset_id' account'
      = s.balance asset_id' account' := by
  by_cases hne : from_ = to_
  · rw [hne, move_self]
  · rw [balance_move s asset_id asset_id' account' amount hne, if_neg fun h => hto h.2,
      if_neg fun h => hfrom h.2]

/-- What a transfer takes from the sender, exactly. -/
theorem balance_move_from {from_ to_ : AccountId} {amount : UInt64} (hne : from_ ≠ to_)
    (h : amount ≤ s.balance asset_id from_) :
    ((s.move asset_id from_ to_ amount).balance asset_id' from_).toNat
        + (if asset_id = asset_id' then amount.toNat else 0)
      = (s.balance asset_id' from_).toNat := by
  rw [balance_move s asset_id asset_id' from_ amount hne, if_neg fun h => hne h.2]
  by_cases ha : asset_id = asset_id'
  · subst ha
    rw [if_pos ⟨rfl, rfl⟩, if_pos rfl]
    exact U64.toNat_sub_add_of_le h
  · rw [if_neg fun h => ha h.1.symm, if_neg ha, Nat.add_zero]

/-- What a transfer brings the receiver, exactly. -/
theorem balance_move_to {from_ to_ : AccountId} {amount : UInt64} (hne : from_ ≠ to_)
    (h : (s.balance asset_id to_).toNat + amount.toNat < 2 ^ 64) :
    ((s.move asset_id from_ to_ amount).balance asset_id' to_).toNat
      = (s.balance asset_id' to_).toNat + if asset_id = asset_id' then amount.toNat else 0 := by
  rw [balance_move s asset_id asset_id' to_ amount hne]
  by_cases ha : asset_id = asset_id'
  · subst ha
    rw [if_pos ⟨rfl, rfl⟩, if_pos rfl]
    exact U64.toNat_add_of_lt h
  · rw [if_neg fun h => ha h.1.symm, if_neg fun h => hne h.2.symm, if_neg ha, Nat.add_zero]

/-! Writing balances leaves the records alone. -/

@[simp] theorem set_balance_Assets (value : UInt64) :
    (s.set_balance asset_id account value).Assets = s.Assets := rfl

@[simp] theorem credit_Assets (amount : UInt64) :
    (s.credit asset_id account amount).Assets = s.Assets := rfl

@[simp] theorem debit_Assets (amount : UInt64) :
    (s.debit asset_id account amount).Assets = s.Assets := rfl

@[simp] theorem move_Assets (from_ to_ : AccountId) (amount : UInt64) :
    (s.move asset_id from_ to_ amount).Assets = s.Assets := by
  unfold Storage.move
  split <;> rfl

@[simp] theorem move_Projects (from_ to_ : AccountId) (amount : UInt64) :
    (s.move asset_id from_ to_ amount).Projects = s.Projects := by
  unfold Storage.move
  split <;> rfl

@[simp] theorem move_Burns (from_ to_ : AccountId) (amount : UInt64) :
    (s.move asset_id from_ to_ amount).Burns = s.Burns := by
  unfold Storage.move
  split <;> rfl

/-- What `make_transfer` records. -/
def Storage.move_ops (from_ to_ : AccountId) (amount : UInt64) : List (Op AccountId Hash) :=
  .make_transfer asset_id from_ to_ (s.balance asset_id from_) amount ::
    if from_ ≠ to_ then
      [.carbon (.sub (asset_id, from_) (s.balance asset_id from_) amount),
        .carbon (.add (asset_id, to_) (s.balance asset_id to_) amount)]
    else []

end Cells

/-! ## Executing the storage primitives -/

section Primitives

variable {β : Type} {g : Unit → Dispatchable AccountId Hash β} {c : Ctx AccountId Hash}

theorem update_bind {f : Storage AccountId Hash → Storage AccountId Hash} :
    (update f >>= g) c
      = g () { c with world := { c.world with carbon := f c.world.carbon } } := rfl

theorem balance_add_bind {asset_id : Hash} {account : AccountId} {amount : UInt64} :
    (balance_add asset_id account amount >>= g) c
      = g () { c with
          world := { c.world with carbon := c.world.carbon.credit asset_id account amount }
          ops := c.ops ++ [.carbon (.add (asset_id, account)
            (c.world.carbon.balance asset_id account) amount)] } := rfl

theorem balance_sub_bind {asset_id : Hash} {account : AccountId} {amount : UInt64} :
    (balance_sub asset_id account amount >>= g) c
      = g () { c with
          world := { c.world with carbon := c.world.carbon.debit asset_id account amount }
          ops := c.ops ++ [.carbon (.sub (asset_id, account)
            (c.world.carbon.balance asset_id account) amount)] } := rfl

/-- `make_transfer` never fails, and moves the amount between two different accounts. -/
theorem make_transfer_bind {asset_id : Hash} {from_ to_ : AccountId} {amount : UInt64} :
    (make_transfer asset_id from_ to_ amount >>= g) c
      = g () { c with
          world := { c.world with carbon := c.world.carbon.move asset_id from_ to_ amount }
          ops := c.ops ++ c.world.carbon.move_ops asset_id from_ to_ amount } := by
  unfold make_transfer Storage.move Storage.move_ops
  by_cases h : from_ = to_
  · -- to oneself: recorded, but nothing is written
    simp only [h, ne_eq, not_true_eq_false, if_false, bind_assoc, record_bind]
    rfl
  · -- the recorded balance of the receiver is the one before the debit
    have hto : (c.world.carbon.debit asset_id from_ amount).balance asset_id to_
        = c.world.carbon.balance asset_id to_ :=
      balance_set_balance_of_ne _ _ _ _ fun hc => h hc.2.symm
    simp only [ne_eq, h, not_false_eq_true, if_true, bind_assoc, record_bind, balance_sub_bind,
      balance_add_bind, hto, List.append_assoc, List.cons_append, List.nil_append]

end Primitives

/-! ## The successful outcomes -/

/-- `Step T origin now s call s' events ops`: the call succeeds on `s`, leaves
`s'`, deposits `events` and performs `ops`. -/
inductive Step (T : Trait AccountId Hash) (origin : Origin AccountId) (now : Moment)
    (s : Storage AccountId Hash) : Call AccountId Hash → Storage AccountId Hash →
    List (Event AccountId Hash) → List (Op AccountId Hash) → Prop
  | submit_project (sender : AccountId) (symbol : Bytes) (max_supply : UInt64)
      (additional : Bytes) (project_id : Hash)
      (horigin : origin = .signed sender)
      (hid : project_id = T.hash_of (.project sender symbol max_supply additional))
      (hfresh : s.Projects.get project_id = none) :
      Step T origin now s (.submit_project symbol max_supply additional)
        { s with
          Projects := s.Projects.insert project_id
            { symbol, max_supply, total_supply := 0, status := 0, owner := sender }
          ProjectAdditionals := s.ProjectAdditionals.insert project_id additional }
        [.ProjectSubmited project_id sender symbol now] []
  | approve_project (project_id : Hash) (project : CarbonProject AccountId)
      (horigin : ApproveOrigin.Allows origin)
      (hproject : s.Projects.get project_id = some project)
      (hstatus : project.status = 0) :
      Step T origin now s (.approve_project project_id)
        { s with Projects := s.Projects.insert project_id { project with status := 1 } }
        [.ProjectApproved project_id] []
  | submit_asset (sender : AccountId) (project_id : Hash) (vintage : Bytes)
      (initial_supply : UInt64) (additional : Bytes) (project : CarbonProject AccountId)
      (asset_id : Hash)
      (horigin : origin = .signed sender)
      (hproject : s.Projects.get project_id = some project)
      (hstatus : project.status = 1)
      (howner : project.owner = sender)
      (hlimit : initial_supply + project.total_supply ≤ project.max_supply)
      (hid : asset_id = T.hash_of (.asset sender project_id vintage initial_supply additional))
      (hfresh : s.Assets.get asset_id = none) :
      Step T origin now s (.submit_asset project_id vintage initial_supply additional)
        { s with
          Assets := s.Assets.insert asset_id
            { project_id, vintage, initial_supply, total_supply := 0, status := 0 }
          AssetAdditionals := s.AssetAdditionals.insert asset_id additional }
        [.AssetSubmited project_id asset_id project.symbol vintage sender now] []
  | approve_asset (asset_id : Hash) (asset : CarbonAsset Hash) (project : CarbonProject AccountId)
      (horigin : ApproveOrigin.Allows origin)
      (hasset : s.Assets.get asset_id = some asset)
      (hstatus : asset.status = 0)
      (hproject : s.Projects.get asset.project_id = some project)
      (hlimit : asset.initial_supply + project.total_supply ≤ project.max_supply) :
      Step T origin now s (.approve_asset asset_id)
        ({ s with
          Assets := s.Assets.insert asset_id
            { asset with status := 1, total_supply := asset.initial_supply } }.set_balance
              asset_id project.owner asset.initial_supply)
        [.AssetApproved asset_id] []
  | submit_issue (sender : AccountId) (asset_id : Hash) (amount : UInt64) (additional : Bytes)
      (asset : CarbonAsset Hash) (project : CarbonProject AccountId) (issue_id : Hash)
      (horigin : origin = .signed sender)
      (hasset : s.Assets.get asset_id = some asset)
      (hstatus : asset.status = 1)
      (hproject : s.Projects.get asset.project_id = some project)
      (howner : project.owner = sender)
      (hlimit : amount + project.total_supply ≤ project.max_supply)
      (hid : issue_id = T.hash_of (.issue sender asset_id amount additional))
      (hfresh : s.Issues.get issue_id = none) :
      Step T origin now s (.submit_issue asset_id amount additional)
        { s with
          Issues := s.Issues.insert issue_id { asset_id, amount, status := 0, additional } }
        [.IssueSubmited issue_id asset_id sender amount now] []
  | approve_issue (issue_id : Hash) (issue_info : IssueInfo Hash) (asset : CarbonAsset Hash)
      (project : CarbonProject AccountId)
      (horigin : ApproveOrigin.Allows origin)
      (hissue : s.Issues.get issue_id = some issue_info)
      (hstatus : issue_info.status = 0)
      (hasset : s.Assets.get issue_info.asset_id = some asset)
      (hproject : s.Projects.get asset.project_id = some project)
      (hlimit : issue_info.amount + project.total_supply ≤ project.max_supply) :
      Step T origin now s (.approve_issue issue_id)
        ({ s with
          Assets := s.Assets.insert issue_info.asset_id
            { asset with total_supply := asset.total_supply + issue_info.amount }
          Projects := s.Projects.insert asset.project_id
            { project with total_supply := project.total_supply + issue_info.amount }
          Issues := s.Issues.insert issue_id { issue_info with status := 1 } }.credit
            issue_info.asset_id project.owner issue_info.amount)
        [.IssueApproved issue_id]
        [.carbon (.add (issue_info.asset_id, project.owner)
          (s.balance issue_info.asset_id project.owner) issue_info.amount)]
  | submit_burn (sender : AccountId) (asset_id : Hash) (amount : UInt64) (additional : Bytes)
      (asset : CarbonAsset Hash) (project : CarbonProject AccountId) (burn_id : Hash)
      (horigin : origin = .signed sender)
      (hasset : s.Assets.get asset_id = some asset)
      (hstatus : asset.status = 1)
      (hproject : s.Projects.get asset.project_id = some project)
      (howner : project.owner = sender)
      (hid : burn_id = T.hash_of (.burn sender asset_id amount additional))
      (hfresh : s.Projects.get burn_id = none)
      (hbalance : amount ≤ s.balance asset_id sender) :
      Step T origin now s (.submit_burn asset_id amount additional)
        ({ s with
          Burns := s.Burns.insert burn_id { asset_id, amount, status := 0, additional } }.debit
            asset_id sender amount)
        [.BurnSubmited burn_id asset_id sender amount now]
        [.carbon (.sub (asset_id, sender) (s.balance asset_id sender) amount)]
  | approve_burn (burn_id : Hash) (burn_info : BurnInfo Hash) (asset : CarbonAsset Hash)
      (project : CarbonProject AccountId)
      (horigin : ApproveOrigin.Allows origin)
      (hburn : s.Burns.get burn_id = some burn_info)
      (hstatus : burn_info.status = 0)
      (hasset : s.Assets.get burn_info.asset_id = some asset)
      (hproject : s.Projects.get asset.project_id = some project) :
      Step T origin now s (.approve_burn burn_id)
        { s with
          Assets := s.Assets.insert burn_info.asset_id
            { asset with total_supply := asset.total_supply - burn_info.amount }
          Projects := s.Projects.insert asset.project_id
            { project with total_supply := project.total_supply - burn_info.amount }
          Burns := s.Burns.insert burn_id { burn_info with status := 1 } }
        [.IssueApproved burn_id] []
  | transfer (sender : AccountId) (asset_id : Hash) (to_ : AccountId) (amount : UInt64)
      (horigin : origin = .signed sender)
      (hamount : amount ≠ 0)
      (hbalance : amount ≤ s.balance asset_id sender) :
      Step T origin now s (.transfer asset_id to_ amount) (s.move asset_id sender to_ amount)
        [.Transferred asset_id sender to_ amount now] (s.move_ops asset_id sender to_ amount)
  | neutralize (sender : AccountId) (asset_id : Hash) (amount : UInt64) (additional : Bytes)
      (horigin : origin = .signed sender)
      (hamount : amount ≠ 0)
      (hbalance : amount ≤ s.balance asset_id sender) :
      Step T origin now s (.neutralize asset_id amount additional)
        (s.debit asset_id sender amount)
        [.Neutralized asset_id sender amount now]
        [.carbon (.sub (asset_id, sender) (s.balance asset_id sender) amount)]

/-- A call that returns `Ok` has made a step. -/
theorem step_of_ok {T : Trait AccountId Hash} {origin : Origin AccountId}
    {call : Call AccountId Hash} {c c' : Ctx AccountId Hash} {u : Unit}
    (h : call.dispatch T origin c = .ok u c') :
    ∃ s' events ops, Step T origin c.now c.world.carbon call s' events ops
      ∧ c' = { world := { c.world with carbon := s' }, now := c.now
               events := c.events ++ events.map .carbonAssets
               ops := c.ops ++ ops } := by
  cases call with
  | submit_project symbol max_supply additional =>
    -- the checks come off one by one, in the order of the source
    simp only [Call.dispatch, CarbonAssets.submit_project, ensure_signed_bind_eq_ok, read_bind,
      ensure_bind_eq_ok, Bool.not_eq_true', StorageMap.contains_key_eq_false, update_bind,
      timestamp_get_bind, deposit_event_eq_ok] at h
    obtain ⟨sender, rfl, hfresh, rfl⟩ := h
    exact ⟨_, _, _, .submit_project sender symbol max_supply additional _ rfl rfl hfresh,
      by simp⟩
  | approve_project project_id =>
    simp only [Call.dispatch, CarbonAssets.approve_project, ensure_origin_bind_eq_ok,
      get_project, read_bind, ok_or_bind_eq_ok, ensure_bind_eq_ok, update_bind,
      deposit_event_eq_ok] at h
    obtain ⟨horigin, project, hproject, hstatus, rfl⟩ := h
    exact ⟨_, _, _, .approve_project project_id project horigin hproject hstatus, by simp⟩
  | submit_asset project_id vintage initial_supply additional =>
    simp only [Call.dispatch, CarbonAssets.submit_asset, ensure_signed_bind_eq_ok, get_project,
      read_bind, ok_or_bind_eq_ok, ensure_bind_eq_ok, Bool.not_eq_true',
      StorageMap.contains_key_eq_false, update_bind, timestamp_get_bind, deposit_event_eq_ok] at h
    obtain ⟨sender, rfl, project, hproject, hstatus, howner, hlimit, hfresh, rfl⟩ := h
    exact ⟨_, _, _, .submit_asset sender project_id vintage initial_supply additional project _
      rfl hproject hstatus howner hlimit rfl hfresh, by simp⟩
  | approve_asset asset_id =>
    simp only [Call.dispatch, CarbonAssets.approve_asset, ensure_origin_bind_eq_ok, get_project,
      get_asset, read_bind, ok_or_bind_eq_ok, ensure_bind_eq_ok, update_bind,
      deposit_event_eq_ok] at h
    obtain ⟨horigin, asset, hasset, hstatus, project, hproject, hlimit, rfl⟩ := h
    exact ⟨_, _, _, .approve_asset asset_id asset project horigin hasset hstatus hproject hlimit,
      by simp⟩
  | submit_issue asset_id amount additional =>
    simp only [Call.dispatch, CarbonAssets.submit_issue, ensure_signed_bind_eq_ok, get_project,
      get_asset, read_bind, ok_or_bind_eq_ok, ensure_bind_eq_ok, Bool.not_eq_true',
      StorageMap.contains_key_eq_false, update_bind, timestamp_get_bind, deposit_event_eq_ok] at h
    obtain ⟨sender, rfl, asset, hasset, hstatus, project, hproject, howner, hlimit, hfresh, rfl⟩ :=
      h
    exact ⟨_, _, _, .submit_issue sender asset_id amount additional asset project _ rfl hasset
      hstatus hproject howner hlimit rfl hfresh, by simp⟩
  | approve_issue issue_id =>
    simp only [Call.dispatch, CarbonAssets.approve_issue, ensure_origin_bind_eq_ok, get_issue,
      get_project, get_asset, read_bind, ok_or_bind_eq_ok, ensure_bind_eq_ok, update_bind,
      balance_add_bind, deposit_event_eq_ok] at h
    obtain ⟨horigin, issue_info, hissue, hstatus, asset, hasset, project, hproject, hlimit, rfl⟩ :=
      h
    exact ⟨_, _, _, .approve_issue issue_id issue_info asset project horigin hissue hstatus hasset
      hproject hlimit, by simp [Storage.balance]⟩
  | submit_burn asset_id amount additional =>
    simp only [Call.dispatch, CarbonAssets.submit_burn, ensure_signed_bind_eq_ok, get_project,
      get_asset, get_balance, read_bind, ok_or_bind_eq_ok, ensure_bind_eq_ok, Bool.not_eq_true',
      StorageMap.contains_key_eq_false, update_bind, balance_sub_bind, timestamp_get_bind,
      deposit_event_eq_ok] at h
    obtain ⟨sender, rfl, asset, hasset, hstatus, project, hproject, howner, hfresh, hbalance,
      rfl⟩ := h
    exact ⟨_, _, _, .submit_burn sender asset_id amount additional asset project _ rfl hasset
      hstatus hproject howner rfl hfresh hbalance, by simp [Storage.balance]⟩
  | approve_burn burn_id =>
    simp only [Call.dispatch, CarbonAssets.approve_burn, ensure_origin_bind_eq_ok, get_burn,
      get_project, get_asset, read_bind, ok_or_bind_eq_ok, ensure_bind_eq_ok, update_bind,
      deposit_event_eq_ok] at h
    obtain ⟨horigin, burn_info, hburn, hstatus, asset, hasset, project, hproject, rfl⟩ := h
    exact ⟨_, _, _, .approve_burn burn_id burn_info asset project horigin hburn hstatus hasset
      hproject, by simp⟩
  | transfer asset_id to_ amount =>
    simp only [Call.dispatch, CarbonAssets.transfer, ensure_signed_bind_eq_ok, get_balance,
      read_bind, ensure_bind_eq_ok, make_transfer_bind, timestamp_get_bind,
      deposit_event_eq_ok] at h
    obtain ⟨sender, rfl, hamount, hbalance, rfl⟩ := h
    exact ⟨_, _, _, .transfer sender asset_id to_ amount rfl hamount hbalance, by simp⟩
  | neutralize asset_id amount additional =>
    simp only [Call.dispatch, CarbonAssets.neutralize, ensure_signed_bind_eq_ok, get_balance,
      read_bind, ensure_bind_eq_ok, balance_sub_bind, timestamp_get_bind,
      deposit_event_eq_ok] at h
    obtain ⟨sender, rfl, hamount, hbalance, rfl⟩ := h
    exact ⟨_, _, _, .neutralize sender asset_id amount additional rfl hamount hbalance, by simp⟩

/-- Where a step can be made, the call returns `Ok`. -/
theorem ok_of_step {T : Trait AccountId Hash} {origin : Origin AccountId}
    {call : Call AccountId Hash} {c : Ctx AccountId Hash} {s' : Storage AccountId Hash}
    {events : List (Event AccountId Hash)} {ops : List (Op AccountId Hash)}
    (h : Step T origin c.now c.world.carbon call s' events ops) :
    ∃ c', call.dispatch T origin c = .ok () c' := by
  cases h with
  | submit_project sender symbol max_supply additional project_id horigin hid hfresh =>
    subst horigin hid
    simp only [Call.dispatch, CarbonAssets.submit_project, ensure_signed_bind_eq_ok, read_bind,
      ensure_bind_eq_ok, Bool.not_eq_true', StorageMap.contains_key_eq_false, update_bind,
      timestamp_get_bind, deposit_event_eq_ok]
    exact ⟨_, sender, rfl, hfresh, rfl⟩
  | approve_project project_id project horigin hproject hstatus =>
    simp only [Call.dispatch, CarbonAssets.approve_project, ensure_origin_bind_eq_ok,
      get_project, read_bind, ok_or_bind_eq_ok, ensure_bind_eq_ok, update_bind,
      deposit_event_eq_ok]
    exact ⟨_, horigin, project, hproject, hstatus, rfl⟩
  | submit_asset sender project_id vintage initial_supply additional project asset_id horigin
      hproject hstatus howner hlimit hid hfresh =>
    subst horigin hid
    simp only [Call.dispatch, CarbonAssets.submit_asset, ensure_signed_bind_eq_ok, get_project,
      read_bind, ok_or_bind_eq_ok, ensure_bind_eq_ok, Bool.not_eq_true',
      StorageMap.contains_key_eq_false, update_bind, timestamp_get_bind, deposit_event_eq_ok]
    exact ⟨_, sender, rfl, project, hproject, hstatus, howner, hlimit, hfresh, rfl⟩
  | approve_asset asset_id asset project horigin hasset hstatus hproject hlimit =>
    simp only [Call.dispatch, CarbonAssets.approve_asset, ensure_origin_bind_eq_ok, get_project,
      get_asset, read_bind, ok_or_bind_eq_ok, ensure_bind_eq_ok, update_bind,
      deposit_event_eq_ok]
    exact ⟨_, horigin, asset, hasset, hstatus, project, hproject, hlimit, rfl⟩
  | submit_issue sender asset_id amount additional asset project issue_id horigin hasset hstatus
      hproject howner hlimit hid hfresh =>
    subst horigin hid
    simp only [Call.dispatch, CarbonAssets.submit_issue, ensure_signed_bind_eq_ok, get_project,
      get_asset, read_bind, ok_or_bind_eq_ok, ensure_bind_eq_ok, Bool.not_eq_true',
      StorageMap.contains_key_eq_false, update_bind, timestamp_get_bind, deposit_event_eq_ok]
    exact ⟨_, sender, rfl, asset, hasset, hstatus, project, hproject, howner, hlimit, hfresh, rfl⟩
  | approve_issue issue_id issue_info asset project horigin hissue hstatus hasset hproject hlimit =>
    simp only [Call.dispatch, CarbonAssets.approve_issue, ensure_origin_bind_eq_ok, get_issue,
      get_project, get_asset, read_bind, ok_or_bind_eq_ok, ensure_bind_eq_ok, update_bind,
      balance_add_bind, deposit_event_eq_ok]
    exact ⟨_, horigin, issue_info, hissue, hstatus, asset, hasset, project, hproject, hlimit, rfl⟩
  | submit_burn sender asset_id amount additional asset project burn_id horigin hasset hstatus
      hproject howner hid hfresh hbalance =>
    subst horigin hid
    simp only [Call.dispatch, CarbonAssets.submit_burn, ensure_signed_bind_eq_ok, get_project,
      get_asset, get_balance, read_bind, ok_or_bind_eq_ok, ensure_bind_eq_ok, Bool.not_eq_true',
      StorageMap.contains_key_eq_false, update_bind, balance_sub_bind, timestamp_get_bind,
      deposit_event_eq_ok]
    exact ⟨_, sender, rfl, asset, hasset, hstatus, project, hproject, howner, hfresh, hbalance,
      rfl⟩
  | approve_burn burn_id burn_info asset project horigin hburn hstatus hasset hproject =>
    simp only [Call.dispatch, CarbonAssets.approve_burn, ensure_origin_bind_eq_ok, get_burn,
      get_project, get_asset, read_bind, ok_or_bind_eq_ok, ensure_bind_eq_ok, update_bind,
      deposit_event_eq_ok]
    exact ⟨_, horigin, burn_info, hburn, hstatus, asset, hasset, project, hproject, rfl⟩
  | transfer sender asset_id to_ amount horigin hamount hbalance =>
    subst horigin
    simp only [Call.dispatch, CarbonAssets.transfer, ensure_signed_bind_eq_ok, get_balance,
      read_bind, ensure_bind_eq_ok, make_transfer_bind, timestamp_get_bind,
      deposit_event_eq_ok]
    exact ⟨_, sender, rfl, hamount, hbalance, rfl⟩
  | neutralize sender asset_id amount additional horigin hamount hbalance =>
    subst horigin
    simp only [Call.dispatch, CarbonAssets.neutralize, ensure_signed_bind_eq_ok, get_balance,
      read_bind, ensure_bind_eq_ok, balance_sub_bind, timestamp_get_bind, deposit_event_eq_ok]
    exact ⟨_, sender, rfl, hamount, hbalance, rfl⟩

/-! ## The failures -/

section Failures

theorem infallible_update (f : Storage AccountId Hash → Storage AccountId Hash) :
    Infallible (update f) :=
  infallible_write _

theorem infallible_balance_add (asset_id : Hash) (account : AccountId) (amount : UInt64) :
    Infallible (balance_add asset_id account amount) :=
  infallible_modify _

theorem infallible_balance_sub (asset_id : Hash) (account : AccountId) (amount : UInt64) :
    Infallible (balance_sub asset_id account amount) :=
  infallible_modify _

theorem infallible_make_transfer (asset_id : Hash) (from_ to_ : AccountId) (amount : UInt64) :
    Infallible (make_transfer asset_id from_ to_ amount) := by
  -- the subtraction wraps where it is not covered, it does not fail
  refine (infallible_record _).bind fun _ => ?_
  split
  · exact (infallible_balance_sub _ _ _).bind fun _ => infallible_balance_add _ _ _
  · exact infallible_pure _

/-- A call that returns `Err` has changed nothing: every check of every
dispatchable stands before its first write. -/
theorem atomic_dispatch (T : Trait AccountId Hash) (origin : Origin AccountId)
    (call : Call AccountId Hash) : Atomic (call.dispatch T origin) := by
  cases call with
  | submit_project symbol max_supply additional =>
    refine Atomic.check (readOnly_ensure_signed _) fun sender => ?_
    refine Atomic.check (readOnly_read _) fun known => ?_
    refine Atomic.check (readOnly_ensure _ _) fun _ => Infallible.atomic ?_
    exact (infallible_update _).bind fun _ => (infallible_update _).bind fun _ =>
      infallible_stamp _
  | approve_project project_id =>
    refine Atomic.check (readOnly_ensure_origin _) fun _ => ?_
    refine Atomic.check (readOnly_read _) fun found => ?_
    refine Atomic.check (readOnly_ok_or _ _) fun project => ?_
    refine Atomic.check (readOnly_ensure _ _) fun _ => Infallible.atomic ?_
    exact (infallible_update _).bind fun _ => infallible_deposit_event _
  | submit_asset project_id vintage initial_supply additional =>
    refine Atomic.check (readOnly_ensure_signed _) fun sender => ?_
    refine Atomic.check (readOnly_read _) fun found => ?_
    refine Atomic.check (readOnly_ok_or _ _) fun project => ?_
    refine Atomic.check (readOnly_ensure _ _) fun _ => ?_
    refine Atomic.check (readOnly_ensure _ _) fun _ => ?_
    refine Atomic.check (readOnly_ensure _ _) fun _ => ?_
    refine Atomic.check (readOnly_read _) fun known => ?_
    refine Atomic.check (readOnly_ensure _ _) fun _ => Infallible.atomic ?_
    exact (infallible_update _).bind fun _ => (infallible_update _).bind fun _ =>
      infallible_stamp _
  | approve_asset asset_id =>
    refine Atomic.check (readOnly_ensure_origin _) fun _ => ?_
    refine Atomic.check (readOnly_read _) fun found => ?_
    refine Atomic.check (readOnly_ok_or _ _) fun asset => ?_
    refine Atomic.check (readOnly_ensure _ _) fun _ => ?_
    refine Atomic.check (readOnly_read _) fun found => ?_
    refine Atomic.check (readOnly_ok_or _ _) fun project => ?_
    refine Atomic.check (readOnly_ensure _ _) fun _ => Infallible.atomic ?_
    exact (infallible_update _).bind fun _ => (infallible_update _).bind fun _ =>
      infallible_deposit_event _
  | submit_issue asset_id amount additional =>
    refine Atomic.check (readOnly_ensure_signed _) fun sender => ?_
    refine Atomic.check (readOnly_read _) fun found => ?_
    refine Atomic.check (readOnly_ok_or _ _) fun asset => ?_
    refine Atomic.check (readOnly_ensure _ _) fun _ => ?_
    refine Atomic.check (readOnly_read _) fun found => ?_
    refine Atomic.check (readOnly_ok_or _ _) fun project => ?_
    refine Atomic.check (readOnly_ensure _ _) fun _ => ?_
    refine Atomic.check (readOnly_ensure _ _) fun _ => ?_
    refine Atomic.check (readOnly_read _) fun known => ?_
    refine Atomic.check (readOnly_ensure _ _) fun _ => Infallible.atomic ?_
    exact (infallible_update _).bind fun _ => infallible_stamp _
  | approve_issue issue_id =>
    refine Atomic.check (readOnly_ensure_origin _) fun _ => ?_
    refine Atomic.check (readOnly_read _) fun found => ?_
    refine Atomic.check (readOnly_ok_or _ _) fun issue_info => ?_
    refine Atomic.check (readOnly_ensure _ _) fun _ => ?_
    refine Atomic.check (readOnly_read _) fun found => ?_
    refine Atomic.check (readOnly_ok_or _ _) fun asset => ?_
    refine Atomic.check (readOnly_read _) fun found => ?_
    refine Atomic.check (readOnly_ok_or _ _) fun project => ?_
    refine Atomic.check (readOnly_ensure _ _) fun _ => Infallible.atomic ?_
    exact (infallible_update _).bind fun _ => (infallible_update _).bind fun _ =>
      (infallible_update _).bind fun _ => (infallible_balance_add _ _ _).bind fun _ =>
        infallible_deposit_event _
  | submit_burn asset_id amount additional =>
    refine Atomic.check (readOnly_ensure_signed _) fun sender => ?_
    refine Atomic.check (readOnly_read _) fun found => ?_
    refine Atomic.check (readOnly_ok_or _ _) fun asset => ?_
    refine Atomic.check (readOnly_ensure _ _) fun _ => ?_
    refine Atomic.check (readOnly_read _) fun found => ?_
    refine Atomic.check (readOnly_ok_or _ _) fun project => ?_
    refine Atomic.check (readOnly_ensure _ _) fun _ => ?_
    refine Atomic.check (readOnly_read _) fun known => ?_
    refine Atomic.check (readOnly_ensure _ _) fun _ => ?_
    refine Atomic.check (readOnly_read _) fun balance => ?_
    refine Atomic.check (readOnly_ensure _ _) fun _ => Infallible.atomic ?_
    exact (infallible_update _).bind fun _ => (infallible_balance_sub _ _ _).bind fun _ =>
      infallible_stamp _
  | approve_burn burn_id =>
    refine Atomic.check (readOnly_ensure_origin _) fun _ => ?_
    refine Atomic.check (readOnly_read _) fun found => ?_
    refine Atomic.check (readOnly_ok_or _ _) fun burn_info => ?_
    refine Atomic.check (readOnly_ensure _ _) fun _ => ?_
    refine Atomic.check (readOnly_read _) fun found => ?_
    refine Atomic.check (readOnly_ok_or _ _) fun asset => ?_
    refine Atomic.check (readOnly_read _) fun found => ?_
    refine Atomic.check (readOnly_ok_or _ _) fun project => Infallible.atomic ?_
    exact (infallible_update _).bind fun _ => (infallible_update _).bind fun _ =>
      (infallible_update _).bind fun _ => infallible_deposit_event _
  | transfer asset_id to_ amount =>
    refine Atomic.check (readOnly_ensure_signed _) fun sender => ?_
    refine Atomic.check (readOnly_read _) fun origin_balance => ?_
    refine Atomic.check (readOnly_ensure _ _) fun _ => ?_
    refine Atomic.check (readOnly_ensure _ _) fun _ => Infallible.atomic ?_
    exact (infallible_make_transfer _ _ _ _).bind fun _ => infallible_stamp _
  | neutralize asset_id amount additional =>
    refine Atomic.check (readOnly_ensure_signed _) fun sender => ?_
    refine Atomic.check (readOnly_read _) fun origin_balance => ?_
    refine Atomic.check (readOnly_ensure _ _) fun _ => ?_
    refine Atomic.check (readOnly_ensure _ _) fun _ => Infallible.atomic ?_
    exact (infallible_balance_sub _ _ _).bind fun _ => infallible_stamp _

end Failures

end Eco2.CarbonAssets
