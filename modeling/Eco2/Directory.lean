/-
The directory that the log of a run describes.

Somebody who reads the events of the custom pallets, and nothing else, can keep books of
what is on the chain: which projects and assets there are and whether they are approved,
which orders are open, and the whole ledger of the standard assets. `Directory.record` is
how an event is entered, and `World.directory` what the books say of a state of the chain.
`directory_log` says that the two agree: a transition changes the state as its events
change the books, so the log of a run from genesis determines them.

The other half of storage the log does not determine. It never says how much an order is
for, nor how many units an approved asset begins with.
-/
import Eco2.ChainLog
import Eco2.FirstWrite
import Eco2.StandardLedger

set_option autoImplicit false
set_option linter.unusedSectionVars false

namespace Eco2

variable {AccountId Hash : Type}

/-! ## The books -/

structure ProjectEntry (AccountId : Type) where
  owner : AccountId
  symbol : Bytes
  approved : Bool
  deriving DecidableEq

structure AssetEntry (AccountId Hash : Type) where
  project_id : Hash
  owner : AccountId
  symbol : Bytes
  vintage : Bytes
  approved : Bool
  deriving DecidableEq

/-- An open order. -/
structure OrderEntry (AccountId Hash : Type) where
  maker : AccountId
  asset_id : Hash
  money_id : Hash
  direction : UInt8
  deriving DecidableEq

structure StandardEntry where
  symbol : Bytes
  decimals : UInt8
  deriving DecidableEq

/-- The projects and assets of the carbon pallet. -/
@[ext]
structure CarbonBook (AccountId Hash : Type) where
  projects : Hash → Option (ProjectEntry AccountId)
  assets : Hash → Option (AssetEntry AccountId Hash)

/-- The ledger of the standard assets. -/
@[ext]
structure StandardBook (AccountId Hash : Type) where
  assets : Hash → Option StandardEntry
  balances : Hash × AccountId → UInt64
  supplies : Hash → UInt64

@[ext]
structure Directory (AccountId Hash : Type) where
  carbon : CarbonBook AccountId Hash
  orders : Hash → Option (OrderEntry AccountId Hash)
  standard : StandardBook AccountId Hash

/-- Before the first event. -/
def Directory.blank : Directory AccountId Hash where
  carbon := ⟨fun _ => none, fun _ => none⟩
  orders _ := none
  standard := ⟨fun _ => none, fun _ => 0, fun _ => 0⟩

section Record

variable [DecidableEq AccountId] [DecidableEq Hash]

def CarbonBook.record (book : CarbonBook AccountId Hash) :
    CarbonAssets.Event AccountId Hash → CarbonBook AccountId Hash
  | .ProjectSubmited project_id owner symbol _ => { book with
      projects := FirstWrite.write book.projects
        (some (project_id, { owner, symbol, approved := false })) }
  | .ProjectApproved project_id => { book with
      projects := Function.update book.projects project_id
        ((book.projects project_id).map fun project => { project with approved := true }) }
  | .AssetSubmited project_id asset_id symbol vintage owner _ => { book with
      assets := FirstWrite.write book.assets
        (some (asset_id, { project_id, owner, symbol, vintage, approved := false })) }
  | .AssetApproved asset_id => { book with
      assets := Function.update book.assets asset_id
        ((book.assets asset_id).map fun asset => { asset with approved := true }) }
  | _ => book

/-- An order is open from its announcement on until it is finished or cancelled. -/
def record_order (orders : Hash → Option (OrderEntry AccountId Hash)) :
    CarbonExchange.Event AccountId Hash → Hash → Option (OrderEntry AccountId Hash)
  | .NewOrder order_id maker asset_id money_id direction _ =>
      Function.update orders order_id (some { maker, asset_id, money_id, direction })
  | .NewDeal .. => orders
  | .OrderFinished order_id => Function.update orders order_id none
  | .OrderCanceled order_id => Function.update orders order_id none

def StandardBook.record (book : StandardBook AccountId Hash) :
    StandardAssets.Event AccountId Hash → StandardBook AccountId Hash
  | .NewAsset asset_id symbol owner first_supply decimals _ =>
      { assets := FirstWrite.write book.assets (some (asset_id, { symbol, decimals }))
        balances := Function.update book.balances (asset_id, owner) first_supply
        supplies := Function.update book.supplies asset_id first_supply }
  | .Transferred asset_id from_ to_ amount _ =>
      let debited := Function.update book.balances (asset_id, from_)
        (book.balances (asset_id, from_) - amount)
      { book with
        balances := Function.update debited (asset_id, to_) (debited (asset_id, to_) + amount) }
  | .Minted asset_id owner amount => { book with
      balances := Function.update book.balances (asset_id, owner)
        (book.balances (asset_id, owner) + amount)
      supplies := Function.update book.supplies asset_id (book.supplies asset_id + amount) }
  | .Burned asset_id owner amount => { book with
      balances := Function.update book.balances (asset_id, owner)
        (book.balances (asset_id, owner) - amount)
      supplies := Function.update book.supplies asset_id (book.supplies asset_id - amount) }

/-- Entering an event. -/
def Directory.record (d : Directory AccountId Hash) :
    Event AccountId Hash → Directory AccountId Hash
  | .carbonAssets e => { d with carbon := d.carbon.record e }
  | .carbonExchange e => { d with orders := record_order d.orders e }
  | .standardAssets e => { d with standard := d.standard.record e }

/-- The books after events, entered one after the other. -/
def directory (events : List (Event AccountId Hash)) : Directory AccountId Hash :=
  events.foldl Directory.record .blank

end Record

/-! ## What the books say of a state -/

def CarbonAssets.CarbonProject.entry (project : CarbonAssets.CarbonProject AccountId) :
    ProjectEntry AccountId where
  owner := project.owner
  symbol := project.symbol
  approved := project.status = 1

/-- An asset is listed with the owner and the symbol of its project. -/
def CarbonAssets.CarbonAsset.entry (asset : CarbonAssets.CarbonAsset Hash)
    (project : CarbonAssets.CarbonProject AccountId) : AssetEntry AccountId Hash where
  project_id := asset.project_id
  owner := project.owner
  symbol := project.symbol
  vintage := asset.vintage
  approved := asset.status = 1

def CarbonExchange.Order.entry (order : CarbonExchange.Order AccountId Hash) :
    OrderEntry AccountId Hash where
  maker := order.maker
  asset_id := order.asset_id
  money_id := order.money_id
  direction := order.direction

def StandardAssets.ECRC10.entry (asset_info : StandardAssets.ECRC10) : StandardEntry where
  symbol := asset_info.symbol
  decimals := asset_info.decimals

section States

variable [DecidableEq AccountId] [DecidableEq Hash]

def CarbonBook.of (Projects : StorageMap Hash (CarbonAssets.CarbonProject AccountId))
    (Assets : StorageMap Hash (CarbonAssets.CarbonAsset Hash)) : CarbonBook AccountId Hash where
  projects id := (Projects.get id).map CarbonAssets.CarbonProject.entry
  assets id := (Assets.get id).bind fun asset => (Projects.get asset.project_id).map asset.entry

def CarbonAssets.Storage.book (s : CarbonAssets.Storage AccountId Hash) :
    CarbonBook AccountId Hash :=
  .of s.Projects s.Assets

def StandardAssets.Storage.book (s : StandardAssets.Storage AccountId Hash) :
    StandardBook AccountId Hash where
  assets id := (s.AssetInfos.get id).map StandardAssets.ECRC10.entry
  balances cell := s.balance cell.1 cell.2
  supplies := s.total_supply

def World.directory (w : World AccountId Hash) : Directory AccountId Hash where
  carbon := w.carbon.book
  orders id := (w.Orders.get id).map CarbonExchange.Order.entry
  standard := w.standard.book

end States

variable [DecidableEq AccountId] [DecidableEq Hash]

/-! ## Writing a record -/

section Writes

variable {V W : Type} (m : StorageMap Hash V) (f : V → W) (id : Hash)

theorem map_insert_get (v : V) : (fun id' => ((m.insert id v).get id').map f)
    = Function.update (fun id' => (m.get id').map f) id (some (f v)) := by
  funext id'
  rw [StorageMap.get_insert, Function.update_apply]
  split <;> rfl

end Writes

namespace CarbonBook

open CarbonAssets

variable {Projects : StorageMap Hash (CarbonProject AccountId)}
  {Assets : StorageMap Hash (CarbonAsset Hash)} {project_id asset_id : Hash}

theorem projects_of {project : CarbonProject AccountId}
    (h : Projects.get project_id = some project) :
    (of Projects Assets).projects project_id = some project.entry :=
  congrArg (Option.map CarbonProject.entry) h

theorem assets_of {asset : CarbonAsset Hash} {project : CarbonProject AccountId}
    (h : Assets.get asset_id = some asset)
    (hproject : Projects.get asset.project_id = some project) :
    (of Projects Assets).assets asset_id = some (asset.entry project) := by
  change (Assets.get asset_id).bind _ = _
  rw [h, Option.bind_some, hproject]
  rfl

/-- A project that is written under a new identifier, which is no asset's. -/
theorem of_insert_new (hassets : ∀ a asset, Assets.get a = some asset →
      ∃ project, Projects.get asset.project_id = some project)
    (hfresh : Projects.get project_id = none) (project : CarbonProject AccountId) :
    of (Projects.insert project_id project) Assets
      = ⟨FirstWrite.write (of Projects Assets).projects (some (project_id, project.entry)),
        (of Projects Assets).assets⟩ := by
  have hnone : (of Projects Assets).projects project_id = none := Option.map_eq_none_iff.mpr hfresh
  refine CarbonBook.ext ?_ (funext fun a => Option.bind_congr fun asset hasset => ?_)
  · rw [FirstWrite.write_some_of_none hnone]
    exact map_insert_get Projects _ project_id project
  · obtain ⟨old, hold⟩ := hassets a asset hasset
    have hne : asset.project_id ≠ project_id := fun heq => by
      rw [heq, hfresh] at hold
      cases hold
    rw [StorageMap.get_insert_of_ne _ _ hne]

/-- A project that is written again, with its owner and symbol. -/
theorem of_insert_project {old : CarbonProject AccountId}
    (hold : Projects.get project_id = some old) (project : CarbonProject AccountId)
    (howner : project.owner = old.owner) (hsymbol : project.symbol = old.symbol) :
    of (Projects.insert project_id project) Assets
      = ⟨Function.update (of Projects Assets).projects project_id (some project.entry),
        (of Projects Assets).assets⟩ := by
  refine CarbonBook.ext (map_insert_get Projects _ project_id project)
    (funext fun a => Option.bind_congr fun asset hasset => ?_)
  rw [StorageMap.get_insert]
  split
  · rename_i heq
    rw [heq, hold, Option.map_some, Option.map_some]
    unfold CarbonAsset.entry
    rw [howner, hsymbol]
  · rfl

theorem of_insert_asset {project : CarbonProject AccountId} (asset : CarbonAsset Hash)
    (hproject : Projects.get asset.project_id = some project) :
    of Projects (Assets.insert asset_id asset)
      = ⟨(of Projects Assets).projects,
        Function.update (of Projects Assets).assets asset_id (some (asset.entry project))⟩ := by
  refine CarbonBook.ext rfl (funext fun a => ?_)
  change ((Assets.insert asset_id asset).get a).bind _
    = Function.update (of Projects Assets).assets asset_id _ a
  rw [StorageMap.get_insert, Function.update_apply]
  split
  · exact congrArg (Option.map asset.entry) hproject
  · rfl

/-- Totals are not in the book. -/
theorem of_insert_totals {old : CarbonAsset Hash} {project : CarbonProject AccountId}
    (hold : Assets.get asset_id = some old) (hproject : Projects.get old.project_id = some project)
    (total_supply total_supply' : UInt64) :
    of (Projects.insert old.project_id { project with total_supply })
        (Assets.insert asset_id { old with total_supply := total_supply' })
      = of Projects Assets := by
  have hinsert : (Projects.insert old.project_id { project with total_supply }).get old.project_id
      = some { project with total_supply } := StorageMap.get_insert_self _ _ _
  rw [of_insert_asset { old with total_supply := total_supply' } hinsert,
    of_insert_project hproject { project with total_supply } rfl rfl]
  exact CarbonBook.ext (Function.update_eq_self_iff.mpr (projects_of hproject).symm)
    (Function.update_eq_self_iff.mpr (assets_of hold hproject).symm)

end CarbonBook

/-! ## One transition -/

section Steps

variable {T : Trait AccountId Hash} {origin : Origin AccountId} {now : Moment}

theorem CarbonAssets.book_move (s : CarbonAssets.Storage AccountId Hash) (asset_id : Hash)
    (from_ to_ : AccountId) (amount : UInt64) :
    (s.move asset_id from_ to_ amount).book = s.book := by
  unfold Storage.book
  rw [move_Projects, move_Assets]

/-- A step of the carbon pallet changes its book as its event does. -/
theorem CarbonAssets.Step.book {s s' : CarbonAssets.Storage AccountId Hash}
    {call : CarbonAssets.Call AccountId Hash} {events : List (CarbonAssets.Event AccountId Hash)}
    {ops : List (Op AccountId Hash)} (hreg : Registry s)
    (h : Step T origin now s call s' events ops) :
    events.foldl CarbonBook.record s.book = s'.book := by
  cases h with
  | submit_project sender symbol max_supply additional project_id horigin hid hfresh =>
    exact (CarbonBook.of_insert_new hreg.asset_project hfresh
      ⟨symbol, max_supply, 0, 0, sender⟩).symm
  | approve_project project_id project horigin hproject hstatus =>
    have hfound : s.book.projects project_id = some project.entry :=
      CarbonBook.projects_of hproject
    refine Eq.trans ?_ (CarbonBook.of_insert_project hproject { project with status := 1 }
      rfl rfl).symm
    change CarbonBook.mk (Function.update _ _ ((s.book.projects project_id).map _)) _ = _
    rw [hfound]
    rfl
  | submit_asset sender project_id vintage initial_supply additional project asset_id horigin
      hproject hstatus howner hlimit hid hfresh =>
    have hnone : s.book.assets asset_id = none := by
      change (s.Assets.get asset_id).bind _ = none
      rw [hfresh]
      rfl
    refine Eq.trans ?_ (CarbonBook.of_insert_asset ⟨project_id, vintage, initial_supply, 0, 0⟩
      hproject).symm
    change CarbonBook.mk _ (FirstWrite.write s.book.assets _) = _
    rw [FirstWrite.write_some_of_none hnone, ← howner]
    rfl
  | approve_asset asset_id asset project horigin hasset hstatus hproject hlimit =>
    have hfound : s.book.assets asset_id = some (asset.entry project) :=
      CarbonBook.assets_of hasset hproject
    refine Eq.trans ?_ (CarbonBook.of_insert_asset
      { asset with status := 1, total_supply := asset.initial_supply } hproject).symm
    change CarbonBook.mk _ (Function.update _ _ ((s.book.assets asset_id).map _)) = _
    rw [hfound]
    rfl
  | approve_issue issue_id issue_info asset project horigin hissue hstatus hasset hproject hlimit =>
    exact (CarbonBook.of_insert_totals hasset hproject _ _).symm
  | approve_burn burn_id burn_info asset project horigin hburn hstatus hasset hproject =>
    exact (CarbonBook.of_insert_totals hasset hproject _ _).symm
  | transfer sender asset_id to_ amount => exact (book_move s asset_id sender to_ amount).symm
  -- issues, burns and balances are not in the book
  | submit_issue => rfl
  | submit_burn => rfl
  | neutralize => rfl

namespace StandardAssets

variable (s : Storage AccountId Hash) (id : Hash) (who : AccountId) (value : UInt64)

theorem book_set_balance : (s.set_balance id who value).book
    = ⟨s.book.assets, Function.update s.book.balances (id, who) value, s.book.supplies⟩ := by
  refine StandardBook.ext rfl (funext fun cell => ?_) rfl
  change (s.set_balance id who value).balance cell.1 cell.2
    = Function.update s.book.balances (id, who) value cell
  rw [balance_set_balance, Function.update_apply]
  exact if_congr (by rw [Prod.ext_iff]) rfl rfl

theorem book_set_total_supply : (s.set_total_supply id value).book
    = ⟨s.book.assets, s.book.balances, Function.update s.book.supplies id value⟩ := by
  refine StandardBook.ext rfl rfl (funext fun id' => ?_)
  change (s.set_total_supply id value).total_supply id'
    = Function.update s.book.supplies id value id'
  rw [total_supply_set_total_supply, Function.update_apply]
  rfl

/-- A step of the standard pallet changes its ledger as its event does. -/
theorem Step.book {s s' : Storage AccountId Hash} {call : Call AccountId Hash}
    {events : List (Event AccountId Hash)} {ops : List (CellOp (Cell AccountId Hash))}
    (h : Step T origin now s call s' events ops) :
    events.foldl StandardBook.record s.book = s'.book := by
  cases h with
  | issue who symbol name decimals max_supply first_supply asset_id horigin hid hfresh =>
    have hnone : s.book.assets asset_id = none := Option.map_eq_none_iff.mpr hfresh
    rw [book_set_total_supply, book_set_balance]
    refine StandardBook.ext ?_ rfl rfl
    change FirstWrite.write s.book.assets (some (asset_id, ⟨symbol, decimals⟩)) = _
    rw [FirstWrite.write_some_of_none hnone]
    exact (map_insert_get s.AssetInfos ECRC10.entry asset_id
      ⟨symbol, name, decimals, max_supply⟩).symm
  | transfer who id target amount s₁ horigin hamount hbalance hs₁ =>
    have hdebited : s₁.book = ⟨s.book.assets, Function.update s.book.balances (id, who)
        (s.balance id who - amount), s.book.supplies⟩ := by
      rw [hs₁, book_set_balance]
    have hbalances : s₁.balance id target = s₁.book.balances (id, target) := rfl
    rw [book_set_balance, hbalances, hdebited]
    rfl
  | mint who id amount horigin =>
    rw [book_set_total_supply, book_set_balance]
    rfl
  | burn who id amount horigin hamount hbalance =>
    rw [book_set_total_supply, book_set_balance]
    rfl

end StandardAssets

end Steps

/-! ### Orders -/

section Orders

variable {orders : Hash → Option (OrderEntry AccountId Hash)} {id : Hash}

/-- Events about other orders do not change what is listed under an identifier. -/
theorem record_order_of_ne {e : CarbonExchange.Event AccountId Hash} (h : e.order_id ≠ id) :
    record_order orders e id = orders id := by
  cases e with
  | NewDeal => rfl
  | _ => exact Function.update_of_ne (Ne.symm h) _ _

theorem foldl_record_of_quiet (d : Directory AccountId Hash)
    {events : List (Event AccountId Hash)}
    (h : ∀ e, Event.carbonExchange e ∈ events → e.order_id ≠ id) :
    (events.foldl Directory.record d).orders id = d.orders id := by
  induction events generalizing d with
  | nil => rfl
  | cons e events ih =>
    rw [List.foldl_cons, ih _ fun e' he' => h e' (List.mem_cons_of_mem _ he')]
    cases e with
    | carbonExchange e => exact record_order_of_ne (h e List.mem_cons_self)
    | carbonAssets e => rfl
    | standardAssets e => rfl

/-- A transition lists an order as it stands in the map. -/
theorem Outcome.listed {T : Trait AccountId Hash} {t : Applied AccountId Hash}
    (h : Outcome T t) (id : Hash) (d : Directory AccountId Hash)
    (hpre : d.orders id = (t.pre.Orders.get id).map CarbonExchange.Order.entry) :
    (t.output.events.foldl Directory.record d).orders id
      = (t.post.Orders.get id).map CarbonExchange.Order.entry := by
  have hslot := order_step h id
  generalize t.pre.Orders.get id = before at hslot hpre
  generalize t.post.Orders.get id = after at hslot ⊢
  cases hslot with
  | kept slot hkept =>
    rw [foldl_record_of_quiet d hkept.quiet, hpre]
  | made order hmade =>
    rw [hmade.events]
    exact Function.update_self id _ _
  | taken order taker amount htakes hmore =>
    -- the deal alone
    have hleft : (order.taken amount (order.released amount)).left_amount > 0 := hmore
    rw [htakes.events, CarbonExchange.take_events, if_pos hleft]
    exact hpre
  | finished order taker htakes =>
    have hleft : ¬(order.taken order.left_amount (order.released order.left_amount)).left_amount
        > 0 := by
      change ¬order.left_amount - order.left_amount > 0
      rw [UInt64.sub_self]
      exact UInt64.lt_irrefl 0
    rw [htakes.events, CarbonExchange.take_events, if_neg hleft]
    exact Function.update_self id _ _
  | cancelled order hcancels =>
    rw [hcancels.events]
    exact Function.update_self id _ _

end Orders

/-! ### All books -/

section Books

variable (d : Directory AccountId Hash)

theorem foldl_record_carbonAssets (events : List (CarbonAssets.Event AccountId Hash)) :
    (events.map Event.carbonAssets).foldl Directory.record d
      = ⟨events.foldl CarbonBook.record d.carbon, d.orders, d.standard⟩ := by
  induction events generalizing d with
  | nil => rfl
  | cons e events ih => exact ih (d.record (.carbonAssets e))

theorem foldl_record_carbonExchange (events : List (CarbonExchange.Event AccountId Hash)) :
    (events.map Event.carbonExchange).foldl Directory.record d
      = ⟨d.carbon, events.foldl record_order d.orders, d.standard⟩ := by
  induction events generalizing d with
  | nil => rfl
  | cons e events ih => exact ih (d.record (.carbonExchange e))

theorem foldl_record_standardAssets (events : List (StandardAssets.Event AccountId Hash)) :
    (events.map Event.standardAssets).foldl Directory.record d
      = ⟨d.carbon, d.orders, events.foldl StandardBook.record d.standard⟩ := by
  induction events generalizing d with
  | nil => rfl
  | cons e events ih => exact ih (d.record (.standardAssets e))

end Books

variable {T : Trait AccountId Hash}

/-- The exchange moves units and keeps the records of the other pallets. -/
theorem CarbonExchange.Step.books {w w' : World AccountId Hash} {origin : Origin AccountId}
    {now : Moment} {call : CarbonExchange.Call Hash}
    {events : List (CarbonExchange.Event AccountId Hash)} {ops : List (Op AccountId Hash)}
    (h : CarbonExchange.Step T origin now w call w' events ops) :
    w'.carbon.book = w.carbon.book ∧ w'.standard = w.standard := by
  cases h with
  | make_ask => exact ⟨CarbonAssets.book_move _ _ _ _ _, rfl⟩
  | make_bid => exact ⟨rfl, rfl⟩
  | take_ask => exact ⟨CarbonAssets.book_move _ _ _ _ _, rfl⟩
  | take_bid => exact ⟨CarbonAssets.book_move _ _ _ _ _, rfl⟩
  | cancel_ask => exact ⟨CarbonAssets.book_move _ _ _ _ _, rfl⟩
  | cancel_bid => exact ⟨rfl, rfl⟩

/-- The books of the two asset pallets. -/
theorem Outcome.books {t : Applied AccountId Hash} (h : Outcome T t)
    (hreg : CarbonAssets.Registry t.pre.carbon) :
    (t.output.events.foldl Directory.record t.pre.directory).carbon = t.post.carbon.book
      ∧ (t.output.events.foldl Directory.record t.pre.directory).standard
        = t.post.standard.book := by
  cases h with
  | refused => exact ⟨rfl, rfl⟩
  | balances_transfer => exact ⟨rfl, rfl⟩
  | half_take w origin now call w' e ops hhalf =>
    cases hhalf with
    | take_bid => exact ⟨(CarbonAssets.book_move _ _ _ _ _).symm, rfl⟩
  | carbonAssets w origin now call s' events ops hstep =>
    rw [foldl_record_carbonAssets]
    exact ⟨hstep.book hreg, rfl⟩
  | carbonExchange w origin now call w' events ops hstep =>
    rw [foldl_record_carbonExchange]
    obtain ⟨hcarbon, hstandard⟩ := hstep.books
    exact ⟨hcarbon.symm, congrArg StandardAssets.Storage.book hstandard.symm⟩
  | standardAssets w origin now call s' events ops hstep =>
    rw [foldl_record_standardAssets]
    exact ⟨rfl, hstep.book⟩

/-- A transition changes the state as its events change the books. -/
theorem Outcome.directory {t : Applied AccountId Hash} (h : Outcome T t)
    (hreg : CarbonAssets.Registry t.pre.carbon) :
    t.output.events.foldl Directory.record t.pre.directory = t.post.directory := by
  obtain ⟨hcarbon, hstandard⟩ := h.books hreg
  exact Directory.ext hcarbon (funext fun id => h.listed id t.pre.directory rfl) hstandard

theorem directory_append (events more : List (Event AccountId Hash)) :
    directory (events ++ more) = more.foldl Directory.record (directory events) :=
  List.foldl_append

/-- The events deposited so far, entered one after the other, give the books. -/
theorem directory_of_run {allowed : Applied AccountId Hash → Prop} {native : AccountId → ℕ}
    {tr : List (Applied AccountId Hash)} {w : World AccountId Hash}
    (hrun : (runtime T).Run allowed (genesis native) tr w) : directory (log tr) = w.directory := by
  apply hrun.invariant (I := fun tr w => Eco2.directory (log tr) = w.directory)
  · rfl
  intro tr w x hrun ih _
  rw [log_snoc, directory_append, ih]
  exact (outcome_of_fire T w x).directory (Registered.run hrun).carbon

/-- **The log determines the books.** Whoever knows the books in a state of the chain, and
enters the events deposited from then on one after the other, has the projects and assets
with their approvals, the open orders with what was announced of them, and the standard
assets with all balances and total supplies; at genesis the books are blank. -/
theorem directory_log {allowed : Applied AccountId Hash → Prop} {native : AccountId → ℕ}
    {tr more : List (Applied AccountId Hash)} {w w' : World AccountId Hash}
    (hrun : (runtime T).Run allowed (genesis native) tr w)
    (hmore : (runtime T).Run allowed w more w') :
    (log more).foldl Directory.record w.directory = w'.directory := by
  have hlog : log (tr ++ more) = log tr ++ log more := List.flatMap_append
  have hall := directory_of_run (hrun.append hmore)
  rwa [hlog, directory_append, directory_of_run hrun] at hall

/-- The first order of the executable chain. -/
def devnet_first_order : List (Extrinsic ℕ (List ℕ)) :=
  [⟨.signed 1, 0, .carbonExchange (.make_order devnet_asset [] 200 3 0 0)⟩]

theorem directory_log_opening :
    (log ((runtime devnet).trace ((runtime devnet).final (genesis fun _ => 1000) devnet_opening)
        devnet_first_order)).foldl Directory.record
        ((runtime devnet).final (genesis fun _ => 1000) devnet_opening).directory
      = ((runtime devnet).final ((runtime devnet).final (genesis fun _ => 1000) devnet_opening)
        devnet_first_order).directory :=
  directory_log (devnet_run _ _) (Machine.run_trace _ _ fun _ _ => trivial)

end Eco2
