/-
Who holds units, and whether the index of potential balances lists them.

Units come to an account in five ways: an approval of an asset or of an issue, a transfer,
a deal, and the cancellation of an ask order. The handlers answer three of them with a
document. The other two pay somebody who has had one before, the owner of the asset or the
seller of the units; `Documented` is the invariant that makes this so. What it cannot make
so is that the document is still there: the key has six characters of the account and
eight of the asset, and a later receipt under the same key takes its place.
`potential_balances_complete_iff` says that nothing else is wrong, but for times that
cannot be converted and for units that a failing sale leaves behind.
-/
import Eco2.PotentialBalances
import Eco2.Atomicity

set_option autoImplicit false
set_option linter.unusedSectionVars false

namespace Eco2

open CarbonAssets CarbonExchange

variable {AccountId Hash : Type} [DecidableEq AccountId] [DecidableEq Hash]
variable {T : Trait AccountId Hash}

/-! ## The owners of assets -/

namespace CarbonAssets

/-- The owner of an asset, who is that of its project. -/
def Storage.owner_of (s : Storage AccountId Hash) (a : Hash) : Option AccountId :=
  ((s.Assets.get a).map CarbonAsset.project_id).bind fun p =>
    (s.Projects.get p).map CarbonProject.owner

section Owners

variable {origin : Origin AccountId} {now : Moment} {s s' : Storage AccountId Hash}
  {call : Call AccountId Hash} {events : List (Event AccountId Hash)}
  {ops : List (Op AccountId Hash)} {a : Hash}

theorem owner_of_eq {asset : CarbonAsset Hash} {project : CarbonProject AccountId}
    (hasset : s.Assets.get a = some asset)
    (hproject : s.Projects.get asset.project_id = some project) :
    s.owner_of a = some project.owner := by
  unfold Storage.owner_of
  rw [hasset, Option.map_some, Option.bind_some, hproject]
  rfl

/-- An approved asset has an owner. -/
theorem Registry.exists_owner (h : Registry s) (ha : s.Approved a) :
    ∃ owner, s.owner_of a = some owner := by
  obtain ⟨asset, hasset, -⟩ := ha
  obtain ⟨project, hproject⟩ := h.asset_project a asset hasset
  exact ⟨project.owner, owner_of_eq hasset hproject⟩

/-- Records may be rewritten but for the project of an asset and the owner of a project. -/
theorem owner_of_congr
    (hassets : ∀ a, (s'.Assets.get a).map CarbonAsset.project_id
      = (s.Assets.get a).map CarbonAsset.project_id)
    (hprojects : ∀ p, (s'.Projects.get p).map CarbonProject.owner
      = (s.Projects.get p).map CarbonProject.owner) : s'.owner_of = s.owner_of := by
  funext a
  unfold Storage.owner_of
  rw [hassets]
  congr 1
  funext p
  exact hprojects p

/-- The total supplies of an asset and its project have nothing to do with the owner. -/
theorem owner_of_set_totals {asset_id : Hash} {asset : CarbonAsset Hash}
    {project : CarbonProject AccountId} (hasset : s.Assets.get asset_id = some asset)
    (hproject : s.Projects.get asset.project_id = some project)
    (asset_total project_total : UInt64) :
    ({ s with
      Assets := s.Assets.insert asset_id { asset with total_supply := asset_total }
      Projects := s.Projects.insert asset.project_id
        { project with total_supply := project_total } } : Storage AccountId Hash).owner_of
      = s.owner_of :=
  owner_of_congr
    (map_get_insert_of_eq CarbonAsset.project_id hasset { asset with total_supply := asset_total }
      rfl)
    (map_get_insert_of_eq CarbonProject.owner hproject
      { project with total_supply := project_total } rfl)

/-- A step deposits one event, and the owners after it are those before, with the one that
the event announces. -/
theorem Step.owner_of (h : Step T origin now s call s' events ops) (hreg : Registry s)
    (hnow : now.toNat < 2 ^ 53) :
    ∃ e, events = [e]
      ∧ s'.owner_of = FirstWrite.write s.owner_of (Eco2.Event.carbonAssets e).new_asset := by
  cases h with
  | submit_project sender symbol max_supply additional project_id horigin hid hfresh =>
    refine ⟨_, rfl, ?_⟩
    change Storage.owner_of _ = s.owner_of
    funext a
    unfold Storage.owner_of
    cases hasset : s.Assets.get a with
    | none => rfl
    | some asset =>
      -- the project of an asset is known, so it is not the new one
      obtain ⟨project, hproject⟩ := hreg.asset_project a asset hasset
      have hne : asset.project_id ≠ project_id := fun hc => by
        rw [hc, hfresh] at hproject
        cases hproject
      exact congrArg (Option.map CarbonProject.owner) (StorageMap.get_insert_of_ne _ _ hne)
  | submit_asset sender project_id vintage initial_supply additional project asset_id horigin
      hproject hstatus howner hlimit hid hfresh =>
    refine ⟨_, rfl, ?_⟩
    have hnew : (Eco2.Event.carbonAssets (.AssetSubmited project_id asset_id project.symbol
        vintage sender now) : Eco2.Event AccountId Hash).new_asset = some (asset_id, sender) :=
      if_pos hnow
    have hnone : s.owner_of asset_id = none := by
      unfold Storage.owner_of
      rw [hfresh]
      rfl
    rw [hnew, FirstWrite.write_some_of_none hnone]
    funext a
    by_cases ha : a = asset_id
    · subst ha
      rw [Function.update_self, owner_of_eq (StorageMap.get_insert_self _ _ _) hproject, howner]
    · rw [Function.update_of_ne ha]
      unfold Storage.owner_of
      exact congrArg (fun o => (Option.map CarbonAsset.project_id o).bind _)
        (StorageMap.get_insert_of_ne _ _ ha)
  | approve_project project_id project horigin hproject hstatus =>
    refine ⟨_, rfl, owner_of_congr (fun _ => rfl) fun p => ?_⟩
    exact map_get_insert_of_eq CarbonProject.owner hproject { project with status := 1 } rfl p
  | approve_asset asset_id asset project horigin hasset hstatus hproject hlimit =>
    refine ⟨_, rfl, owner_of_congr (fun a => ?_) fun _ => rfl⟩
    exact map_get_insert_of_eq CarbonAsset.project_id hasset
      { asset with status := 1, total_supply := asset.initial_supply } rfl a
  | approve_issue issue_id issue_info asset project horigin hissue hstatus hasset hproject =>
    exact ⟨_, rfl, owner_of_set_totals hasset hproject _ _⟩
  | approve_burn burn_id burn_info asset project horigin hburn hstatus hasset hproject =>
    exact ⟨_, rfl, owner_of_set_totals hasset hproject _ _⟩
  | transfer sender asset_id to_ amount =>
    refine ⟨_, rfl, ?_⟩
    unfold Storage.move
    split <;> rfl
  | submit_issue => exact ⟨_, rfl, rfl⟩
  | submit_burn => exact ⟨_, rfl, rfl⟩
  | neutralize => exact ⟨_, rfl, rfl⟩

theorem Step.events_of_approve_asset (h : Step T origin now s (.approve_asset a) s' events ops) :
    events = [.AssetApproved a] := by
  cases h with
  | approve_asset => rfl

end Owners

/-! ## The holders of units -/

/-- Whoever holds units of an asset, except the pot, has a receipt of it. -/
def Held (pot : AccountId) (receipts : List (AccountId × Hash)) (s : Storage AccountId Hash) :
    Prop :=
  ∀ a y, y ≠ pot → 0 < s.balance a y → (y, a) ∈ receipts

section Held

variable {pot x y : AccountId} {receipts : List (AccountId × Hash)} {s : Storage AccountId Hash}
  {a : Hash} {amount : UInt64}

theorem Held.mono (h : Held pot receipts s) {receipts' : List (AccountId × Hash)}
    (hsubset : receipts ⊆ receipts') : Held pot receipts' s :=
  fun a y hy hpos => hsubset (h a y hy hpos)

theorem Held.set_balance (h : Held pot receipts s) {value : UInt64}
    (hpaid : y ≠ pot → 0 < value → (y, a) ∈ receipts) :
    Held pot receipts (s.set_balance a y value) := by
  intro a' y' hy hpos
  by_cases hcell : a' = a ∧ y' = y
  · obtain ⟨rfl, rfl⟩ := hcell
    rw [balance_set_balance_self] at hpos
    exact hpaid hy hpos
  · rw [balance_set_balance_of_ne _ _ _ _ hcell] at hpos
    exact h a' y' hy hpos

/-- Who has units left had units before, unless more is taken than there is. -/
theorem Held.debit (h : Held pot receipts s) (hle : x = pot ∨ amount ≤ s.balance a x) :
    Held pot receipts (s.debit a x amount) := by
  refine h.set_balance fun hx hpos => h a x hx ?_
  have hle := UInt64.le_iff_toNat_le.mp (hle.resolve_left hx)
  rw [UInt64.lt_iff_toNat_lt, UInt64.toNat_sub_of_le _ _ (UInt64.le_iff_toNat_le.mpr hle)] at hpos
  rw [UInt64.lt_iff_toNat_lt]
  omega

theorem Held.credit (h : Held pot receipts s)
    (hpaid : y ≠ pot → amount ≠ 0 → (y, a) ∈ receipts) :
    Held pot receipts (s.credit a y amount) := by
  refine h.set_balance fun hy hpos => ?_
  by_cases hamount : amount = 0
  · rw [hamount, UInt64.add_zero] at hpos
    exact h a y hy hpos
  · exact hpaid hy hamount

/-- A transfer of what there is, to somebody who gets a receipt. -/
theorem Held.move (h : Held pot receipts s) (hle : x = pot ∨ amount ≤ s.balance a x)
    (hpaid : y ≠ pot → amount ≠ 0 → x ≠ y → (y, a) ∈ receipts) :
    Held pot receipts (s.move a x y amount) := by
  unfold Storage.move
  split
  · exact (h.debit hle).credit fun hy hamount => hpaid hy hamount ‹_›
  · exact h

end Held

end CarbonAssets

/-! ## Receipts and holdings -/

/-- What is known to the chain and what has been heard of it: the owners of assets are the
same, and there is a receipt for the owner of an approved asset, for whoever holds units
of it, and for whoever sells it. -/
structure Documented (T : Trait AccountId Hash) (x : Heard AccountId Hash)
    (w : World AccountId Hash) : Prop where
  owners : x.owners = w.carbon.owner_of
  issuer : ∀ a owner, w.carbon.Approved a → w.carbon.owner_of a = some owner →
    (owner, a) ∈ x.receipts
  holder : Held T.pot_account_id x.receipts w.carbon
  seller : ∀ id order, w.Orders.get id = some order → order.direction = 0 →
    order.maker ≠ T.pot_account_id → (order.maker, order.asset_id) ∈ x.receipts

theorem documented_genesis (native : AccountId → ℕ) :
    Documented T (.nothing : Heard AccountId Hash) (genesis native) where
  owners := rfl
  issuer a _ ha := by
    obtain ⟨asset, hasset, -⟩ := ha
    cases hasset
  holder a y _ hpos := absurd hpos (by decide : ¬(0 : UInt64) < 0)
  seller _ _ h := by cases h

section Outcome

variable {x : Heard AccountId Hash} {t : Applied AccountId Hash}

/-- Hearing nothing of a new asset. -/
theorem owners_foldl {events : List (Event AccountId Hash)}
    (h : ∀ e ∈ events, e.new_asset = none) (x : Heard AccountId Hash) :
    (events.foldl Heard.hear x).owners = x.owners := by
  induction events generalizing x with
  | nil => rfl
  | cons e events ih =>
    have hfirst : (x.hear e).owners = x.owners := by
      unfold Heard.hear
      rw [h e List.mem_cons_self]
      rfl
    exact (ih (fun e' he' => h e' (List.mem_cons_of_mem _ he')) (x.hear e)).trans hfirst

/-- A transition tells the owners that it adds, and an owner stays the owner. -/
theorem Outcome.owner_of (h : Outcome T t) (hreg : Registered t.pre)
    (hnow : t.input.now.toNat < 2 ^ 53) (howners : x.owners = t.pre.carbon.owner_of) :
    (t.output.events.foldl Heard.hear x).owners = t.post.carbon.owner_of
      ∧ FirstWrite.Extends t.pre.carbon.owner_of t.post.carbon.owner_of := by
  cases h.records with
  | call call events hok hcall hevents hstep =>
    obtain ⟨e, rfl, hwrite⟩ := hstep.owner_of hreg.carbon hnow
    rw [hevents, hwrite, ← howners]
    exact ⟨rfl, FirstWrite.extends_write _ _⟩
  | other hother hquiet hsame =>
    obtain ⟨balances, hsame⟩ := hsame
    have hnone : ∀ e ∈ t.output.events, e.new_asset = none := by
      intro e he
      cases e with
      | carbonAssets e => exact absurd he (hquiet e)
      | carbonExchange e => rfl
      | standardAssets e => rfl
    rw [owners_foldl hnone, howners, hsame]
    exact ⟨rfl, fun _ _ howner => howner⟩

theorem approved_iff_status {s : Storage AccountId Hash} {a : Hash} :
    s.Approved a ↔ s.status .asset a = some 1 :=
  Option.map_eq_some_iff.symm

/-- The approval of an asset deposits its event. -/
theorem Outcome.events_of_approves (h : Outcome T t) {a : Hash} (happ : t.Approves .asset a) :
    t.output.events = [.carbonAssets (.AssetApproved a)] := by
  obtain ⟨hok, hcall⟩ := happ
  cases h.records with
  | call call events hok' hcall' hevents hstep =>
    cases hcall'.symm.trans hcall
    rw [hevents, hstep.events_of_approve_asset]
    rfl
  | other hother => exact absurd hcall (hother _ hok)

/-- The owner of an approved asset has the receipt of the approval. -/
theorem Documented.issuer_outcome (hdoc : Documented T x t.pre) (hreg : Registered t.pre)
    (h : Outcome T t) (hnow : t.input.now.toNat < 2 ^ 53) {a : Hash} {owner : AccountId}
    (ha : t.post.carbon.Approved a) (howner : t.post.carbon.owner_of a = some owner) :
    (owner, a) ∈ (t.output.events.foldl Heard.hear x).receipts := by
  have hextends := (h.owner_of hreg hnow hdoc.owners).2
  by_cases hpre : t.pre.carbon.Approved a
  · obtain ⟨owner', howner'⟩ := hreg.carbon.exists_owner hpre
    cases (hextends a owner' howner').symm.trans howner
    exact x.receipts_subset _ (hdoc.issuer a owner hpre howner')
  · have happ := approves_of_status h (fun hc => hpre (approved_iff_status.mpr hc))
      (approved_iff_status.mp ha)
    have hstatus := (happ.status h).1
    obtain ⟨asset, hasset, -⟩ := Option.map_eq_some_iff.mp hstatus
    obtain ⟨project, hproject⟩ := hreg.carbon.asset_project a asset hasset
    have howner' := owner_of_eq hasset hproject
    cases (hextends a _ howner').symm.trans howner
    -- the event names the asset, and its owner has been heard of
    have hheard : x.owners a = some project.owner := hdoc.owners ▸ howner'
    rw [h.events_of_approves happ, List.foldl_cons, List.foldl_nil,
      Heard.hear_of_receipt rfl (x.receipt_AssetApproved hheard)]
    exact List.mem_append_right _ List.mem_cons_self

/-- Whoever has units after a call of the carbon pallet has a receipt. -/
theorem CarbonAssets.Step.held {pot : AccountId} {origin : Origin AccountId} {now : Moment}
    {s s' : Storage AccountId Hash} {call : CarbonAssets.Call AccountId Hash}
    {events : List (CarbonAssets.Event AccountId Hash)} {ops : List (Op AccountId Hash)}
    (h : Step T origin now s call s' events ops) (hreg : Registry s)
    (hnow : now.toNat < 2 ^ 53) (howners : x.owners = s.owner_of)
    (hissuer : ∀ a owner, s.Approved a → s.owner_of a = some owner → (owner, a) ∈ x.receipts)
    (hheld : Held pot x.receipts s) :
    Held pot ((events.map Eco2.Event.carbonAssets).foldl Heard.hear x).receipts s' := by
  have hbefore := hheld.mono (x.receipts_subset (events.map Eco2.Event.carbonAssets))
  cases h with
  | submit_project => exact hbefore
  | approve_project => exact hbefore
  | submit_asset => exact hbefore
  | submit_issue => exact hbefore
  | approve_burn => exact hbefore
  | approve_asset asset_id asset project horigin hasset hstatus hproject =>
    have hheard : x.owners asset_id = some project.owner := howners ▸ owner_of_eq hasset hproject
    rw [List.map_singleton, List.foldl_cons, List.foldl_nil,
      Heard.hear_of_receipt rfl (x.receipt_AssetApproved hheard)] at hbefore ⊢
    refine Held.set_balance ?_ fun _ _ => List.mem_append_right _ List.mem_cons_self
    exact hbefore
  | approve_issue issue_id issue_info asset project horigin hissue hstatus hasset hproject =>
    -- the owner has had a receipt since the asset was approved
    have hpaid := hissuer issue_info.asset_id project.owner
      (hreg.issue_asset issue_id issue_info hissue) (owner_of_eq hasset hproject)
    refine Held.credit ?_ fun _ _ => x.receipts_subset _ hpaid
    exact hbefore
  | submit_burn sender asset_id amount additional asset project burn_id horigin hasset hstatus
      hproject howner hid hfresh hbalance =>
    refine Held.debit ?_ (.inr hbalance)
    exact hbefore
  | transfer sender asset_id to_ amount horigin hamount hbalance =>
    obtain ⟨owner, howner⟩ := hreg.exists_owner (hreg.approved_of_le hamount hbalance)
    have hreceipt : x.receipt (.carbonAssets (.Transferred asset_id sender to_ amount now))
        = some (to_, asset_id) := by
      refine if_pos ⟨hnow, ?_⟩
      rw [howners, howner]
      rfl
    rw [List.map_singleton, List.foldl_cons, List.foldl_nil,
      Heard.hear_of_receipt rfl hreceipt] at hbefore ⊢
    exact hbefore.move (.inr hbalance) fun _ _ _ => List.mem_append_right _ List.mem_cons_self
  | neutralize sender asset_id amount additional horigin hamount hbalance =>
    exact hbefore.debit (.inr hbalance)

/-- A take is heard as its deal. -/
theorem hear_take_events (order_id : Hash) (left : Order AccountId Hash)
    (deal : CarbonExchange.Event AccountId Hash) :
    ((take_events order_id left deal).map Event.carbonExchange).foldl Heard.hear x
      = x.hear (.carbonExchange deal) := by
  have hfinished : x.hear (.carbonExchange (.OrderFinished order_id)) = x :=
    Heard.hear_of_none rfl rfl
  unfold take_events
  split
  · rfl
  · exact congrArg (Heard.hear · _) hfinished

/-- Whoever has units after a call of the exchange has a receipt. -/
theorem CarbonExchange.Step.held {w w' : World AccountId Hash} {origin : Origin AccountId}
    {now : Moment} {call : CarbonExchange.Call Hash}
    {events : List (CarbonExchange.Event AccountId Hash)} {ops : List (Op AccountId Hash)}
    (h : CarbonExchange.Step T origin now w call w' events ops) (hreg : Registered w)
    (hnow : now.toNat < 2 ^ 53) (hdoc : Documented T x w) :
    Held T.pot_account_id ((events.map Eco2.Event.carbonExchange).foldl Heard.hear x).receipts
      w'.carbon := by
  have hbefore := hdoc.holder.mono (x.receipts_subset (events.map Eco2.Event.carbonExchange))
  -- a deal pays the taker of an ask order and the maker of a bid order
  have hpaid (order_id : Hash) (order left : Order AccountId Hash) (taker : AccountId)
      (amount : UInt64) (horder : w.Orders.get order_id = some order) :
      (if order.direction = 0 then taker else order.maker, order.asset_id)
        ∈ (((take_events order_id left (order.new_deal order_id taker amount now)).map
          Eco2.Event.carbonExchange).foldl Heard.hear x).receipts := by
    obtain ⟨owner, howner⟩ := hreg.carbon.exists_owner (hreg.order_asset order_id order horder)
    have hreceipt : x.receipt (.carbonExchange (order.new_deal order_id taker amount now))
        = some (if order.direction = 0 then taker else order.maker, order.asset_id) := by
      refine if_pos ⟨hnow, ?_⟩
      rw [hdoc.owners, howner]
      rfl
    rw [hear_take_events, Heard.hear_of_receipt rfl hreceipt]
    exact List.mem_append_right _ List.mem_cons_self
  cases h with
  | make_bid => exact hbefore
  | cancel_bid => exact hbefore
  | make_ask maker asset_id money_id price amount salt order_id horigin hmoney hprice hamount
      hasset hid hfresh hbalance =>
    exact hbefore.move (.inr hbalance) fun hpot => absurd rfl hpot
  | take_ask taker order_id amount order native horigin horder hleft hdirection =>
    have htaker := hpaid order_id order (order.taken amount 0) taker amount horder
    rw [if_pos hdirection] at htaker
    exact hbefore.move (.inl rfl) fun _ _ _ => htaker
  | take_bid taker order_id amount order native horigin horder hleft hdirection hbalance =>
    have hmaker := hpaid order_id order
      (order.taken amount (U64.saturating_mul amount order.price)) taker amount horder
    rw [if_neg hdirection] at hmaker
    exact hbefore.move (.inr hbalance) fun _ _ _ => hmaker
  | cancel_ask order_id order horigin horder hdirection =>
    -- the seller had the units before he made the order
    have hmaker := hdoc.seller order_id order horder hdirection
    exact hbefore.move (.inl rfl) fun hpot _ _ => x.receipts_subset _ (hmaker hpot)

/-- Nothing keeps the receipts from the listener: the time can be converted, and the call is
no sale that fails after it has delivered. -/
structure Undisturbed (T : Trait AccountId Hash) (t : Applied AccountId Hash) : Prop where
  now : t.input.now.toNat < 2 ^ 53
  payable : ¬∃ taker order_id amount order,
    Unpayable T t.pre t.input taker order_id amount order

/-- Whoever has units after a transition has a receipt. -/
theorem Documented.holder_outcome (hdoc : Documented T x t.pre) (hreg : Registered t.pre)
    (h : Outcome T t) (hok : Undisturbed T t) :
    Held T.pot_account_id (t.output.events.foldl Heard.hear x).receipts t.post.carbon := by
  obtain ⟨hnow, hpayable⟩ := hok
  cases h with
  | refused => exact hdoc.holder
  | balances_transfer => exact hdoc.holder
  | standardAssets => exact hdoc.holder.mono (x.receipts_subset _)
  | carbonAssets w origin now call s' events ops hstep =>
    exact hstep.held hreg.carbon hnow hdoc.owners hdoc.issuer hdoc.holder
  | carbonExchange w origin now call w' events ops hstep => exact hstep.held hreg hnow hdoc
  | half_take w origin now call w' e ops hhalf =>
    cases hhalf with
    | take_bid taker order_id amount order horigin horder hleft hdirection hbalance hrefused =>
      -- what it delivers is nothing, or goes to the taker himself
      exact hdoc.holder.move (.inr hbalance) fun _ hamount hmaker =>
        absurd ⟨taker, order_id, amount, order, horigin, rfl, horder, hdirection, hleft, hbalance,
          hamount, hmaker, hrefused⟩ hpayable

/-- Whoever makes an ask order has units of its asset. -/
theorem CarbonExchange.Step.ask_covered {w w' : World AccountId Hash} {origin : Origin AccountId}
    {now : Moment} {asset_id money_id : Hash} {price amount salt : UInt64} {maker : AccountId}
    {events : List (CarbonExchange.Event AccountId Hash)} {ops : List (Op AccountId Hash)}
    (h : CarbonExchange.Step T origin now w (.make_order asset_id money_id price amount 0 salt) w'
      events ops) (horigin : origin = .signed maker) : 0 < w.carbon.balance asset_id maker := by
  generalize hcall : CarbonExchange.Call.make_order asset_id money_id price amount 0 salt = call
    at h
  cases h with
  | make_ask maker' asset_id' money_id' price' amount' salt' order_id horigin' hmoney hprice hamount
      hasset hid hfresh hbalance =>
    cases hcall
    cases horigin.symm.trans horigin'
    rw [UInt64.lt_iff_toNat_lt] at hamount ⊢
    rw [UInt64.le_iff_toNat_le] at hbalance
    exact Nat.lt_of_lt_of_le hamount hbalance
  | make_bid => simp at hcall
  | take_ask => cases hcall
  | take_bid => cases hcall
  | cancel_ask => cases hcall
  | cancel_bid => cases hcall

/-- Whoever sells has a receipt of what he sells. -/
theorem Documented.seller_outcome (hdoc : Documented T x t.pre) (h : Outcome T t) {id : Hash}
    {order : Order AccountId Hash} (horder : t.post.Orders.get id = some order)
    (hask : order.direction = 0) (hpot : order.maker ≠ T.pot_account_id) :
    (order.maker, order.asset_id) ∈ (t.output.events.foldl Heard.hear x).receipts := by
  apply x.receipts_subset
  obtain ⟨hold, -⟩ | ⟨-, hmade⟩ | ⟨old, taker, amount, hold, -, -, rfl⟩ := order_origin h horder
  · exact hdoc.seller id order hold hask hpot
  · obtain ⟨events, hstep⟩ := exchange_step_of_call h hmade.call hmade.succeeded
    rw [hask] at hstep
    exact hdoc.holder order.asset_id order.maker hpot (hstep.ask_covered hmade.origin)
  · exact hdoc.seller id old hold hask hpot

/-- Every undisturbed transition is documented. -/
theorem Documented.outcome (hdoc : Documented T x t.pre) (hreg : Registered t.pre)
    (h : Outcome T t) (hok : Undisturbed T t) :
    Documented T (t.output.events.foldl Heard.hear x) t.post where
  owners := (h.owner_of hreg hok.now hdoc.owners).1
  issuer _ _ := hdoc.issuer_outcome hreg h hok.now
  holder := hdoc.holder_outcome hreg h hok
  seller _ _ := hdoc.seller_outcome h

end Outcome

/-- **Receipts and holdings.** After undisturbed transitions everybody who holds units of an
asset, or sells it, has a receipt of it. -/
theorem Documented.run {native : AccountId → ℕ} {tr : List (Applied AccountId Hash)}
    {w : World AccountId Hash} (hrun : (runtime T).Run (Undisturbed T) (genesis native) tr w) :
    Documented T (heard (log tr)) w := by
  apply hrun.invariant (I := fun tr w => Documented T (heard (log tr)) w)
  · exact documented_genesis native
  intro tr w x hrun hdoc hok
  rw [log_snoc, heard_append]
  exact Documented.outcome (t := (runtime T).fire w x) hdoc (Registered.run hrun)
    (outcome_of_fire T w x) hok

/-- Calls of the other pallets deposit no events of the standard assets. -/
theorem not_standard_log {allowed : Applied AccountId Hash → Prop} {w₀ w : World AccountId Hash}
    {tr : List (Applied AccountId Hash)} (hrun : (runtime T).Run allowed w₀ tr w)
    (hother : ∀ t, allowed t → ∀ call, t.input.call ≠ .standardAssets call)
    (e : StandardAssets.Event AccountId Hash) : Event.standardAssets e ∉ log tr := by
  intro he
  obtain ⟨t, ht, he⟩ := List.mem_flatMap.mp he
  obtain ⟨-, -, -, hallowed⟩ := hrun.of_mem ht
  have hcall := hother t hallowed
  cases outcome_of_mem hrun ht with
  | standardAssets w origin now call => exact hcall call rfl
  | _ => simp at he

/-! ## The index of potential balances -/

namespace Indexer

/-- Whoever holds units of an asset, except the pot, has it listed among his potential
balances. -/
def Complete (codec : Codec AccountId Hash) (T : Trait AccountId Hash) (w : World AccountId Hash)
    (data : Data) : Prop :=
  ∀ y a, y ≠ T.pot_account_id → 0 < w.carbon.balance a y →
    ∃ doc ∈ potential_balances data (codec.account y), doc.assetId = codec.hash a

/-- **When the index is complete.** For the events of a run without standard assets: exactly
where of every holder's assets a receipt has been heard, and none of another account and
asset after it under its key. In an undisturbed run only the latter can fail. -/
theorem potential_balances_complete_iff {codec : Codec AccountId Hash} {api : Api}
    {native : AccountId → ℕ} {tr : List (Applied AccountId Hash)} {w : World AccountId Hash}
    {es : List (Entry AccountId Hash)} (haccount : Function.Injective codec.account)
    (hhash : Function.Injective codec.hash)
    (hrun : (runtime T).Run (fun t => ∀ call, t.input.call ≠ .standardAssets call)
      (genesis native) tr w) (hes : pallet_events es = log tr) :
    (Complete codec T w (indexed codec api es)
      ↔ ∀ y a, y ≠ T.pot_account_id → 0 < w.carbon.balance a y →
        (y, a) ∈ (heard (log tr)).receipts
          ∧ LastWrite.Kept codec.key (heard (log tr)).receipts (y, a))
    ∧ ((∀ t ∈ tr, Undisturbed T t) →
      (Complete codec T w (indexed codec api es)
        ↔ ∀ y a, y ≠ T.pot_account_id → 0 < w.carbon.balance a y →
          LastWrite.Kept codec.key (heard (log tr)).receipts (y, a))) := by
  have hindexes : Indexes codec (heard (log tr)) (indexed codec api es) := by
    rw [← hes]
    refine indexes_indexed api hhash es fun e => ?_
    rw [hes]
    exact not_standard_log hrun (fun _ h => h) e
  have hcomplete : Complete codec T w (indexed codec api es)
      ↔ ∀ y a, y ≠ T.pot_account_id → 0 < w.carbon.balance a y →
        (y, a) ∈ (heard (log tr)).receipts
          ∧ LastWrite.Kept codec.key (heard (log tr)).receipts (y, a) :=
    forall₄_congr fun y a _ _ =>
      (hindexes.listed_iff haccount hhash y a).trans LastWrite.entries_eq_some_iff
  refine ⟨hcomplete, fun hundisturbed => hcomplete.trans ?_⟩
  have hdoc := Documented.run (hrun.restrict hundisturbed)
  exact forall₄_congr fun y a hy hpos => and_iff_right (hdoc.holder a y hy hpos)

/-- The events, each in a record of the first block. -/
def first_block (events : List (Event AccountId Hash)) : List (Entry AccountId Hash) :=
  events.map fun e => (1, .pallet e)

theorem pallet_events_first_block (events : List (Event AccountId Hash)) :
    pallet_events (first_block events) = events := by
  unfold pallet_events first_block
  rw [List.filterMap_map]
  exact List.filterMap_some

/-- A node that answers nothing. -/
def silent : Api where
  proposalOf _ := none

section Devnet

/-- The opening of the executable chain, followed by other calls. -/
def devnet_transitions (calls : List (Extrinsic ℕ (List ℕ))) : List (Applied ℕ (List ℕ)) :=
  (runtime devnet).trace (genesis fun _ => 1000) (devnet_opening ++ calls)

def devnet_world (calls : List (Extrinsic ℕ (List ℕ))) : World ℕ (List ℕ) :=
  (runtime devnet).final (genesis fun _ => 1000) (devnet_opening ++ calls)

theorem complete_devnet_opening :
    Complete devnet_codec devnet (devnet_world [])
      (indexed devnet_codec silent (first_block (log (devnet_transitions [])))) := by
  have hcalls : ∀ t ∈ devnet_transitions [], t.input.now = 0
      ∧ (∃ call, t.input.call = .carbonAssets call) := by
    intro t ht
    have hinput := Machine.input_mem_of_mem_trace ht
    simp only [List.append_nil, devnet_opening, List.mem_cons, List.not_mem_nil, or_false] at hinput
    obtain h | h | h | h := hinput <;> (rw [h]; exact ⟨rfl, _, rfl⟩)
  have hundisturbed : ∀ t ∈ devnet_transitions [], Undisturbed devnet t := by
    intro t ht
    obtain ⟨hnow, call, hcall⟩ := hcalls t ht
    refine ⟨by rw [hnow]; decide, ?_⟩
    rintro ⟨taker, order_id, amount, order, h⟩
    cases hcall.symm.trans h.hcall
  have hrun : (runtime devnet).Run (fun t => ∀ call, t.input.call ≠ .standardAssets call)
      (genesis fun _ => 1000) (devnet_transitions []) (devnet_world []) := by
    refine Machine.run_trace _ _ fun t ht call hc => ?_
    obtain ⟨-, call', hcall⟩ := hcalls t ht
    cases hcall.symm.trans hc
  refine ((potential_balances_complete_iff devnet_codec_account_injective
    devnet_codec_hash_injective hrun (pallet_events_first_block _)).2 hundisturbed).mpr ?_
  intro y a hy hpos
  -- there is one receipt, and it is of whoever holds the units
  have hreceipts : (heard (log (devnet_transitions []))).receipts = [(1, devnet_asset)] := by decide
  have hmem := (Documented.run (hrun.restrict hundisturbed)).holder a y hy hpos
  rw [hreceipts, List.mem_singleton] at hmem
  rw [hreceipts, hmem]
  rintro before other after hsplit -
  have hother : other ∈ [(1, devnet_asset)] := by
    rw [hsplit]
    exact List.mem_append_right _ List.mem_cons_self
  exact .inl (List.mem_singleton.mp hother)

/-- Account 1 sends two of its five units to account 2, whose address begins alike. -/
def devnet_alike : List (Extrinsic ℕ (List ℕ)) :=
  [⟨.signed 1, 0, .carbonAssets (.transfer devnet_asset 2 2)⟩]

/-- **A document that is overwritten.** Account 1 still has three units, and finds
nothing. -/
theorem alike_not_complete :
    (runtime devnet).Run (fun t => ∀ call, t.input.call ≠ .standardAssets call)
      (genesis fun _ => 1000) (devnet_transitions devnet_alike) (devnet_world devnet_alike)
    ∧ pallet_events (first_block (log (devnet_transitions devnet_alike)))
      = log (devnet_transitions devnet_alike)
    ∧ ¬Complete devnet_codec devnet (devnet_world devnet_alike)
      (indexed devnet_codec silent (first_block (log (devnet_transitions devnet_alike)))) := by
  have hrun : (runtime devnet).Run (fun t => ∀ call, t.input.call ≠ .standardAssets call)
      (genesis fun _ => 1000) (devnet_transitions devnet_alike) (devnet_world devnet_alike) := by
    refine Machine.run_trace _ _ fun t ht call hc => ?_
    have hinput := Machine.input_mem_of_mem_trace ht
    simp only [devnet_opening, devnet_alike, List.cons_append, List.nil_append, List.mem_cons,
      List.not_mem_nil, or_false] at hinput
    obtain h | h | h | h | h := hinput <;> (rw [h] at hc; cases hc)
  have hes := pallet_events_first_block (log (devnet_transitions devnet_alike))
  refine ⟨hrun, hes, fun hcomplete => ?_⟩
  have hindexes := indexes_indexed silent devnet_codec_hash_injective
    (first_block (log (devnet_transitions devnet_alike)))
    fun e => by rw [hes]; exact not_standard_log hrun (fun _ h => h) e
  have hlast := (hindexes.listed_iff devnet_codec_account_injective devnet_codec_hash_injective 1
    devnet_asset).mp (hcomplete 1 devnet_asset (by decide) (by decide))
  have hreceipts : (heard (log (devnet_transitions devnet_alike))).receipts
      = [(1, devnet_asset), (2, devnet_asset)] := by decide
  rw [hes, hreceipts] at hlast
  have hkey : devnet_codec.key (2, devnet_asset) = devnet_codec.key (1, devnet_asset) := by
    simp [Codec.key, potential_key, constructPotentialBalanceDoc, devnet_codec]
  obtain heq | hmem := (LastWrite.entries_eq_some_iff.mp hlast).2 [(1, devnet_asset)]
    (2, devnet_asset) [] rfl hkey
  · cases heq
  · cases hmem

end Devnet

end Indexer

end Eco2
