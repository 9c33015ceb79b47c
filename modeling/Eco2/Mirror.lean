/-
The index mirrors the chain.

Between the chain and its index lies the log. `Directory` has said what the log determines
of the chain, and `Catalogue` what the handlers make of the log; here the two meet. What is
on file of projects, assets and standard assets is what the chain has, in every state.
For orders there is one condition. The index never opens an order again that it has closed,
and the chain may: `order_book_indexed_iff` says that the open orders on file are those of
the chain at all times if and only if no identifier is announced twice. Then crashes do no
harm either, and `index_mirrors_chain` puts everything together: whoever has caught up,
after any crashes, shows the chain as it is.
-/
import Eco2.CatalogueRecovery
import Eco2.Directory
import Eco2.OrderIds

set_option autoImplicit false
set_option linter.unusedSectionVars false

/-! ## Orders in the log -/

namespace Eco2

variable {AccountId Hash : Type} [DecidableEq AccountId] [DecidableEq Hash]

/-- The order whose end an event announces. -/
def Event.closes : Event AccountId Hash → Option Hash
  | .carbonExchange (.OrderFinished order_id) => some order_id
  | .carbonExchange (.OrderCanceled order_id) => some order_id
  | _ => none

/-- The event is one that the books allow: an order that it announces is not listed yet,
and one that it closes is. -/
structure Legal (d : Directory AccountId Hash) (e : Event AccountId Hash) (id : Hash) : Prop where
  fresh : e.announces id = true → d.orders id = none
  live : e.closes = some id → d.orders id ≠ none

theorem legal_of_ne {d : Directory AccountId Hash} {e : Event AccountId Hash} {id : Hash}
    (h : ∀ e', e = .carbonExchange e' → e'.order_id ≠ id) : Legal d e id := by
  constructor
  · intro hannounces
    unfold Event.announces at hannounces
    split at hannounces
    · exact absurd (of_decide_eq_true hannounces) (h _ rfl)
    · cases hannounces
  · intro hcloses
    unfold Event.closes at hcloses
    split at hcloses
    · exact absurd (Option.some.inj hcloses) (h _ rfl)
    · exact absurd (Option.some.inj hcloses) (h _ rfl)
    · cases hcloses

theorem legal_NewOrder {d : Directory AccountId Hash} {id : Hash} (order_id : Hash)
    (maker : AccountId) (asset_id money_id : Hash) (direction : UInt8) (now : Moment)
    (h : d.orders id = none) :
    Legal d (.carbonExchange (.NewOrder order_id maker asset_id money_id direction now)) id :=
  ⟨fun _ => h, fun hcloses => absurd hcloses (Option.some_ne_none id).symm⟩

theorem legal_OrderFinished {d : Directory AccountId Hash} {id : Hash} (order_id : Hash)
    (h : d.orders id ≠ none) : Legal d (.carbonExchange (.OrderFinished order_id)) id :=
  ⟨fun hannounces => absurd hannounces Bool.false_ne_true, fun _ => h⟩

theorem legal_OrderCanceled {d : Directory AccountId Hash} {id : Hash} (order_id : Hash)
    (h : d.orders id ≠ none) : Legal d (.carbonExchange (.OrderCanceled order_id)) id :=
  ⟨fun hannounces => absurd hannounces Bool.false_ne_true, fun _ => h⟩

theorem legal_NewDeal {d : Directory AccountId Hash} {id : Hash}
    (order : CarbonExchange.Order AccountId Hash) (order_id : Hash) (taker : AccountId)
    (amount : UInt64) (now : Moment) :
    Legal d (.carbonExchange (order.new_deal order_id taker amount now)) id :=
  ⟨nofun, nofun⟩

variable {T : Trait AccountId Hash}

/-- The events of a transition are allowed one after the other. -/
theorem Outcome.legal {t : Applied AccountId Hash} (h : Outcome T t) (id : Hash)
    {d : Directory AccountId Hash}
    (hpre : d.orders id = (t.pre.Orders.get id).map CarbonExchange.Order.entry) :
    Machine.Along (fun before e => Legal (before.foldl Directory.record d) e id)
      t.output.events := by
  have hone {P : List (Event AccountId Hash) → Event AccountId Hash → Prop}
      {e : Event AccountId Hash} (he : P [] e) : Machine.Along P [e] :=
    (Machine.along_snoc (l := []) e).mpr ⟨Machine.along_nil, he⟩
  have hslot := order_step h id
  generalize t.pre.Orders.get id = slot at hslot hpre
  generalize t.post.Orders.get id = after at hslot
  cases hslot with
  | kept slot hkept =>
    intro before e after hsplit
    refine legal_of_ne fun e' he => hkept.quiet e' ?_
    rw [hsplit, he]
    exact List.mem_append_right _ List.mem_cons_self
  | made order hmade =>
    rw [hmade.events]
    exact hone (legal_NewOrder _ _ _ _ _ _ hpre)
  | taken order taker amount htakes hmore =>
    have hleft : (order.taken amount (order.released amount)).left_amount > 0 := hmore
    rw [htakes.events, CarbonExchange.take_events, if_pos hleft]
    exact hone (legal_NewDeal order id taker amount _)
  | finished order taker htakes =>
    have hleft : ¬(order.taken order.left_amount (order.released order.left_amount)).left_amount
        > 0 := by
      change ¬order.left_amount - order.left_amount > 0
      rw [UInt64.sub_self]
      exact UInt64.lt_irrefl 0
    rw [htakes.events, CarbonExchange.take_events, if_neg hleft]
    -- the order is finished before its last deal is announced
    refine (Machine.along_snoc (l := [Event.carbonExchange (.OrderFinished id)]) _).mpr
      ⟨hone (legal_OrderFinished _ ?_), legal_NewDeal order id taker _ _⟩
    rw [List.foldl_nil, hpre]
    exact Option.some_ne_none _
  | cancelled order hcancels =>
    rw [hcancels.events]
    refine hone (legal_OrderCanceled _ ?_)
    rw [List.foldl_nil, hpre]
    exact Option.some_ne_none _

/-- In the log of a run an order is announced where none is listed, and closed where it
is. -/
theorem legal_log {allowed : Applied AccountId Hash → Prop} {native : AccountId → ℕ}
    {tr : List (Applied AccountId Hash)} {w : World AccountId Hash}
    (hrun : (runtime T).Run allowed (genesis native) tr w) (id : Hash) :
    Machine.Along (fun before e => Legal (directory before) e id) (log tr) := by
  apply hrun.invariant
    (I := fun tr _ => Machine.Along (fun before e => Legal (directory before) e id) (log tr))
  · exact Machine.along_nil
  intro tr w x hrun ih _
  rw [log_snoc]
  refine Machine.along_append.mpr ⟨ih, ?_⟩
  simp only [directory_append, directory_of_run hrun]
  exact (outcome_of_fire T w x).legal id rfl

/-- The time of the block can be converted to a number of the indexer. -/
def Applied.InTime (t : Applied AccountId Hash) : Prop := t.input.now.toNat < 2 ^ 53

instance : DecidablePred (@Applied.InTime AccountId Hash) :=
  fun t => inferInstanceAs (Decidable (t.input.now.toNat < 2 ^ 53))

/-- All times in the log can. -/
def InTime (events : List (Event AccountId Hash)) : Prop :=
  ∀ e ∈ events, ∀ now, e.stamp = some now → now.toNat < 2 ^ 53

/-- An event carries the time of its block, if any. -/
theorem Outcome.stamp {t : Applied AccountId Hash} (h : Outcome T t) :
    ∀ e ∈ t.output.events, ∀ now, e.stamp = some now → now = t.input.now := by
  have htake {order_id : Hash} {order : CarbonExchange.Order AccountId Hash} {now : Moment}
      {deal : CarbonExchange.Event AccountId Hash}
      (hdeal : (Event.carbonExchange deal).stamp = some now) :
      ∀ e ∈ CarbonExchange.take_events order_id order deal, ∀ now',
        (Event.carbonExchange e).stamp = some now' → now' = now := by
    intro e he now' hnow'
    unfold CarbonExchange.take_events at he
    split at he
    · cases List.mem_singleton.mp he
      exact Option.some.inj (hnow'.symm.trans hdeal)
    · obtain rfl | hdeal' := List.mem_cons.mp he
      · cases hnow'
      · cases List.mem_singleton.mp hdeal'
        exact Option.some.inj (hnow'.symm.trans hdeal)
  cases h with
  | refused => exact List.forall_mem_nil _
  | half_take => exact List.forall_mem_nil _
  | balances_transfer => exact List.forall_mem_nil _
  | carbonAssets w origin now call s' events ops hstep =>
    refine List.forall_mem_map.mpr ?_
    cases hstep <;> simp [Event.stamp, eq_comm]
  | standardAssets w origin now call s' events ops hstep =>
    refine List.forall_mem_map.mpr ?_
    cases hstep <;> simp [Event.stamp, eq_comm]
  | carbonExchange w origin now call w' events ops hstep =>
    refine List.forall_mem_map.mpr ?_
    cases hstep with
    | take_ask => exact htake rfl
    | take_bid => exact htake rfl
    | _ => simp [Event.stamp, eq_comm]

theorem inTime_log {w₀ w : World AccountId Hash} {tr : List (Applied AccountId Hash)}
    (hrun : (runtime T).Run Applied.InTime w₀ tr w) : InTime (log tr) := by
  intro e he now hnow
  obtain ⟨t, ht, he⟩ := List.mem_flatMap.mp he
  obtain ⟨-, -, -, htime⟩ := hrun.of_mem ht
  rw [(outcome_of_mem hrun ht).stamp e he now hnow]
  exact htime

/-- Only its announcement lists an order. -/
theorem record_of_not_announces {d : Directory AccountId Hash} {e : Event AccountId Hash}
    {id : Hash} (h : ¬e.announces id = true) (hnone : d.orders id = none) :
    (d.record e).orders id = none := by
  have hclose (order_id : Hash) : Function.update d.orders order_id none id = none := by
    rw [Function.update_apply, hnone, ite_self]
  cases e with
  | carbonAssets e => exact hnone
  | standardAssets e => exact hnone
  | carbonExchange e =>
    cases e with
    | NewOrder order_id maker asset_id money_id direction now =>
      have hne : id ≠ order_id := fun heq => h (decide_eq_true heq.symm)
      exact (Function.update_of_ne hne _ _).trans hnone
    | NewDeal => exact hnone
    | OrderFinished order_id => exact hclose order_id
    | OrderCanceled order_id => exact hclose order_id

/-- What is listed has been announced. -/
theorem announced_of_listed {events : List (Event AccountId Hash)} {id : Hash}
    (h : (directory events).orders id ≠ none) : ∃ e ∈ events, e.announces id = true := by
  induction events using List.reverseRecOn with
  | nil => exact absurd rfl h
  | append_singleton events e ih =>
    rw [directory_append] at h
    by_cases hannounces : e.announces id = true
    · exact ⟨e, by simp, hannounces⟩
    · have hlisted : (directory events).orders id ≠ none :=
        fun hnone => h (record_of_not_announces hannounces hnone)
      obtain ⟨e', he', hannounced⟩ := ih hlisted
      exact ⟨e', List.mem_append_left _ he', hannounced⟩

end Eco2

namespace Eco2.Indexer

variable {AccountId Hash : Type} (codec : Codec AccountId Hash)

/-! ## Entries as they are printed -/

/-- Owner and symbol. -/
def Codec.project (project : ProjectEntry AccountId) : String × String :=
  (codec.account project.owner, codec.utf8 project.symbol)

def CarbonProjectDoc.shown (doc : CarbonProjectDoc) : String × String := (doc.owner, doc.symbol)

/-- Project, owner, symbol and vintage. -/
def Codec.asset (asset : AssetEntry AccountId Hash) : String × String × String × String :=
  (codec.hash asset.project_id, codec.account asset.owner, codec.utf8 asset.symbol,
    codec.utf8 asset.vintage)

def CarbonAssetDoc.shown (doc : CarbonAssetDoc) : String × String × String × String :=
  (doc.projectId, doc.owner, doc.symbol, doc.vintage)

/-- Maker, asset, money and direction. -/
def Codec.order (order : OrderEntry AccountId Hash) : String × String × String × ℕ :=
  (codec.account order.maker, codec.hash order.asset_id, codec.hash order.money_id,
    order.direction.toNat)

def OrderDoc.shown (doc : OrderDoc) : String × String × String × ℕ :=
  (doc.owner, doc.assetId, doc.moneyId, doc.direction)

/-- Symbol and decimals. -/
def Codec.standard (asset : StandardEntry) : String × ℕ :=
  (codec.utf8 asset.symbol, asset.decimals.toNat)

def StandardAssetDoc.shown (doc : StandardAssetDoc) : String × ℕ := (doc.symbol, doc.decimals)

/-! ## The catalogue and the books -/

/-- The catalogue shows the projects and assets of the books, with their approvals, and
the standard assets. -/
structure Shows (c : Catalogue) (d : Directory AccountId Hash) : Prop where
  projects : Flagged.Shown codec.hash CarbonProjectDoc.shown codec.project
    (fun project => project.approved = true) c.projects d.carbon.projects
  assets : Flagged.Shown codec.hash CarbonAssetDoc.shown codec.asset
    (fun asset => asset.approved = true) c.assets d.carbon.assets
  standard_assets : FirstWrite.Shown codec.hash StandardAssetDoc.shown codec.standard
    c.standardAssets.rows d.standard.assets

section Shows

variable {codec} [DecidableEq AccountId] [DecidableEq Hash] {c : Catalogue}
  {d : Directory AccountId Hash}

/-- An event that says nothing of the three. -/
theorem Shows.congr (h : Shows codec c d) {c' : Catalogue} {d' : Directory AccountId Hash}
    (hprojects : c'.projects = c.projects) (hassets : c'.assets = c.assets)
    (hstandard : c'.standardAssets = c.standardAssets) (hcarbon : d'.carbon = d.carbon)
    (hbook : d'.standard.assets = d.standard.assets) : Shows codec c' d' := by
  constructor
  · rw [hprojects, hcarbon]
    exact h.projects
  · rw [hassets, hcarbon]
    exact h.assets
  · rw [hstandard, hbook]
    exact h.standard_assets

/-- Reading an event keeps the catalogue in step with the books. -/
theorem Shows.handle (h : Shows codec c d) (hcodec : Function.Injective codec.hash)
    {e : Event AccountId Hash} (htime : ∀ now, e.stamp = some now → now.toNat < 2 ^ 53)
    (height : ℕ) : Shows codec (c.handle codec (height, .pallet e)) (d.record e) := by
  have hnone {D : Type} (v : Flagged String D) : v.step none none = v := Flagged.step_none v
  cases e with
  | carbonAssets e =>
    cases e with
    | ProjectSubmited project_id owner symbol now =>
      refine ⟨?_, ?_, ?_⟩
      · change Flagged.Shown _ _ _ _ (c.projects.step (ite _ _ _) none) _
        rw [if_pos (htime now rfl)]
        exact h.projects.row hcodec rfl Bool.false_ne_true
      · exact h.assets.keep
      · exact h.standard_assets
    | ProjectApproved project_id =>
      refine ⟨h.projects.flag hcodec (fun _ => rfl) fun _ => rfl, ?_, ?_⟩
      · exact h.assets.keep
      · exact h.standard_assets
    | AssetSubmited project_id asset_id symbol vintage owner now =>
      refine ⟨?_, ?_, ?_⟩
      · exact h.projects.keep
      · change Flagged.Shown _ _ _ _ (c.assets.step (ite _ _ _) none) _
        rw [if_pos (htime now rfl)]
        exact h.assets.row hcodec rfl Bool.false_ne_true
      · exact h.standard_assets
    | AssetApproved asset_id =>
      refine ⟨?_, h.assets.flag hcodec (fun _ => rfl) fun _ => rfl, ?_⟩
      · exact h.projects.keep
      · exact h.standard_assets
    | _ => exact h.congr (hnone _) (hnone _) (hnone _) rfl rfl
  | carbonExchange e => exact h.congr (hnone _) (hnone _) (hnone _) rfl rfl
  | standardAssets e =>
    cases e with
    | NewAsset asset_id symbol owner first_supply decimals now =>
      refine ⟨?_, ?_, ?_⟩
      · exact h.projects.keep
      · exact h.assets.keep
      · change FirstWrite.Shown _ _ _ (FirstWrite.write c.standardAssets.rows (ite _ _ _)) _
        rw [if_pos (htime now rfl)]
        exact h.standard_assets.write hcodec rfl
    | _ => exact h.congr (hnone _) (hnone _) (hnone _) rfl rfl

omit [DecidableEq AccountId] [DecidableEq Hash] in
/-- The events before one and after it. -/
theorem pallet_events_split (before after : List (Entry AccountId Hash))
    {e : Entry AccountId Hash} {event : Event AccountId Hash} (h : pallet_event e = some event) :
    pallet_events (before ++ e :: after)
      = pallet_events before ++ event :: pallet_events after := by
  unfold pallet_events
  rw [List.filterMap_append, List.filterMap_cons_some h]

/-- What no custom pallet has deposited leaves the catalogue alone. -/
theorem after_snoc_of_none (es : List (Entry AccountId Hash)) {e : Entry AccountId Hash}
    (h : pallet_event e = none) : Catalogue.after codec (es ++ [e]) = Catalogue.after codec es := by
  rw [after_snoc]
  obtain ⟨height, record⟩ := e
  cases record with
  | pallet event => cases h
  | _ =>
    exact Catalogue.ext (Flagged.step_none _) (Flagged.step_none _) (Flagged.step_none _)
      (Flagged.step_none _)

end Shows

/-! ## Orders -/

/-- The open orders of the catalogue are those that are listed. -/
def ShowsOrders (c : Catalogue) (d : Directory AccountId Hash) : Prop :=
  ∀ id x, (∃ doc, c.orders.rows (codec.hash id) = some doc ∧ codec.hash id ∉ c.orders.flags
    ∧ doc.shown = x) ↔ ∃ order, d.orders id = some order ∧ codec.order order = x

/-- What an event that can be read does to the orders on both sides. -/
inductive OrdersRead [DecidableEq Hash] (e : Event AccountId Hash) (v : Flagged String OrderDoc)
    (u : Hash → Option (OrderEntry AccountId Hash)) :
    Flagged String OrderDoc → (Hash → Option (OrderEntry AccountId Hash)) → Prop
  | announced (id : Hash) (order : OrderEntry AccountId Hash) (doc : OrderDoc)
      (hannounces : ∀ id', e.announces id' = true ↔ id' = id)
      (hdoc : doc.shown = codec.order order) :
      OrdersRead e v u (v.step (some (codec.hash id, doc)) none)
        (Function.update u id (some order))
  | closed (id : Hash) (hannounces : ∀ id', ¬e.announces id' = true)
      (hcloses : e.closes = some id) :
      OrdersRead e v u (v.step none (some (codec.hash id))) (Function.update u id none)
  | other (hannounces : ∀ id', ¬e.announces id' = true) (hcloses : e.closes = none) :
      OrdersRead e v u v u

section Orders

variable {codec} [DecidableEq AccountId] [DecidableEq Hash] {c : Catalogue}
  {d : Directory AccountId Hash} {es : List (Entry AccountId Hash)} {id : Hash}

/-- An asset that has been announced is on file. -/
theorem asset_row_ne_none (htime : InTime (pallet_events es)) {a : Hash}
    (h : Announced (pallet_events es) .asset a) :
    (Catalogue.after codec es).assets.rows (codec.hash a) ≠ none := by
  obtain ⟨event, hevent, hsubmits⟩ := h
  obtain ⟨⟨height, record⟩, he, heq⟩ := List.mem_filterMap.mp hevent
  have hrecord : record = .pallet event := by
    cases record <;> cases heq
    rfl
  rw [assets_after, ← Option.isSome_iff_ne_none, FirstWrite.isSome_entries_iff]
  refine ⟨_, he, ?_⟩
  unfold Event.submits at hsubmits
  split at hsubmits <;> cases hsubmits
  rw [hrecord]
  exact ⟨_, if_pos (htime _ hevent _ rfl)⟩

theorem orders_read {e : Event AccountId Hash}
    (htime : ∀ now, e.stamp = some now → now.toNat < 2 ^ 53)
    (hasset : ∀ a, e.asset = some a → c.assets.rows (codec.hash a) ≠ none) (height : ℕ) :
    OrdersRead codec e c.orders d.orders (c.handle codec (height, .pallet e)).orders
      (d.record e).orders := by
  have hother (hannounces : ∀ id', ¬e.announces id' = true) (hcloses : e.closes = none)
      (horders : (d.record e).orders = d.orders)
      (hstep : (c.handle codec (height, .pallet e)).orders = c.orders.step none none) :
      OrdersRead codec e c.orders d.orders (c.handle codec (height, .pallet e)).orders
        (d.record e).orders := by
    rw [horders, hstep, Flagged.step_none]
    exact .other hannounces hcloses
  cases e with
  | carbonAssets e => cases e <;> exact hother (fun _ => Bool.false_ne_true) rfl rfl rfl
  | standardAssets e => cases e <;> exact hother (fun _ => Bool.false_ne_true) rfl rfl rfl
  | carbonExchange e =>
    cases e with
    | NewDeal => exact hother (fun _ => Bool.false_ne_true) rfl rfl rfl
    | OrderFinished order_id => exact .closed order_id (fun _ => Bool.false_ne_true) rfl
    | OrderCanceled order_id => exact .closed order_id (fun _ => Bool.false_ne_true) rfl
    | NewOrder order_id maker asset_id money_id direction now =>
      obtain ⟨asset, hfound⟩ := Option.ne_none_iff_exists'.mp (hasset asset_id rfl)
      have hannounces (id' : Hash) :
          (Event.carbonExchange (.NewOrder order_id maker asset_id money_id direction now) :
            Event AccountId Hash).announces id' = true ↔ id' = order_id :=
        decide_eq_true_iff.trans eq_comm
      change OrdersRead codec _ _ _ (c.orders.step (ite _ ((c.assets.rows _).map _) _) none) _
      rw [if_pos (htime now rfl), hfound]
      exact .announced order_id _ _ hannounces rfl

/-- The events of a log, or of a part of it, that can be read. -/
structure Readable (events : List (Event AccountId Hash)) : Prop where
  time : InTime events
  grounded : Machine.Along Grounded events

theorem Readable.init {events more : List (Event AccountId Hash)} (h : Readable (events ++ more)) :
    Readable events where
  time e he := h.time e (List.mem_append_left _ he)
  grounded := h.grounded.init

variable (codec) in
theorem Readable.orders_read {e : Event AccountId Hash}
    (h : Readable (pallet_events es ++ [e])) (height : ℕ) :
    OrdersRead codec e (Catalogue.after codec es).orders (directory (pallet_events es)).orders
      (Catalogue.after codec (es ++ [(height, .pallet e)])).orders
      (directory (pallet_events es ++ [e])).orders := by
  have hgrounded := ((Machine.along_snoc e).mp h.grounded).2
  rw [after_snoc, directory_append]
  exact Indexer.orders_read (h.time e (by simp))
    (fun a ha => asset_row_ne_none h.init.time (hgrounded.asset a ha)) height

/-- On file are the orders that have been announced. -/
theorem order_row_ne_none_iff (hcodec : Function.Injective codec.hash) (id : Hash)
    (h : Readable (pallet_events es)) :
    (Catalogue.after codec es).orders.Proper
    ∧ ((Catalogue.after codec es).orders.rows (codec.hash id) ≠ none
      ↔ ∃ e ∈ pallet_events es, e.announces id = true) := by
  induction es using List.reverseRecOn with
  | nil =>
    refine ⟨Flagged.proper_of _ _ _, iff_of_false (fun h => h rfl) ?_⟩
    exact fun ⟨e, he, _⟩ => List.not_mem_nil he
  | append_singleton es e ih =>
    obtain ⟨height, record⟩ := e
    cases record with
    | pallet event =>
      rw [pallet_events_snoc_pallet] at h ⊢
      obtain ⟨hproper, hiff⟩ := ih h.init
      have hread := h.orders_read codec height
      generalize (Catalogue.after codec (es ++ [(height, .pallet event)])).orders = v at hread ⊢
      generalize (directory (pallet_events es ++ [event])).orders = u at hread
      simp only [List.mem_append, List.mem_singleton, or_and_right, exists_or, exists_eq_left]
      rw [← hiff]
      cases hread with
      | announced id' order doc hannounces hdoc =>
        refine ⟨hproper.step _ _, ?_⟩
        change FirstWrite.write (Catalogue.after codec es).orders.rows
          (some (codec.hash id', doc)) (codec.hash id) ≠ none ↔ _
        rw [FirstWrite.write_ne_none_iff, hcodec.eq_iff, hannounces]
      | closed id' hannounces hcloses =>
        exact ⟨hproper.step _ _, (or_iff_left (hannounces id)).symm⟩
      | other hannounces hcloses => exact ⟨hproper, (or_iff_left (hannounces id)).symm⟩
    | _ =>
      rw [pallet_events_snoc_of_none es rfl] at h ⊢
      rw [after_snoc_of_none es rfl]
      exact ih h

/-- Closing an order closes it on both sides. -/
theorem ShowsOrders.closed (h : ShowsOrders codec c d) (hcodec : Function.Injective codec.hash)
    {c' : Catalogue} {d' : Directory AccountId Hash}
    (hc : c'.orders = c.orders.step none (some (codec.hash id)))
    (hd : d'.orders = Function.update d.orders id none) : ShowsOrders codec c' d' := by
  intro id' x
  rw [hc, hd]
  by_cases hid : id' = id
  · subst hid
    rw [Function.update_self]
    refine iff_of_false ?_ fun ⟨order, hnone, _⟩ => nomatch hnone
    rintro ⟨doc, hdoc, hflag, -⟩
    have hrow : c.orders.rows (codec.hash id') = some doc := hdoc
    exact hflag (.inr ⟨rfl, hrow ▸ Option.some_ne_none doc⟩)
  · rw [Function.update_of_ne hid, ← h id' x]
    have hne : codec.hash id ≠ codec.hash id' := fun heq => hid (hcodec heq).symm
    have hflags : codec.hash id' ∈ (c.orders.step none (some (codec.hash id))).flags
        ↔ codec.hash id' ∈ c.orders.flags :=
      or_iff_left fun hc => hne (Option.some.inj hc.1)
    rw [hflags]
    rfl

/-- An order that is announced is open on both sides if and only if its row is new. -/
theorem ShowsOrders.announced_iff (h : ShowsOrders codec c d)
    (hcodec : Function.Injective codec.hash) (hproper : c.orders.Proper)
    (hfresh : d.orders id = none) {order : OrderEntry AccountId Hash} {doc : OrderDoc}
    (hdoc : doc.shown = codec.order order) {c' : Catalogue} {d' : Directory AccountId Hash}
    (hc : c'.orders = c.orders.step (some (codec.hash id, doc)) none)
    (hd : d'.orders = Function.update d.orders id (some order)) :
    ShowsOrders codec c' d' ↔ c.orders.rows (codec.hash id) = none := by
  have hflags (k : String) : k ∈ c'.orders.flags ↔ k ∈ c.orders.flags := by
    rw [hc]
    exact or_iff_left fun hc => nomatch hc.1
  have hrows : c'.orders.rows = FirstWrite.write c.orders.rows (some (codec.hash id, doc)) := by
    rw [hc]
    rfl
  constructor
  · intro h'
    by_contra hsome
    obtain ⟨old, hold⟩ := Option.ne_none_iff_exists'.mp hsome
    -- what was on file is closed, and stays so
    have hflag : codec.hash id ∈ c.orders.flags := by
      by_contra hopen
      obtain ⟨order', horder', -⟩ := (h id old.shown).mp ⟨old, hold, hopen, rfl⟩
      cases hfresh.symm.trans horder'
    obtain ⟨-, -, hopen, -⟩ := (h' id (codec.order order)).mpr
      ⟨order, by rw [hd, Function.update_self], rfl⟩
    exact hopen ((hflags _).mpr hflag)
  · intro hnone id' x
    rw [hrows, hflags, FirstWrite.write_some_of_none hnone, hd]
    by_cases hid : id' = id
    · subst hid
      have hopen : codec.hash id' ∉ c.orders.flags := fun hc => hproper _ hc hnone
      rw [Function.update_self, Function.update_self]
      constructor
      · rintro ⟨doc', hdoc', -, rfl⟩
        cases hdoc'
        exact ⟨order, rfl, hdoc.symm⟩
      · rintro ⟨order', horder', rfl⟩
        cases horder'
        exact ⟨doc, rfl, hopen, hdoc⟩
    · rw [Function.update_of_ne hid, Function.update_of_ne (hcodec.ne hid)]
      exact h id' x

theorem countP_snoc_le_one_iff {α : Type} (p : α → Bool) (l : List α) (a : α) :
    (l ++ [a]).countP p ≤ 1 ↔ l.countP p ≤ 1 ∧ (p a = true → ¬∃ b ∈ l, p b = true) := by
  have hnone : (¬∃ b ∈ l, p b = true) ↔ l.countP p = 0 := by simp [List.countP_eq_zero]
  rw [hnone, List.countP_append, List.countP_singleton]
  by_cases ha : p a = true
  · rw [if_pos ha]
    constructor
    · exact fun h => ⟨by omega, fun _ => by omega⟩
    · rintro ⟨-, hzero⟩
      rw [hzero ha]
  · rw [if_neg ha]
    exact (and_iff_left fun hc => absurd hc ha).symm

/-- The open orders on file are those that are listed, all the way through the events, if
and only if no order is announced twice. -/
theorem showsOrders_iff (hcodec : Function.Injective codec.hash)
    (hread : Readable (pallet_events es))
    (hlegal : ∀ id, Machine.Along (fun before e => Legal (directory before) e id)
      (pallet_events es)) :
    (∀ before, before <+: es →
        ShowsOrders codec (Catalogue.after codec before) (directory (pallet_events before)))
      ↔ ∀ id, (pallet_events es).countP (Event.announces id) ≤ 1 := by
  induction es using List.reverseRecOn with
  | nil =>
    refine iff_of_true (fun before hbefore => ?_) fun id => Nat.zero_le 1
    obtain rfl := List.prefix_nil.mp hbefore
    exact fun id x => iff_of_false (fun ⟨_, hdoc, _⟩ => nomatch hdoc) fun ⟨_, horder, _⟩ =>
      nomatch horder
  | append_singleton es e ih =>
    simp only [List.prefix_concat_iff, forall_eq_or_imp]
    obtain ⟨height, record⟩ := e
    cases record with
    | pallet event =>
      rw [pallet_events_snoc_pallet] at hread hlegal ⊢
      simp only [countP_snoc_le_one_iff, forall_and]
      rw [ih hread.init fun id => (hlegal id).init, and_comm]
      refine and_congr_right fun honce => ?_
      have hbefore := (ih hread.init fun id => (hlegal id).init).mpr honce es (List.prefix_refl es)
      have hstep := hread.orders_read codec height
      generalize hc : (Catalogue.after codec (es ++ [(height, .pallet event)])).orders = v at hstep
      generalize hd : (directory (pallet_events es ++ [event])).orders = u at hstep
      cases hstep with
      | announced id order doc hannounces hdoc =>
        have hfresh := ((Machine.along_snoc event).mp (hlegal id)).2.fresh ((hannounces id).mpr rfl)
        obtain ⟨hproper, hrow⟩ := order_row_ne_none_iff hcodec id hread.init
        rw [hbefore.announced_iff hcodec hproper hfresh hdoc hc hd, ← not_iff_not, ← ne_eq, hrow]
        simp [hannounces]
      | closed id hannounces hcloses =>
        exact iff_of_true (hbefore.closed hcodec hc hd) fun id' hid' => absurd hid' (hannounces id')
      | other hannounces hcloses =>
        refine iff_of_true (fun id x => ?_) fun id' hid' => absurd hid' (hannounces id')
        rw [hc, hd]
        exact hbefore id x
    | _ =>
      rw [pallet_events_snoc_of_none es rfl] at hread hlegal ⊢
      rw [ih hread hlegal]
      refine and_iff_right_of_imp fun honce => ?_
      rw [after_snoc_of_none es rfl]
      exact (ih hread hlegal).mpr honce es (List.prefix_refl es)

theorem closes_of_order_flag {e : Entry AccountId Hash} {key : String}
    (h : order_flag codec e = some key) :
    ∃ event id, pallet_event e = some event ∧ event.closes = some id ∧ key = codec.hash id := by
  unfold order_flag at h
  split at h <;> cases h <;> exact ⟨_, _, rfl, rfl, rfl⟩

/-- Where no order is announced twice, the orders are closed whose closing has been read. -/
theorem ordersClosed_after (hcodec : Function.Injective codec.hash)
    (hread : Readable (pallet_events es))
    (hlegal : ∀ id, Machine.Along (fun before e => Legal (directory before) e id)
      (pallet_events es))
    (honce : ∀ id, (pallet_events es).countP (Event.announces id) ≤ 1) :
    OrdersClosed codec es (Catalogue.after codec es) := by
  intro e he key hflag _
  obtain ⟨event, id, hevent, hcloses, rfl⟩ := closes_of_order_flag hflag
  obtain ⟨before, after, hes⟩ := List.append_of_mem he
  have hevents : pallet_events es = pallet_events before ++ event :: pallet_events after := by
    rw [hes]
    exact pallet_events_split before after hevent
  -- the order was on file when its closing was read
  obtain ⟨order, horder⟩ := Option.ne_none_iff_exists'.mp ((hlegal id _ _ _ hevents).live hcloses)
  obtain ⟨doc, hdoc, -, -⟩ := ((showsOrders_iff hcodec hread hlegal).mpr honce before
    ⟨e :: after, hes.symm⟩ id (codec.order order)).mpr ⟨order, horder, rfl⟩
  have hclosed : codec.hash id ∈ (Catalogue.after codec (before ++ [e])).orders.flags := by
    rw [after_snoc]
    exact .inr ⟨hflag, hdoc ▸ Option.some_ne_none doc⟩
  have hle : Catalogue.after codec (before ++ [e]) ≤ Catalogue.after codec es := by
    have hall : es = (before ++ [e]) ++ (after ++ []) := by simp [hes]
    have hstate : Catalogue.after codec (before ++ [e])
        ≤ Catalogue.after codec (before ++ [e] ++ after) :=
      Replay.state_le (fun _ _ _ _ => le_handle _ _) hall
    rwa [← List.append_nil (before ++ [e] ++ after), List.append_assoc, ← hall] at hstate
  exact hle.2.2.1.2 hclosed

end Orders

/-! ## Documents -/

section Documents

variable {codec} [DecidableEq AccountId] [DecidableEq Hash] {data : Data}
  {d : Directory AccountId Hash}

variable (codec) in
/-- The open orders on file are those that are listed. -/
def OpenOrders (data : Data) (d : Directory AccountId Hash) : Prop :=
  ∀ id x, (∃ doc ∈ data.orders, doc.orderId = codec.hash id ∧ doc.closed = 0 ∧ doc.shown = x)
    ↔ ∃ order, d.orders id = some order ∧ codec.order order = x

theorem openOrders_iff (h : SoundOrders data.orders) :
    OpenOrders codec data d ↔ ShowsOrders codec data.catalogue d := by
  refine forall₂_congr fun id x => iff_congr ?_ Iff.rfl
  change _ ↔ ∃ doc, (data.order (codec.hash id)).map OrderDoc.base = some doc
    ∧ ¬(∃ doc, data.order (codec.hash id) = some doc ∧ doc.closed = 1) ∧ doc.shown = x
  constructor
  · rintro ⟨doc, hdoc, hid, hopen, rfl⟩
    have hfound : data.order (codec.hash id) = some doc := hid ▸ h.unique.lookup hdoc
    refine ⟨doc.base, congrArg (Option.map OrderDoc.base) hfound, ?_, rfl⟩
    rintro ⟨doc', hdoc', hclosed⟩
    cases hfound.symm.trans hdoc'
    exact Nat.zero_ne_one (hopen.symm.trans hclosed)
  · rintro ⟨doc, hdoc, hopen, rfl⟩
    obtain ⟨doc', hfound, rfl⟩ := Option.map_eq_some_iff.mp hdoc
    obtain ⟨hmem, hid⟩ := Table.mem_of_lookup hfound
    refine ⟨doc', hmem, hid, ?_, rfl⟩
    exact (h.proper doc' hmem).resolve_right fun hclosed => hopen ⟨doc', hfound, hclosed⟩

/-- The documents of orders that a crash-free process leaves are sound. -/
theorem soundOrders_indexed (api : Api) (es : List (Entry AccountId Hash)) :
    SoundOrders (indexed codec api es).orders := by
  have hentry (e : Entry AccountId Hash) :
      (process_entry codec api e).Always (orders.Keeps SoundOrders) :=
    keeps_orders codec api e.1 e.2
  exact (Program.Always.forM fun e _ => hentry e).exec
    (R := fun data data' => SoundOrders (orders.docs data) → SoundOrders (orders.docs data'))
    (fun _ => id) (fun _ _ _ _ hfirst hrest hsound => hrest (hfirst hsound)) .empty
    ⟨List.forall_mem_nil _, .nil⟩

variable {T : Trait AccountId Hash}

theorem readable_log {native : AccountId → ℕ} {log_tr : List (Applied AccountId Hash)}
    {w : World AccountId Hash}
    (hrun : (runtime T).Run Applied.InTime (genesis native) log_tr w) : Readable (log log_tr) :=
  ⟨inTime_log hrun, grounded_log hrun⟩

/-- **The index follows the order book.** For the events of a run of the chain, with any
events of the committee in between: the orders on file as open are those that are open on
the chain, after each event, if and only if no order is announced twice. -/
theorem order_book_indexed_iff (api : Api) (hcodec : Function.Injective codec.hash)
    {native : AccountId → ℕ} {log_tr : List (Applied AccountId Hash)} {w : World AccountId Hash}
    (hrun : (runtime T).Run Applied.InTime (genesis native) log_tr w)
    {es : List (Entry AccountId Hash)} (hlog : pallet_events es = log log_tr) :
    (∀ before, before <+: es →
        OpenOrders codec (indexed codec api before) (directory (pallet_events before)))
      ↔ ∀ id, (log log_tr).countP (Event.announces id) ≤ 1 := by
  have hread := readable_log hrun
  have hlegal := legal_log hrun
  rw [← hlog] at hread hlegal ⊢
  rw [← showsOrders_iff hcodec hread hlegal]
  refine forall₂_congr fun before _ => ?_
  rw [openOrders_iff (soundOrders_indexed api before)]
  unfold indexed
  rw [forM_catalogue]
  rfl

variable {chain : ℕ → List (Record AccountId Hash)} {n : ℕ}

section CaughtUp

variable {native : AccountId → ℕ} {log_tr : List (Applied AccountId Hash)}
  {w : World AccountId Hash} {tr : List (Transition Data Round (List Operation))}

variable (hcodec : Function.Injective codec.hash)
  (hrun : (runtime T).Run Applied.InTime (genesis native) log_tr w)
  (hlog : pallet_events (feed chain 0 n) = log log_tr)
  (honce : ∀ id, (log log_tr).countP (Event.announces id) ≤ 1)
  (hindexing : (indexing codec chain).Run (UpTo n) .empty tr data)
  (hcaught : data.lastBlockNumberFile = n)

include hcodec hrun hlog honce hindexing hcaught

/-- However often it has crashed, the catalogue of a process that has caught up is the one
of the events. -/
theorem caught_up_catalogue : data.catalogue = Catalogue.after codec (feed chain 0 n) := by
  have hread : Readable (pallet_events (feed chain 0 n)) := hlog ▸ readable_log hrun
  have hlegal := legal_log hrun
  have hcausal : Causal (pallet_events (feed chain 0 n)) := hlog ▸ causal_log hrun
  rw [← hlog] at hlegal honce
  have hclosed := ordersClosed_after hcodec hread hlegal honce
  have hbetween := (reading_of_run (settles_catalogue hcodec hcausal hclosed) hindexing).between
  rw [hcaught] at hbetween
  exact hbetween.arrived

/-- The open orders on file are those that are open on the chain. -/
theorem caught_up_orders : OpenOrders codec data w.directory := by
  have hread : Readable (pallet_events (feed chain 0 n)) := hlog ▸ readable_log hrun
  have hlegal := legal_log hrun
  have hcatalogue := caught_up_catalogue hcodec hrun hlog honce hindexing hcaught
  rw [← hlog] at hlegal honce
  have horders := (showsOrders_iff hcodec hread hlegal).mpr honce _ (List.prefix_refl _)
  rw [← hcatalogue, hlog, directory_of_run hrun] at horders
  exact (openOrders_iff (soundCatalogue_of_run hindexing).orders).mpr horders

end CaughtUp

end Documents

theorem devnet_chain_log : pallet_events (feed devnet_chain 0 6)
    = log ((runtime devnet).trace (genesis fun _ => 1000) devnet_cancelled) := by
  decide

theorem devnet_cancelled_in_time : (runtime devnet).Run Applied.InTime (genesis fun _ => 1000)
    ((runtime devnet).trace (genesis fun _ => 1000) devnet_cancelled)
    ((runtime devnet).final (genesis fun _ => 1000) devnet_cancelled) :=
  Machine.run_trace _ _ (by decide)

theorem order_book_indexed_devnet :
    (∀ before, before <+: feed devnet_chain 0 6 → OpenOrders devnet_codec
        (indexed devnet_codec no_proposals before) (directory (pallet_events before)))
      ↔ ∀ id, (log ((runtime devnet).trace (genesis fun _ => 1000) devnet_cancelled)).countP
        (Event.announces id) ≤ 1 :=
  order_book_indexed_iff no_proposals devnet_codec_hash_injective devnet_cancelled_in_time
    devnet_chain_log

/-- A process that is interrupted within the first block, and then reads all six. -/
def devnet_rounds : List Round := [⟨1, no_proposals, some 1⟩, ⟨6, no_proposals, none⟩]

end Eco2.Indexer
