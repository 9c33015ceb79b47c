/-
What the query server shows of the order book.

A client that asks for open orders, page by page, looks at the chain through three layers:
the log, which the indexer reads and, after a crash, reads again; the collection of
orders; and the pages of the server. `open_orders_served` goes through all of them: what
such a client of a process that has caught up is shown are the orders that are open on the
chain and that it has asked for, each once, by the times at which they were made, and the
count that comes with each page is their number.
-/
import Eco2.Mirror
import Eco2.QueryServer

set_option autoImplicit false

namespace Eco2.Indexer

variable {AccountId Hash : Type} {codec : Codec AccountId Hash}
  {chain : ℕ → List (Record AccountId Hash)}

/-! ## Orders on file -/

/-- What is on file as an order has the identifier of one. -/
theorem printed_order_of_run {allowed : Transition Data Round (List Operation) → Prop}
    {tr : List (Transition Data Round (List Operation))} {data : Data}
    (hrun : (indexing codec chain).Run allowed .empty tr data) :
    ∀ doc ∈ data.orders, ∃ id, doc.orderId = codec.hash id := by
  have hkeeps (api : Api) (height : ℕ) (record : Record AccountId Hash) :
      (process_event codec api height record).Always
        (orders.Keeps (Sound OrderDoc.orderId fun doc => ∃ id, doc.orderId = codec.hash id)) := by
    refine process_event_orders codec api height (fun hnames hp => ?_)
      (fun order_id doc hid _ => ?_) (fun _ => ?_) record
    · exact reads_orders.keeps_of_within hp hnames
    · exact reads_orders.keeps_insertAsync keyed_orders ⟨order_id, hid⟩
    · exact reads_orders.keeps_updateAsync _ (fun _ => rfl) fun _ hdoc => hdoc
  exact (reads_orders.sound_of_run hkeeps hrun).proper

/-! ## Requests for open orders -/

/-- The request asks for orders of this owner and direction, or does not mind. -/
def Query.wants_order (query : Query) (owner : String) (direction : ℕ) : Bool :=
  wants (query.given "owner") owner && wants (query.number "direction" 0) (direction : ℤ)

/-- The request asks for the order. -/
def Query.asks (query : Query) (codec : Codec AccountId Hash)
    (order : CarbonExchange.Order AccountId Hash) : Bool :=
  query.wants_order (codec.account order.maker) order.direction.toNat

/-- The orders that are open on the chain and that the request asks for. -/
def asked_orders (codec : Codec AccountId Hash) (query : Query) (w : World AccountId Hash) :
    Finset Hash :=
  w.Orders.keys.filter fun id => (w.Orders.get id).any (query.asks codec)

theorem mem_asked_orders {query : Query} {w : World AccountId Hash} {id : Hash} :
    id ∈ asked_orders codec query w
      ↔ ∃ order, w.Orders.get id = some order ∧ query.asks codec order = true := by
  unfold asked_orders
  rw [Finset.mem_filter, w.Orders.mem_keys]
  cases w.Orders.get id <;> simp

variable {query : Query} (hclosed : query "closed" = some "0")

include hclosed in
theorem number_closed : query.number "closed" 0 = some 0 := by
  have hgiven : query.given "closed" = some "0" := by
    unfold Query.given
    rw [hclosed]
    decide
  have hparse : parseInt "0" = some 0 := parseInt_toString 0
  unfold Query.number parseIntOr
  rw [hgiven, Option.map_some, Option.bind_some, hparse]
  rfl

include hclosed in
/-- Of the orders on file those are shown that are open, and that the request wants. -/
theorem carbon_orders_filter (doc : OrderDoc) :
    carbon_orders.filter query doc = true
      ↔ doc.closed = 0 ∧ query.wants_order doc.owner doc.direction = true := by
  change (wants (query.given "owner") doc.owner && wants (query.number "closed" 0) (doc.closed : ℤ)
    && wants (query.number "direction" 0) (doc.direction : ℤ)) = true ↔ _
  unfold Query.wants_order
  rw [number_closed hclosed]
  simp only [wants, Option.all_some, Bool.and_eq_true, beq_iff_eq, Int.natCast_eq_zero]
  tauto

/-- What is shown of an order tells whether it is asked for. -/
theorem asks_eq {doc : OrderDoc} {order : CarbonExchange.Order AccountId Hash}
    (hdoc : doc.shown = codec.order order.entry) :
    query.wants_order doc.owner doc.direction = query.asks codec order := by
  have howner : doc.owner = codec.account order.maker := congrArg Prod.fst hdoc
  have hdirection : doc.direction = order.direction.toNat :=
    congrArg (fun shown => shown.2.2.2) hdoc
  unfold Query.asks
  rw [howner, hdirection]

/-! ## The orders that are served -/

section Served

variable {w : World AccountId Hash} {data : Data}

/-- The documents show the orders that are open on the chain and asked for: each of them
once, nothing else, and by their timestamps. -/
structure Served (codec : Codec AccountId Hash) (query : Query) (w : World AccountId Hash)
    (docs : List OrderDoc) : Prop where
  once : (docs.map OrderDoc.orderId).Nodup
  orders : ∀ key x, (∃ doc ∈ docs, doc.orderId = key ∧ doc.shown = x)
    ↔ ∃ id order, w.Orders.get id = some order ∧ query.asks codec order = true
      ∧ key = codec.hash id ∧ x = codec.order order.entry
  sorted : docs.Pairwise fun a b =>
    sort_direction query * a.timestamp ≤ sort_direction query * b.timestamp

variable (horders : OpenOrders codec data w.directory)
  (hprinted : ∀ doc ∈ data.orders, ∃ id, doc.orderId = codec.hash id)

include hclosed horders hprinted

/-- The orders on file that match the request are the chain's that it asks for. -/
theorem matching_orders (key : String) (x : String × String × String × ℕ) :
    (∃ doc ∈ data.orders.filter (carbon_orders.filter query), doc.orderId = key ∧ doc.shown = x)
      ↔ ∃ id order, w.Orders.get id = some order ∧ query.asks codec order = true
        ∧ key = codec.hash id ∧ x = codec.order order.entry := by
  constructor
  · rintro ⟨doc, hdoc, rfl, rfl⟩
    obtain ⟨hmem, hfilter⟩ := List.mem_filter.mp hdoc
    obtain ⟨hopen, hwants⟩ := (carbon_orders_filter hclosed doc).mp hfilter
    obtain ⟨id, hid⟩ := hprinted doc hmem
    obtain ⟨entry, hentry, hshown⟩ := (horders id doc.shown).mp ⟨doc, hmem, hid, hopen, rfl⟩
    obtain ⟨order, horder, rfl⟩ := Option.map_eq_some_iff.mp hentry
    rw [asks_eq hshown.symm] at hwants
    exact ⟨id, order, horder, hwants, hid, hshown.symm⟩
  · rintro ⟨id, order, horder, hasks, rfl, rfl⟩
    have hentry : w.directory.orders id = some order.entry :=
      congrArg (Option.map CarbonExchange.Order.entry) horder
    obtain ⟨doc, hmem, hid, hopen, hshown⟩ :=
      (horders id (codec.order order.entry)).mpr ⟨order.entry, hentry, rfl⟩
    have hfilter : carbon_orders.filter query doc = true :=
      (carbon_orders_filter hclosed doc).mpr ⟨hopen, (asks_eq hshown).trans hasks⟩
    exact ⟨doc, List.mem_filter.mpr ⟨hmem, hfilter⟩, hid, hshown⟩

/-- So many orders match as there are on the chain. -/
theorem length_matching_orders (hcodec : Function.Injective codec.hash)
    (hsound : SoundOrders data.orders) :
    (data.orders.filter (carbon_orders.filter query)).length
      = (asked_orders codec query w).card := by
  have hnodup : ((data.orders.filter (carbon_orders.filter query)).map OrderDoc.orderId).Nodup :=
    hsound.unique.sublist (List.filter_sublist.map _)
  have hkeys : ((data.orders.filter (carbon_orders.filter query)).map OrderDoc.orderId).toFinset
      = (asked_orders codec query w).image codec.hash := by
    ext key
    simp only [List.mem_toFinset, List.mem_map, Finset.mem_image]
    constructor
    · rintro ⟨doc, hdoc, rfl⟩
      obtain ⟨id, order, horder, hasks, hid, -⟩ :=
        (matching_orders hclosed horders hprinted _ _).mp ⟨doc, hdoc, rfl, rfl⟩
      exact ⟨id, mem_asked_orders.mpr ⟨order, horder, hasks⟩, hid.symm⟩
    · rintro ⟨id, hid, rfl⟩
      obtain ⟨order, horder, hasks⟩ := mem_asked_orders.mp hid
      obtain ⟨doc, hdoc, hkey, -⟩ := (matching_orders hclosed horders hprinted _ _).mpr
        ⟨id, order, horder, hasks, rfl, rfl⟩
      exact ⟨doc, hdoc, hkey⟩
  rw [← List.length_map (f := OrderDoc.orderId), ← List.toFinset_card_of_nodup hnodup, hkeys]
  exact Finset.card_image_of_injective _ hcodec

end Served

section CaughtUp

variable [DecidableEq AccountId] [DecidableEq Hash] {T : Trait AccountId Hash} {n : ℕ}
  {native : AccountId → ℕ} {log_tr : List (Applied AccountId Hash)} {w : World AccountId Hash}
  {tr : List (Transition Data Round (List Operation))} {data : Data} {cursor : Cursor}

/-- **What a client is shown of the order book.** A process has caught up with a run of the
chain whose times fit its numbers, after any crashes, in rounds during which no new head
arrives; and no order is announced twice. Whoever asks it for open orders
is told how many the chain has of those asked for, and is shown each of them once by as
many pages as the count makes necessary, whatever their size. -/
theorem open_orders_served (hcursor : cursor.Documented) (hcodec : Function.Injective codec.hash)
    (hrun : (runtime T).Run Applied.InTime (genesis native) log_tr w)
    (hlog : pallet_events (feed chain 0 n) = log log_tr)
    (honce : ∀ id, (log log_tr).countP (Event.announces id) ≤ 1)
    (hindexing : (indexing codec chain).Run (UpTo n) .empty tr data)
    (hcaught : data.lastBlockNumberFile = n) (hclosed : query "closed" = some "0") :
    (findWithComplexCondition cursor carbon_orders query data data).count
        = (asked_orders codec query w).card
      ∧ ∀ limit pages : ℕ, 0 < limit → (asked_orders codec query w).card ≤ pages * limit →
        Served codec query w (carbon_orders.pages cursor query limit pages data) := by
  have horders := caught_up_orders hcodec hrun hlog honce hindexing hcaught
  have hprinted := printed_order_of_run hindexing
  have hsound := (soundCatalogue_of_run hindexing).orders
  have hcount : (findWithComplexCondition cursor carbon_orders query data data).count
      = (asked_orders codec query w).card := by
    rw [count_eq]
    exact length_matching_orders hclosed horders hprinted hcodec hsound
  refine ⟨hcount, fun limit pages hlimit hpages => ?_⟩
  obtain ⟨sorted, hperm, hsorted, htile⟩ := pages_tile hcursor carbon_orders query data
  rw [(htile limit pages hlimit).2 (hcount.trans_le hpages)]
  refine ⟨?_, fun key x => ?_, hsorted⟩
  · refine (hperm.map OrderDoc.orderId).nodup_iff.mpr ?_
    exact hsound.unique.sublist (List.filter_sublist.map _)
  · rw [← matching_orders hclosed horders hprinted]
    refine exists_congr fun doc => and_congr_left fun _ => ?_
    exact hperm.mem_iff

end CaughtUp

/-- An ask order of the executable chain, which stays open. -/
def devnet_offered : List (Extrinsic ℕ (List ℕ)) :=
  devnet_opening ++ [⟨.signed 1, 0, .carbonExchange (.make_order devnet_asset [] 200 3 0 0)⟩]

theorem devnet_offered_log : pallet_events (feed devnet_chain 0 5)
    = log ((runtime devnet).trace (genesis fun _ => 1000) devnet_offered) := by
  decide

theorem devnet_offered_in_time : (runtime devnet).Run Applied.InTime (genesis fun _ => 1000)
    ((runtime devnet).trace (genesis fun _ => 1000) devnet_offered)
    ((runtime devnet).final (genesis fun _ => 1000) devnet_offered) :=
  Machine.run_trace _ _ (by decide)

theorem devnet_offered_once (id : List ℕ) :
    (log ((runtime devnet).trace (genesis fun _ => 1000) devnet_offered)).countP
      (Event.announces id) ≤ 1 := by
  rw [← devnet_offered_log]
  change ([false, false, false, false, decide (devnet_ask = id)].countP fun b => b) ≤ 1
  cases decide (devnet_ask = id) <;> decide

/-- A process that is interrupted within the first block, and then reads all five. -/
def devnet_offered_rounds : List Round := [⟨1, no_proposals, some 1⟩, ⟨5, no_proposals, none⟩]

theorem devnet_offered_caught_up (data : Data) : ((indexing devnet_codec devnet_chain).fire data
    ⟨5, no_proposals, none⟩).post.lastBlockNumberFile = 5 :=
  congrArg DealIndex.lastBlockNumberFile (catch_up_index no_proposals _ 5 data)

/-- A request for the open orders of the account `1`, in two pages of one order. -/
def devnet_query : Query := fun name =>
  if name = "closed" then some "0"
  else if name = "owner" then some (devnet_codec.account 1)
  else none

theorem open_orders_served_devnet :
    (findWithComplexCondition sorting_cursor carbon_orders devnet_query
          ((indexing devnet_codec devnet_chain).final .empty devnet_offered_rounds)
          ((indexing devnet_codec devnet_chain).final .empty devnet_offered_rounds)).count
        = (asked_orders devnet_codec devnet_query
          ((runtime devnet).final (genesis fun _ => 1000) devnet_offered)).card
      ∧ ∀ limit pages : ℕ, 0 < limit → (asked_orders devnet_codec devnet_query
            ((runtime devnet).final (genesis fun _ => 1000) devnet_offered)).card ≤ pages * limit →
        Served devnet_codec devnet_query
          ((runtime devnet).final (genesis fun _ => 1000) devnet_offered)
          (carbon_orders.pages sorting_cursor devnet_query limit pages
            ((indexing devnet_codec devnet_chain).final .empty devnet_offered_rounds)) :=
  open_orders_served documented_sorting_cursor devnet_codec_hash_injective devnet_offered_in_time
    devnet_offered_log devnet_offered_once
    (Machine.run_trace Data.empty devnet_offered_rounds (by decide))
    (devnet_offered_caught_up _) rfl

end Eco2.Indexer
