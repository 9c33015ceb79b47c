/-
What the deals on file say of an order.

A partly filled order is nowhere in the index: the collection of orders has who makes it
and in what, and the collection of deals has what has been dealt. On the chain the two
belong together, `left_amount` being what of `amount` has not been dealt yet. `dealt_log`
says so of the log, with the terms of every deal, and `fills_on_file` carries it over to
the documents: whoever adds up the deals on file of an order that is open knows what is
left of it.
-/
import Eco2.Mirror
import Eco2.Proposals
import Eco2.QueryServer

set_option autoImplicit false

namespace Eco2

open CarbonExchange

variable {AccountId Hash : Type} [DecidableEq AccountId] [DecidableEq Hash]
variable {T : Trait AccountId Hash} {allowed : Applied AccountId Hash → Prop}
  {native : AccountId → ℕ} {tr : List (Applied AccountId Hash)} {w : World AccountId Hash}

/-! ## Deals in the log -/

/-- The events have dealt what is missing of the order, on its terms. -/
structure Dealt (events : List (Event AccountId Hash)) (id : Hash)
    (order : Order AccountId Hash) : Prop where
  amount : (events.map (Event.deal id)).sum + order.left_amount.toNat = order.amount.toNat
  terms : ∀ asset_id money_id maker taker price amount direction now,
    Event.carbonExchange (.NewDeal id asset_id money_id maker taker price amount direction now)
      ∈ events →
    asset_id = order.asset_id ∧ money_id = order.money_id ∧ maker = order.maker
      ∧ price = order.price ∧ direction = order.direction

/-- Events of the exchange are about orders that have been announced. -/
theorem announced_of_order_id (hrun : (runtime T).Run allowed (genesis native) tr w) :
    ∀ e, Event.carbonExchange e ∈ log tr → ∃ e' ∈ log tr, e'.announces e.order_id = true := by
  apply hrun.invariant (I := fun tr _ => ∀ e, Event.carbonExchange e ∈ log tr →
    ∃ e' ∈ log tr, e'.announces e.order_id = true)
  · exact fun e he => absurd he List.not_mem_nil
  intro tr w x hrun ih _ e he
  rw [log_snoc] at he ⊢
  obtain hbefore | hnow := List.mem_append.mp he
  · obtain ⟨e', he', hannounces⟩ := ih e hbefore
    exact ⟨e', List.mem_append_left _ he', hannounces⟩
  -- an order that is in the map has been announced
  have hlisted (hlive : w.Orders.get e.order_id ≠ none) :
      ∃ e' ∈ log tr ++ ((runtime T).fire w x).output.events,
        e'.announces e.order_id = true := by
    have hdirectory : (directory (log tr)).orders e.order_id ≠ none := by
      rw [directory_of_run hrun]
      exact fun hnone => hlive (Option.map_eq_none_iff.mp hnone)
    obtain ⟨e', he', hannounces⟩ := announced_of_listed hdirectory
    exact ⟨e', List.mem_append_left _ he', hannounces⟩
  have hslot := order_step (outcome_of_fire T w x) e.order_id
  change OrderStep T ((runtime T).fire w x) e.order_id (w.Orders.get e.order_id) _ at hslot
  generalize hpre : w.Orders.get e.order_id = slot at hslot hlisted
  generalize ((runtime T).fire w x).post.Orders.get e.order_id = after at hslot
  cases hslot with
  | kept slot hkept => exact absurd rfl (hkept.quiet e hnow)
  | made order hmade =>
    refine ⟨_, List.mem_append_right _ (hmade.events ▸ List.mem_singleton_self _), ?_⟩
    exact decide_eq_true rfl
  | taken => exact hlisted (Option.some_ne_none _)
  | finished => exact hlisted (Option.some_ne_none _)
  | cancelled => exact hlisted (Option.some_ne_none _)

omit [DecidableEq AccountId] in
/-- An event of no order's deal, or of another's, deals nothing. -/
theorem deal_eq_zero {e : Event AccountId Hash} {id : Hash}
    (h : ∀ e', e = .carbonExchange e' → e'.order_id ≠ id) : e.deal id = 0 := by
  unfold Event.deal
  split
  · exact if_neg (h _ rfl)
  · rfl

omit [DecidableEq AccountId] in
/-- An order that has just been made, under an identifier that nothing has been said of. -/
theorem Dealt.made {t : Applied AccountId Hash} {id : Hash} {order : Order AccountId Hash}
    (h : Made T t id order) {events : List (Event AccountId Hash)}
    (hnew : ∀ e, Event.carbonExchange e ∈ events → e.order_id ≠ id) :
    Dealt (events ++ t.output.events) id order := by
  have hzero : (events.map (Event.deal id)).sum = 0 := by
    refine List.sum_eq_zero fun n hn => ?_
    obtain ⟨e, he, rfl⟩ := List.mem_map.mp hn
    exact deal_eq_zero fun e' heq => hnew e' (heq ▸ he)
  rw [h.events]
  constructor
  · rw [List.map_append, List.sum_append, hzero, h.left]
    simp [Event.deal]
  · intro asset_id money_id maker taker price amount direction now he
    obtain hbefore | hnow := List.mem_append.mp he
    · exact absurd rfl (hnew _ hbefore)
    · cases List.mem_singleton.mp hnow

/-- An order that has just been taken. -/
theorem Dealt.taken {t : Applied AccountId Hash} {id : Hash} {order : Order AccountId Hash}
    {taker : AccountId} {amount released : UInt64} (h : Takes t id order taker amount)
    {events : List (Event AccountId Hash)} (hdealt : Dealt events id order) :
    Dealt (events ++ t.output.events) id (order.taken amount released) := by
  have hamount := hdealt.amount
  constructor
  · have hnow : (t.output.events.map (Event.deal id)).sum = amount.toNat := h.dealt_eq
    have hleft := U64.toNat_sub_add_of_le h.left
    change _ + (order.left_amount - amount).toNat = order.amount.toNat
    rw [List.map_append, List.sum_append, hnow]
    omega
  · intro asset_id money_id maker taker' price amount' direction now he
    obtain hbefore | hnow := List.mem_append.mp he
    · exact hdealt.terms asset_id money_id maker taker' price amount' direction now hbefore
    · rw [h.events] at hnow
      obtain ⟨e, he', heq⟩ := List.mem_map.mp hnow
      cases heq
      unfold take_events at he'
      split at he'
      · cases List.mem_singleton.mp he'
        exact ⟨rfl, rfl, rfl, rfl, rfl⟩
      · obtain hfinished | hdeal := List.mem_cons.mp he'
        · cases hfinished
        · cases List.mem_singleton.mp hdeal
          exact ⟨rfl, rfl, rfl, rfl, rfl⟩

/-- Where no order is announced twice, the deals in the log of an order that is open are
what is missing of it. -/
theorem dealt_log (hrun : (runtime T).Run allowed (genesis native) tr w)
    (honce : ∀ id, (log tr).countP (Event.announces id) ≤ 1) :
    ∀ id order, w.Orders.get id = some order → Dealt (log tr) id order := by
  revert honce
  apply hrun.invariant (I := fun tr w => (∀ id, (log tr).countP (Event.announces id) ≤ 1) →
    ∀ id order, w.Orders.get id = some order → Dealt (log tr) id order)
  · intro _ id order horder
    cases horder
  intro tr w x hrun ih _ honce id order horder
  rw [log_snoc] at honce ⊢
  have hbefore (id : Hash) : (log tr).countP (Event.announces id) ≤ 1 := by
    have hle := honce id
    rw [List.countP_append] at hle
    omega
  obtain ⟨hold, hkept⟩ | ⟨-, hmade⟩ | ⟨old, taker, amount, hold, htakes, -, rfl⟩ :=
    order_origin (outcome_of_fire T w x) horder
  · have hdealt := ih hbefore id order hold
    constructor
    · have hquiet := hkept.quiet.dealt_eq
      unfold Applied.dealt at hquiet
      rw [List.map_append, List.sum_append, hquiet, Nat.add_zero]
      exact hdealt.amount
    · intro asset_id money_id maker taker price amount direction now he
      obtain hbefore | hnow := List.mem_append.mp he
      · exact hdealt.terms asset_id money_id maker taker price amount direction now hbefore
      · exact absurd rfl (hkept.quiet _ hnow)
  · refine .made hmade fun e he heq => ?_
    -- the order has been announced before, and now it is announced again
    obtain ⟨e', he', hannounces⟩ := announced_of_order_id hrun e he
    have hfirst : 0 < (log tr).countP (Event.announces id) :=
      List.countP_pos_iff.mpr ⟨e', he', heq ▸ hannounces⟩
    have hsecond : 0 < ((runtime T).fire w x).output.events.countP (Event.announces id) := by
      refine List.countP_pos_iff.mpr ⟨_, hmade.events ▸ List.mem_singleton_self _, ?_⟩
      exact decide_eq_true rfl
    have hle := honce id
    rw [List.countP_append] at hle
    omega
  · exact .taken htakes (ih hbefore id old hold)

end Eco2

namespace Eco2.Indexer

variable {AccountId Hash : Type} {codec : Codec AccountId Hash}

/-! ## Deals on file -/

/-- The amount of a deal that is on file, as a number. -/
def DealDoc.units (doc : DealDoc) : ℤ := (parseInt doc.amount).getD 0

/-- What has been dealt of an order, of all that is on file. -/
def filled (docs : List DealDoc) (orderId : String) : ℤ :=
  (docs.map fun doc => if doc.orderId = orderId then doc.units else 0).sum

theorem filled_perm {docs docs' : List DealDoc} (h : docs.Perm docs') (orderId : String) :
    filled docs orderId = filled docs' orderId :=
  (h.map _).sum_eq

/-- The symbol of a deal's asset does not matter. -/
theorem filled_with_symbol (docs : List DealDoc) (orderId : String) :
    filled (docs.map (DealDoc.with_symbol · "")) orderId = filled docs orderId := by
  unfold filled
  rw [List.map_map]
  rfl

/-- The document of an event's deal counts as the event does. -/
theorem filled_toList_deal_of [DecidableEq Hash] (hcodec : Function.Injective codec.hash)
    (id : Hash) (e : Entry AccountId Hash) :
    filled (deal_of codec e).toList (codec.hash id)
      = ((pallet_event e).toList.map (Event.deal id)).sum := by
  obtain ⟨height, record⟩ := e
  cases record with
  | pallet event =>
    cases event with
    | carbonExchange event =>
      cases event with
      | NewDeal order_id asset_id money_id maker taker price amount direction now =>
        have hunits : parseInt (toString amount) = some (amount.toNat : ℤ) :=
          parseInt_toString amount.toNat
        change (if codec.hash order_id = codec.hash id then (parseInt (toString amount)).getD 0
          else 0) + 0 = ((((if order_id = id then amount.toNat else 0) + 0 : ℕ)) : ℤ)
        rw [hunits]
        by_cases hid : order_id = id
        · rw [if_pos (congrArg codec.hash hid), if_pos hid]
          rfl
        · rw [if_neg fun heq => hid (hcodec heq), if_neg hid]
          rfl
      | _ => rfl
    | _ => rfl
  | _ => rfl

/-- The deals of the log, as documents. -/
theorem filled_deal_of [DecidableEq Hash] (hcodec : Function.Injective codec.hash) (id : Hash)
    (es : List (Entry AccountId Hash)) :
    filled (es.filterMap (deal_of codec)) (codec.hash id)
      = ((pallet_events es).map (Event.deal id)).sum := by
  induction es with
  | nil => rfl
  | cons e es ih =>
    have hdeals : (e :: es).filterMap (deal_of codec)
        = (deal_of codec e).toList ++ es.filterMap (deal_of codec) := by
      rw [List.filterMap_cons]
      cases deal_of codec e <;> rfl
    have hevents : pallet_events (e :: es) = (pallet_event e).toList ++ pallet_events es := by
      unfold pallet_events
      rw [List.filterMap_cons]
      cases pallet_event e <;> rfl
    have hhead := filled_toList_deal_of hcodec id e
    unfold filled at hhead ih ⊢
    rw [hdeals, hevents, List.map_append, List.sum_append, hhead, ih, List.map_append,
      List.sum_append]
    exact (Nat.cast_add _ _).symm

/-- The deal of an entry. -/
theorem deal_of_eq_some {e : Entry AccountId Hash} {doc : DealDoc}
    (h : deal_of codec e = some doc) : ∃ order_id asset_id money_id maker taker price amount
      direction now, pallet_event e = some (.carbonExchange
          (.NewDeal order_id asset_id money_id maker taker price amount direction now))
        ∧ doc = deal_doc codec order_id asset_id money_id maker taker price amount direction
          now.toNat e.1 "" := by
  unfold deal_of at h
  split at h
  · cases h
    exact ⟨_, _, _, _, _, _, _, _, _, rfl, rfl⟩
  · cases h

/-- The deals in a log that can be read can be indexed. -/
theorem Readable.indexable [DecidableEq AccountId] [DecidableEq Hash]
    {es : List (Entry AccountId Hash)} (h : Readable (pallet_events es)) : Indexable codec es := by
  rintro before e after rfl doc hdoc
  obtain ⟨order_id, asset_id, money_id, maker, taker, price, amount, direction, now, hevent, rfl⟩ :=
    deal_of_eq_some hdoc
  have hevents := pallet_events_split before after hevent
  have he : e ∈ before ++ e :: after := List.mem_append_right before List.mem_cons_self
  have hmem := List.mem_filterMap.mpr ⟨e, he, hevent⟩
  refine ⟨h.time _ hmem now rfl, ?_⟩
  -- the asset of the deal has been announced, and its announcement can be read
  obtain ⟨e', he', hsubmits⟩ := (h.grounded _ _ _ hevents).asset asset_id rfl
  obtain ⟨project_id, symbol, vintage, owner, now', rfl⟩ := submits_asset_iff hsubmits
  obtain ⟨⟨height, record⟩, ha, hrecord⟩ := List.mem_filterMap.mp he'
  have htime : now'.toNat < 2 ^ 53 :=
    h.time _ (by rw [hevents]; exact List.mem_append_left _ he') now' rfl
  refine ⟨⟨height, record⟩, ha, ?_⟩
  cases record with
  | pallet event =>
    cases hrecord
    exact ⟨_, if_pos htime⟩
  | _ => cases hrecord

variable [DecidableEq AccountId] [DecidableEq Hash] {T : Trait AccountId Hash}
  {chain : ℕ → List (Record AccountId Hash)} {n : ℕ} {native : AccountId → ℕ}
  {log_tr : List (Applied AccountId Hash)} {w : World AccountId Hash}
  {tr : List (Transition Data Round (List Operation))} {data : Data}

/-- What is on file of an order that is open: deals of all that is missing of it, at its
price, with its maker. -/
structure FilledOnFile (codec : Codec AccountId Hash) (data : Data) (id : Hash)
    (order : CarbonExchange.Order AccountId Hash) : Prop where
  amount : filled data.deals (codec.hash id) + order.left_amount.toNat = order.amount.toNat
  terms : ∀ doc ∈ data.deals, doc.orderId = codec.hash id →
    doc.maker = codec.account order.maker ∧ doc.assetId = codec.hash order.asset_id
      ∧ doc.price = toString order.price ∧ doc.direction = 1 - (order.direction.toNat : ℤ)

/-- **The deals on file add up.** A process has caught up with a run of the chain whose times
fit its numbers, in rounds during which no new head arrives, and no crash of it has come
between a deal and the block number; and no order is announced twice.
Then, for every order that is open on the chain, what has been dealt of it according to
the deals on file is what is missing of it, and all of these deals are on its terms. -/
theorem fills_on_file (hcodec : Function.Injective codec.hash)
    (hrun : (runtime T).Run Applied.InTime (genesis native) log_tr w)
    (hlog : pallet_events (feed chain 0 n) = log log_tr)
    (honce : ∀ id, (log log_tr).countP (Event.announces id) ≤ 1)
    (hindexing : (indexing codec chain).Run (UpTo n) .empty tr data)
    (hclean : ∀ t ∈ tr, CrashesBeforeDeals t) (hcaught : data.lastBlockNumberFile = n) :
    ∀ id order, w.Orders.get id = some order → FilledOnFile codec data id order := by
  intro id order horder
  have hdealt := dealt_log hrun honce id order horder
  have hread : Readable (pallet_events (feed chain 0 n)) := hlog ▸ readable_log hrun
  -- the documents of the deals are those of the log, but for the symbols
  have hindexable : Indexable codec (feed chain 0 n) := hread.indexable
  obtain ⟨hdeals, -⟩ := (recovering_of_run hindexing).clean hindexable hclean
  have hfree := (recovered_crash_free no_proposals hindexable).deals
  rw [hcaught] at hdeals
  rw [(crash_free_deals codec no_proposals chain n).1, ← hdeals] at hfree
  constructor
  · have hunits := congrArg (fun k : ℕ => (k : ℤ)) hdealt.amount
    rw [← filled_with_symbol, filled_perm hfree, filled_deal_of hcodec id, hlog]
    exact hunits
  · intro doc hdoc hid
    have hmem := hfree.subset (List.mem_map_of_mem hdoc)
    obtain ⟨e, he, hdeal⟩ := List.mem_filterMap.mp hmem
    obtain ⟨order_id, asset_id, money_id, maker, taker, price, amount, direction, now, hevent,
      hshown⟩ := deal_of_eq_some hdeal
    have hlogged := List.mem_filterMap.mpr ⟨e, he, hevent⟩
    change _ ∈ pallet_events (feed chain 0 n) at hlogged
    rw [hlog] at hlogged
    obtain rfl : order_id = id :=
      hcodec ((congrArg DealDoc.orderId hshown).symm.trans hid)
    obtain ⟨rfl, -, rfl, rfl, rfl⟩ := hdealt.terms _ _ _ _ _ _ _ _ hlogged
    exact ⟨congrArg DealDoc.maker hshown, congrArg DealDoc.assetId hshown,
      congrArg DealDoc.price hshown, congrArg DealDoc.direction hshown⟩

/-- The events of an order of three units on the executable chain, one of which is taken. -/
def devnet_filling_chain : ℕ → List (Record ℕ (List ℕ))
  | 6 => [.pallet (.carbonExchange (.NewDeal devnet_ask devnet_asset [] 1 2 200 1 0 0))]
  | i => devnet_chain i

theorem devnet_partial_fill_log : pallet_events (feed devnet_filling_chain 0 6)
    = log ((runtime devnet).trace (genesis fun _ => 1000) devnet_partial_fill) := by
  decide

theorem devnet_partial_fill_in_time : (runtime devnet).Run Applied.InTime (genesis fun _ => 1000)
    ((runtime devnet).trace (genesis fun _ => 1000) devnet_partial_fill)
    ((runtime devnet).final (genesis fun _ => 1000) devnet_partial_fill) :=
  Machine.run_trace _ _ (by decide)

theorem devnet_partial_fill_once (id : List ℕ) :
    (log ((runtime devnet).trace (genesis fun _ => 1000) devnet_partial_fill)).countP
      (Event.announces id) ≤ 1 := by
  rw [← devnet_partial_fill_log]
  change ([false, false, false, false, decide (devnet_ask = id), false].countP fun b => b) ≤ 1
  cases decide (devnet_ask = id) <;> decide

omit [DecidableEq AccountId] [DecidableEq Hash] in
/-- A round that does not crash saves its block number. -/
theorem crashesBeforeDeals_of_none (data : Data) (head : ℕ) (api : Api) :
    CrashesBeforeDeals ((indexing codec chain).fire data ⟨head, api, none⟩) := by
  intro hsave
  refine absurd ?_ hsave
  change _ ∈ (catch_up codec api chain data.lastBlockNumberFile head).labels data
  rw [catch_up_labels]
  exact List.mem_append_right _ (List.mem_singleton.mpr rfl)

theorem devnet_filling_clean :
    ∀ t ∈ (indexing devnet_codec devnet_filling_chain).trace .empty devnet_rounds,
      CrashesBeforeDeals t := by
  intro t ht
  obtain rfl | ht := List.mem_cons.mp ht
  · intro _
    decide
  · obtain rfl := List.mem_singleton.mp ht
    exact crashesBeforeDeals_of_none _ 6 no_proposals

theorem devnet_filling_caught_up (data : Data) :
    ((indexing devnet_codec devnet_filling_chain).fire data
      ⟨6, no_proposals, none⟩).post.lastBlockNumberFile = 6 :=
  congrArg DealIndex.lastBlockNumberFile (catch_up_index no_proposals _ 6 data)

theorem fills_on_file_devnet : FilledOnFile devnet_codec
    ((indexing devnet_codec devnet_filling_chain).final .empty devnet_rounds) devnet_ask
    { asset_id := devnet_asset, money_id := [], maker := 1, amount := 3, price := 200,
      left_amount := 2, direction := 0, locked_balance := 0, salt := 0 } :=
  fills_on_file devnet_codec_hash_injective devnet_partial_fill_in_time devnet_partial_fill_log
    devnet_partial_fill_once (Machine.run_trace Data.empty devnet_rounds (by decide))
    devnet_filling_clean (devnet_filling_caught_up _) devnet_ask _ (by decide)

end Eco2.Indexer
