/-
Crashes of the indexer, and what they do to the catalogue.

After a crash a range of blocks is read again by a process that has seen some of it, and
maybe all. For the catalogue this is harmless almost always: rows are refused where they
are already, and flags are put on where they will be in any case, since on the chain an
approval and an order come after the submission they speak of. The one exception is the
closing of an order whose identifier is used again. `catalogue_recovered_iff` says that
it is the only one: the catalogue comes out of any crashes as without them exactly if no
order is on file as open whose closing has been read.
-/
import Eco2.Documents

set_option autoImplicit false
set_option linter.unusedSectionVars false

/-! ## The order of submissions in the log -/

namespace Eco2

open CarbonAssets

variable {AccountId Hash : Type}

/-- The project or asset that an event takes to have been submitted. -/
def Event.mentions : Event AccountId Hash → Option (RequestKind × Hash)
  | .carbonAssets (.ProjectApproved project_id) => some (.project, project_id)
  | .carbonAssets (.AssetApproved asset_id) => some (.asset, asset_id)
  | .carbonExchange (.NewOrder _ _ asset_id _ _ _) => some (.asset, asset_id)
  | _ => none

/-- Nothing is submitted after it has been mentioned. -/
def Causal (events : List (Event AccountId Hash)) : Prop :=
  events.Pairwise fun e e' => ∀ r, e.mentions = some r → e'.submits ≠ some r

theorem kind_of_mentions {e : Event AccountId Hash} {k : RequestKind} {id : Hash}
    (h : e.mentions = some (k, id)) : k ≠ .burn := by
  unfold Event.mentions at h
  split at h <;> cases h <;> exact nofun

theorem not_submits_of_mentions {e : Event AccountId Hash} {r : RequestKind × Hash}
    (h : e.mentions = some r) : e.submits = none := by
  unfold Event.mentions at h
  split at h <;> first | rfl | cases h

variable [DecidableEq AccountId] [DecidableEq Hash] {T : Trait AccountId Hash}

theorem CarbonAssets.Step.status_of_mentions {origin : Origin AccountId} {now : Moment}
    {s s' : Storage AccountId Hash} {call : CarbonAssets.Call AccountId Hash}
    {events : List (CarbonAssets.Event AccountId Hash)} {ops : List (Op AccountId Hash)}
    (h : Step T origin now s call s' events ops) {e : CarbonAssets.Event AccountId Hash}
    (he : e ∈ events) {k : RequestKind} {id : Hash}
    (hmentions : (Event.carbonAssets e).mentions = some (k, id)) : s.status k id ≠ none := by
  cases h with
  | approve_project project_id project horigin hproject =>
    cases List.mem_singleton.mp he
    cases hmentions
    exact status_ne_none _ hproject
  | approve_asset asset_id asset project horigin hasset =>
    cases List.mem_singleton.mp he
    cases hmentions
    exact status_ne_none _ hasset
  | _ =>
    cases List.mem_singleton.mp he
    cases hmentions

/-- What an event mentions is on the chain. -/
theorem Outcome.status_of_mentions {t : Applied AccountId Hash} (h : Outcome T t)
    (hreg : Registered t.pre) {e : Event AccountId Hash} (he : e ∈ t.output.events)
    {k : RequestKind} {id : Hash} (hmentions : e.mentions = some (k, id)) :
    t.pre.carbon.status k id ≠ none := by
  have hknown := h.known hreg e he
  cases e with
  | carbonAssets e =>
    cases h.records with
    | other hother hquiet => exact absurd he (hquiet e)
    | call call events hok hcall hevents hstep =>
      rw [hevents] at he
      obtain ⟨e', he', heq⟩ := List.mem_map.mp he
      cases heq
      exact hstep.status_of_mentions he' hmentions
  | carbonExchange e =>
    cases e <;> cases hmentions
    exact hknown.asset _ rfl
  | standardAssets e => cases hmentions

/-- A transition that submits deposits nothing else. -/
theorem Outcome.causal {t : Applied AccountId Hash} (h : Outcome T t) : Causal t.output.events := by
  have hquiet (hnone : ∀ e ∈ t.output.events, e.submits = none) : Causal t.output.events :=
    List.pairwise_of_forall_mem_list fun e _ e' he' r _ => by
      rw [hnone e' he']
      exact nofun
  cases h.records with
  | other hother hcarbon =>
    refine hquiet fun e he => ?_
    cases e with
    | carbonAssets e => exact absurd he (hcarbon e)
    | carbonExchange e => rfl
    | standardAssets e => rfl
  | call call events hok hcall hevents hstep =>
    obtain ⟨e, rfl, -⟩ := hstep.submits
    rw [hevents]
    exact List.pairwise_singleton _ _

section Run

variable {allowed : Applied AccountId Hash → Prop} {native : AccountId → ℕ}
  {tr : List (Applied AccountId Hash)} {w : World AccountId Hash}

/-- What is on the chain stays there. -/
theorem Outcome.status_ne_none {t : Applied AccountId Hash} (h : Outcome T t) {k : RequestKind}
    {id : Hash} (hpre : t.pre.carbon.status k id ≠ none) :
    t.post.carbon.status k id ≠ none := by
  have hslot := request_step h k id
  generalize t.pre.carbon.status k id = before at hslot hpre
  generalize t.post.carbon.status k id = after at hslot ⊢
  cases hslot with
  | kept => exact hpre
  | submitted => exact Option.some_ne_none 0
  | approved => exact Option.some_ne_none 1

/-- The log of a run is causal: no project and no asset is submitted after an event
that takes it to have been submitted. -/
theorem causal_log (hrun : (runtime T).Run allowed (genesis native) tr w) : Causal (log tr) := by
  have hmentioned : Causal (log tr) ∧ ∀ e ∈ log tr, ∀ k id, e.mentions = some (k, id) →
      w.carbon.status k id ≠ none := by
    apply hrun.invariant (I := fun tr w => Causal (log tr) ∧ ∀ e ∈ log tr, ∀ k id,
      e.mentions = some (k, id) → w.carbon.status k id ≠ none)
    · exact ⟨.nil, List.forall_mem_nil _⟩
    intro tr w x hrun ⟨hcausal, hstatus⟩ _
    have h := outcome_of_fire T w x
    rw [log_snoc]
    constructor
    · refine List.pairwise_append.mpr ⟨hcausal, h.causal, ?_⟩
      rintro e he e' he' ⟨k, id⟩ hmentions hsubmits
      -- a submission finds nothing on the chain
      have hsub := (announced_iff_submits h).mp ⟨e', he', hsubmits⟩
      exact hstatus e he k id hmentions (hsub.fresh h (kind_of_mentions hmentions))
    · refine List.forall_mem_append.mpr ⟨?_, ?_⟩ <;> intro e he k id hmentions
      · exact h.status_ne_none (hstatus e he k id hmentions)
      · exact h.status_ne_none (h.status_of_mentions (Registered.run hrun) he hmentions)
  exact hmentioned.1

end Run

end Eco2

namespace Eco2.Indexer

open CarbonAssets

variable {AccountId Hash : Type} (codec : Codec AccountId Hash)

/-! ## Rows and what was submitted -/

/-- The catalogue after events, from nothing. -/
abbrev Catalogue.after (es : List (Entry AccountId Hash)) : Catalogue :=
  Replay.state (Catalogue.handle codec) Data.empty.catalogue es

section Rows

variable {codec} {es all before after : List (Entry AccountId Hash)} {e : Entry AccountId Hash}

theorem after_snoc (es : List (Entry AccountId Hash)) (e : Entry AccountId Hash) :
    Catalogue.after codec (es ++ [e]) = (Catalogue.after codec es).handle codec e :=
  Replay.state_snoc es e

theorem projects_after (es : List (Entry AccountId Hash)) :
    (Catalogue.after codec es).projects.rows = FirstWrite.entries (project_row codec) es := by
  induction es using List.reverseRecOn with
  | nil => rfl
  | append_singleton es e ih =>
    rw [after_snoc, FirstWrite.entries_snoc, ← ih]
    rfl

theorem assets_after (es : List (Entry AccountId Hash)) :
    (Catalogue.after codec es).assets.rows = FirstWrite.entries (asset_row codec) es := by
  induction es using List.reverseRecOn with
  | nil => rfl
  | append_singleton es e ih =>
    rw [after_snoc, FirstWrite.entries_snoc, ← ih]
    rfl

theorem submits_of_project_row {key : String} {doc : CarbonProjectDoc}
    (h : project_row codec e = some (key, doc)) :
    ∃ event id, pallet_event e = some event ∧ event.submits = some (.project, id)
      ∧ key = codec.hash id := by
  unfold project_row at h
  split at h
  · rename_i height project_id owner symbol now
    obtain ⟨-, hrow⟩ := Option.ite_none_right_eq_some.mp h
    cases hrow
    exact ⟨_, project_id, rfl, rfl, rfl⟩
  · cases h

theorem submits_of_asset_row {key : String} {doc : CarbonAssetDoc}
    (h : asset_row codec e = some (key, doc)) :
    ∃ event id, pallet_event e = some event ∧ event.submits = some (.asset, id)
      ∧ key = codec.hash id := by
  unfold asset_row at h
  split at h
  · rename_i height project_id asset_id symbol vintage owner now
    obtain ⟨-, hrow⟩ := Option.ite_none_right_eq_some.mp h
    cases hrow
    exact ⟨_, asset_id, rfl, rfl, rfl⟩
  · cases h

/-- What has a row in the end, and is mentioned, has its row by then. -/
theorem row_before {D : Type} {row : Entry AccountId Hash → Option (String × D)} {k : RequestKind}
    (hrow : ∀ e key doc, row e = some (key, doc) → ∃ event id, pallet_event e = some event
      ∧ event.submits = some (k, id) ∧ key = codec.hash id)
    (hcodec : Function.Injective codec.hash) (hcausal : Causal (pallet_events all))
    (hall : all = before ++ e :: after) {event : Event AccountId Hash}
    (he : pallet_event e = some event) {id : Hash} (hmentions : event.mentions = some (k, id))
    (hend : FirstWrite.entries row all (codec.hash id) ≠ none) :
    FirstWrite.entries row before (codec.hash id) ≠ none := by
  rw [← Option.isSome_iff_ne_none, FirstWrite.isSome_entries_iff] at hend ⊢
  obtain ⟨e', he', doc, hdoc⟩ := hend
  refine ⟨e', ?_, doc, hdoc⟩
  obtain ⟨event', id', hevent', hsubmits, hkey⟩ := hrow e' _ doc hdoc
  cases hcodec hkey
  unfold pallet_events at hcausal
  rw [hall, List.filterMap_append, List.filterMap_cons_some he] at hcausal
  have hlater := (List.pairwise_cons.mp (List.pairwise_append.mp hcausal).2.1).1
  rw [hall, List.mem_append, List.mem_cons] at he'
  obtain hbefore | rfl | hafter := he'
  · exact hbefore
  · -- what mentions does not submit
    cases he.symm.trans hevent'
    rw [not_submits_of_mentions hmentions] at hsubmits
    cases hsubmits
  · have hmem : event' ∈ after.filterMap pallet_event :=
      List.mem_filterMap.mpr ⟨e', hafter, hevent'⟩
    exact absurd hsubmits (hlater event' hmem _ hmentions)

theorem mentions_of_project_flag {key : String} (h : project_flag codec e = some key) :
    ∃ event id, pallet_event e = some event ∧ event.mentions = some (.project, id)
      ∧ key = codec.hash id := by
  unfold project_flag at h
  split at h <;> cases h
  exact ⟨_, _, rfl, rfl, rfl⟩

theorem mentions_of_asset_flag {key : String} (h : asset_flag codec e = some key) :
    ∃ event id, pallet_event e = some event ∧ event.mentions = some (.asset, id)
      ∧ key = codec.hash id := by
  unfold asset_flag at h
  split at h <;> cases h
  exact ⟨_, _, rfl, rfl, rfl⟩

/-- Of the assets an order needs no more than the one that its event mentions. -/
theorem order_row_congr {assets assets' : String → Option CarbonAssetDoc}
    (h : ∀ event id, pallet_event e = some event → event.mentions = some (.asset, id) →
      assets (codec.hash id) = assets' (codec.hash id)) :
    order_row codec assets e = order_row codec assets' e := by
  unfold order_row
  split
  · rw [h _ _ rfl rfl]
  · rfl

/-- The flag of a row that is there by then is put on. -/
theorem flagged_of_step {D : Type} {v w : Flagged String D} {row : Option (String × D)}
    {flag : Option String} (h : v.step row flag ≤ w) {key : String} (hflag : flag = some key)
    (hkey : v.rows key ≠ none) : key ∈ w.flags :=
  h.2 (.inr ⟨hflag, hkey⟩)

/-- Reading an event only adds. -/
theorem le_handle (c : Catalogue) (e : Entry AccountId Hash) : c ≤ c.handle codec e :=
  ⟨Flagged.le_step _ _ _, Flagged.le_step _ _ _, Flagged.le_step _ _ _, Flagged.le_step _ _ _⟩

variable (codec) in
/-- An order is closed once its closing has been read, if it is on file at all. -/
def OrdersClosed (es : List (Entry AccountId Hash)) (c : Catalogue) : Prop :=
  ∀ e ∈ es, ∀ orderId, order_flag codec e = some orderId → c.orders.rows orderId ≠ none →
    orderId ∈ c.orders.flags

/-- The catalogue settles: reading a part of causal events again adds nothing that is
not there in the end, where the orders are closed whose closing has been read. -/
theorem settles_catalogue (hcodec : Function.Injective codec.hash)
    (hcausal : Causal (pallet_events all))
    (hclosed : OrdersClosed codec all (Catalogue.after codec all)) :
    Replay.Settles (Catalogue.handle codec) Data.empty.catalogue all := by
  refine .of_grows le_handle fun before e after hall x hlower hupper hend => ?_
  -- the projects and assets that the event mentions are on file by then, or never
  have hproject {event : Event AccountId Hash} {id : Hash} (he : pallet_event e = some event)
      (hmentions : event.mentions = some (.project, id))
      (hrow : (Catalogue.after codec all).projects.rows (codec.hash id) ≠ none) :
      (Catalogue.after codec before).projects.rows (codec.hash id) ≠ none := by
    rw [projects_after] at hrow ⊢
    exact row_before (fun _ _ _ => submits_of_project_row) hcodec hcausal hall he hmentions hrow
  have hasset {event : Event AccountId Hash} {id : Hash} (he : pallet_event e = some event)
      (hmentions : event.mentions = some (.asset, id))
      (hrow : (Catalogue.after codec all).assets.rows (codec.hash id) ≠ none) :
      (Catalogue.after codec before).assets.rows (codec.hash id) ≠ none := by
    rw [assets_after] at hrow ⊢
    exact row_before (fun _ _ _ => submits_of_asset_row) hcodec hcausal hall he hmentions hrow
  obtain ⟨hprojects, hassets, horders, hstandard⟩ := hlower
  obtain ⟨hprojects', hassets', horders', hstandard'⟩ := hupper
  obtain ⟨hprojects'', hassets'', horders'', hstandard''⟩ := hend
  -- so whoever is ahead writes the order that the stream writes
  have hrow : order_row codec x.assets.rows e
      = order_row codec (Catalogue.after codec before).assets.rows e := by
    refine order_row_congr fun event id he hmentions => ?_
    cases hv : (Catalogue.after codec before).assets.rows (codec.hash id) with
    | some asset => exact hassets.1 _ _ hv
    | none =>
      by_contra hne
      exact hasset he hmentions (Flagged.rows_ne_none_of_le hassets' hne) hv
  constructor
  · refine ⟨Flagged.step_le_step hprojects hprojects' hprojects'',
      Flagged.step_le_step hassets hassets' hassets'', ?_,
      Flagged.step_le_step hstandard hstandard' hstandard''⟩
    change _ ≤ x.orders.step (order_row codec x.assets.rows e) _
    rw [hrow]
    exact Flagged.step_le_step horders horders' horders''
  · refine ⟨Flagged.step_le hprojects hprojects' hprojects'' fun key hflag hkey => ?_,
      Flagged.step_le hassets hassets' hassets'' fun key hflag hkey => ?_, ?_,
      Flagged.step_le hstandard hstandard' hstandard'' nofun⟩
    · obtain ⟨event, id, he, hmentions, rfl⟩ := mentions_of_project_flag hflag
      exact flagged_of_step hprojects'' hflag (hproject he hmentions hkey)
    · obtain ⟨event, id, he, hmentions, rfl⟩ := mentions_of_asset_flag hflag
      exact flagged_of_step hassets'' hflag (hasset he hmentions hkey)
    · change x.orders.step (order_row codec x.assets.rows e) _ ≤ _
      rw [hrow]
      refine Flagged.step_le horders horders' horders'' fun key hflag hkey => ?_
      exact hclosed e (hall ▸ List.mem_append_right _ List.mem_cons_self) key hflag hkey

end Rows

/-! ## Rounds and crashes -/

section Rounds

variable (api : Api) (chain : ℕ → List (Record AccountId Hash))

/-- What a round does to the catalogue: all its range, or a part of it, to be done again. -/
inductive CatalogueOutcome (t : Transition Data Round (List Operation)) : Prop
  | saved (hfile : t.post.lastBlockNumberFile = t.input.head)
      (hcatalogue : t.post.catalogue = (feed chain t.pre.lastBlockNumberFile t.input.head).foldl
        (Catalogue.handle codec) t.pre.catalogue)
  | crashed (before after : List (Entry AccountId Hash))
      (hfeed : feed chain t.pre.lastBlockNumberFile t.input.head = before ++ after)
      (hfile : t.post.lastBlockNumberFile = t.pre.lastBlockNumberFile)
      (hcatalogue : t.post.catalogue = before.foldl (Catalogue.handle codec) t.pre.catalogue)

theorem catch_up_catalogue (first head : ℕ) (data : Data) :
    ((catch_up codec api chain first head).exec data).catalogue
      = (feed chain first head).foldl (Catalogue.handle codec) data.catalogue := by
  rw [catch_up_eq, Program.exec_bind _ data (result_entries codec api _ data)]
  exact forM_catalogue codec api _ data

/-- A round that is interrupted before it saves its block number. -/
theorem catch_up_interrupt_catalogue {first head k : ℕ} {data : Data}
    (h : k < ((catch_up codec api chain first head).labels data).length) :
    ∃ before after, feed chain first head = before ++ after
      ∧ ((catch_up codec api chain first head).interrupt k data).catalogue
        = before.foldl (Catalogue.handle codec) data.catalogue := by
  rw [catch_up_labels, List.length_append] at h
  have hle : k ≤ (((feed chain first head).forM (process_entry codec api)).labels data).length :=
    Nat.le_of_lt_succ h
  rw [catch_up_eq, Program.interrupt_bind_of_le _ data hle]
  obtain hall | ⟨before, e, after, j, hfeed, hinterrupt, -⟩ :=
    Program.interrupt_forM (process_entry_result codec api) (feed chain first head) data k
  · refine ⟨feed chain first head, [], (List.append_nil _).symm, ?_⟩
    rw [Program.interrupt_of_le _ data hall]
    exact forM_catalogue codec api _ data
  · have hevent := process_entry_catalogued codec api e
    rw [hinterrupt]
    -- the handler that is interrupted has written to the catalogue or not
    obtain hbefore | hafter :=
      hevent.once.interrupt j ((before.forM (process_entry codec api)).exec data)
    · exact ⟨before, e :: after, hfeed, hbefore.trans (forM_catalogue codec api before data)⟩
    · refine ⟨before ++ [e], after, by rw [hfeed, List.append_cons], ?_⟩
      rw [hafter, hevent.handle, forM_catalogue, List.foldl_append]
      rfl

theorem catalogue_outcome (data : Data) (round : Round) :
    CatalogueOutcome codec chain ((indexing codec chain).fire data round) := by
  obtain ⟨head, api, crash⟩ := round
  cases crash with
  | none =>
    exact .saved (congrArg DealIndex.lastBlockNumberFile (catch_up_index api _ head data))
      (catch_up_catalogue codec api chain data.lastBlockNumberFile head data)
  | some k =>
    by_cases hk : ((catch_up codec api chain data.lastBlockNumberFile head).labels data).length ≤ k
    · have hexec := Program.interrupt_of_le (catch_up codec api chain data.lastBlockNumberFile head)
        data hk
      refine .saved ?_ ?_
      · exact (congrArg Data.lastBlockNumberFile hexec).trans
          (congrArg DealIndex.lastBlockNumberFile (catch_up_index api _ head data))
      · exact (congrArg Data.catalogue hexec).trans
          (catch_up_catalogue codec api chain data.lastBlockNumberFile head data)
    · have hlt := Nat.lt_of_not_le hk
      obtain ⟨before, after, hfeed, hcatalogue⟩ :=
        catch_up_interrupt_catalogue codec api chain hlt
      exact .crashed before after hfeed (catch_up_interrupt_of_lt api hlt).2.1 hcatalogue

variable {codec chain} {n : ℕ}

/-- A process that knows of the catalogue what has been said up to the saved block, and
nothing that will not be. -/
structure Reading (codec : Codec AccountId Hash) (chain : ℕ → List (Record AccountId Hash))
    (n : ℕ) (data : Data) : Prop where
  file_le : data.lastBlockNumberFile ≤ n
  between : Replay.Between (Catalogue.handle codec) Data.empty.catalogue (feed chain 0 n)
    (feed chain 0 data.lastBlockNumberFile) data.catalogue

/-- One round. -/
theorem Reading.step
    (hsettles : Replay.Settles (Catalogue.handle codec) Data.empty.catalogue (feed chain 0 n))
    {t : Transition Data Round (List Operation)} (h : Reading codec chain n t.pre) (hup : UpTo n t)
    (hround : CatalogueOutcome codec chain t) : Reading codec chain n t.post := by
  have hall := feed_split chain h.file_le hup
  cases hround with
  | saved hfile hcatalogue =>
    refine ⟨hfile ▸ hup.2, ?_⟩
    have hread := h.between.read_on hsettles hall
    rw [feed_append chain (Nat.zero_le _) hup.1] at hread
    rw [hfile, hcatalogue]
    exact hread
  | crashed before after hfeed hfile hcatalogue =>
    refine ⟨hfile ▸ h.file_le, ?_⟩
    rw [hfeed, List.append_assoc] at hall
    rw [hfile, hcatalogue]
    exact (h.between.read_on hsettles hall).back hsettles hall

theorem reading_of_run
    (hsettles : Replay.Settles (Catalogue.handle codec) Data.empty.catalogue (feed chain 0 n))
    {tr : List (Transition Data Round (List Operation))} {data : Data}
    (hrun : (indexing codec chain).Run (UpTo n) .empty tr data) : Reading codec chain n data := by
  apply hrun.state_invariant (I := Reading codec chain n)
  · exact ⟨Nat.zero_le n, hsettles.start⟩
  · intro data round h hup
    exact Reading.step hsettles h hup (catalogue_outcome codec chain data round)

end Rounds

/-! ## The documents -/

section Documents

/-- The documents of the catalogue are sound. -/
structure SoundCatalogue (data : Data) : Prop where
  projects : SoundProjects data.carbonProjects
  assets : SoundAssets data.carbonAssets
  orders : SoundOrders data.orders
  standardAssets : SoundStandardAssets data.standardAssets

/-- The same documents in the four collections. -/
structure SameCatalogue (data data' : Data) : Prop where
  carbonProjects : data.carbonProjects.Perm data'.carbonProjects
  carbonAssets : data.carbonAssets.Perm data'.carbonAssets
  orders : data.orders.Perm data'.orders
  standardAssets : data.standardAssets.Perm data'.standardAssets

variable {data data' : Data}

/-- Sound tables that are seen alike hold the same rows. -/
theorem perm_of_flagged {R : Type} {key : R → String} {P : R → Prop} {base : R → R}
    {flagged : R → Prop} {rows rows' : List R} (h : Sound key P rows) (h' : Sound key P rows')
    (hrow : ∀ r r', P r → P r' → base r = base r' → (flagged r ↔ flagged r') → r = r')
    (heq : Flagged.of base flagged (Table.lookup key rows)
      = Flagged.of base flagged (Table.lookup key rows')) : rows.Perm rows' := by
  refine h.unique.perm h'.unique (Flagged.of_injective (fun k r r' hr hr' => ?_) heq)
  exact hrow r r' (h.proper r (Table.mem_of_lookup hr).1) (h'.proper r' (Table.mem_of_lookup hr').1)

/-- Numbers that are 0 or 1, and 1 together, are equal. -/
theorem eq_of_one_iff {a b : ℕ} (ha : a = 0 ∨ a = 1) (hb : b = 0 ∨ b = 1) (h : a = 1 ↔ b = 1) :
    a = b := by
  omega

theorem SoundCatalogue.same (h : SoundCatalogue data) (h' : SoundCatalogue data')
    (heq : data.catalogue = data'.catalogue) : SameCatalogue data data' where
  carbonProjects := by
    refine perm_of_flagged h.projects h'.projects (fun r r' hr hr' hbase hflag => ?_)
      (congrArg Catalogue.projects heq)
    have happroved := eq_of_one_iff hr hr' hflag
    cases r
    cases r'
    simp_all [CarbonProjectDoc.base]
  carbonAssets := by
    refine perm_of_flagged h.assets h'.assets (fun r r' hr hr' hbase hflag => ?_)
      (congrArg Catalogue.assets heq)
    have happroved := eq_of_one_iff hr hr' hflag
    cases r
    cases r'
    simp_all [CarbonAssetDoc.base]
  orders := by
    refine perm_of_flagged h.orders h'.orders (fun r r' hr hr' hbase hflag => ?_)
      (congrArg Catalogue.orders heq)
    have hclosed := eq_of_one_iff hr hr' hflag
    cases r
    cases r'
    simp_all [OrderDoc.base]
  standardAssets :=
    perm_of_flagged h.standardAssets h'.standardAssets (fun _ _ _ _ hbase _ => hbase)
      (congrArg Catalogue.standardAssets heq)

variable {codec : Codec AccountId Hash} (api : Api) {chain : ℕ → List (Record AccountId Hash)}
  {n : ℕ}

theorem soundCatalogue_of_run {allowed : Transition Data Round (List Operation) → Prop}
    {tr : List (Transition Data Round (List Operation))}
    (hrun : (indexing codec chain).Run allowed .empty tr data) : SoundCatalogue data where
  projects := reads_carbonProjects.sound_of_run (keeps_carbonProjects codec) hrun
  assets := reads_carbonAssets.sound_of_run (keeps_carbonAssets codec) hrun
  orders := reads_orders.sound_of_run (keeps_orders codec) hrun
  standardAssets := reads_standardAssets.sound_of_run (keeps_standardAssets codec) hrun

/-- A process that never crashes is a run of one round. -/
theorem soundCatalogue_crash_free : SoundCatalogue (crash_free codec api chain n) := by
  have hrun : (indexing codec chain).Run (fun _ => True) .empty _ _ :=
    Machine.Run.snoc ⟨n, api, none⟩ .nil trivial
  have hsound := soundCatalogue_of_run hrun
  have hpost : ((indexing codec chain).fire .empty ⟨n, api, none⟩).post
      = { crash_free codec api chain n with lastBlockNumberFile := n } := by
    change (catch_up codec api chain 0 n).exec .empty = _
    unfold crash_free
    rw [catch_up_eq, processEventsInRange_eq codec api chain 0 n,
      Program.exec_bind _ _ (result_entries codec api _ _)]
    rfl
  rw [hpost] at hsound
  exact ⟨hsound.projects, hsound.assets, hsound.orders, hsound.standardAssets⟩

theorem crash_free_catalogue :
    (crash_free codec api chain n).catalogue = Catalogue.after codec (feed chain 0 n) := by
  unfold crash_free
  rw [processEventsInRange_eq codec api chain 0 n, forM_catalogue]
  rfl

variable (codec) in
/-- The orders are closed on file whose closing is among the events. -/
def ClosingsSeen (es : List (Entry AccountId Hash)) (data : Data) : Prop :=
  ∀ e ∈ es, ∀ orderId, order_flag codec e = some orderId →
    ∀ doc ∈ data.orders, doc.orderId = orderId → doc.closed = 1

theorem ordersClosed_iff {es : List (Entry AccountId Hash)} (h : SoundCatalogue data) :
    OrdersClosed codec es data.catalogue ↔ ClosingsSeen codec es data := by
  refine forall₂_congr fun e he => forall₂_congr fun orderId hflag => ?_
  change ((data.order orderId).map OrderDoc.base ≠ none →
    ∃ doc, data.order orderId = some doc ∧ doc.closed = 1) ↔ _
  constructor
  · rintro hclosed doc hdoc rfl
    have hfound : data.order doc.orderId = some doc := h.orders.unique.lookup hdoc
    rw [hfound] at hclosed
    obtain ⟨doc', heq, hone⟩ := hclosed (Option.some_ne_none _)
    cases heq
    exact hone
  · intro hclosed hrow
    cases hfound : data.order orderId with
    | none => exact absurd (congrArg (Option.map OrderDoc.base) hfound) hrow
    | some doc =>
      obtain ⟨hmem, hkey⟩ := Table.mem_of_lookup hfound
      exact ⟨doc, rfl, hclosed doc hmem hkey⟩

end Documents

/-! ## When the catalogue is recovered -/

section Recovery

variable {codec : Codec AccountId Hash} {chain : ℕ → List (Record AccountId Hash)} {n : ℕ}

/-- Whoever reads events again closes all orders on file whose closing is among them. -/
theorem closed_of_reread {es : List (Entry AccountId Hash)} {c : Catalogue}
    {e : Entry AccountId Hash} (he : e ∈ es) {orderId : String}
    (hflag : order_flag codec e = some orderId) (hrow : c.orders.rows orderId ≠ none) :
    orderId ∈ (es.foldl (Catalogue.handle codec) c).orders.flags := by
  obtain ⟨before, after, rfl⟩ := List.append_of_mem he
  have hgrows (es' : List (Entry AccountId Hash)) :
      ∀ c : Catalogue, c ≤ es'.foldl (Catalogue.handle codec) c := by
    induction es' with
    | nil => exact le_refl
    | cons e' es' ih =>
      exact fun c => (le_handle c e').trans (ih (c.handle codec e'))
  rw [List.foldl_append, List.foldl_cons]
  obtain ⟨-, -, hbefore, -⟩ := hgrows before c
  obtain ⟨-, -, hafter, -⟩ :=
    hgrows after ((before.foldl (Catalogue.handle codec) c).handle codec e)
  exact hafter.2 (.inr ⟨hflag, Flagged.rows_ne_none_of_le hbefore hrow⟩)

variable (codec) in
/-- A process that crashes just before it saves the block number reads all events twice. -/
theorem exists_run_reread (api : Api) : ∃ tr data,
    (indexing codec chain).Run (UpTo n) .empty tr data
    ∧ data.lastBlockNumberFile = n
    ∧ data.catalogue = (feed chain 0 n).foldl (Catalogue.handle codec)
      (Catalogue.after codec (feed chain 0 n)) := by
  let es := feed chain 0 n
  let k := ((es.forM (process_entry codec api)).labels .empty).length
  let t := (indexing codec chain).fire .empty ⟨n, api, some k⟩
  have hpost : t.post = (es.forM (process_entry codec api)).exec .empty := by
    change (catch_up codec api chain 0 n).interrupt k .empty = _
    rw [catch_up_eq, Program.interrupt_bind_of_le _ _ (Nat.le_refl k)]
    exact Program.interrupt_of_le _ _ (Nat.le_refl k)
  have hfile : t.post.lastBlockNumberFile = 0 := by
    change t.post.index.lastBlockNumberFile = 0
    rw [hpost, forM_index, read_file]
    rfl
  have hstart : UpTo n t := ⟨Nat.zero_le n, Nat.le_refl n⟩
  have hfirst : (indexing codec chain).Run (UpTo n) .empty [t] t.post :=
    (Machine.Run.nil (M := indexing codec chain)).snoc ⟨n, api, some k⟩ hstart
  have hup : UpTo n ((indexing codec chain).fire t.post ⟨n, api, none⟩) :=
    ⟨hfile.le.trans (Nat.zero_le n), Nat.le_refl n⟩
  refine ⟨_, _, hfirst.snoc _ hup, ?_, ?_⟩
  · exact congrArg DealIndex.lastBlockNumberFile (catch_up_index api _ n t.post)
  · refine (catch_up_catalogue codec api chain t.post.lastBlockNumberFile n t.post).trans ?_
    rw [hfile, hpost, forM_catalogue]
    rfl

variable [DecidableEq AccountId] [DecidableEq Hash] {T : Trait AccountId Hash}

/-- **Crash recovery of the catalogue.** On the events of a run of the chain, with any
events of the committee in between: a process that has caught up, in rounds during which
no new head arrives, has the projects, assets, orders and standard assets of one that has
never crashed, whatever crashes there were, if and only if the latter shows no order as
open whose closing it has read. -/
theorem catalogue_recovered_iff (api : Api) (hcodec : Function.Injective codec.hash)
    {allowed : Applied AccountId Hash → Prop} {native : AccountId → ℕ}
    {log_tr : List (Applied AccountId Hash)} {w : World AccountId Hash}
    (hrun : (runtime T).Run allowed (genesis native) log_tr w)
    (hlog : pallet_events (feed chain 0 n) = log log_tr) :
    (∀ tr data, (indexing codec chain).Run (UpTo n) .empty tr data →
        data.lastBlockNumberFile = n → SameCatalogue data (crash_free codec api chain n))
      ↔ ClosingsSeen codec (feed chain 0 n) (crash_free codec api chain n) := by
  have hsound : SoundCatalogue (crash_free codec api chain n) := soundCatalogue_crash_free api
  rw [← ordersClosed_iff hsound]
  constructor
  · intro hall
    obtain ⟨tr, data, hindexing, hcaught, hcatalogue⟩ := exists_run_reread codec api
    have hlookup : data.order = (crash_free codec api chain n).order :=
      (soundCatalogue_of_run hindexing).orders.unique.lookup_perm
        (hall tr data hindexing hcaught).orders
    have horders : data.catalogue.orders = (crash_free codec api chain n).catalogue.orders :=
      congrArg (Flagged.of OrderDoc.base fun doc => doc.closed = 1) hlookup
    intro e he orderId hflag hrow
    rw [← crash_free_catalogue api] at hcatalogue
    have hclosed := closed_of_reread he hflag hrow
    rwa [← hcatalogue, horders] at hclosed
  · intro hclosed tr data hindexing hcaught
    rw [crash_free_catalogue] at hclosed
    have hcausal : Causal (pallet_events (feed chain 0 n)) := hlog ▸ causal_log hrun
    have hreading := reading_of_run (settles_catalogue hcodec hcausal hclosed) hindexing
    have hbetween := hreading.between
    rw [hcaught] at hbetween
    have hcatalogue := hbetween.arrived
    exact (soundCatalogue_of_run hindexing).same hsound
      (hcatalogue.trans (crash_free_catalogue api).symm)

end Recovery

/-- The opening of the executable chain, and an ask order that is made and cancelled. -/
def devnet_cancelled : List (Extrinsic ℕ (List ℕ)) :=
  devnet_opening ++
    [⟨.signed 1, 0, .carbonExchange (.make_order devnet_asset [] 200 3 0 0)⟩,
      ⟨.signed 1, 0, .carbonExchange (.cancel_order devnet_ask)⟩]

/-- Its events, those of one extrinsic in each block, and one of the committee. -/
def devnet_chain : ℕ → List (Record ℕ (List ℕ))
  | 1 => [.pallet (.carbonAssets (.ProjectSubmited devnet_project 1 [] 0))]
  | 2 => [.pallet (.carbonAssets (.ProjectApproved devnet_project)),
      .carbonCommittee (.Closed [7] 2 0)]
  | 3 => [.pallet (.carbonAssets (.AssetSubmited devnet_project devnet_asset [] [] 1 0))]
  | 4 => [.pallet (.carbonAssets (.AssetApproved devnet_asset))]
  | 5 => [.pallet (.carbonExchange (.NewOrder devnet_ask 1 devnet_asset [] 0 0))]
  | 6 => [.pallet (.carbonExchange (.OrderCanceled devnet_ask))]
  | _ => []

theorem catalogue_recovered_devnet :
    (∀ tr data, (indexing devnet_codec devnet_chain).Run (UpTo 6) .empty tr data →
        data.lastBlockNumberFile = 6 →
        SameCatalogue data (crash_free devnet_codec no_proposals devnet_chain 6))
      ↔ ClosingsSeen devnet_codec (feed devnet_chain 0 6)
        (crash_free devnet_codec no_proposals devnet_chain 6) :=
  catalogue_recovered_iff no_proposals devnet_codec_hash_injective
    (devnet_run (fun _ => 1000) devnet_cancelled) (by decide)

end Eco2.Indexer
