/-
Crashes of the indexer, and what they do to the documents of deals.

The block number is saved after a whole range of blocks, so after a crash `main` processes
the range again, with what was inserted of it still there. Most collections take this
well: an insert that violates a unique index throws, and the handler's exception is
caught. The collections of deals have no unique index, so a deal inserted before the
crash is inserted again. `deals_recovered_iff` says that the deals come out as they
should exactly if every deal can be indexed at all and no crash comes after a deal of
its range.
-/
import Eco2.Deals
import Eco2.Worker

set_option autoImplicit false

namespace Eco2.Indexer

variable {AccountId Hash : Type} (codec : Codec AccountId Hash) (api : Api)

/-! ## Reading events -/

/-- The index after the events. -/
def DealIndex.read (x : DealIndex) (es : List (Entry AccountId Hash)) : DealIndex :=
  es.foldl (DealIndex.handle codec) x

/-- Every deal of the events is in an asset that was announced before it, at a time below
`2 ^ 53`. -/
def Indexable (es : List (Entry AccountId Hash)) : Prop :=
  Machine.Along (fun before e => ∀ doc, deal_of codec e = some doc →
    doc.timestamp < 2 ^ 53 ∧ ∃ a ∈ before, ∃ symbol,
      announced codec a = some (doc.assetId, symbol)) es

section Reading

variable {codec} {x y : DealIndex} {e : Entry AccountId Hash}
  {all before seg after es es' : List (Entry AccountId Hash)}

theorem read_append : x.read codec (es ++ es') = (x.read codec es).read codec es' :=
  List.foldl_append

theorem read_file : (x.read codec es).lastBlockNumberFile = x.lastBlockNumberFile := by
  induction es generalizing x with
  | nil => rfl
  | cons e es ih => exact ih (x := x.handle codec e)

/-- The symbols of the empty index are those written first. -/
theorem symbols_read_empty :
    (Data.empty.index.read codec es).symbols = FirstWrite.entries (announced codec) es := by
  induction es using List.reverseRecOn with
  | nil => rfl
  | append_singleton es e ih =>
    rw [read_append, FirstWrite.entries_snoc, ← ih]
    rfl

theorem between_read_empty (hall : all = seg ++ after) :
    FirstWrite.Between (announced codec) all seg (Data.empty.index.read codec seg).symbols := by
  rw [symbols_read_empty, hall]
  exact ⟨FirstWrite.Extends.refl _, FirstWrite.extends_entries_append seg after⟩

/-- Whoever reads on knows what was announced so far, and nothing that will not be. -/
theorem between_read (hall : all = before ++ (seg ++ after))
    (h : FirstWrite.Between (announced codec) all before x.symbols) :
    FirstWrite.Between (announced codec) all (before ++ seg) (x.read codec seg).symbols := by
  induction seg generalizing before x with
  | nil => rwa [List.append_nil]
  | cons e seg ih =>
    rw [List.append_cons before e seg]
    exact ih (x := x.handle codec e) (by rw [hall, List.append_assoc]; rfl) (h.read hall)

theorem deal_of_with_symbol {doc : DealDoc} (h : deal_of codec e = some doc) :
    doc.with_symbol "" = doc := by
  unfold deal_of at h
  split at h
  · cases h
    rfl
  · cases h

/-- What two readers at the same point add for an event that can be indexed. -/
theorem added_eq (hindexable : Indexable codec all) (hall : all = before ++ e :: after)
    (hx : FirstWrite.Between (announced codec) all before x.symbols)
    (hy : FirstWrite.Between (announced codec) all before y.symbols) :
    x.added codec e = y.added codec e
      ∧ (x.added codec e).map (DealDoc.with_symbol · "") = (deal_of codec e).toList := by
  cases hdeal : deal_of codec e with
  | none =>
    rw [added_of_none hdeal, added_of_none hdeal]
    exact ⟨rfl, rfl⟩
  | some doc =>
    obtain ⟨htime, a, ha, symbol, hannounced⟩ := hindexable before e after hall doc hdeal
    have hentry : (FirstWrite.entries (announced codec) before doc.assetId).isSome :=
      (FirstWrite.isSome_entries_iff before doc.assetId).mpr ⟨a, ha, symbol, hannounced⟩
    obtain ⟨symbol', hsymbol'⟩ := Option.isSome_iff_exists.mp hentry
    rw [added_of_some hdeal htime, added_of_some hdeal htime, hx.lower _ _ hsymbol',
      hy.lower _ _ hsymbol']
    refine ⟨rfl, ?_⟩
    change [(doc.with_symbol symbol').with_symbol ""] = [doc]
    rw [show (doc.with_symbol symbol').with_symbol "" = doc.with_symbol "" from rfl,
      deal_of_with_symbol hdeal]

/-- What two readers who read on from the same point add: the same documents, one for
each deal. -/
theorem read_added (hindexable : Indexable codec all) (hall : all = before ++ (seg ++ after))
    (hx : FirstWrite.Between (announced codec) all before x.symbols)
    (hy : FirstWrite.Between (announced codec) all before y.symbols) :
    ∃ docs : List DealDoc, docs.map (DealDoc.with_symbol · "") = seg.filterMap (deal_of codec)
      ∧ ((x.read codec seg).deals = x.deals ++ docs
        ∧ (x.read codec seg).userDeals = x.userDeals ++ docs.flatMap DealDoc.parties)
      ∧ (y.read codec seg).deals = y.deals ++ docs
        ∧ (y.read codec seg).userDeals = y.userDeals ++ docs.flatMap DealDoc.parties := by
  induction seg generalizing before x y with
  | nil => exact ⟨[], rfl, by simp [DealIndex.read], by simp [DealIndex.read]⟩
  | cons e seg ih =>
    obtain ⟨hadded, hdocs⟩ := added_eq hindexable hall hx hy
    have hall' : all = (before ++ [e]) ++ (seg ++ after) := by
      rw [hall, List.append_assoc]
      rfl
    obtain ⟨docs, hmap, ⟨hxd, hxu⟩, hyd, hyu⟩ :=
      ih (x := x.handle codec e) (y := y.handle codec e) hall' (hx.read hall) (hy.read hall)
    refine ⟨x.added codec e ++ docs, ?_, ⟨?_, ?_⟩, ?_, ?_⟩
    · rw [List.map_append, hdocs, hmap, List.filterMap_cons]
      cases deal_of codec e <;> rfl
    · refine hxd.trans ?_
      rw [← List.append_assoc]
      rfl
    · refine hxu.trans ?_
      rw [List.flatMap_append, ← List.append_assoc]
      rfl
    · refine hyd.trans ?_
      rw [hadded, ← List.append_assoc]
      rfl
    · refine hyu.trans ?_
      rw [hadded, List.flatMap_append, ← List.append_assoc]
      rfl

/-- Without a crash there is a document for every deal exactly if every deal can be
indexed. -/
theorem indexable_iff :
    (Data.empty.index.read codec es).deals.length ≤ (es.filterMap (deal_of codec)).length
    ∧ (Indexable codec es ↔ (Data.empty.index.read codec es).deals.length
      = (es.filterMap (deal_of codec)).length) := by
  unfold Indexable
  induction es using List.reverseRecOn with
  | nil => exact ⟨Nat.le_refl _, iff_of_true Machine.along_nil rfl⟩
  | append_singleton es e ih =>
    obtain ⟨hle, hiff⟩ := ih
    have hread : (Data.empty.index.read codec (es ++ [e])).deals
        = (Data.empty.index.read codec es).deals
          ++ (Data.empty.index.read codec es).added codec e := by
      rw [read_append]
      rfl
    rw [Machine.along_snoc, hread, List.filterMap_append, List.length_append, List.length_append,
      hiff]
    cases hdeal : deal_of codec e with
    | none =>
      rw [added_of_none hdeal, List.filterMap_cons_none hdeal]
      refine ⟨Nat.add_le_add_right hle _, ?_⟩
      simp
    | some doc =>
      rw [List.filterMap_cons_some hdeal]
      unfold DealIndex.added
      rw [hdeal, symbols_read_empty]
      simp only [Option.some.injEq, forall_eq', ← FirstWrite.isSome_entries_iff]
      by_cases htime : doc.timestamp < 2 ^ 53
      · rw [if_pos htime]
        cases FirstWrite.entries (announced codec) es doc.assetId with
        | none =>
          simp only [Option.toList_none, List.map_nil, List.length_nil, Option.isSome_none]
          simp
          omega
        | some symbol =>
          simp
          omega
      · rw [if_neg htime]
        simp
        omega

end Reading

/-! ## The events of the chain -/

section Feed

variable (chain : ℕ → List (Record AccountId Hash))

/-- The events of the blocks from `first + 1` to `last`. -/
def feed (first last : ℕ) : List (Entry AccountId Hash) :=
  (blocks first last).flatMap fun n => (chain n).map fun record => (n, record)

theorem feed_append {start first last : ℕ} (hstart : start ≤ first) (h : first ≤ last) :
    feed chain start first ++ feed chain first last = feed chain start last := by
  unfold feed
  rw [← List.flatMap_append, blocks_append hstart h]

/-- One event of the feed. -/
def process_entry (e : Entry AccountId Hash) : Handler Unit :=
  process_event codec api e.1 e.2

/-- The two loops over blocks and their events are one over the feed. -/
theorem processEventsInRange_eq (first last : ℕ) :
    processEventsInRange codec api chain (first + 1) last
      = (feed chain first last).forM (process_entry codec api) := by
  unfold feed
  rw [Program.forM_flatMap]
  unfold processEventsInRange blocks
  rw [Nat.add_sub_add_right]
  congr 1
  funext n
  unfold processEventsAtBlockNumber processEventsAtBlockHash
  exact (List.forM_map (l := chain n) (g := fun record => (n, record))
    (f := process_entry codec api)).symm

end Feed

section Entries

theorem process_entry_result (e : Entry AccountId Hash) (data : Data) :
    (process_entry codec api e).result data = .ok () := by
  unfold process_entry process_event
  cases eco2EventHandlers codec api e.2 e.1 with
  | some handler => exact Program.attempt_result handler data
  | none => rfl

theorem result_entries (es : List (Entry AccountId Hash)) (data : Data) :
    (es.forM (process_entry codec api)).result data = .ok () :=
  Program.result_forM (process_entry_result codec api) es data

theorem forM_index (es : List (Entry AccountId Hash)) (data : Data) :
    ((es.forM (process_entry codec api)).exec data).index = data.index.read codec es := by
  rw [Program.exec_forM (process_entry_result codec api)]
  induction es generalizing data with
  | nil => rfl
  | cons e es ih =>
    have hindex := (process_event_refines codec api e.1 e.2 data).1
    refine (ih _).trans ?_
    exact congrArg (DealIndex.read codec · es) hindex

/-- What the handlers of the events do to the deals on the way. -/
theorem forM_touched (es : List (Entry AccountId Hash)) (data : Data) :
    Touched ((es.forM (process_entry codec api)).labels data) data.index
        ((es.forM (process_entry codec api)).exec data).index
      ∧ .saveLastBlockNumber ∉ (es.forM (process_entry codec api)).labels data := by
  induction es generalizing data with
  | nil => exact ⟨Touched.refl List.not_mem_nil, List.not_mem_nil⟩
  | cons e es ih =>
    have hfirst := (process_event_refines codec api e.1 e.2 data).2
      ((process_entry codec api e).labels data).length
    have hdone : (process_event codec api e.1 e.2).interrupt
        ((process_entry codec api e).labels data).length data
        = (process_event codec api e.1 e.2).exec data :=
      Program.interrupt_of_le _ data (Nat.le_refl _)
    have htake : ((process_event codec api e.1 e.2).labels data).take
        ((process_entry codec api e).labels data).length
        = (process_event codec api e.1 e.2).labels data := List.take_length
    rw [hdone, htake] at hfirst
    obtain ⟨htouched, hsave⟩ := ih ((process_entry codec api e).exec data)
    change Touched ((process_entry codec api e >>= fun _ =>
        es.forM (process_entry codec api)).labels data) data.index
      ((process_entry codec api e >>= fun _ => es.forM (process_entry codec api)).exec data).index
      ∧ _ ∉ (process_entry codec api e >>= fun _ => es.forM (process_entry codec api)).labels data
    have hresult := process_entry_result codec api e data
    rw [Program.labels_bind _ data hresult, Program.exec_bind _ data hresult]
    refine ⟨hfirst.toTouched.trans htouched, ?_⟩
    rw [List.mem_append, not_or]
    exact ⟨hfirst.no_save, hsave⟩

end Entries

/-! ## Rounds and crashes -/

/-- A round of the process: it starts from the saved block number, goes up to a finalized
head, and crashes after so many operations, or not at all. No new head arrives in it: what
it saves is the head that it began with. -/
structure Round where
  head : ℕ
  api : Api
  crash : Option ℕ

section Rounds

variable (chain : ℕ → List (Record AccountId Hash))

/-- The process over rounds and restarts, with the operations of each round. They are
rounds of `main`, or of the worker as long as `latestBlockNumber` has not moved when they
are over. -/
def indexing : Machine Data Round (List Operation) where
  step data round :=
    let program := catch_up codec round.api chain data.lastBlockNumberFile round.head
    match round.crash with
    | none => (program.labels data, program.exec data)
    | some k => ((program.labels data).take k, program.interrupt k data)

/-- Finality does not go back, and `n` blocks are finalized. -/
def UpTo (n : ℕ) (t : Transition Data Round (List Operation)) : Prop :=
  t.pre.lastBlockNumberFile ≤ t.input.head ∧ t.input.head ≤ n

instance (n : ℕ) : DecidablePred (UpTo n) :=
  fun t => inferInstanceAs (Decidable (t.pre.lastBlockNumberFile ≤ t.input.head
    ∧ t.input.head ≤ n))

/-- A round that crashes, before it saves the block number, crashes before it inserts a
deal. -/
def CrashesBeforeDeals (t : Transition Data Round (List Operation)) : Prop :=
  .saveLastBlockNumber ∉ t.output → .insert .deals ∉ t.output

/-- What a round does to the index. -/
inductive RoundOutcome (t : Transition Data Round (List Operation)) : Prop
  | saved (hsave : .saveLastBlockNumber ∈ t.output)
      (hindex : t.post.index =
        { t.pre.index.read codec (feed chain t.pre.lastBlockNumberFile t.input.head) with
          lastBlockNumberFile := t.input.head })
  | crashed (hsave : .saveLastBlockNumber ∉ t.output)
      (hfile : t.post.lastBlockNumberFile = t.pre.lastBlockNumberFile)
      (htouched : Touched t.output t.pre.index t.post.index)
      (before after : List (Entry AccountId Hash))
      (hfeed : feed chain t.pre.lastBlockNumberFile t.input.head = before ++ after)
      (hsymbols : t.post.index.symbols = (t.pre.index.read codec before).symbols)

variable {codec chain}

/-- The range of a round, and the file. -/
theorem catch_up_eq (first head : ℕ) :
    catch_up codec api chain first head
      = (feed chain first head).forM (process_entry codec api) >>= fun _ =>
        saveLastBlockNumber head := by
  unfold catch_up
  rw [processEventsInRange_eq]

theorem catch_up_labels (first head : ℕ) (data : Data) :
    (catch_up codec api chain first head).labels data
      = ((feed chain first head).forM (process_entry codec api)).labels data
        ++ [.saveLastBlockNumber] := by
  rw [catch_up_eq, Program.labels_bind _ data (result_entries codec api _ data)]
  rfl

theorem catch_up_index (first head : ℕ) (data : Data) :
    ((catch_up codec api chain first head).exec data).index
      = { data.index.read codec (feed chain first head) with lastBlockNumberFile := head } := by
  rw [catch_up_eq, Program.exec_bind _ data (result_entries codec api _ data),
    ← forM_index codec api]
  rfl

/-- A round that crashes after its last operation has saved the block number. -/
theorem catch_up_interrupt_of_le {first head k : ℕ} {data : Data}
    (h : ((catch_up codec api chain first head).labels data).length ≤ k) :
    .saveLastBlockNumber ∈ ((catch_up codec api chain first head).labels data).take k
      ∧ (catch_up codec api chain first head).interrupt k data
        = (catch_up codec api chain first head).exec data := by
  refine ⟨?_, Program.interrupt_of_le _ data h⟩
  rw [List.take_of_length_le h, catch_up_labels]
  exact List.mem_append_right _ (List.mem_singleton.mpr rfl)

/-- A round that crashes before that stands somewhere in the feed. -/
theorem catch_up_interrupt_of_lt {first head k : ℕ} {data : Data}
    (h : k < ((catch_up codec api chain first head).labels data).length) :
    .saveLastBlockNumber ∉ ((catch_up codec api chain first head).labels data).take k
      ∧ ((catch_up codec api chain first head).interrupt k data).lastBlockNumberFile
        = data.lastBlockNumberFile
      ∧ Touched (((catch_up codec api chain first head).labels data).take k) data.index
        ((catch_up codec api chain first head).interrupt k data).index
      ∧ ∃ before after, feed chain first head = before ++ after
        ∧ ((catch_up codec api chain first head).interrupt k data).index.symbols
          = (data.index.read codec before).symbols := by
  rw [catch_up_labels, List.length_append] at h
  have hle : k ≤ (((feed chain first head).forM (process_entry codec api)).labels data).length :=
    Nat.le_of_lt_succ h
  rw [catch_up_labels, List.take_append_of_le_length hle, catch_up_eq,
    Program.interrupt_bind_of_le _ data hle]
  obtain hall | ⟨before, e, after, j, hfeed, hinterrupt, htake⟩ :=
    Program.interrupt_forM (process_entry_result codec api) (feed chain first head) data k
  -- all events are done, and the block number is not saved
  · obtain ⟨htouched, hsave⟩ := forM_touched codec api (feed chain first head) data
    rw [List.take_of_length_le hall, Program.interrupt_of_le _ data hall]
    refine ⟨hsave, ?_, htouched, feed chain first head, [], (List.append_nil _).symm, ?_⟩
    · change (((feed chain first head).forM (process_entry codec api)).exec
      data).index.lastBlockNumberFile = _
      rw [forM_index, read_file]
      rfl
    · rw [forM_index]
  -- one event is interrupted, and those before it are done
  · obtain ⟨htouched, hsave⟩ := forM_touched codec api before data
    have hevent := (process_event_refines codec api e.1 e.2
      ((before.forM (process_entry codec api)).exec data)).2 j
    rw [htake, hinterrupt]
    refine ⟨?_, ?_, htouched.trans hevent.toTouched, ?_⟩
    · rw [List.mem_append, not_or]
      exact ⟨hsave, hevent.no_save⟩
    · refine hevent.file.trans ?_
      rw [forM_index, read_file]
      rfl
    · obtain hsame | hwritten := hevent.symbols
      · refine ⟨before, e :: after, hfeed, hsame.trans ?_⟩
        rw [forM_index]
      · refine ⟨before ++ [e], after, by rw [hfeed, List.append_cons], hwritten.trans ?_⟩
        rw [forM_index, read_append]
        rfl

theorem round_outcome (data : Data) (round : Round) :
    RoundOutcome codec chain ((indexing codec chain).fire data round) := by
  obtain ⟨head, api, crash⟩ := round
  cases crash with
  | none =>
    refine .saved ?_ (catch_up_index api data.lastBlockNumberFile head data)
    change _ ∈ (catch_up codec api chain data.lastBlockNumberFile head).labels data
    rw [catch_up_labels]
    exact List.mem_append_right _ (List.mem_singleton.mpr rfl)
  | some k =>
    by_cases hk : ((catch_up codec api chain data.lastBlockNumberFile head).labels data).length ≤ k
    · obtain ⟨hsave, hexec⟩ := catch_up_interrupt_of_le api hk
      refine .saved hsave ?_
      exact (congrArg Data.index hexec).trans
        (catch_up_index api data.lastBlockNumberFile head data)
    · obtain ⟨hsave, hfile, htouched, before, after, hfeed, hsymbols⟩ :=
        catch_up_interrupt_of_lt api (Nat.lt_of_not_le hk)
      exact .crashed hsave hfile htouched before after hfeed hsymbols

/-! ## Runs -/

variable (codec chain) in
/-- Where the process is after a run: it knows the symbols announced up to the saved
block, and none that will not be; and if all deals can be indexed, its deals are those up
to the saved block, or else more. -/
structure Recovering (n : ℕ) (tr : List (Transition Data Round (List Operation)))
    (data : Data) : Prop where
  file_le : data.lastBlockNumberFile ≤ n
  symbols : FirstWrite.Between (announced codec) (feed chain 0 n)
    (feed chain 0 data.lastBlockNumberFile) data.index.symbols
  clean : Indexable codec (feed chain 0 n) → (∀ t ∈ tr, CrashesBeforeDeals t) →
    data.deals = (Data.empty.index.read codec (feed chain 0 data.lastBlockNumberFile)).deals
    ∧ data.userDeals
      = (Data.empty.index.read codec (feed chain 0 data.lastBlockNumberFile)).userDeals
  dirty : Indexable codec (feed chain 0 n) → ¬(∀ t ∈ tr, CrashesBeforeDeals t) →
    (Data.empty.index.read codec (feed chain 0 data.lastBlockNumberFile)).deals.length
      < data.deals.length

variable {n : ℕ} {tr : List (Transition Data Round (List Operation))} {data : Data}

theorem recovering_start : Recovering codec chain n [] .empty where
  file_le := Nat.zero_le n
  symbols := FirstWrite.Between.start
  clean _ _ := ⟨rfl, rfl⟩
  dirty _ hnot := absurd (fun _ ht => nomatch ht) hnot

section Step

variable {t : Transition Data Round (List Operation)}

theorem forall_clean_snoc (ht : CrashesBeforeDeals t) :
    (∀ u ∈ tr ++ [t], CrashesBeforeDeals u) ↔ ∀ u ∈ tr, CrashesBeforeDeals u := by
  rw [List.forall_mem_append, List.forall_mem_singleton]
  exact and_iff_left ht

variable (chain) in
/-- The events before a round, those of its range, and those after it. -/
theorem feed_split (hfile : t.pre.lastBlockNumberFile ≤ n) (hup : UpTo n t) :
    feed chain 0 n = feed chain 0 t.pre.lastBlockNumberFile
      ++ (feed chain t.pre.lastBlockNumberFile t.input.head ++ feed chain t.input.head n) := by
  rw [feed_append chain hup.1 hup.2, feed_append chain (Nat.zero_le _) hfile]

/-- A round adds the documents that the run without a crash adds over its range. -/
theorem Recovering.added (h : Recovering codec chain n tr t.pre) (hup : UpTo n t)
    (hindexable : Indexable codec (feed chain 0 n)) :
    ∃ docs, ((t.pre.index.read codec (feed chain t.pre.lastBlockNumberFile t.input.head)).deals
          = t.pre.deals ++ docs
        ∧ (t.pre.index.read codec (feed chain t.pre.lastBlockNumberFile t.input.head)).userDeals
          = t.pre.userDeals ++ docs.flatMap DealDoc.parties)
      ∧ (Data.empty.index.read codec (feed chain 0 t.input.head)).deals
        = (Data.empty.index.read codec (feed chain 0 t.pre.lastBlockNumberFile)).deals ++ docs
      ∧ (Data.empty.index.read codec (feed chain 0 t.input.head)).userDeals
        = (Data.empty.index.read codec (feed chain 0 t.pre.lastBlockNumberFile)).userDeals
          ++ docs.flatMap DealDoc.parties := by
  have hall := feed_split chain h.file_le hup
  obtain ⟨docs, -, hround, hfree⟩ :=
    read_added hindexable hall h.symbols (between_read_empty hall)
  rw [← read_append, feed_append chain (Nat.zero_le _) hup.1] at hfree
  exact ⟨docs, hround, hfree⟩

/-- A round that has saved its block number has done all its range. -/
theorem Recovering.saved (h : Recovering codec chain n tr t.pre) (hup : UpTo n t)
    (hsave : .saveLastBlockNumber ∈ t.output)
    (hindex : t.post.index =
      { t.pre.index.read codec (feed chain t.pre.lastBlockNumberFile t.input.head) with
        lastBlockNumberFile := t.input.head }) :
    Recovering codec chain n (tr ++ [t]) t.post := by
  have hclean : CrashesBeforeDeals t := fun hnot => absurd hsave hnot
  have hfile : t.post.lastBlockNumberFile = t.input.head :=
    congrArg DealIndex.lastBlockNumberFile hindex
  have hdeals := congrArg DealIndex.deals hindex
  have huser := congrArg DealIndex.userDeals hindex
  refine ⟨?_, ?_, fun hindexable hall => ?_, fun hindexable hnot => ?_⟩
  · rw [hfile]
    exact hup.2
  · have hread := between_read (feed_split chain h.file_le hup) h.symbols
    rw [feed_append chain (Nat.zero_le _) hup.1] at hread
    rw [hfile, hindex]
    exact hread
  · rw [forall_clean_snoc hclean] at hall
    obtain ⟨docs, ⟨hround, hround'⟩, hfree, hfree'⟩ := h.added hup hindexable
    obtain ⟨hsame, hsame'⟩ := h.clean hindexable hall
    rw [hfile, hfree, hfree', ← hsame, ← hsame']
    exact ⟨hdeals.trans hround, huser.trans hround'⟩
  · rw [forall_clean_snoc hclean] at hnot
    obtain ⟨docs, ⟨hround, -⟩, hfree, -⟩ := h.added hup hindexable
    have hmore := h.dirty hindexable hnot
    have hpost : t.post.deals = t.pre.deals ++ docs := hdeals.trans hround
    rw [hfile, hfree, hpost, List.length_append, List.length_append]
    exact Nat.add_lt_add_right hmore _

/-- A round that has not saved it will be done again from the same block on. -/
theorem Recovering.crashed (h : Recovering codec chain n tr t.pre) (hup : UpTo n t)
    (hsave : .saveLastBlockNumber ∉ t.output)
    (hfile : t.post.lastBlockNumberFile = t.pre.lastBlockNumberFile)
    (htouched : Touched t.output t.pre.index t.post.index)
    {before after : List (Entry AccountId Hash)}
    (hfeed : feed chain t.pre.lastBlockNumberFile t.input.head = before ++ after)
    (hsymbols : t.post.index.symbols = (t.pre.index.read codec before).symbols) :
    Recovering codec chain n (tr ++ [t]) t.post := by
  refine ⟨?_, ?_, fun hindexable hall => ?_, fun hindexable hnot => ?_⟩
  · rw [hfile]
    exact h.file_le
  · -- what was read of the range before the crash is read again
    have hall := feed_split chain h.file_le hup
    rw [hfeed, List.append_assoc] at hall
    rw [hfile, hsymbols]
    exact (between_read hall h.symbols).back
  · rw [List.forall_mem_append, List.forall_mem_singleton] at hall
    obtain ⟨hdeals, huser⟩ := htouched.untouched (hall.2 hsave)
    obtain ⟨hsame, hsame'⟩ := h.clean hindexable hall.1
    rw [hfile]
    exact ⟨Eq.trans hdeals hsame, Eq.trans huser hsame'⟩
  · rw [hfile]
    by_cases hclean : CrashesBeforeDeals t
    · rw [forall_clean_snoc hclean] at hnot
      exact Nat.lt_of_lt_of_le (h.dirty hindexable hnot) htouched.le
    · have hmem : .insert .deals ∈ t.output := by
        by_contra hnone
        exact hclean fun _ => hnone
      have hless : t.pre.deals.length < t.post.deals.length := htouched.inserted hmem
      by_cases hbefore : ∀ u ∈ tr, CrashesBeforeDeals u
      · rw [← (h.clean hindexable hbefore).1]
        exact hless
      · exact Nat.lt_trans (h.dirty hindexable hbefore) hless

end Step

/-- **One round.** -/
theorem Recovering.step (h : Recovering codec chain n tr data) {round : Round}
    (hup : UpTo n ((indexing codec chain).fire data round)) :
    Recovering codec chain n (tr ++ [(indexing codec chain).fire data round])
      ((indexing codec chain).fire data round).post := by
  cases round_outcome data round with
  | saved hsave hindex => exact Recovering.saved h hup hsave hindex
  | crashed hsave hfile htouched before after hfeed hsymbols =>
    exact Recovering.crashed h hup hsave hfile htouched hfeed hsymbols

theorem recovering_of_run (hrun : (indexing codec chain).Run (UpTo n) .empty tr data) :
    Recovering codec chain n tr data :=
  hrun.invariant recovering_start fun _ _ _ _ h hup => h.step hup

/-! ## The deals after a run -/

def UserDealDoc.with_symbol (doc : UserDealDoc) (assetSymbol : String) : UserDealDoc :=
  { doc with assetSymbol, pair := assetSymbol ++ "/" ++ "ECO2" }

variable (codec chain) in
/-- The data of a process that goes up to block `n` without a crash. -/
def crash_free (n : ℕ) : Data := (processEventsInRange codec api chain 1 n).exec .empty

variable (codec chain) in
/-- The deals as they should be once the worker has caught up with block `n`: apart from
the symbol of the asset, one document for every deal and two for its parties; and all the
same as without a crash. -/
structure Recovered (n : ℕ) (data : Data) : Prop where
  deals : (data.deals.map (DealDoc.with_symbol · "")).Perm
    ((feed chain 0 n).filterMap (deal_of codec))
  userDeals : (data.userDeals.map (UserDealDoc.with_symbol · "")).Perm
    (((feed chain 0 n).filterMap (deal_of codec)).flatMap DealDoc.parties)
  same_deals : data.deals.Perm (crash_free codec api chain n).deals
  same_userDeals : data.userDeals.Perm (crash_free codec api chain n).userDeals

theorem crash_free_index :
    (crash_free codec api chain n).index = Data.empty.index.read codec (feed chain 0 n) := by
  unfold crash_free
  rw [processEventsInRange_eq codec api chain 0 n, forM_index]

variable (codec) in
theorem crash_free_deals (chain : ℕ → List (Record AccountId Hash)) (n : ℕ) :
    (crash_free codec api chain n).deals
        = (Data.empty.index.read codec (feed chain 0 n)).deals
      ∧ (crash_free codec api chain n).userDeals
        = (Data.empty.index.read codec (feed chain 0 n)).userDeals :=
  ⟨congrArg DealIndex.deals (crash_free_index api),
    congrArg DealIndex.userDeals (crash_free_index api)⟩

theorem parties_with_symbol (docs : List DealDoc) :
    (docs.flatMap DealDoc.parties).map (UserDealDoc.with_symbol · "")
      = (docs.map (DealDoc.with_symbol · "")).flatMap DealDoc.parties := by
  rw [List.map_flatMap, List.flatMap_map]
  rfl

/-- Without a crash, the deals are as they should be where all can be indexed. -/
theorem recovered_crash_free (h : Indexable codec (feed chain 0 n)) :
    Recovered codec api chain n (crash_free codec api chain n) := by
  have hstart : FirstWrite.Between (announced codec) (feed chain 0 n) []
      Data.empty.index.symbols := FirstWrite.Between.start
  obtain ⟨docs, hdocs, ⟨hdeals, huser⟩, -⟩ :=
    read_added h (List.append_nil _).symm hstart hstart
  obtain ⟨hsame, hsame'⟩ := crash_free_deals codec api chain n
  refine ⟨?_, ?_, .rfl, .rfl⟩
  · rw [hsame, hdeals, ← hdocs]
    exact .rfl
  · rw [hsame', huser, ← hdocs]
    change ((docs.flatMap DealDoc.parties).map (UserDealDoc.with_symbol · "")).Perm _
    rw [parties_with_symbol]

/-- **Crash recovery.** Once the worker has caught up, the deals are as they should be if
and only if every deal can be indexed at all, and no crash comes after an insert into
`deals` whose round has not saved its block number. -/
theorem deals_recovered_iff (hrun : (indexing codec chain).Run (UpTo n) .empty tr data)
    (hcaught : data.lastBlockNumberFile = n) :
    Recovered codec api chain n data
      ↔ Indexable codec (feed chain 0 n) ∧ ∀ t ∈ tr, CrashesBeforeDeals t := by
  have hrecovering := recovering_of_run hrun
  obtain ⟨hsame, hsame'⟩ := crash_free_deals codec api chain n
  constructor
  · intro h
    have hlength := h.same_deals.length_eq
    have hdocs := h.deals.length_eq
    rw [hsame] at hlength
    rw [List.length_map, hlength] at hdocs
    have hindexable : Indexable codec (feed chain 0 n) := indexable_iff.2.mpr hdocs
    refine ⟨hindexable, ?_⟩
    by_contra hcrash
    have hmore := hrecovering.dirty hindexable hcrash
    rw [hcaught, ← hlength] at hmore
    exact Nat.lt_irrefl _ hmore
  · rintro ⟨hindexable, hall⟩
    obtain ⟨hdeals, huser⟩ := hrecovering.clean hindexable hall
    rw [hcaught, ← hsame] at hdeals
    rw [hcaught, ← hsame'] at huser
    have hfree := recovered_crash_free api hindexable
    exact ⟨hdeals ▸ hfree.deals, huser ▸ hfree.userDeals, hdeals ▸ .rfl, huser ▸ .rfl⟩

end Rounds

/-! ## Two runs -/

/-- Identifiers printed as numbers, and ASCII. -/
def decimal : Codec ℕ ℕ where
  account := toString
  hash := toString
  utf8 bytes := String.ofList (bytes.map fun b => Char.ofNat b.toNat)

def no_proposals : Api where
  proposalOf _ := some none

/-- Block 1 announces asset 2, and block 2 has a deal in it. -/
def one_deal : ℕ → List (Record ℕ ℕ)
  | 1 => [.pallet (.carbonAssets (.AssetSubmited 1 2 [69] [50, 49] 1 7))]
  | 2 => [.pallet (.carbonExchange (.NewDeal 3 2 0 1 2 5 10 0 8))]
  | _ => []

/-- The first round, up to block 1, is over; the second looks the asset of the deal up,
and crashes; the third is over. -/
def crash_before_deal : List Round :=
  [⟨1, no_proposals, none⟩, ⟨2, no_proposals, some 1⟩, ⟨2, no_proposals, none⟩]

theorem deals_recovered_crash_before_deal :
    Recovered decimal no_proposals one_deal 2
        ((indexing decimal one_deal).final .empty crash_before_deal)
      ↔ Indexable decimal (feed one_deal 0 2)
        ∧ ∀ t ∈ (indexing decimal one_deal).trace .empty crash_before_deal,
          CrashesBeforeDeals t :=
  deals_recovered_iff no_proposals (Machine.run_trace _ _ (by decide)) (by decide)

/-- The first round inserts the asset, its proposal and the deal, and crashes; the second
is over. -/
def crash_after_deal : List Round :=
  [⟨2, no_proposals, some 4⟩, ⟨2, no_proposals, none⟩]

/-- **A deal twice.** The worker has caught up, and the one deal of the chain has two
documents; without the crash it has one. -/
theorem crash_after_deal_duplicates :
    (indexing decimal one_deal).Run (UpTo 2) .empty
      ((indexing decimal one_deal).trace .empty crash_after_deal)
      ((indexing decimal one_deal).final .empty crash_after_deal)
    ∧ ((indexing decimal one_deal).final .empty crash_after_deal).lastBlockNumberFile = 2
    ∧ ((indexing decimal one_deal).final .empty crash_after_deal).deals.length = 2
    ∧ (crash_free decimal no_proposals one_deal 2).deals.length = 1
    ∧ ((feed one_deal 0 2).filterMap (deal_of decimal)).length = 1
    ∧ ¬Recovered decimal no_proposals one_deal 2
      ((indexing decimal one_deal).final .empty crash_after_deal) := by
  refine ⟨Machine.run_trace _ _ (by decide), by decide, by decide, by decide, by decide,
    fun hrecovered => ?_⟩
  have hlength := hrecovered.same_deals.length_eq
  revert hlength
  decide

end Eco2.Indexer
