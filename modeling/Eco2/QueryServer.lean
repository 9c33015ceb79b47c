/-
`example/events-listener.ts`: the query server.

The server answers from the collections that the indexer writes: how many documents match
a filter, and those of one page, sorted by their timestamps. A page is told by two numbers
in the query string, which `parseInt` reads, so what a client prints the server reads
(`getPaginationParams_page`). The cursor of the document store is not in the repository, so it
is a parameter, and `Documented` is what its documentation says of it. The counts and the
page of a reply are read one after the other, and the indexer may write in between: a
request takes the store as each of its reads finds it.

Of a request only the query string is modelled, with a parameter given at most once; of a
reply only what it is about. Numbers from `2 ^ 53` on, which the server rounds, are left
out, and so are errors of the store.
-/
import Eco2.CatalogueRecovery
import Eco2.PotentialBalances

set_option autoImplicit false

namespace Eco2.Indexer

/-! ## Requests -/

/-- `request.query`: what the query string says of a parameter. -/
abbrev Query := String → Option String

/-- A parameter that is tested: there, and not empty. -/
def Query.given (query : Query) (name : String) : Option String :=
  (query name).filter fun val => val != ""

def parseIntOr (val : Option String) (dft : ℤ) : ℤ := (val.bind parseInt).getD dft

def LIMIT : ℤ := 25

structure Pagination where
  offset : ℤ
  limit : ℤ

def getPaginationParams (query : Query) : Pagination where
  offset := parseIntOr (query "offset") 0
  limit := parseIntOr (query "limit") LIMIT

/-- `sortBy.timestamp`. -/
def sort_direction (query : Query) : ℤ := if parseIntOr (query "reverse") 0 ≠ 0 then -1 else 1

/-- A field of a filter: where it is there, a document has to have its value. -/
def wants {V : Type} [BEq V] (wanted : Option V) (value : V) : Bool :=
  wanted.all fun v => value == v

/-- A field of a filter that is a number. -/
def Query.number (query : Query) (name : String) (dft : ℤ) : Option ℤ :=
  (query.given name).map fun val => parseIntOr (some val) dft

/-- The request for `limit` documents from `offset` on. -/
def Query.page (query : Query) (offset limit : ℕ) : Query :=
  Function.update (Function.update query "offset" (some (toString offset))) "limit"
    (some (toString limit))

section Page

variable {query : Query} {offset limit : ℕ}

theorem getPaginationParams_page :
    getPaginationParams (query.page offset limit) = ⟨offset, limit⟩ := by
  have hoffset : query.page offset limit "offset" = some (toString offset) := by
    unfold Query.page
    rw [Function.update_of_ne (by decide), Function.update_self]
  have hlimit : query.page offset limit "limit" = some (toString limit) := Function.update_self ..
  unfold getPaginationParams parseIntOr
  rw [hoffset, hlimit, Option.bind_some, Option.bind_some, parseInt_toString, parseInt_toString]
  rfl

/-- The other parameters are those of the query. -/
theorem Query.page_of_ne {name : String} (hoffset : name ≠ "offset") (hlimit : name ≠ "limit") :
    query.page offset limit name = query name := by
  unfold Query.page
  rw [Function.update_of_ne hlimit, Function.update_of_ne hoffset]

theorem sort_direction_page : sort_direction (query.page offset limit) = sort_direction query := by
  unfold sort_direction
  rw [Query.page_of_ne (by decide) (by decide)]

theorem Query.given_page {name : String} (hoffset : name ≠ "offset") (hlimit : name ≠ "limit") :
    (query.page offset limit).given name = query.given name := by
  unfold Query.given
  rw [Query.page_of_ne hoffset hlimit]

theorem Query.number_page {name : String} (hoffset : name ≠ "offset") (hlimit : name ≠ "limit")
    (dft : ℤ) : (query.page offset limit).number name dft = query.number name dft := by
  unfold Query.number
  rw [Query.given_page hoffset hlimit]

end Page

/-! ## Replies -/

/-- The store's cursor: `find(query).sort({ timestamp: direction }).skip(skip).limit(limit)`. -/
structure Cursor where
  exec : {D : Type} → (D → ℕ) → List D → (D → Bool) → (direction skip limit : ℤ) → List D

/-- What the documentation of the store says of it: the documents that match, sorted, then
so many of them skipped, and so many taken. -/
structure Cursor.Documented (cursor : Cursor) : Prop where
  exec : ∀ {D : Type} (timestamp : D → ℕ) (docs : List D) (query : D → Bool) (direction : ℤ),
    ∃ sorted : List D, sorted.Perm (docs.filter query)
      ∧ sorted.Pairwise (fun a b => direction * timestamp a ≤ direction * timestamp b)
      ∧ ∀ skip limit : ℕ, 0 < limit →
        cursor.exec timestamp docs query direction skip limit = (sorted.drop skip).take limit

/-- The result of a request. -/
structure Page (D : Type) where
  count : ℕ
  docs : List D

/-- A path of the server: the collection that it shows, and how it reads a filter off the
query string, which does not depend on the page that is asked for. -/
structure Endpoint (D : Type) where
  collection : Collection D
  timestamp : D → ℕ
  filter : Query → D → Bool
  filter_page : ∀ (query : Query) (offset limit : ℕ),
    filter (query.page offset limit) = filter query

/-- The reply of a path. `counted` is the store as it is counted, `found` as it is
searched. -/
def findWithComplexCondition (cursor : Cursor) {D : Type} (endpoint : Endpoint D) (query : Query)
    (counted found : Data) : Page D where
  count := (endpoint.collection.docs counted).countP (endpoint.filter query)
  docs := cursor.exec endpoint.timestamp (endpoint.collection.docs found) (endpoint.filter query)
    (sort_direction query) (getPaginationParams query).offset (getPaginationParams query).limit

/-- `/carbon_projects`. -/
def carbon_projects : Endpoint CarbonProjectDoc where
  collection := carbonProjects
  timestamp := CarbonProjectDoc.timestamp
  filter query doc :=
    wants (query.given "owner") doc.owner && wants (query.number "approved" 1) (doc.approved : ℤ)
  filter_page query offset limit := by
    rw [Query.given_page (by decide) (by decide), Query.number_page (by decide) (by decide)]

/-- `/carbon_assets`. -/
def carbon_assets : Endpoint CarbonAssetDoc where
  collection := carbonAssets
  timestamp := CarbonAssetDoc.timestamp
  filter query doc :=
    wants (query.given "owner") doc.owner && wants (query.number "approved" 1) (doc.approved : ℤ)
  filter_page query offset limit := by
    rw [Query.given_page (by decide) (by decide), Query.number_page (by decide) (by decide)]

/-- `/carbon_proposals`, which is sent with `statProposals`. -/
def carbon_proposals : Endpoint CarbonProposalDoc where
  collection := carbonProposals
  timestamp := CarbonProposalDoc.timestamp
  filter query doc := wants (query.number "state" 0) (doc.state : ℤ)
  filter_page query offset limit := by
    rw [Query.number_page (by decide) (by decide)]

/-- `/carbon_orders`. -/
def carbon_orders : Endpoint OrderDoc where
  collection := orders
  timestamp := OrderDoc.timestamp
  filter query doc :=
    wants (query.given "owner") doc.owner && wants (query.number "closed" 0) (doc.closed : ℤ)
      && wants (query.number "direction" 0) (doc.direction : ℤ)
  filter_page query offset limit := by
    rw [Query.given_page (by decide) (by decide), Query.number_page (by decide) (by decide),
      Query.number_page (by decide) (by decide)]

/-- `/carbon_deals`, without an owner. -/
def carbon_deals : Endpoint DealDoc where
  collection := deals
  timestamp := DealDoc.timestamp
  filter _ _ := true
  filter_page _ _ _ := rfl

/-- `/carbon_deals`, of an owner. -/
def carbon_deals_of : Endpoint UserDealDoc where
  collection := userDeals
  timestamp := UserDealDoc.timestamp
  filter query doc := wants (query.given "owner") doc.owner
  filter_page query offset limit := by
    rw [Query.given_page (by decide) (by decide)]

/-- The reply of `/carbon_deals`: the deals of an account, each as of that account, or all. -/
def get_carbon_deals (cursor : Cursor) (query : Query) (counted found : Data) :
    Page UserDealDoc ⊕ Page DealDoc :=
  if (query.given "owner").isSome then
    .inl (findWithComplexCondition cursor carbon_deals_of query counted found)
  else .inr (findWithComplexCondition cursor carbon_deals query counted found)

/-- `/standard_assets`. -/
def standard_assets : Endpoint StandardAssetDoc where
  collection := standardAssets
  timestamp := StandardAssetDoc.timestamp
  filter query doc := wants (query.given "owner") doc.owner
  filter_page query offset limit := by
    rw [Query.given_page (by decide) (by decide)]

/-- The reply of `/potential_balances`, of one account only, and all at once. No document
lacks its account, so none is found where the query does not name one. -/
def get_potential_balances (query : Query) (found : Data) : List PotentialBalanceDoc :=
  match query "account" with
  | some account => potential_balances found account
  | none => []

/-- The numbers of proposals, by state. -/
structure ProposalCounts where
  pending : ℕ
  voting : ℕ
  closed : ℕ
  total : ℕ

/-- The four counts, each with the store as it is counted. -/
def statProposals (pending voting closed total : Data) : ProposalCounts where
  pending := pending.carbonProposals.countP fun doc => doc.state == 0
  voting := voting.carbonProposals.countP fun doc => doc.state == 1
  closed := closed.carbonProposals.countP fun doc => doc.state == 2
  total := total.carbonProposals.countP fun _ => true

/-! ## Pages -/

section Pages

variable {cursor : Cursor} {D : Type}

/-- The first pages of a list make up its beginning. -/
theorem flatMap_range_pages (l : List D) (limit n : ℕ) :
    ((List.range n).flatMap fun i => (l.drop (i * limit)).take limit) = l.take (n * limit) := by
  induction n with
  | zero => simp
  | succ n ih =>
    rw [List.range_succ, List.flatMap_append, ih, List.flatMap_singleton, Nat.succ_mul,
      List.take_add]

variable (cursor) in
/-- What a client is sent that asks for `n` pages of `limit` documents, one after the other. -/
def Endpoint.pages (endpoint : Endpoint D) (query : Query) (limit n : ℕ) (data : Data) : List D :=
  (List.range n).flatMap fun i =>
    (findWithComplexCondition cursor endpoint (query.page (i * limit) limit) data data).docs

/-- The count of a reply is the number of the documents that match. -/
theorem count_eq (endpoint : Endpoint D) (query : Query) (counted found : Data) :
    (findWithComplexCondition cursor endpoint query counted found).count
      = ((endpoint.collection.docs counted).filter (endpoint.filter query)).length :=
  List.countP_eq_length_filter

/-- The pages tile the matches. There is one order of the documents that match, by their
timestamps, in which the pages of any size show them; and whoever asks for pages up to
the count of a reply is shown all. -/
theorem pages_tile (hcursor : cursor.Documented) (endpoint : Endpoint D) (query : Query)
    (data : Data) : ∃ sorted : List D,
      sorted.Perm ((endpoint.collection.docs data).filter (endpoint.filter query))
      ∧ sorted.Pairwise (fun a b =>
          sort_direction query * endpoint.timestamp a ≤ sort_direction query * endpoint.timestamp b)
      ∧ ∀ limit n : ℕ, 0 < limit →
        endpoint.pages cursor query limit n data = sorted.take (n * limit)
        ∧ ((findWithComplexCondition cursor endpoint query data data).count ≤ n * limit →
          endpoint.pages cursor query limit n data = sorted) := by
  obtain ⟨sorted, hperm, hsorted, hexec⟩ := hcursor.exec endpoint.timestamp
    (endpoint.collection.docs data) (endpoint.filter query) (sort_direction query)
  have hpages (limit n : ℕ) (hlimit : 0 < limit) :
      endpoint.pages cursor query limit n data = sorted.take (n * limit) := by
    rw [← flatMap_range_pages]
    refine congrArg (fun f => (List.range n).flatMap f) (funext fun i => ?_)
    unfold findWithComplexCondition
    rw [endpoint.filter_page, sort_direction_page, getPaginationParams_page]
    exact hexec (i * limit) limit hlimit
  refine ⟨sorted, hperm, hsorted, fun limit n hlimit => ⟨hpages limit n hlimit, fun hcount => ?_⟩⟩
  rw [count_eq, ← hperm.length_eq] at hcount
  rw [hpages limit n hlimit, List.take_of_length_le hcount]

/-- A cursor: the matches sorted, and cut. -/
def sorting_cursor : Cursor where
  exec timestamp docs query direction skip limit :=
    (((docs.filter query).mergeSort fun a b =>
      decide (direction * timestamp a ≤ direction * timestamp b)).drop skip.toNat).take limit.toNat

theorem documented_sorting_cursor : sorting_cursor.Documented where
  exec timestamp docs query direction := by
    refine ⟨_, List.mergeSort_perm _ fun a b =>
      decide (direction * timestamp a ≤ direction * timestamp b), ?_, fun skip limit _ => rfl⟩
    refine (List.pairwise_mergeSort (fun a b c hab hbc => ?_) (fun a b => ?_) _).imp
      fun h => of_decide_eq_true h
    · simp only [decide_eq_true_eq] at hab hbc ⊢
      exact hab.trans hbc
    · simp only [Bool.or_eq_true, decide_eq_true_eq]
      exact le_total _ _

end Pages

/-! ## Counts -/

section Counts

/-- The operation writes the collection. -/
def Operation.writes_to (name : CollectionName) (op : Operation) : Bool := op.writes == some name

section Collection

variable {D : Type} {c : Collection D} {α : Type} (q : D → Bool)

/-- What does not write the collection leaves its counts alone. -/
theorem Collection.Reads.drifts_of_within (h : c.Reads) {p : Handler α}
    {S : List CollectionName} (hS : c.name ∉ S) (hp : p.Always (Within S)) :
    p.Always (Program.Drifts (Operation.writes_to c.name) fun data => (c.docs data).countP q) := by
  refine hp.mono fun op data data' hwithin => Program.drifts_of_eq ?_
  rw [h.same data data' (hwithin.same c.name hS)]

/-- An insert adds one document at most. -/
theorem Collection.Reads.drifts_insertAsync (h : c.Reads) (doc : D) :
    (insertAsync c doc).Always
      (Program.Drifts (Operation.writes_to c.name) fun data => (c.docs data).countP q) := by
  have hcounts : Operation.writes_to c.name (.insert c.name) = true := beq_self_eq_true _
  refine fun data => ⟨?_, ?_⟩
  · unfold Program.Drifts Collection.insert
    rw [hcounts]
    split
    · exact ⟨Nat.le_add_right _ _, Nat.le_add_right _ _⟩
    · simp only [h.set_docs, List.countP_append, List.countP_singleton, Bool.toNat_true]
      split <;> constructor <;> omega
  · change (if (c.docs data).any (c.conflict doc) then Program.raise .uniqueViolated
      else Program.done () : Handler Unit).Always _
    split <;> trivial

/-- An update changes one document at most. -/
theorem Collection.Reads.drifts_updateAsync (h : c.Reads) (query : D → Bool) (set : D → D) :
    (updateAsync c query set).Always
      (Program.Drifts (Operation.writes_to c.name) fun data => (c.docs data).countP q) := by
  have hcounts : Operation.writes_to c.name (.update c.name) = true := beq_self_eq_true _
  refine fun data => ⟨?_, trivial⟩
  unfold Program.Drifts
  rw [hcounts]
  simp only [h.set_docs, Bool.toNat_true]
  obtain heq | ⟨old, new, before, after, -, -, hsplit, hreplaced⟩ :=
    List.exists_or_eq_self_of_replaceF (fun doc => if query doc then some (set doc) else none)
      (c.docs data)
  · rw [heq]
    exact ⟨Nat.le_succ _, Nat.le_succ _⟩
  · rw [hreplaced]
    generalize c.docs data = docs at hsplit
    subst hsplit
    simp only [List.countP_append, List.countP_cons]
    split <;> split <;> constructor <;> omega

end Collection

variable {AccountId Hash : Type} (codec : Codec AccountId Hash) (api : Api)
  (chain : ℕ → List (Record AccountId Hash)) (q : CarbonProposalDoc → Bool)

/-- In the course of a round a count of proposals moves with the writes of proposals. -/
theorem drifts_catch_up (first head : ℕ) :
    (catch_up codec api chain first head).Always
      (Program.Drifts (Operation.writes_to .carbonProposals) fun data =>
        data.carbonProposals.countP q) := by
  have hentry (e : Entry AccountId Hash) : (process_entry codec api e).Always
      (Program.Drifts (Operation.writes_to .carbonProposals) fun data =>
        data.carbonProposals.countP q) :=
    process_event_proposals codec api e.1
      (fun hnames hp => reads_carbonProposals.drifts_of_within q hnames hp)
      (fun _ _ _ _ => reads_carbonProposals.drifts_insertAsync q _)
      (fun _ _ _ _ => reads_carbonProposals.drifts_updateAsync q _ _) e.2
  have hsave : (saveLastBlockNumber head).Always
      (Program.Drifts (Operation.writes_to .carbonProposals) fun data =>
        data.carbonProposals.countP q) :=
    fun data => ⟨Program.drifts_of_eq rfl, trivial⟩
  rw [catch_up_eq]
  exact (Program.Always.forM fun e _ => hentry e).bind fun _ => hsave

/-- Every proposal is pending, voted on or closed. -/
theorem SoundProposals.countP {docs : List CarbonProposalDoc} (h : SoundProposals docs) :
    docs.countP (fun doc => doc.state == 0 || doc.state == 1)
        = docs.countP (fun doc => doc.state == 0) + docs.countP (fun doc => doc.state == 1)
      ∧ docs.countP (fun _ => true) = docs.countP (fun doc => doc.state == 0 || doc.state == 1)
        + docs.countP (fun doc => doc.state == 2) := by
  have hstate := h.proper
  clear h
  induction docs with
  | nil => exact ⟨rfl, rfl⟩
  | cons doc docs ih =>
    obtain ⟨hdoc, hdocs⟩ := List.forall_mem_cons.mp hstate
    obtain ⟨htwo, hall⟩ := ih hdocs
    have hlength : docs.countP (fun _ => true) = docs.length := congrFun List.countP_true docs
    simp only [List.countP_cons]
    obtain hzero | hone | htwo' := hdoc
    · simp only [hzero]
      constructor <;> simp <;> omega
    · simp only [hone]
      constructor <;> simp <;> omega
    · simp only [htwo']
      constructor <;> simp <;> omega

/-- What lies between two points, by way of a third. -/
theorem drop_take_append {α : Type} {l : List α} {i j k : ℕ} (hij : i ≤ j) (hjk : j ≤ k) :
    (l.take j).drop i ++ (l.take k).drop j = (l.take k).drop i := by
  obtain ⟨m, rfl⟩ := Nat.exists_eq_add_of_le hij
  have hfirst : ((l.take k).drop i).take m = (l.take (i + m)).drop i := by
    rw [List.take_drop, List.take_take, Nat.min_eq_left hjk]
  rw [← hfirst, ← List.drop_drop, List.take_append_drop]

variable {codec chain}

/-- **The numbers of proposals add up.** In every state of every run, after any crashes, the
proposals that are pending, voted on and closed are all proposals. A request that is served
while a round goes on counts at four points of it: then its numbers are off by no more
than there are writes of proposals between the first count and the last. -/
theorem proposals_counted {allowed : Transition Data Round (List Operation) → Prop}
    {tr : List (Transition Data Round (List Operation))} {data : Data}
    (hrun : (indexing codec chain).Run allowed .empty tr data) (head : ℕ) {k₁ k₂ k₃ k₄ : ℕ}
    (h₁₂ : k₁ ≤ k₂) (h₂₃ : k₂ ≤ k₃) (h₃₄ : k₃ ≤ k₄) :
    let round := catch_up codec api chain data.lastBlockNumberFile head
    let counts := statProposals (round.interrupt k₁ data) (round.interrupt k₂ data)
      (round.interrupt k₃ data) (round.interrupt k₄ data)
    let writes := (((round.labels data).take k₄).drop k₁).countP
      (Operation.writes_to .carbonProposals)
    counts.pending + counts.voting + counts.closed ≤ counts.total + writes
      ∧ counts.total ≤ counts.pending + counts.voting + counts.closed + writes := by
  intro round counts writes
  let count (q : CarbonProposalDoc → Bool) (k : ℕ) : ℕ :=
    (round.interrupt k data).carbonProposals.countP q
  let between (j k : ℕ) : ℕ :=
    (((round.labels data).take k).drop j).countP (Operation.writes_to .carbonProposals)
  have hdrift (q : CarbonProposalDoc → Bool) {j k : ℕ} (hjk : j ≤ k) :
      count q k ≤ count q j + between j k ∧ count q j ≤ count q k + between j k :=
    (drifts_catch_up codec api chain q data.lastBlockNumberFile head).drift hjk data
  -- at each point the proposals are in one of the three states
  have hsound (k : ℕ) : SoundProposals (round.interrupt k data).carbonProposals := by
    have hnext : (indexing codec chain).Run (fun _ => True) .empty
        (tr ++ [(indexing codec chain).fire data ⟨head, api, some k⟩]) (round.interrupt k data) :=
      (hrun.mono fun _ _ => trivial).snoc ⟨head, api, some k⟩ trivial
    exact reads_carbonProposals.sound_of_run (keeps_carbonProposals codec) hnext
  have hpending := hdrift (fun doc => doc.state == 0) h₁₂
  have hopen := hdrift (fun doc => doc.state == 0 || doc.state == 1) h₂₃
  have htotal := hdrift (fun _ => true) h₃₄
  have hwrites : between k₁ k₄ = between k₁ k₂ + (between k₂ k₃ + between k₃ k₄) := by
    change (((round.labels data).take k₄).drop k₁).countP _ = _
    rw [← drop_take_append h₁₂ (h₂₃.trans h₃₄), List.countP_append, ← drop_take_append h₂₃ h₃₄,
      List.countP_append]
  obtain ⟨hsplit₂, -⟩ := (hsound k₂).countP
  obtain ⟨-, hsplit₃⟩ := (hsound k₃).countP
  change count (fun doc => doc.state == 0) k₁ + count (fun doc => doc.state == 1) k₂
      + count (fun doc => doc.state == 2) k₃ ≤ count (fun _ => true) k₄ + between k₁ k₄
    ∧ count (fun _ => true) k₄ ≤ count (fun doc => doc.state == 0) k₁
      + count (fun doc => doc.state == 1) k₂ + count (fun doc => doc.state == 2) k₃
      + between k₁ k₄
  change count (fun doc => doc.state == 0 || doc.state == 1) k₂
    = count (fun doc => doc.state == 0) k₂ + count (fun doc => doc.state == 1) k₂ at hsplit₂
  change count (fun _ => true) k₃ = count (fun doc => doc.state == 0 || doc.state == 1) k₃
    + count (fun doc => doc.state == 2) k₃ at hsplit₃
  omega

end Counts

/-- A process that is interrupted within the first block. -/
def devnet_first_round : List Round := [⟨1, no_proposals, some 1⟩]

def devnet_interrupted : Data :=
  (indexing devnet_codec devnet_chain).final .empty devnet_first_round

theorem devnet_interrupted_run : (indexing devnet_codec devnet_chain).Run (fun _ => True) .empty
    ((indexing devnet_codec devnet_chain).trace .empty devnet_first_round)
    devnet_interrupted :=
  Machine.run_trace Data.empty devnet_first_round fun _ _ => trivial

theorem proposals_counted_devnet :
    let round := catch_up devnet_codec no_proposals devnet_chain
      devnet_interrupted.lastBlockNumberFile 6
    let counts := statProposals (round.interrupt 0 devnet_interrupted)
      (round.interrupt 3 devnet_interrupted) (round.interrupt 4 devnet_interrupted)
      (round.interrupt 8 devnet_interrupted)
    let writes := (((round.labels devnet_interrupted).take 8).drop 0).countP
      (Operation.writes_to .carbonProposals)
    counts.pending + counts.voting + counts.closed ≤ counts.total + writes
      ∧ counts.total ≤ counts.pending + counts.voting + counts.closed + writes :=
  proposals_counted no_proposals devnet_interrupted_run 6 (Nat.zero_le 3) (Nat.le_succ 3)
    (Nat.le_add_right 4 4)

end Eco2.Indexer
