/-
What a crash does to a submission.

The handlers of `ProjectSubmited` and `AssetSubmited` make two inserts: the document of the
project or asset, and the proposal that it be approved. A process that stops between the
two reads the event again when it is restarted, but then the first insert is refused by
the unique index and the handler is left, so the proposal is never made up for: the
project or asset is on file for good, and no proposal for it. `torn_iff` says that this
is what it takes, in any run and with any number of crashes: such a document is there
exactly where the process has stopped right after the operation that filed it.

The view of the store is two flags, whether the document and whether the proposal is on
file, and each handler keeps the view or passes through it in two operations in a row.
-/
import Eco2.ChainLog
import Eco2.Documents

set_option autoImplicit false
set_option linter.unusedSectionVars false

namespace Eco2.Indexer

open CarbonAssets (RequestKind)

/-! ## Keys on file -/

/-- A document with this key is in the collection. -/
def Collection.on_file {D : Type} (c : Collection D) (key : D → String) (k : String)
    (data : Data) : Bool :=
  (c.docs data).any fun doc => key doc == k

section OnFile

variable {α D : Type} {c : Collection D} {key : D → String} {k : String} {p : Handler α}
  {data data' : Data}

theorem Collection.Reads.on_file_congr (h : c.Reads) (hsame : data.SameAt data' c.name) :
    c.on_file key k data' = c.on_file key k data :=
  congrArg (List.any · fun doc => key doc == k) (h.same data data' hsame)

/-- An insert of a key, which is refused where the key is on file. -/
theorem Collection.Reads.on_file_insert (h : c.Reads) (hkeyed : c.Keyed key) (doc : D)
    (data : Data) :
    c.on_file key k (c.insert doc data) = (c.on_file key k data || key doc == k) := by
  unfold Collection.insert Collection.on_file
  by_cases hconflict : (c.docs data).any (c.conflict doc) = true
  · rw [if_pos hconflict]
    by_cases hk : key doc = k
    · rw [hkeyed.any_conflict, hk] at hconflict
      rw [hconflict, Bool.true_or]
    · rw [beq_false_of_ne hk, Bool.or_false]
  · rw [if_neg hconflict, h.set_docs, List.any_append, List.any_cons, List.any_nil, Bool.or_false]

theorem Collection.Reads.quiet_of_within (h : c.Reads) {S : List CollectionName}
    (hp : p.Always (Within S)) (hS : c.name ∉ S) : p.Quiet (c.on_file key k) :=
  hp.mono fun _ _ _ hwithin => h.on_file_congr (hwithin.same c.name hS)

theorem Collection.Reads.quiet_insertAsync (h : c.Reads) (hkeyed : c.Keyed key) {doc : D}
    (hdoc : key doc ≠ k) : (insertAsync c doc).Quiet (c.on_file key k) := by
  refine fun data => ⟨?_, ?_⟩
  · change c.on_file key k (c.insert doc data) = c.on_file key k data
    rw [h.on_file_insert hkeyed, beq_false_of_ne hdoc, Bool.or_false]
  · change (if (c.docs data).any (c.conflict doc) then Program.raise .uniqueViolated
      else Program.done () : Handler Unit).Quiet (c.on_file key k)
    split <;> trivial

theorem Collection.Reads.quiet_updateAsync (h : c.Reads) (query : D → Bool) {set : D → D}
    (hkey : ∀ doc, key (set doc) = key doc) :
    (updateAsync c query set).Quiet (c.on_file key k) := by
  refine fun data => ⟨?_, trivial⟩
  change ((c.docs (c.set_docs data _)).any fun doc => key doc == k)
    = (c.docs data).any fun doc => key doc == k
  rw [h.set_docs]
  obtain heq | ⟨old, new, before, after, -, hnew, hsplit, hreplaced⟩ :=
    List.exists_or_eq_self_of_replaceF (fun doc => if query doc then some (set doc) else none)
      (c.docs data)
  · rw [heq]
  · obtain rfl : set old = new := by
      simp only [Option.ite_none_right_eq_some, Option.some.injEq] at hnew
      exact hnew.2
    rw [hreplaced, hsplit, List.any_append, List.any_append, List.any_cons, List.any_cons, hkey]

end OnFile

/-! ## The document and the proposal -/

/-- Whether the document of a submission is on file; issues and burns have none. -/
def Data.listed (data : Data) (k : RequestKind) (key : String) : Bool :=
  match k with
  | .project => Indexer.carbonProjects.on_file CarbonProjectDoc.projectId key data
  | .asset => Indexer.carbonAssets.on_file CarbonAssetDoc.assetId key data
  | .issue => false
  | .burn => false

/-- Whether the proposal of a submission is on file. -/
def Data.filed (data : Data) (key : String) : Bool :=
  Indexer.carbonProposals.on_file CarbonProposalDoc.key key data

/-- The document is on file, and the proposal is not. -/
def Data.Torn (data : Data) (k : RequestKind) (key : String) : Prop :=
  data.listed k key = true ∧ data.filed key = false

instance (data : Data) (k : RequestKind) (key : String) : Decidable (data.Torn k key) :=
  inferInstanceAs (Decidable (_ ∧ _))

/-- Both flags. -/
def Data.submission (k : RequestKind) (key : String) (data : Data) : Bool × Bool :=
  (data.listed k key, data.filed key)

/-- Neither document nor proposal is there, the document alone, or both. -/
abbrev submission_states : List (Bool × Bool) := [(false, false), (true, false), (true, true)]

/-- The request that an event announces, under its printed key. -/
def submitted {AccountId Hash : Type} (codec : Codec AccountId Hash) :
    Record AccountId Hash → Option (RequestKind × String)
  | .pallet event => event.submits.map fun request => (request.1, codec.hash request.2)
  | _ => none

section Events

variable {AccountId Hash : Type} {codec : Codec AccountId Hash} {api : Api} {height : ℕ}
  {record : Record AccountId Hash} {key : String}

theorem quiet_of_untouched {D : Type} {c : Collection D} {f : D → String} (h : c.Reads)
    (htouched : c.name ∉ touched record) :
    (process_event codec api height record).Quiet (c.on_file f key) :=
  h.quiet_of_within (process_event_within codec api height record) htouched

theorem quiet_carbonProjects (hkey : submitted codec record ≠ some (.project, key)) :
    (process_event codec api height record).Quiet
      (carbonProjects.on_file CarbonProjectDoc.projectId key) := by
  have helse {α : Type} {p : Handler α} (hp : p.Always (Within [.carbonProposals])) :
      p.Quiet (carbonProjects.on_file CarbonProjectDoc.projectId key) :=
    reads_carbonProjects.quiet_of_within hp (by decide)
  cases record with
  | pallet event =>
    cases event with
    | carbonAssets event =>
      cases event with
      | ProjectSubmited project_id owner symbol now =>
        have hother : codec.hash project_id ≠ key := fun h => hkey (h ▸ rfl)
        exact Program.Always.attempt ((helse (within_toNumber now)).bind fun _ =>
          (reads_carbonProjects.quiet_insertAsync keyed_carbonProjects hother).bind fun _ =>
            helse (lawful_carbonProposals.insertAsync (by decide) _))
      | ProjectApproved project_id =>
        exact Program.Always.attempt ((reads_carbonProjects.quiet_updateAsync _
          (by exact fun _ => rfl)).bind fun _ => helse (within_close_approved (by decide) _))
      | _ => exact quiet_of_untouched reads_carbonProjects (by simp [touched, carbonProjects])
    | carbonExchange event =>
      cases event <;>
        exact quiet_of_untouched reads_carbonProjects (by simp [touched, carbonProjects])
    | standardAssets event =>
      cases event <;>
        exact quiet_of_untouched reads_carbonProjects (by simp [touched, carbonProjects])
  | carbonCommittee event =>
    exact quiet_of_untouched reads_carbonProjects (by simp [touched, carbonProjects])
  | other => exact quiet_of_untouched reads_carbonProjects (by simp [touched])

theorem quiet_carbonAssets (hkey : submitted codec record ≠ some (.asset, key)) :
    (process_event codec api height record).Quiet
      (carbonAssets.on_file CarbonAssetDoc.assetId key) := by
  have helse {α : Type} {p : Handler α}
      (hp : p.Always (Within [.carbonProposals, .potentialBalances])) :
      p.Quiet (carbonAssets.on_file CarbonAssetDoc.assetId key) :=
    reads_carbonAssets.quiet_of_within hp (by decide)
  cases record with
  | pallet event =>
    cases event with
    | carbonAssets event =>
      cases event with
      | AssetSubmited project_id asset_id symbol vintage owner now =>
        have hother : codec.hash asset_id ≠ key := fun h => hkey (h ▸ rfl)
        exact Program.Always.attempt ((helse (within_toNumber now)).bind fun _ =>
          (reads_carbonAssets.quiet_insertAsync keyed_carbonAssets hother).bind fun _ =>
            helse (lawful_carbonProposals.insertAsync (by decide) _))
      | AssetApproved asset_id =>
        exact Program.Always.attempt ((reads_carbonAssets.quiet_updateAsync _
          (by exact fun _ => rfl)).bind fun _ => (helse (within_asset_of _)).bind fun _ =>
            (helse (within_upsert_potential_balance (by decide) _)).bind fun _ =>
              helse (within_close_approved (by decide) _))
      | _ => exact quiet_of_untouched reads_carbonAssets (by simp [touched, carbonAssets])
    | carbonExchange event =>
      cases event <;> exact quiet_of_untouched reads_carbonAssets (by simp [touched, carbonAssets])
    | standardAssets event =>
      cases event <;> exact quiet_of_untouched reads_carbonAssets (by simp [touched, carbonAssets])
  | carbonCommittee event =>
    exact quiet_of_untouched reads_carbonAssets (by simp [touched, carbonAssets])
  | other => exact quiet_of_untouched reads_carbonAssets (by simp [touched])

theorem quiet_carbonProposals (hkey : ∀ k, submitted codec record ≠ some (k, key)) :
    (process_event codec api height record).Quiet
      (carbonProposals.on_file CarbonProposalDoc.key key) := by
  have helse {α : Type} {p : Handler α}
      (hp : p.Always (Within [.carbonProjects, .carbonAssets, .potentialBalances])) :
      p.Quiet (carbonProposals.on_file CarbonProposalDoc.key key) :=
    reads_carbonProposals.quiet_of_within hp (by decide)
  have hinsert {title : String} {type : ProposalType} {k : String} {timestamp : ℕ} (hk : k ≠ key) :
      (insertAsync carbonProposals (proposal_doc title type k height timestamp)).Quiet
        (carbonProposals.on_file CarbonProposalDoc.key key) :=
    reads_carbonProposals.quiet_insertAsync keyed_carbonProposals hk
  have hclose (k : String) :
      (close_approved k).Quiet (carbonProposals.on_file CarbonProposalDoc.key key) :=
    reads_carbonProposals.quiet_updateAsync _ fun _ => rfl
  have hrequest {title : String} {type : ProposalType} {request_id asset_id : Hash} {now : Moment}
      (hk : codec.hash request_id ≠ key) :
      (request_submited codec title type request_id asset_id now height).Quiet
        (carbonProposals.on_file CarbonProposalDoc.key key) :=
    (helse (within_toNumber now)).bind fun _ => (helse (within_asset_of _)).bind fun _ =>
      hinsert hk
  have hupdate (proposal_hash : Hash) {set : CarbonProposalDoc → CarbonProposalDoc}
      (hset : ∀ doc, (set doc).key = doc.key) : (update_proposal codec proposal_hash set).Quiet
        (carbonProposals.on_file CarbonProposalDoc.key key) :=
    reads_carbonProposals.quiet_updateAsync _ hset
  cases record with
  | pallet event =>
    cases event with
    | carbonAssets event =>
      cases event with
      | ProjectSubmited project_id owner symbol now =>
        exact Program.Always.attempt ((helse (within_toNumber now)).bind fun _ =>
          (helse (lawful_carbonProjects.insertAsync (by decide) _)).bind fun _ =>
            hinsert (fun h => hkey .project (h ▸ rfl)))
      | ProjectApproved project_id =>
        exact Program.Always.attempt ((helse (lawful_carbonProjects.updateAsync (by decide)
          _ _)).bind fun _ => hclose _)
      | AssetSubmited project_id asset_id symbol vintage owner now =>
        exact Program.Always.attempt ((helse (within_toNumber now)).bind fun _ =>
          (helse (lawful_carbonAssets.insertAsync (by decide) _)).bind fun _ =>
            hinsert (fun h => hkey .asset (h ▸ rfl)))
      | AssetApproved asset_id =>
        exact Program.Always.attempt ((helse (lawful_carbonAssets.updateAsync (by decide)
          _ _)).bind fun _ => (helse (within_asset_of _)).bind fun _ =>
            (helse (within_upsert_potential_balance (by decide) _)).bind fun _ => hclose _)
      | IssueSubmited issue_id asset_id owner amount now =>
        exact Program.Always.attempt (hrequest fun h => hkey .issue (h ▸ rfl))
      | IssueApproved issue_id => exact Program.Always.attempt (hclose _)
      | BurnSubmited burn_id asset_id owner amount now =>
        exact Program.Always.attempt (hrequest fun h => hkey .burn (h ▸ rfl))
      | BurnApproved burn_id => exact Program.Always.attempt (hclose _)
      | _ => exact quiet_of_untouched reads_carbonProposals (by simp [touched, carbonProposals])
    | carbonExchange event =>
      cases event <;>
        exact quiet_of_untouched reads_carbonProposals (by simp [touched, carbonProposals])
    | standardAssets event =>
      cases event <;>
        exact quiet_of_untouched reads_carbonProposals (by simp [touched, carbonProposals])
  | carbonCommittee event =>
    cases event with
    | Proposed account proposal_index proposal_hash threshold =>
      refine Program.Always.attempt ?_
      unfold carbonCommittee_Proposed
      simp only
      cases api.proposalOf (codec.hash proposal_hash) with
      | none => trivial
      | some answer =>
        cases answer with
        | none => trivial
        | some proposal => exact reads_carbonProposals.quiet_updateAsync _ fun _ => rfl
    | Voted account proposal_hash voted yes no =>
      exact Program.Always.attempt (hupdate proposal_hash fun _ => rfl)
    | Approved proposal_hash => exact Program.Always.attempt (hupdate proposal_hash fun _ => rfl)
    | Disapproved proposal_hash =>
      exact Program.Always.attempt (hupdate proposal_hash fun _ => rfl)
    | Closed proposal_hash yes no =>
      exact Program.Always.attempt (hupdate proposal_hash fun _ => rfl)
    | Executed => trivial
    | MemberExecuted => trivial
  | other => trivial

theorem quiet_listed {k : RequestKind} (hkey : submitted codec record ≠ some (k, key)) :
    (process_event codec api height record).Quiet (fun data => data.listed k key) := by
  cases k with
  | project => exact quiet_carbonProjects hkey
  | asset => exact quiet_carbonAssets hkey
  | issue =>
    exact (process_event_within codec api height record).mono fun _ _ _ _ => rfl
  | burn =>
    exact (process_event_within codec api height record).mono fun _ _ _ _ => rfl

/-- An event that submits nothing under the key keeps both flags. -/
theorem quiet_submission {k : RequestKind}
    (hkey : ∀ k, submitted codec record ≠ some (k, key)) :
    (process_event codec api height record).Quiet (Data.submission k key) := by
  have hlisted : (process_event codec api height record).Quiet fun data => data.listed k key :=
    quiet_listed (hkey k)
  have hfiled : (process_event codec api height record).Quiet fun data => data.filed key :=
    quiet_carbonProposals hkey
  exact (Program.Always.and hlisted hfiled).mono fun _ _ _ h => Prod.ext h.1 h.2

end Events

/-! ## The two inserts -/

section Submission

variable {D : Type} {c : Collection D} {f : D → String} {doc : D} {proposal : CarbonProposalDoc}
  {key : String}

theorem interrupt_insertAsync (doc : D) (data : Data) (k : ℕ) :
    (insertAsync c doc).interrupt (k + 1) data = c.insert doc data := by
  change (if (c.docs data).any (c.conflict doc) then Program.raise .uniqueViolated
    else Program.done () : Handler Unit).interrupt k (c.insert doc data) = _
  split <;> cases k <;> rfl

/-- An insert that is refused leaves the handler. -/
theorem interrupt_insertAsync_bind (doc : D) (f : Unit → Handler Unit) (data : Data) (k : ℕ) :
    (insertAsync c doc >>= f).interrupt (k + 1) data
      = if (c.docs data).any (c.conflict doc) then data
        else (f ()).interrupt k (c.insert doc data) := by
  change ((if (c.docs data).any (c.conflict doc) then Program.raise .uniqueViolated
    else Program.done () : Handler Unit) >>= f).interrupt k (c.insert doc data) = _
  by_cases h : (c.docs data).any (c.conflict doc) = true
  · have hrefused : c.insert doc data = data := if_pos h
    rw [if_pos h, if_pos h, hrefused]
    change (Program.raise .uniqueViolated : Handler Unit).interrupt k data = data
    cases k <;> rfl
  · rw [if_neg h, if_neg h]
    rfl

/-- From a store in one of the three states, the two inserts of a submission pass through
the state in between, or find the document on file and do nothing. -/
theorem passes_inserts {view : Data → Bool × Bool} (hreads : c.Reads) (hkeyed : c.Keyed f)
    (hlawful : c.Lawful) (hname : c.name ≠ .carbonProposals)
    (hview : ∀ data, view data
      = (c.on_file f key data, carbonProposals.on_file CarbonProposalDoc.key key data))
    (hdoc : f doc = key) (hproposal : proposal.key = key) {data : Data}
    (hdata : view data ∈ submission_states) :
    (insertAsync c doc >>= fun _ => insertAsync carbonProposals proposal).Passes view
      (false, false) (true, false) (true, true) data := by
  have hconflict : (c.docs data).any (c.conflict doc) = c.on_file f key data := by
    rw [hkeyed.any_conflict, hdoc]
    rfl
  by_cases hlisted : c.on_file f key data = true
  -- the first insert is refused
  · refine .inl fun k => ?_
    cases k with
    | zero => rw [Program.interrupt_zero]
    | succ k => rw [interrupt_insertAsync_bind, hconflict, if_pos hlisted]
  · rw [Bool.not_eq_true] at hlisted
    have hfiled : carbonProposals.on_file CarbonProposalDoc.key key data = false := by
      rw [hview, hlisted] at hdata
      cases h : carbonProposals.on_file CarbonProposalDoc.key key data with
      | false => rfl
      | true => simp [h] at hdata
    have hdocument : c.on_file f key (c.insert doc data) = true := by
      rw [hreads.on_file_insert hkeyed, hdoc, beq_self_eq_true, Bool.or_true]
    have hfirst : view (c.insert doc data) = (true, false) := by
      rw [hview, hdocument, hfiled.symm]
      exact congrArg (true, ·)
        (reads_carbonProposals.on_file_congr (hlawful.insert_sameAt doc data hname.symm))
    have hsecond : view (carbonProposals.insert proposal (c.insert doc data)) = (true, true) := by
      rw [hview, reads_carbonProposals.on_file_insert keyed_carbonProposals, hproposal,
        beq_self_eq_true, Bool.or_true]
      exact congrArg (·, true) ((hreads.on_file_congr
        (lawful_carbonProposals.insert_sameAt proposal (c.insert doc data) hname)).trans hdocument)
    refine .inr ⟨0, fun k => ?_⟩
    obtain _ | _ | k := k
    · rw [Program.interrupt_zero, Program.phase_of_le (Nat.le_refl 0), hview, hlisted, hfiled]
    · rw [interrupt_insertAsync_bind, hconflict, hlisted, if_neg Bool.false_ne_true,
        Program.interrupt_zero, hfirst]
      exact Program.phase_succ.symm
    · rw [interrupt_insertAsync_bind, hconflict, hlisted, if_neg Bool.false_ne_true,
        interrupt_insertAsync, hsecond, Program.phase_of_lt (by omega)]

end Submission

section Entries

variable {AccountId Hash : Type} {codec : Codec AccountId Hash} {api : Api}
  {chain : ℕ → List (Record AccountId Hash)} {k : RequestKind} {key : String} {data : Data}

theorem passes_raise {view : Data → Bool × Bool} {a b c : Bool × Bool} (e : JsError) :
    (Program.raise e : Handler Unit).Passes view a b c data :=
  .inl fun k => congrArg view (by cases k <;> rfl)

/-- The handler of the submission itself. -/
theorem passes_submission {height : ℕ} {event : Event AccountId Hash} {id : Hash}
    (hsubmits : event.submits = some (k, id)) (hlisted : k = .project ∨ k = .asset)
    (hdata : data.submission k (codec.hash id) ∈ submission_states) :
    (process_event codec api height (.pallet event)).Passes (Data.submission k (codec.hash id))
      (false, false) (true, false) (true, true) data := by
  have hraise {now : Moment} {f : ℕ → Handler Unit}
      (hf : ∀ timestamp, (f timestamp).Passes (Data.submission k (codec.hash id))
        (false, false) (true, false) (true, true) data) :
      (toNumber now >>= f).Passes (Data.submission k (codec.hash id))
        (false, false) (true, false) (true, true) data := by
    unfold toNumber
    by_cases h : now.toNat < 2 ^ 53
    · rw [if_pos h]
      exact hf _
    · rw [if_neg h]
      exact passes_raise _
  unfold Event.submits at hsubmits
  split at hsubmits <;> cases hsubmits
  · exact Program.Passes.attempt (hraise fun timestamp => passes_inserts reads_carbonProjects
      keyed_carbonProjects lawful_carbonProjects (by decide) (fun _ => rfl) rfl rfl hdata)
  · exact Program.Passes.attempt (hraise fun timestamp => passes_inserts reads_carbonAssets
      keyed_carbonAssets lawful_carbonAssets (by decide) (fun _ => rfl) rfl rfl hdata)
  · obtain h | h := hlisted <;> cases h
  · obtain h | h := hlisted <;> cases h

/-- The handler of any event, where its kind is the only one under the key. -/
theorem passes_process_entry {e : Entry AccountId Hash} (hlisted : k = .project ∨ k = .asset)
    (hkind : ∀ k', submitted codec e.2 = some (k', key) → k' = k)
    (hdata : data.submission k key ∈ submission_states) :
    (process_entry codec api e).Passes (Data.submission k key)
      (false, false) (true, false) (true, true) data := by
  obtain ⟨height, record⟩ := e
  by_cases hsubmitted : submitted codec record = some (k, key)
  · unfold submitted at hsubmitted
    split at hsubmitted
    · obtain ⟨⟨k', id⟩, hsubmits, heq⟩ := Option.map_eq_some_iff.mp hsubmitted
      obtain ⟨rfl, rfl⟩ := Prod.ext_iff.mp heq
      exact passes_submission hsubmits hlisted hdata
    · cases hsubmitted
  · refine Program.Quiet.passes (quiet_submission fun k' hk' => ?_) data
    obtain rfl := hkind k' hk'
    exact hsubmitted hk'

/-- A range of blocks, and the file. -/
theorem passes_catch_up {first head : ℕ} (hlisted : k = .project ∨ k = .asset)
    (hkind : ∀ e ∈ feed chain first head, ∀ k', submitted codec e.2 = some (k', key) → k' = k)
    (hdata : data.submission k key ∈ submission_states) :
    (catch_up codec api chain first head).Passes (Data.submission k key)
      (false, false) (true, false) (true, true) data := by
  have hne : ((false, false) : Bool × Bool) ≠ (true, true) := by decide
  have hne' : ((true, false) : Bool × Bool) ≠ (true, true) := by decide
  have hsave : (saveLastBlockNumber head).Quiet (Data.submission k key) :=
    fun data => ⟨by cases k <;> rfl, trivial⟩
  rw [catch_up_eq]
  refine Program.Passes.bind hne hne' ?_ (result_entries codec api _ data) ?_
  · exact Program.Passes.forM hne hne' (process_entry_result codec api)
      (fun e he _ => passes_process_entry hlisted (hkind e he)) hdata
  · exact hsave.passes _

end Entries

/-! ## Rounds -/

section Rounds

variable {AccountId Hash : Type} (codec : Codec AccountId Hash)
  (chain : ℕ → List (Record AccountId Hash))

/-- The process has stopped in this round, right after the operation that filed the
document. -/
def Tears (t : Transition Data Round (List Operation)) (k : RequestKind) (key : String) : Prop :=
  ∃ n, t.input.crash = some (n + 1)
    ∧ ((catch_up codec t.input.api chain t.pre.lastBlockNumberFile t.input.head).interrupt n
      t.pre).listed k key = false
    ∧ ((catch_up codec t.input.api chain t.pre.lastBlockNumberFile t.input.head).interrupt (n + 1)
      t.pre).listed k key = true

variable {codec chain} {k : RequestKind} {key : String} {data : Data} {n : ℕ}

theorem phase_document_iff (i m : ℕ) :
    ((Program.phase (false, false) (true, false) (true, true) i m : Bool × Bool).1 = false)
      ↔ m ≤ i := by
  constructor
  · intro h
    by_contra hlt
    obtain rfl | hgt : m = i + 1 ∨ i + 1 < m := by omega
    · rw [Program.phase_succ] at h
      exact Bool.noConfusion h
    · rw [Program.phase_of_lt hgt] at h
      exact Bool.noConfusion h
  · intro hle
    rw [Program.phase_of_le hle]

theorem torn_iff_submission (data : Data) :
    data.Torn k key ↔ data.submission k key = (true, false) := by
  change _ ∧ _ ↔ (_, _) = _
  rw [Prod.mk.injEq]

/-- A round whose program passes through the state in between leaves a document without
its proposal where there was one, or where it stops in that state. -/
theorem torn_fire_iff {round : Round}
    (hpasses : (catch_up codec round.api chain data.lastBlockNumberFile round.head).Passes
      (Data.submission k key) (false, false) (true, false) (true, true) data) :
    ((indexing codec chain).fire data round).post.Torn k key
      ↔ data.Torn k key ∨ Tears codec chain ((indexing codec chain).fire data round) k key := by
  obtain ⟨head, api, crash⟩ := round
  have hne : ((true, false) : Bool × Bool) ≠ (true, true) := by decide
  rw [torn_iff_submission, torn_iff_submission]
  obtain hsame | ⟨i, hi⟩ := hpasses
  -- the round keeps the flags, so it does not file the document
  · have htears :
        ¬Tears codec chain ((indexing codec chain).fire data ⟨head, api, crash⟩) k key := by
      rintro ⟨n, -, hbefore, hafter⟩
      have hlisted := congrArg Prod.fst ((hsame n).trans (hsame (n + 1)).symm)
      exact Bool.noConfusion (hbefore.symm.trans (hlisted.trans hafter))
    rw [or_iff_left htears]
    cases crash with
    | none =>
      have hexec := hsame ((catch_up codec api chain data.lastBlockNumberFile head).labels
        data).length
      rw [Program.interrupt_of_le _ _ (Nat.le_refl _)] at hexec
      exact iff_of_eq (congrArg (· = (true, false)) hexec)
    | some m => exact iff_of_eq (congrArg (· = (true, false)) (hsame m))
  -- the round files it, and then its proposal
  · obtain ⟨hstart, -, hend⟩ := Program.phase_exec hne hi
    rw [hstart, or_iff_right (by decide)]
    cases crash with
    | none =>
      refine iff_of_false (fun h => ?_) fun ⟨n, hcrash, _⟩ => ?_
      · exact hne (h.symm.trans hend)
      · cases hcrash
    | some m =>
      have hlisted (n : ℕ) : ((catch_up codec api chain data.lastBlockNumberFile head).interrupt n
          data).listed k key = false ↔ n ≤ i := by
        rw [← phase_document_iff i n, ← hi n]
        rfl
      have hlisted' (n : ℕ) : ((catch_up codec api chain data.lastBlockNumberFile head).interrupt n
          data).listed k key = true ↔ ¬n ≤ i := by
        rw [← Bool.not_eq_false, hlisted]
      refine (iff_of_eq (congrArg (· = (true, false)) (hi m))).trans ?_
      rw [Program.phase_eq_iff (by decide) hne]
      constructor
      · rintro rfl
        exact ⟨i, rfl, (hlisted i).mpr (Nat.le_refl i),
          (hlisted' (i + 1)).mpr (Nat.not_succ_le_self i)⟩
      · rintro ⟨n, hcrash, hbefore, hafter⟩
        cases hcrash
        have hle := (hlisted n).mp hbefore
        have hlt := (hlisted' (n + 1)).mp hafter
        omega

variable (chain) in
theorem mem_feed_of_upTo {t : Transition Data Round (List Operation)} (hup : UpTo n t)
    {e : Entry AccountId Hash}
    (he : e ∈ feed chain t.pre.lastBlockNumberFile t.input.head) : e ∈ feed chain 0 n := by
  rw [feed_split chain (hup.1.trans hup.2) hup]
  exact List.mem_append_right _ (List.mem_append_left _ he)

/-- Where events are of one kind under each identifier, they are under each key. -/
theorem kind_of_submitted (hcodec : Function.Injective codec.hash)
    {es : List (Entry AccountId Hash)} (hkind : OneKind (pallet_events es))
    {e e' : Entry AccountId Hash} (he : e ∈ es) (he' : e' ∈ es) {k k' : RequestKind}
    (hsubmitted : submitted codec e.2 = some (k, key))
    (hsubmitted' : submitted codec e'.2 = some (k', key)) : k = k' := by
  have hannounced {e : Entry AccountId Hash} (he : e ∈ es) {k : RequestKind}
      (hsubmitted : submitted codec e.2 = some (k, key)) :
      ∃ id, codec.hash id = key ∧ Announced (pallet_events es) k id := by
    obtain ⟨height, record⟩ := e
    cases record with
    | pallet event =>
      obtain ⟨⟨k', id⟩, hsubmits, heq⟩ := Option.map_eq_some_iff.mp hsubmitted
      obtain ⟨rfl, hid⟩ := Prod.ext_iff.mp heq
      exact ⟨id, hid, event, List.mem_filterMap.mpr ⟨_, he, rfl⟩, hsubmits⟩
    | _ => cases hsubmitted
  obtain ⟨id, rfl, hfirst⟩ := hannounced he hsubmitted
  obtain ⟨id', hid, hsecond⟩ := hannounced he' hsubmitted'
  obtain rfl := hcodec hid
  exact hkind k k' _ hfirst hsecond

/-- A kind that nothing is submitted of under the key has no document there. -/
theorem not_listed_of_run
    (hnone : ∀ e ∈ feed chain 0 n, submitted codec e.2 ≠ some (k, key))
    {tr : List (Transition Data Round (List Operation))}
    (hrun : (indexing codec chain).Run (UpTo n) .empty tr data) :
    data.listed k key = false ∧ ∀ t ∈ tr, ¬Tears codec chain t k key := by
  apply hrun.invariant
    (I := fun tr data => data.listed k key = false ∧ ∀ t ∈ tr, ¬Tears codec chain t k key)
  · exact ⟨by cases k <;> rfl, List.forall_mem_nil _⟩
  intro tr data round _ ih hup
  obtain ⟨hlisted, htr⟩ := ih
  have hquiet : (catch_up codec round.api chain data.lastBlockNumberFile round.head).Quiet
      fun data => data.listed k key := by
    rw [catch_up_eq]
    refine Program.Always.bind (Program.Always.forM fun e he => ?_) fun _ => ?_
    · exact quiet_listed (hnone e (mem_feed_of_upTo chain hup he))
    · exact fun data => ⟨by cases k <;> rfl, trivial⟩
  constructor
  · obtain ⟨head, api, crash⟩ := round
    cases crash with
    | none => exact (hquiet.exec data).trans hlisted
    | some m => exact (hquiet.interrupt m data).trans hlisted
  · refine List.forall_mem_append.mpr ⟨htr, List.forall_mem_singleton.mpr ?_⟩
    rintro ⟨m, -, -, hafter⟩
    exact Bool.noConfusion ((hlisted.symm.trans (hquiet.interrupt (m + 1) data).symm).trans hafter)

/-- **Torn submissions.** In every run, with crashes between any two operations, a project
or asset is on file without its proposal if and only if the process has stopped in some
round right after the operation that filed it. -/
theorem torn_iff (hcodec : Function.Injective codec.hash)
    (hkind : OneKind (pallet_events (feed chain 0 n)))
    {tr : List (Transition Data Round (List Operation))}
    (hrun : (indexing codec chain).Run (UpTo n) .empty tr data) (k : RequestKind) (key : String) :
    data.Torn k key ↔ ∃ t ∈ tr, Tears codec chain t k key := by
  by_cases hsubmitted : ∃ e ∈ feed chain 0 n, submitted codec e.2 = some (k, key)
  swap
  · obtain ⟨hlisted, htr⟩ := not_listed_of_run
      (fun e he h => hsubmitted ⟨e, he, h⟩) hrun
    exact iff_of_false (fun h => Bool.noConfusion (hlisted.symm.trans h.1))
      fun ⟨t, ht, htears⟩ => htr t ht htears
  obtain ⟨e₀, he₀, hfirst⟩ := hsubmitted
  have honly (e : Entry AccountId Hash) (he : e ∈ feed chain 0 n) (k' : RequestKind)
      (h : submitted codec e.2 = some (k', key)) : k' = k :=
    kind_of_submitted hcodec hkind he he₀ h hfirst
  by_cases hdocument : k = .project ∨ k = .asset
  swap
  -- issues and burns have no documents
  · have hnever (data : Data) : data.listed k key ≠ true := by
      cases k with
      | project => exact absurd (.inl rfl) hdocument
      | asset => exact absurd (.inr rfl) hdocument
      | issue => exact Bool.false_ne_true
      | burn => exact Bool.false_ne_true
    exact iff_of_false (fun h => hnever _ h.1) fun ⟨t, _, m, _, _, hafter⟩ => hnever _ hafter
  have hinv : data.submission k key ∈ submission_states
      ∧ (data.Torn k key ↔ ∃ t ∈ tr, Tears codec chain t k key) := by
    apply hrun.invariant (I := fun tr data => data.submission k key ∈ submission_states
      ∧ (data.Torn k key ↔ ∃ t ∈ tr, Tears codec chain t k key))
    · have hempty : Data.empty.submission k key = (false, false) := by
        cases k <;> rfl
      rw [torn_iff_submission, hempty]
      simp
    intro tr data round _ ih hup
    obtain ⟨hstate, ih⟩ := ih
    have hpasses : (catch_up codec round.api chain data.lastBlockNumberFile round.head).Passes
        (Data.submission k key) (false, false) (true, false) (true, true) data :=
      passes_catch_up hdocument (fun e he => honly e (mem_feed_of_upTo chain hup he)) hstate
    constructor
    · obtain ⟨head, api, crash⟩ := round
      cases crash with
      | none => exact hpasses.exec_mem hstate
      | some m => exact hpasses.interrupt_mem hstate m
    · rw [torn_fire_iff hpasses, ih]
      simp only [List.mem_append, List.mem_singleton, or_and_right, exists_or, exists_eq_left]
  exact hinv.2

end Rounds

/-- A block in which a project is submitted. -/
def devnet_submission : ℕ → List (Record ℕ (List ℕ))
  | 1 => [.pallet (.carbonAssets (.ProjectSubmited devnet_project 1 [] 0))]
  | _ => []

/-- A process that stops after its first operation, and reads the block again. -/
def devnet_torn : List Round := [⟨1, no_proposals, some 1⟩, ⟨1, no_proposals, none⟩]

theorem torn_devnet : ((indexing devnet_codec devnet_submission).final .empty devnet_torn).Torn
    .project (devnet_codec.hash devnet_project) := by
  have hkind : OneKind (pallet_events (feed devnet_submission 0 1)) := by
    rintro k k' id ⟨e, he, hsubmits⟩ ⟨e', he', hsubmits'⟩
    obtain rfl := List.mem_singleton.mp he
    obtain rfl := List.mem_singleton.mp he'
    exact congrArg Prod.fst (Option.some.inj (hsubmits.symm.trans hsubmits'))
  refine (torn_iff devnet_codec_hash_injective hkind
    (Machine.run_trace Data.empty devnet_torn (by decide)) _ _).mpr ?_
  refine ⟨_, List.mem_cons_self, 0, rfl, rfl, ?_⟩
  have hinsert := reads_carbonProjects.on_file_insert (k := devnet_codec.hash devnet_project)
    keyed_carbonProjects ⟨devnet_codec.hash devnet_project, devnet_codec.account 1,
      devnet_codec.utf8 [], 0, 0, 1⟩ .empty
  rw [beq_self_eq_true, Bool.or_true] at hinsert
  exact hinsert

end Eco2.Indexer
