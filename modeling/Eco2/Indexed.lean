/-
What the collections hold once events have been processed.

`indexed` is what events leave of an empty directory, processed once each and in order.
A handler reads it by keys, so the collections with a unique index are seen here through
`Table.lookup`. Two things may stop a handler before its writes: a time above 53 bits and
an asset that is not on file. `Handled` says that neither does, and the lemmas about
`exec` go through a handler one operation after the other.
-/
import Eco2.CrashRecovery
import Eco2.ChainLog
import Eco2.Collections

set_option autoImplicit false

namespace Eco2.Indexer

/-! ## The collections by their keys -/

def Data.project (data : Data) : String → Option CarbonProjectDoc :=
  Table.lookup CarbonProjectDoc.projectId data.carbonProjects

def Data.asset (data : Data) : String → Option CarbonAssetDoc :=
  Table.lookup CarbonAssetDoc.assetId data.carbonAssets

def Data.proposal (data : Data) : String → Option CarbonProposalDoc :=
  Table.lookup CarbonProposalDoc.key data.carbonProposals

def Data.potential_balance (data : Data) : String → Option PotentialBalanceDoc :=
  Table.lookup PotentialBalanceDoc.key data.potentialBalances

/-! ## Running a handler to its end -/

section Exec

variable {β D : Type} (c : Collection D) (f : Unit → Handler β) (data : Data)

theorem exec_toNumber_bind (n : UInt64) (f : ℕ → Handler β) :
    (toNumber n >>= f).exec data
      = if n.toNat < 2 ^ 53 then (f n.toNat).exec data else data := by
  unfold toNumber
  by_cases h : n.toNat < 2 ^ 53
  · rw [if_pos h, if_pos h]
    rfl
  · rw [if_neg h, if_neg h]
    rfl

theorem exec_asset_of_bind (assetId : String) (f : CarbonAssetDoc → Handler β) :
    (asset_of assetId >>= f).exec data
      = match data.asset assetId with
        | some asset => (f asset).exec data
        | none => data := by
  change ((found (data.asset assetId) >>= f)).exec data = _
  cases data.asset assetId <;> rfl

theorem exec_insertAsync (doc : D) : (insertAsync c doc).exec data = c.insert doc data := by
  change (if (c.docs data).any (c.conflict doc) then Program.raise .uniqueViolated
    else Program.done () : Handler Unit).exec (c.insert doc data) = _
  split <;> rfl

theorem exec_insertAsync_bind (doc : D) :
    (insertAsync c doc >>= f).exec data
      = if (c.docs data).any (c.conflict doc) then data else (f ()).exec (c.insert doc data) := by
  change ((if (c.docs data).any (c.conflict doc) then Program.raise .uniqueViolated
    else Program.done () : Handler Unit) >>= f).exec (c.insert doc data) = _
  by_cases h : (c.docs data).any (c.conflict doc) = true
  · rw [if_pos h, if_pos h]
    exact if_pos h
  · rw [if_neg h, if_neg h]
    rfl

end Exec

section Indexed

variable {AccountId Hash : Type} (codec : Codec AccountId Hash) (api : Api)

/-- The event of one of the custom pallets in a record. -/
def pallet_event : Entry AccountId Hash → Option (Event AccountId Hash)
  | (_, .pallet event) => some event
  | _ => none

/-- What the custom pallets have deposited. -/
def pallet_events (es : List (Entry AccountId Hash)) : List (Event AccountId Hash) :=
  es.filterMap pallet_event

theorem pallet_events_append (es es' : List (Entry AccountId Hash)) :
    pallet_events (es ++ es') = pallet_events es ++ pallet_events es' :=
  List.filterMap_append

theorem pallet_events_snoc_pallet (es : List (Entry AccountId Hash)) (height : ℕ)
    (event : Event AccountId Hash) :
    pallet_events (es ++ [(height, .pallet event)]) = pallet_events es ++ [event] :=
  pallet_events_append es _

theorem pallet_events_snoc_of_none (es : List (Entry AccountId Hash)) {e : Entry AccountId Hash}
    (h : pallet_event e = none) : pallet_events (es ++ [e]) = pallet_events es := by
  rw [pallet_events_append]
  unfold pallet_events
  rw [List.filterMap_cons_none h]
  exact List.append_nil _

/-- The collections after the events, each processed once and in order. -/
def indexed (es : List (Entry AccountId Hash)) : Data :=
  (es.forM (process_entry codec api)).exec .empty

theorem indexed_snoc (es : List (Entry AccountId Hash)) (e : Entry AccountId Hash) :
    indexed codec api (es ++ [e]) = (process_entry codec api e).exec (indexed codec api es) := by
  unfold indexed
  rw [Program.exec_forM (process_entry_result codec api),
    Program.exec_forM (process_entry_result codec api), List.foldl_append]
  rfl

theorem exec_process_event (height : ℕ) (record : Record AccountId Hash) (data : Data) :
    (process_event codec api height record).exec data
      = match eco2EventHandlers codec api record height with
        | some handler => handler.exec data
        | none => data := by
  unfold process_event
  cases eco2EventHandlers codec api record height with
  | some handler => exact Program.attempt_exec handler data
  | none => rfl

/-- Nothing stops the handler of the event: its time can be converted, and its asset is
on file. -/
structure Handled (data : Data) (e : Event AccountId Hash) : Prop where
  stamp : ∀ now, e.stamp = some now → now.toNat < 2 ^ 53
  asset : ∀ a, e.asset = some a → data.asset (codec.hash a) ≠ none

/-- An asset is on file if its announcement could be converted. -/
theorem asset_indexed_iff (es : List (Entry AccountId Hash)) (assetId : String) :
    (indexed codec api es).asset assetId ≠ none
      ↔ ∃ e ∈ es, ∃ symbol, announced codec e = some (assetId, symbol) := by
  have hsymbols : (indexed codec api es).index.symbols
      = FirstWrite.entries (announced codec) es := by
    unfold indexed
    rw [forM_index, symbols_read_empty]
  rw [← FirstWrite.isSome_entries_iff, ← hsymbols, ← Option.isSome_iff_ne_none]
  exact Eq.to_iff (congrArg (· = true) Option.isSome_map.symm)

end Indexed

/-! ## Printing on the executable chain -/

/-- Numbers as so many ones, each with a full stop. -/
def unary (ns : List ℕ) : List Char :=
  ns.flatMap fun n => List.replicate n '1' ++ ['.']

theorem unary_cons (n : ℕ) (ns : List ℕ) :
    unary (n :: ns) = List.replicate n '1' ++ '.' :: unary ns := by
  simp [unary]

theorem unary_injective : Function.Injective unary := by
  have hfirst : ∀ (n n' : ℕ) (cs cs' : List Char),
      List.replicate n '1' ++ '.' :: cs = List.replicate n' '1' ++ '.' :: cs' →
        n = n' ∧ cs = cs' := by
    intro n
    induction n with
    | zero =>
      intro n' cs cs' h
      cases n' with
      | zero => exact ⟨rfl, (List.cons.inj h).2⟩
      | succ n' => exact absurd (List.cons.inj h).1 (by decide)
    | succ n ih =>
      intro n' cs cs' h
      cases n' with
      | zero => exact absurd (List.cons.inj h).1 (by decide)
      | succ n' =>
        obtain ⟨rfl, hrest⟩ := ih n' cs cs' (List.cons.inj h).2
        exact ⟨rfl, hrest⟩
  intro ns
  induction ns with
  | nil =>
    intro ns' h
    cases ns' with
    | nil => rfl
    | cons n' ns' => simp [unary] at h
  | cons n ns ih =>
    intro ns' h
    cases ns' with
    | nil => simp [unary] at h
    | cons n' ns' =>
      rw [unary_cons, unary_cons] at h
      obtain ⟨rfl, hrest⟩ := hfirst n n' _ _ h
      rw [ih hrest]

/-- Addresses that begin alike, and hashes after `0x`. -/
def devnet_codec : Codec ℕ (List ℕ) where
  account x := String.ofList ('5' :: 'G' :: 'r' :: 'w' :: 'v' :: 'a' :: List.replicate x '1')
  hash id := String.ofList ('0' :: 'x' :: unary id)
  utf8 bytes := String.ofList (bytes.map fun b => Char.ofNat b.toNat)

theorem devnet_codec_account_injective : Function.Injective devnet_codec.account := by
  intro x y h
  have hlist := congrArg List.length (String.ofList_injective h)
  simpa using hlist

theorem devnet_codec_hash_injective : Function.Injective devnet_codec.hash := by
  intro id id' h
  exact unary_injective (List.cons.inj (List.cons.inj (String.ofList_injective h)).2).2

theorem devnet_codec_hash_ne (id : List ℕ) : devnet_codec.hash id ≠ "" := by
  intro h
  cases String.ofList_injective (h : String.ofList _ = String.ofList [])

end Eco2.Indexer
