/-
What identifiers are hashes of.

Six calls hash a tuple into an identifier. Here the tuples are encoded as the runtime
encodes them, with accounts and hashes of 32 bytes: the tag without a length, fixed
fields as they are, and byte vectors behind their compact length. The encodings are
prefix free (`scale_append_inj`), so neither the bounds between the caller's byte
vectors nor those between the tags can be moved.

An identifier is therefore the hash of one submission only, as far as the hash
itself does not collide. No function into 32 bytes is injective, so this is asked of
the encodings that a run hashes, and not of the hash.
-/
import Eco2.Requests
import Eco2.MintAuthority
import Eco2.Scale

set_option autoImplicit false
set_option linter.unusedSectionVars false

namespace Eco2

open Scale

/-! ## The encoding -/

/-- `T::AccountId` and `T::Hash` of the runtime. -/
abbrev H256 := ByteArr 32

/-- What a preimage identifies. -/
inductive PreimageKind
  | project
  | asset
  | issue
  | burn
  | order
  | ecrc10
  deriving DecidableEq

/-- The tags, as bytes: `b"project"`, `b"asset"`, `b"issue"`, `b"burn"`, `b"order"` and
`b"ECRC10"`. -/
def PreimageKind.tag : PreimageKind → Bytes
  | project => [112, 114, 111, 106, 101, 99, 116]
  | asset => [97, 115, 115, 101, 116]
  | issue => [105, 115, 115, 117, 101]
  | burn => [98, 117, 114, 110]
  | order => [111, 114, 100, 101, 114]
  | ecrc10 => [69, 67, 82, 67, 49, 48]

namespace Preimage

def kind {AccountId Hash : Type} : Preimage AccountId Hash → PreimageKind
  | .project .. => .project
  | .asset .. => .asset
  | .issue .. => .issue
  | .burn .. => .burn
  | .order .. => .order
  | .ecrc10 .. => .ecrc10

/-- The fields behind the tag. -/
def scale_fields : Preimage H256 H256 → Bytes
  | .project sender symbol max_supply additional =>
      sender.toList ++ encode_vec symbol ++ encode_u64 max_supply ++ encode_vec additional
  | .asset sender project_id vintage initial_supply additional =>
      sender.toList ++ project_id.toList ++ encode_vec vintage ++ encode_u64 initial_supply
        ++ encode_vec additional
  | .issue sender asset_id amount additional =>
      sender.toList ++ asset_id.toList ++ encode_u64 amount ++ encode_vec additional
  | .burn sender asset_id amount additional =>
      sender.toList ++ asset_id.toList ++ encode_u64 amount ++ encode_vec additional
  | .order maker asset_id money_id price amount direction salt =>
      maker.toList ++ asset_id.toList ++ money_id.toList ++ encode_u64 price ++ encode_u64 amount
        ++ encode_u8 direction ++ encode_u64 salt
  | .ecrc10 origin symbol name decimals max_supply first_supply =>
      origin.toList ++ encode_vec symbol ++ encode_vec name ++ encode_u8 decimals
        ++ encode_u64 max_supply ++ encode_u64 first_supply

/-- The SCALE encoding of the tuple. -/
def scale (p : Preimage H256 H256) : Bytes := p.kind.tag ++ p.scale_fields

/-- The length of every byte vector is a `u32`. -/
def InRange {AccountId Hash : Type} : Preimage AccountId Hash → Prop
  | .project _ symbol _ additional => symbol.length < 2 ^ 32 ∧ additional.length < 2 ^ 32
  | .asset _ _ vintage _ additional => vintage.length < 2 ^ 32 ∧ additional.length < 2 ^ 32
  | .issue _ _ _ additional => additional.length < 2 ^ 32
  | .burn _ _ _ additional => additional.length < 2 ^ 32
  | .order .. => True
  | .ecrc10 _ symbol name _ _ _ => symbol.length < 2 ^ 32 ∧ name.length < 2 ^ 32

instance {AccountId Hash : Type} : DecidablePred (@InRange AccountId Hash) := fun p => by
  cases p <;> unfold InRange <;> infer_instance

/-- The first letters of the tags are different. -/
theorem prefixFree_tag : PrefixFree PreimageKind.tag := by
  intro k k' x y h
  have hhead (k : PreimageKind) (x : Bytes) : (k.tag ++ x).head? = k.tag.head? := by
    cases k <;> rfl
  have hletter : k.tag.head? = k'.tag.head? := by
    rw [← hhead k x, h, hhead]
  have hkind : k = k' := by
    revert hletter
    cases k <;> cases k' <;> decide
  subst hkind
  exact ⟨rfl, List.append_cancel_left h⟩

/-- **Every preimage is read off the front of whatever follows it.** -/
theorem scale_append_inj {p q : Preimage H256 H256} {x y : Bytes} (hp : p.InRange)
    (hq : q.InRange) (h : p.scale ++ x = q.scale ++ y) : p = q ∧ x = y := by
  unfold scale at h
  rw [List.append_assoc, List.append_assoc] at h
  obtain ⟨hkind, h⟩ := prefixFree_tag h
  -- of the same kind, the fields come off one by one
  cases p <;> cases q <;> try cases hkind
  all_goals simp only [scale_fields, List.append_assoc] at h
  case project.project =>
    obtain ⟨hsender, h⟩ := prefixFree_toList h
    obtain ⟨hsymbol, h⟩ := encode_vec_append_inj hp.1 hq.1 h
    obtain ⟨hsupply, h⟩ := prefixFree_encode_u64 h
    obtain ⟨hadditional, h⟩ := encode_vec_append_inj hp.2 hq.2 h
    rw [hsender, hsymbol, hsupply, hadditional]
    exact ⟨rfl, h⟩
  case asset.asset =>
    obtain ⟨hsender, h⟩ := prefixFree_toList h
    obtain ⟨hproject, h⟩ := prefixFree_toList h
    obtain ⟨hvintage, h⟩ := encode_vec_append_inj hp.1 hq.1 h
    obtain ⟨hsupply, h⟩ := prefixFree_encode_u64 h
    obtain ⟨hadditional, h⟩ := encode_vec_append_inj hp.2 hq.2 h
    rw [hsender, hproject, hvintage, hsupply, hadditional]
    exact ⟨rfl, h⟩
  case issue.issue =>
    obtain ⟨hsender, h⟩ := prefixFree_toList h
    obtain ⟨hasset, h⟩ := prefixFree_toList h
    obtain ⟨hamount, h⟩ := prefixFree_encode_u64 h
    obtain ⟨hadditional, h⟩ := encode_vec_append_inj hp hq h
    rw [hsender, hasset, hamount, hadditional]
    exact ⟨rfl, h⟩
  case burn.burn =>
    obtain ⟨hsender, h⟩ := prefixFree_toList h
    obtain ⟨hasset, h⟩ := prefixFree_toList h
    obtain ⟨hamount, h⟩ := prefixFree_encode_u64 h
    obtain ⟨hadditional, h⟩ := encode_vec_append_inj hp hq h
    rw [hsender, hasset, hamount, hadditional]
    exact ⟨rfl, h⟩
  case order.order =>
    obtain ⟨hmaker, h⟩ := prefixFree_toList h
    obtain ⟨hasset, h⟩ := prefixFree_toList h
    obtain ⟨hmoney, h⟩ := prefixFree_toList h
    obtain ⟨hprice, h⟩ := prefixFree_encode_u64 h
    obtain ⟨hamount, h⟩ := prefixFree_encode_u64 h
    obtain ⟨hdirection, h⟩ := prefixFree_encode_u8 h
    obtain ⟨hsalt, h⟩ := prefixFree_encode_u64 h
    rw [hmaker, hasset, hmoney, hprice, hamount, hdirection, hsalt]
    exact ⟨rfl, h⟩
  case ecrc10.ecrc10 =>
    obtain ⟨horigin, h⟩ := prefixFree_toList h
    obtain ⟨hsymbol, h⟩ := encode_vec_append_inj hp.1 hq.1 h
    obtain ⟨hname, h⟩ := encode_vec_append_inj hp.2 hq.2 h
    obtain ⟨hdecimals, h⟩ := prefixFree_encode_u8 h
    obtain ⟨hmax, h⟩ := prefixFree_encode_u64 h
    obtain ⟨hfirst, h⟩ := prefixFree_encode_u64 h
    rw [horigin, hsymbol, hname, hdecimals, hmax, hfirst]
    exact ⟨rfl, h⟩

theorem scale_inj {p q : Preimage H256 H256} (hp : p.InRange) (hq : q.InRange)
    (h : p.scale = q.scale) : p = q := by
  have happend : p.scale ++ [] = q.scale ++ [] := by rw [h]
  exact (scale_append_inj hp hq happend).1

end Preimage

/-! ## Submissions -/

section Submissions

variable {AccountId Hash : Type}

/-- The storage item that a kind of identifier is looked up in, by its own submission. -/
def World.Stores (w : World AccountId Hash) : PreimageKind → Hash → Prop
  | .project, id => w.carbon.Projects.get id ≠ none
  | .asset, id => w.carbon.Assets.get id ≠ none
  | .issue, id => w.carbon.Issues.get id ≠ none
  -- `submit_burn` looks its identifier up among the projects
  | .burn, id => w.carbon.Projects.get id ≠ none
  | .order, id => w.Orders.get id ≠ none
  | .ecrc10, id => w.standard.AssetInfos.get id ≠ none

/-- The calls of which the storage item never forgets an identifier, and holds none of
another kind: `submit_project`, `submit_asset`, `submit_issue` and `issue`. -/
def PreimageKind.Kept (k : PreimageKind) : Prop := k ≠ .burn ∧ k ≠ .order

end Submissions

/-! ## Refused duplicates -/

section Duplicates

open Dispatch

variable {AccountId Hash : Type} [DecidableEq AccountId] [DecidableEq Hash]
variable {T : Trait AccountId Hash}

/-- An asset pallet refuses the call as a duplicate. -/
def Applied.Duplicate (t : Applied AccountId Hash) : Prop :=
  match t.input.call with
  | .carbonAssets _ => t.output.result = .error (.carbonAssets .DuplicatedKey)
  | .standardAssets _ => t.output.result = .error (.standardAssets .DuplicatedKey)
  | _ => False

instance : DecidablePred (@Applied.Duplicate AccountId Hash) := fun t => by
  unfold Applied.Duplicate
  split <;> infer_instance

theorem contains_key_of_not {V : Type} {m : StorageMap Hash V} {id : Hash}
    (h : ¬((!m.contains_key id) = true)) : m.get id ≠ none := by
  rw [Bool.not_eq_true', StorageMap.contains_key_eq_false] at h
  exact h

/-- A duplicate that the carbon pallet refuses is stored already. -/
theorem CarbonAssets.stored_of_duplicate {origin : Origin AccountId} {c c' : Ctx AccountId Hash}
    {p : Preimage AccountId Hash} {call : Call AccountId Hash}
    (hcall : p.call = .carbonAssets call) (hkept : p.kind.Kept)
    (h : call.dispatch T origin c = .error (.carbonAssets .DuplicatedKey) c') :
    ∃ q, q.call = .carbonAssets call ∧ origin = .signed q.signer
      ∧ c.world.Stores q.kind (T.hash_of q) := by
  have hbad : DispatchError.carbonAssets .DuplicatedKey ≠ .BadOrigin := by decide
  cases p with
  | project sender symbol max_supply additional =>
    cases hcall
    obtain ⟨who, horigin, h⟩ := ensure_signed_bind_eq_error_of_ne hbad h
    refine ⟨.project who symbol max_supply additional, rfl, horigin, ?_⟩
    simp only [read_bind, ensure_bind_eq_error] at h
    rcases h with ⟨hknown, -⟩ | ⟨-, h⟩
    · exact contains_key_of_not hknown
    · exact absurd h ((infallible_update _).bind (fun _ => (infallible_update _).bind fun _ =>
        infallible_stamp _) _ _ _)
  | asset sender project_id vintage initial_supply additional =>
    cases hcall
    obtain ⟨who, horigin, h⟩ := ensure_signed_bind_eq_error_of_ne hbad h
    refine ⟨.asset who project_id vintage initial_supply additional, rfl, horigin, ?_⟩
    simp only [get_project, read_bind, ok_or_bind_eq_error, ensure_bind_eq_error,
      DispatchError.carbonAssets.injEq, reduceCtorEq, false_and, and_false, false_or] at h
    obtain ⟨project, -, -, -, -, ⟨hknown, -⟩ | ⟨-, h⟩⟩ := h
    · exact contains_key_of_not hknown
    · exact absurd h ((infallible_update _).bind (fun _ => (infallible_update _).bind fun _ =>
        infallible_stamp _) _ _ _)
  | issue sender asset_id amount additional =>
    cases hcall
    obtain ⟨who, horigin, h⟩ := ensure_signed_bind_eq_error_of_ne hbad h
    refine ⟨.issue who asset_id amount additional, rfl, horigin, ?_⟩
    simp only [get_project, get_asset, read_bind, ok_or_bind_eq_error, ensure_bind_eq_error,
      DispatchError.carbonAssets.injEq, reduceCtorEq, false_and, and_false, false_or] at h
    obtain ⟨asset, -, -, project, -, -, -, ⟨hknown, -⟩ | ⟨-, h⟩⟩ := h
    · exact contains_key_of_not hknown
    · exact absurd h ((infallible_update _).bind (fun _ => infallible_stamp _) _ _ _)
  | burn => exact absurd rfl hkept.1
  | order => exact absurd rfl hkept.2
  | ecrc10 => cases hcall

/-- A duplicate that the standard assets refuse is stored already. -/
theorem StandardAssets.stored_of_duplicate {origin : Origin AccountId} {c c' : Ctx AccountId Hash}
    {symbol name : Bytes} {decimals : UInt8} {max_supply first_supply : UInt64}
    (h : StandardAssets.issue T origin symbol name decimals max_supply first_supply c
      = .error (.standardAssets .DuplicatedKey) c') :
    ∃ who, origin = .signed who
      ∧ c.world.Stores .ecrc10
        (T.hash_of (.ecrc10 who symbol name decimals max_supply first_supply)) := by
  obtain ⟨who, horigin, h⟩ := ensure_signed_bind_eq_error_of_ne (by decide) h
  simp only [read_bind, ensure_bind_eq_error] at h
  rcases h with ⟨hknown, -⟩ | ⟨-, h⟩
  · exact ⟨who, horigin, contains_key_of_not hknown⟩
  · exact absurd h ((infallible_write _).bind (fun _ => (infallible_write _).bind fun _ =>
      (infallible_write _).bind fun _ => infallible_stamp _) _ _ _)

/-- What a failing call returns. -/
theorem dispatch_of_result {w : World AccountId Hash} {x : Extrinsic AccountId Hash}
    {e : DispatchError} (h : ((runtime T).fire w x).output.result = .error e) :
    ∃ c', x.call.dispatch T x.origin ⟨w, x.now, [], []⟩ = .error e c' := by
  simp only [Machine.fire, runtime, apply_extrinsic] at h
  cases hdispatch : x.call.dispatch T x.origin ⟨w, x.now, [], []⟩ with
  | ok u c =>
    rw [hdispatch] at h
    cases h
  | error e' c =>
    rw [hdispatch] at h
    cases h
    exact ⟨c, rfl⟩

/-- The call tells the kind. -/
theorem Preimage.kind_eq_of_call {p q : Preimage AccountId Hash} (h : p.call = q.call) :
    p.kind = q.kind := by
  cases p <;> cases q <;> cases h <;> rfl

/-- A refused duplicate of a kept kind is stored already. -/
theorem stores_of_duplicate {w : World AccountId Hash} {x : Extrinsic AccountId Hash}
    {p : Preimage AccountId Hash} (hcall : x.call = p.call) (hkept : p.kind.Kept)
    (h : Applied.Duplicate ((runtime T).fire w x)) :
    ∃ q, x.preimage = some q ∧ q.kind.Kept ∧ w.Stores q.kind (T.hash_of q) := by
  obtain ⟨origin, now, call⟩ := x
  obtain rfl : call = p.call := hcall
  have hcarbon (call : CarbonAssets.Call AccountId Hash) (hp : p.call = .carbonAssets call) :
      ∃ q, Extrinsic.preimage ⟨origin, now, p.call⟩ = some q ∧ q.kind.Kept
        ∧ w.Stores q.kind (T.hash_of q) := by
    rw [hp] at h
    obtain ⟨c', hdispatch⟩ := dispatch_of_result h
    obtain ⟨q, hq, horigin, hstored⟩ := CarbonAssets.stored_of_duplicate hp hkept hdispatch
    refine ⟨q, preimage_eq_some_iff.mpr ⟨horigin, hp.trans hq.symm⟩, ?_, hstored⟩
    rw [← Preimage.kind_eq_of_call (hp.trans hq.symm)]
    exact hkept
  cases p with
  | project => exact hcarbon _ rfl
  | asset => exact hcarbon _ rfl
  | issue => exact hcarbon _ rfl
  | burn => exact absurd rfl hkept.1
  | order => exact absurd rfl hkept.2
  | ecrc10 signer symbol name decimals max_supply first_supply =>
    obtain ⟨c', hdispatch⟩ := dispatch_of_result h
    obtain ⟨who, horigin, hstored⟩ := StandardAssets.stored_of_duplicate hdispatch
    exact ⟨.ecrc10 who symbol name decimals max_supply first_supply,
      preimage_eq_some_iff.mpr ⟨horigin, rfl⟩, hkept, hstored⟩

/-- Whatever is stored of a kept kind has been submitted. -/
theorem submitted_of_stores {allowed : Applied AccountId Hash → Prop} {native : AccountId → ℕ}
    {w : World AccountId Hash} {tr : List (Applied AccountId Hash)}
    (hrun : (runtime T).Run allowed (genesis native) tr w) {k : PreimageKind} {id : Hash}
    (hkept : k.Kept) (h : w.Stores k id) :
    ∃ t ∈ tr, t.Succeeded ∧ ∃ q, t.input.preimage = some q ∧ T.hash_of q = id := by
  have hcarbon (k : CarbonAssets.RequestKind) (hstatus : w.carbon.status k id ≠ none) :
      ∃ t ∈ tr, t.Succeeded ∧ ∃ q, t.input.preimage = some q ∧ T.hash_of q = id := by
    obtain ⟨t, ht, hsub⟩ := submitted_of_status hrun hstatus
    obtain ⟨q, hid, -, hq⟩ := preimage_of_submits hsub
    exact ⟨t, ht, hsub.1, q, hq, hid.symm⟩
  cases k with
  | project => exact hcarbon .project fun hnone => h (Option.map_eq_none_iff.mp hnone)
  | asset => exact hcarbon .asset fun hnone => h (Option.map_eq_none_iff.mp hnone)
  | issue => exact hcarbon .issue fun hnone => h (Option.map_eq_none_iff.mp hnone)
  | burn => exact absurd rfl hkept.1
  | order => exact absurd rfl hkept.2
  | ecrc10 =>
    obtain ⟨who, t, ht, hok, call, hcall, hcreates⟩ := issuer_of_info hrun h
    obtain ⟨symbol, name, decimals, max_supply, first_supply, horigin, rfl, hid⟩ := hcreates
    exact ⟨t, ht, hok, .ecrc10 who symbol name decimals max_supply first_supply,
      preimage_eq_some_iff.mpr ⟨horigin, hcall⟩, hid.symm⟩

end Duplicates

/-! ## Identifiers of a run -/

section Run

/-- Every byte vector that the extrinsics submit has a length below `2 ^ 32`. -/
def SubmissionsInRange (xs : List (Extrinsic H256 H256)) : Prop :=
  ∀ x ∈ xs, ∀ p ∈ x.preimage, p.InRange

/-- Among what the extrinsics hash, the hash does not collide. -/
def CollisionFree (H : Bytes → H256) (xs : List (Extrinsic H256 H256)) : Prop :=
  ∀ x ∈ xs, ∀ p ∈ x.preimage, ∀ y ∈ xs, ∀ q ∈ y.preimage, H p.scale = H q.scale → p.scale = q.scale

instance (xs : List (Extrinsic H256 H256)) : Decidable (SubmissionsInRange xs) := by
  unfold SubmissionsInRange
  infer_instance

instance (H : Bytes → H256) (xs : List (Extrinsic H256 H256)) : Decidable (CollisionFree H xs) := by
  unfold CollisionFree
  infer_instance

/-- The preimages are told apart by their encodings, and these by the hash. -/
theorem hashSeparates_of_collisionFree {T : Trait H256 H256} {H : Bytes → H256}
    (hhash : ∀ p, T.hash_of p = H p.scale) {xs : List (Extrinsic H256 H256)}
    (hrange : SubmissionsInRange xs) (hfree : CollisionFree H xs) : HashSeparates T xs := by
  intro x hx p hp y hy q hq hid
  rw [hhash, hhash] at hid
  exact Preimage.scale_inj (hrange x hx p hp) (hrange y hy q hq) (hfree x hx p hp y hy q hq hid)

/-- **Identifiers are of one submission only.** The encodings are injective and tell the
kinds apart; so in a run from genesis, with the extrinsic that follows it, two
submissions of one identifier are the same submission, and a refused duplicate of a
project, an asset, an issue or an ECRC10 asset repeats a call that succeeded, with its
signer. -/
theorem identifiers_separated :
    (∀ p q : Preimage H256 H256, p.InRange → q.InRange → p.scale = q.scale → p = q)
      ∧ ∀ (T : Trait H256 H256) (H : Bytes → H256), (∀ p, T.hash_of p = H p.scale) →
        ∀ (native : H256 → ℕ) (tr : List (Applied H256 H256)) (w : World H256 H256)
          (x : Extrinsic H256 H256), (runtime T).Run (fun _ => True) (genesis native) tr w →
        SubmissionsInRange (x :: tr.map Transition.input) →
        CollisionFree H (x :: tr.map Transition.input) →
        (∀ y ∈ x :: tr.map Transition.input, ∀ p ∈ y.preimage,
          ∀ z ∈ x :: tr.map Transition.input, ∀ q ∈ z.preimage,
            T.hash_of p = T.hash_of q → p = q)
        ∧ ((∃ p : Preimage H256 H256, x.call = p.call ∧ p.kind.Kept) →
          Applied.Duplicate ((runtime T).fire w x) →
          ∃ t ∈ tr, t.Succeeded ∧ t.input.origin = x.origin ∧ t.input.call = x.call) := by
  refine ⟨fun p q hp hq h => Preimage.scale_inj hp hq h, ?_⟩
  intro T H hhash native tr w x hrun hrange hfree
  have hsame : HashSeparates T (x :: tr.map Transition.input) :=
    hashSeparates_of_collisionFree hhash hrange hfree
  refine ⟨hsame, ?_⟩
  rintro ⟨p, hcall, hkept⟩ hduplicate
  obtain ⟨q, hq, hqkept, hstored⟩ := stores_of_duplicate hcall hkept hduplicate
  obtain ⟨t, ht, hok, q', hq', hid⟩ := submitted_of_stores hrun hqkept hstored
  -- the submission that was stored hashes to the same identifier, so it is the same
  have hmem : t.input ∈ x :: tr.map Transition.input :=
    List.mem_cons_of_mem _ (List.mem_map_of_mem ht)
  obtain rfl := hsame t.input hmem q' hq' x List.mem_cons_self q hq hid
  obtain ⟨horigin, hcall⟩ := preimage_eq_some_iff.mp hq
  obtain ⟨horigin', hcall'⟩ := preimage_eq_some_iff.mp hq'
  exact ⟨t, ht, hok, horigin'.trans horigin.symm, hcall'.trans hcall.symm⟩

/-- What stands behind the tag and the account of a project, cut to 32 bytes. -/
def bytenet_hash (b : Bytes) : H256 := ⟨(b.drop 39 ++ List.replicate 32 0).take 32, by simp⟩

/-- A chain with accounts and hashes of 32 bytes. -/
def bytenet : Trait H256 H256 where
  hash_of p := bytenet_hash p.scale
  default_hash := .replicate 32 0
  pot_account_id := .replicate 32 0
  transfer := documented_transfer

/-- Account 1 submits a project by its symbol. -/
def bytenet_project (symbol : Bytes) : Extrinsic H256 H256 :=
  ⟨.signed (.replicate 32 1), 0, .carbonAssets (.submit_project symbol 1000 [])⟩

/-- Two projects of one account, of which the first is submitted again: it is refused, and it
is a literal repeat. -/
theorem identifiers_separated_repeat :
    let tr := (runtime bytenet).trace (genesis fun _ => 0)
      [bytenet_project [1], bytenet_project [2]]
    Applied.Duplicate ((runtime bytenet).fire ((runtime bytenet).final (genesis fun _ => 0)
        [bytenet_project [1], bytenet_project [2]]) (bytenet_project [1]))
      ∧ ∃ t ∈ tr, Applied.Succeeded t ∧ t.input.origin = (bytenet_project [1]).origin
        ∧ t.input.call = (bytenet_project [1]).call := by
  have hduplicate : Applied.Duplicate ((runtime bytenet).fire ((runtime bytenet).final
      (genesis fun _ => 0) [bytenet_project [1], bytenet_project [2]])
      (bytenet_project [1])) := by
    decide
  refine ⟨hduplicate, ?_⟩
  refine (identifiers_separated.2 bytenet bytenet_hash (fun _ => rfl) _ _ _ _
    (Machine.run_trace _ _ fun _ _ => trivial) ?_ ?_).2
    ⟨.project (.replicate 32 1) [1] 1000 [], rfl, by decide, by decide⟩ hduplicate
  · decide
  · decide

end Run

end Eco2
