/-
Burn requests, and how they can be had again.

A burn's identifier is the hash of who submits it, of what asset, how much, and with
which additional data. `submit_burn` should refuse one that it knows, but asks the
projects: so an owner who submits the same burn again overwrites the entry, and after
its approval makes it pending again, for another approval. `burns_final_iff` says that
burn requests are final exactly in the runs in which no burn is submitted twice.
-/
import Eco2.Requests

set_option autoImplicit false
set_option linter.unusedSectionVars false

namespace Eco2

open CarbonAssets

variable {AccountId Hash : Type} [DecidableEq AccountId] [DecidableEq Hash]
variable {T : Trait AccountId Hash}

/-! ## Burns in a history -/

/-- The transition submits the burn of `amount` units by `sender`. -/
structure Applied.SubmitsBurn (t : Applied AccountId Hash) (sender : AccountId) (asset_id : Hash)
    (amount : UInt64) (additional : Bytes) : Prop where
  succeeded : t.Succeeded
  origin : t.input.origin = .signed sender
  call : t.input.call = .carbonAssets (.submit_burn asset_id amount additional)

theorem Applied.SubmitsBurn.preimage {t : Applied AccountId Hash} {sender : AccountId}
    {asset_id : Hash} {amount : UInt64} {additional : Bytes}
    (h : t.SubmitsBurn sender asset_id amount additional) :
    t.input.preimage = some (.burn sender asset_id amount additional) :=
  preimage_eq_some_iff.mpr ⟨h.origin, h.call⟩

/-- What a submission of a burn submits. -/
theorem submits_burn_iff {t : Applied AccountId Hash} {id : Hash} :
    t.Submits T .burn id ↔ ∃ sender asset_id amount additional,
      t.SubmitsBurn sender asset_id amount additional
        ∧ id = T.hash_of (.burn sender asset_id amount additional) := by
  constructor
  · rintro ⟨hok, call, hcall, hsub⟩
    unfold submission at hsub
    split at hsub
    -- of the four submissions one is a burn's
    case h_4 sender asset_id amount additional horigin =>
      cases hsub
      exact ⟨sender, asset_id, amount, additional, ⟨hok, horigin, hcall⟩, rfl⟩
    all_goals cases hsub
  · rintro ⟨sender, asset_id, amount, additional, ⟨hok, horigin, hcall⟩, rfl⟩
    refine ⟨hok, _, hcall, ?_⟩
    rw [horigin]
    rfl

/-- No burn of the history is submitted twice. -/
def BurnsDistinct (tr : List (Applied AccountId Hash)) : Prop :=
  tr.Pairwise fun t u => ∀ sender asset_id amount additional,
    ¬(t.SubmitsBurn sender asset_id amount additional
      ∧ u.SubmitsBurn sender asset_id amount additional)

/-- Burn requests are one-shot and final in the history: no submission overwrites an
entry, a status is kept or goes from 0 to 1, and no burn is approved twice. -/
structure BurnsFinal (T : Trait AccountId Hash) (tr : List (Applied AccountId Hash)) : Prop where
  once : ∀ t ∈ tr, ∀ id, t.Submits T .burn id → t.pre.carbon.Burns.get id = none
  final : ∀ t ∈ tr, ∀ id st, t.pre.carbon.status .burn id = some st →
    t.post.carbon.status .burn id = some st
      ∨ (st = 0 ∧ t.post.carbon.status .burn id = some 1)
  approved : ∀ id, tr.Pairwise fun t u => ¬(t.Approves .burn id ∧ u.Approves .burn id)

theorem status_burn_eq_none {s : CarbonAssets.Storage AccountId Hash} {id : Hash} :
    s.status .burn id = none ↔ s.Burns.get id = none :=
  Option.map_eq_none_iff

/-! ## Which burns are stored -/

/-- A burn is stored exactly if it was submitted. -/
theorem burn_stored_iff {allowed : Applied AccountId Hash → Prop} {native : AccountId → ℕ}
    {tr : List (Applied AccountId Hash)} {w : World AccountId Hash}
    (hrun : (runtime T).Run allowed (genesis native) tr w) (id : Hash) :
    w.carbon.status .burn id ≠ none ↔ ∃ t ∈ tr, Applied.Submits T t .burn id := by
  apply hrun.invariant (I := fun tr w => w.carbon.status .burn id ≠ none
    ↔ ∃ t ∈ tr, Applied.Submits T t .burn id)
  · exact iff_of_false (fun hc => hc rfl) fun ⟨_, ht, _⟩ => nomatch ht
  intro tr w x _ ih _
  simp only [List.mem_append, List.mem_singleton, or_and_right, exists_or, exists_eq_left]
  rw [← ih]
  have hslot := request_step (outcome_of_fire T w x) .burn id
  rw [Machine.fire_pre] at hslot
  generalize ((runtime T).fire w x).post.carbon.status .burn id = after at hslot ⊢
  generalize w.carbon.status .burn id = before at hslot ⊢
  cases hslot with
  | kept slot hsub => exact (or_iff_left hsub).symm
  | submitted slot hsub => exact iff_of_true (Option.some_ne_none _) (.inr hsub)
  | approved happ => exact iff_of_true (Option.some_ne_none _) (.inl (Option.some_ne_none _))

/-- **Burn requests.** In a run from genesis in which the hash does not collide, burn
requests are one-shot and final if and only if no burn is submitted twice. -/
theorem burns_final_iff {native : AccountId → ℕ} {tr : List (Applied AccountId Hash)}
    {w : World AccountId Hash} (hrun : (runtime T).Run (fun _ => True) (genesis native) tr w)
    (hhash : HashSeparates T (tr.map Transition.input)) : BurnsFinal T tr ↔ BurnsDistinct tr := by
  constructor
  · intro hfinal
    unfold BurnsDistinct
    rw [← Machine.along_iff_pairwise]
    rintro tr₁ u tr₂ rfl t ht sender asset_id amount additional ⟨hfirst, hsecond⟩
    -- the first submission has left an entry, which the second overwrites
    have hsub : Applied.Submits T t .burn
        (T.hash_of (.burn sender asset_id amount additional)) :=
      submits_burn_iff.mpr ⟨sender, asset_id, amount, additional, hfirst, rfl⟩
    have hsub' : Applied.Submits T u .burn
        (T.hash_of (.burn sender asset_id amount additional)) :=
      submits_burn_iff.mpr ⟨sender, asset_id, amount, additional, hsecond, rfl⟩
    have hstored := (burn_stored_iff hrun.split.1 _).mpr ⟨t, ht, hsub⟩
    exact hstored (status_burn_eq_none.mpr (hfinal.once u (by simp) _ hsub'))
  · intro hdistinct
    have hfresh (id : Hash) : FreshIn T tr .burn id := by
      intro u hu hsub
      by_contra hstored
      obtain ⟨tr₁, tr₂, rfl⟩ := List.append_of_mem hu
      obtain ⟨t, ht, hsub'⟩ := (burn_stored_iff hrun.split.1 id).mp hstored
      obtain ⟨sender, asset_id, amount, additional, hsecond, hid⟩ := submits_burn_iff.mp hsub
      obtain ⟨sender', asset_id', amount', additional', hfirst, hid'⟩ := submits_burn_iff.mp hsub'
      -- the same identifier is the same burn
      cases hhash.preimage_eq (t := u) (by simp) (u := t) (by simp [ht]) hsecond.preimage
        hfirst.preimage (hid.symm.trans hid')
      unfold BurnsDistinct at hdistinct
      rw [← Machine.along_iff_pairwise] at hdistinct
      exact hdistinct tr₁ u tr₂ rfl t ht _ _ _ _ ⟨hfirst, hsecond⟩
    constructor
    · intro t ht id hsub
      exact status_burn_eq_none.mp (hfresh id t ht hsub)
    · intro t ht id st hst
      exact status_final (outcome_of_mem hrun ht) (hfresh id t ht) hst
    · intro id
      exact approved_once hrun (hfresh id)

/-- Account 1's burn of two units on the executable chain, submitted and approved. -/
def devnet_burn : List ℕ := Preimage.encode (.burn 1 devnet_asset 2 [])

def devnet_burn_once : List (Extrinsic ℕ (List ℕ)) :=
  devnet_opening ++
    [⟨.signed 1, 0, .carbonAssets (.submit_burn devnet_asset 2 [])⟩,
      ⟨.system .Root, 0, .carbonAssets (.approve_burn devnet_burn)⟩]

theorem burns_final_burn_once :
    BurnsFinal devnet ((runtime devnet).trace (genesis fun _ => 1000) devnet_burn_once)
      ↔ BurnsDistinct ((runtime devnet).trace (genesis fun _ => 1000) devnet_burn_once) :=
  burns_final_iff (devnet_run _ _) (hashSeparates_of_injective Preimage.encode_injective _)

/-- The same burn once more, after its approval. -/
def devnet_burn_again : List (Extrinsic ℕ (List ℕ)) :=
  devnet_burn_once ++
    [⟨.signed 1, 0, .carbonAssets (.submit_burn devnet_asset 2 [])⟩,
      ⟨.system .Root, 0, .carbonAssets (.approve_burn devnet_burn)⟩]

/-- **A burn approved twice.** Every call succeeds, the second submission takes the
approved burn back to status 0, and it is approved again. -/
theorem burn_again_not_final :
    Function.Injective devnet.hash_of
    ∧ (runtime devnet).Run (fun _ => True) (genesis fun _ => 1000)
      ((runtime devnet).trace (genesis fun _ => 1000) devnet_burn_again)
      ((runtime devnet).final (genesis fun _ => 1000) devnet_burn_again)
    ∧ (∀ t ∈ (runtime devnet).trace (genesis fun _ => 1000) devnet_burn_again,
      Applied.Succeeded t)
    ∧ ¬BurnsFinal devnet
      ((runtime devnet).trace (genesis fun _ => 1000) devnet_burn_again) := by
  refine ⟨Preimage.encode_injective, devnet_run _ _, by decide, fun hfinal => ?_⟩
  have hkept := fun t ht => hfinal.final t ht devnet_burn 1
  revert hkept
  decide

end Eco2
