/-
Order identifiers over a history.

`make_order` refuses an identifier that is in the order map, but an order that has
been filled up or cancelled is not in the map any more, and nothing else remembers
it. The same call, with the same salt, then makes another order under the same
identifier. `order_ids_once_iff` says when that does not happen.
-/
import Eco2.ApprovalEvents

set_option autoImplicit false
set_option linter.unusedSectionVars false

namespace Eco2

open CarbonExchange

variable {AccountId Hash : Type} [DecidableEq AccountId] [DecidableEq Hash]
variable {T : Trait AccountId Hash}

/-! ## Making and removing -/

/-- The event announces a new order with the identifier. -/
def Event.announces (id : Hash) : Event AccountId Hash → Bool
  | .carbonExchange (.NewOrder order_id ..) => order_id = id
  | _ => false

/-- The transition makes an order with these fields. -/
structure Applied.MakesOrder (t : Applied AccountId Hash) (maker : AccountId)
    (asset_id money_id : Hash) (price amount : UInt64) (direction : UInt8) (salt : UInt64) :
    Prop where
  succeeded : t.Succeeded
  origin : t.input.origin = .signed maker
  call : t.input.call
    = .carbonExchange (.make_order asset_id money_id price amount direction salt)

theorem Applied.MakesOrder.preimage {t : Applied AccountId Hash} {maker : AccountId}
    {asset_id money_id : Hash} {price amount : UInt64} {direction : UInt8} {salt : UInt64}
    (h : t.MakesOrder maker asset_id money_id price amount direction salt) :
    t.input.preimage = some (.order maker asset_id money_id price amount direction salt) :=
  preimage_eq_some_iff.mpr ⟨h.origin, h.call⟩

/-- The transition fills the order up or cancels it. -/
def Applied.RemovesOrder (t : Applied AccountId Hash) (id : Hash) : Prop :=
  ∃ order, t.pre.Orders.get id = some order ∧ (FillsUp t id order ∨ MakerCancels t id order)

/-- A new order is announced by the transition that makes it. -/
theorem creates_iff {t : Applied AccountId Hash} (h : Outcome T t) (id : Hash) :
    t.Creates id ↔ ∃ order, t.pre.Orders.get id = none ∧ t.post.Orders.get id = some order
      ∧ Made T t id order := by
  have hslot := order_step h id
  generalize t.pre.Orders.get id = before at hslot ⊢
  generalize t.post.Orders.get id = after at hslot ⊢
  cases hslot with
  | kept slot hkept =>
    refine iff_of_false hkept.quiet.not_creates ?_
    rintro ⟨order, -, -, hmade⟩
    exact hkept.other hmade.succeeded hmade.named
  | made order hmade =>
    refine iff_of_true ?_ ⟨order, rfl, rfl, hmade⟩
    exact ⟨_, _, _, _, _, hmade.events ▸ List.mem_singleton.mpr rfl⟩
  | taken order taker amount htakes =>
    exact iff_of_false htakes.not_creates fun ⟨_, hnone, _⟩ => nomatch hnone
  | finished order taker htakes =>
    exact iff_of_false htakes.not_creates fun ⟨_, hnone, _⟩ => nomatch hnone
  | cancelled order hcancels =>
    refine iff_of_false ?_ fun ⟨_, hnone, _⟩ => nomatch hnone
    rintro ⟨maker, asset_id, money_id, direction, now, he⟩
    rw [hcancels.events] at he
    simp at he

/-- An order's identifier is the hash of the fields it is made with. -/
theorem creates_iff_makes {t : Applied AccountId Hash} (h : Outcome T t) {id : Hash} :
    t.Creates id ↔ ∃ maker asset_id money_id price amount direction salt,
      t.MakesOrder maker asset_id money_id price amount direction salt
        ∧ id = T.hash_of (.order maker asset_id money_id price amount direction salt) := by
  constructor
  · intro hcreates
    obtain ⟨order, -, -, hmade⟩ := (creates_iff h _).mp hcreates
    exact ⟨_, _, _, _, _, _, _, ⟨hmade.succeeded, hmade.origin, hmade.call⟩, hmade.hash⟩
  · rintro ⟨maker, asset_id, money_id, price, amount, direction, salt, hmakes, hid⟩
    have hnamed : named_order T t.input = some id := by
      unfold named_order
      rw [hmakes.origin, hmakes.call, hid]
    have hslot := order_step h id
    generalize t.pre.Orders.get id = before at hslot
    generalize t.post.Orders.get id = after at hslot
    cases hslot with
    | kept slot hkept => exact absurd hnamed (hkept.other hmakes.succeeded)
    | made order hmade => exact ⟨_, _, _, _, _, hmade.events ▸ List.mem_singleton.mpr rfl⟩
    | taken order taker amount htakes => cases hmakes.call.symm.trans htakes.call
    | finished order taker htakes => cases hmakes.call.symm.trans htakes.call
    | cancelled order hcancels => cases hmakes.call.symm.trans hcancels.call

/-- A transition announces an order once if it makes it, and not at all otherwise. -/
theorem countP_announces {t : Applied AccountId Hash} (h : Outcome T t) (id : Hash) :
    (t.Creates id → t.output.events.countP (Event.announces id) = 1)
      ∧ (¬t.Creates id → t.output.events.countP (Event.announces id) = 0) := by
  constructor
  · intro hcreates
    obtain ⟨order, -, -, hmade⟩ := (creates_iff h _).mp hcreates
    rw [hmade.events]
    simp [Event.announces]
  · intro hnot
    rw [List.countP_eq_zero]
    intro e he hannounces
    unfold Event.announces at hannounces
    split at hannounces
    · obtain rfl := of_decide_eq_true hannounces
      exact hnot ⟨_, _, _, _, _, he⟩
    · cases hannounces

/-- What has been made is in the map, or has been removed. -/
theorem created_iff {allowed : Applied AccountId Hash → Prop} {w₀ w : World AccountId Hash}
    {tr : List (Applied AccountId Hash)} (hempty : w₀.Orders = .empty)
    (hrun : (runtime T).Run allowed w₀ tr w) (id : Hash) :
    (∃ u ∈ tr, Applied.Creates u id)
      ↔ w.Orders.get id ≠ none ∨ ∃ u ∈ tr, Applied.RemovesOrder u id := by
  apply hrun.invariant (I := fun tr w => (∃ u ∈ tr, Applied.Creates u id)
    ↔ w.Orders.get id ≠ none ∨ ∃ u ∈ tr, Applied.RemovesOrder u id)
  · rw [hempty]
    refine iff_of_false (fun ⟨_, hu, _⟩ => nomatch hu) ?_
    rintro (hne | ⟨_, hu, -⟩)
    · exact hne rfl
    · cases hu
  intro tr w x _ ih _
  have h := outcome_of_fire T w x
  have hremoves : Applied.RemovesOrder ((runtime T).fire w x) id
      ↔ w.Orders.get id ≠ none ∧ ((runtime T).fire w x).post.Orders.get id = none := by
    constructor
    · rintro ⟨order, horder, hremoved⟩
      have hpre : w.Orders.get id = some order := horder
      rw [hpre]
      exact ⟨Option.some_ne_none order, (removed_iff h horder).mpr hremoved⟩
    · rintro ⟨hpre, hpost⟩
      obtain ⟨order, horder⟩ := Option.ne_none_iff_exists'.mp hpre
      exact ⟨order, horder, (removed_iff h horder).mp hpost⟩
  have hcreates := creates_iff h id
  rw [Machine.fire_pre] at hcreates
  simp only [List.mem_append, List.mem_singleton, or_and_right, exists_or, exists_eq_left]
  rw [ih, hremoves]
  have hslot := order_step h id
  rw [Machine.fire_pre] at hslot
  generalize ((runtime T).fire w x).post.Orders.get id = after at hslot hcreates ⊢
  generalize w.Orders.get id = before at hslot hcreates ⊢
  rw [hcreates]
  cases hslot with
  | kept _ hkept =>
    -- neither made nor removed
    constructor
    · rintro ((hne | hremoved) | ⟨order, hnone, hsome, -⟩)
      · exact .inl hne
      · exact .inr (.inl hremoved)
      · cases hnone.symm.trans hsome
    · rintro (hne | hremoved | ⟨hne, hnone⟩)
      · exact .inl (.inl hne)
      · exact .inl (.inr hremoved)
      · exact absurd hnone hne
  | made order hmade =>
    exact iff_of_true (.inr ⟨order, rfl, rfl, hmade⟩) (.inl (Option.some_ne_none order))
  | taken => exact iff_of_true (.inl (.inl (Option.some_ne_none _))) (.inl (Option.some_ne_none _))
  | finished =>
    exact iff_of_true (.inl (.inl (Option.some_ne_none _)))
      (.inr (.inr ⟨Option.some_ne_none _, rfl⟩))
  | cancelled =>
    exact iff_of_true (.inl (.inl (Option.some_ne_none _)))
      (.inr (.inr ⟨Option.some_ne_none _, rfl⟩))

/-! ## One order for each identifier -/

/-- Every order made is made under an identifier that was not an earlier order's, now
filled up or cancelled. -/
def OrdersUnspent (T : Trait AccountId Hash) (tr : List (Applied AccountId Hash)) : Prop :=
  Machine.Along (fun tr₁ t => ∀ maker asset_id money_id price amount direction salt,
    Applied.MakesOrder t maker asset_id money_id price amount direction salt →
    ∀ u ∈ tr₁, ¬Applied.RemovesOrder u
      (T.hash_of (.order maker asset_id money_id price amount direction salt))) tr

/-- No order is made twice with the same fields. -/
def OrdersDistinct (tr : List (Applied AccountId Hash)) : Prop :=
  tr.Pairwise fun t u => ∀ maker asset_id money_id price amount direction salt,
    ¬(Applied.MakesOrder t maker asset_id money_id price amount direction salt
      ∧ Applied.MakesOrder u maker asset_id money_id price amount direction salt)

section Count

variable {p : Event AccountId Hash → Bool} {C : Applied AccountId Hash → Prop}
  {tr : List (Applied AccountId Hash)}

/-- A history counts nothing if and only if no transition of it counts. -/
theorem countP_log_eq_zero_iff (hcount : ∀ t ∈ tr, (C t → t.output.events.countP p = 1)
    ∧ (¬C t → t.output.events.countP p = 0)) : (log tr).countP p = 0 ↔ ∀ t ∈ tr, ¬C t := by
  simp only [log, List.countP_flatMap, List.sum_eq_zero_iff, List.forall_mem_map,
    Function.comp_apply]
  refine forall₂_congr fun t ht => ?_
  obtain ⟨hone, hzero⟩ := hcount t ht
  by_cases hC : C t
  · rw [hone hC]
    exact iff_of_false Nat.one_ne_zero fun hnot => hnot hC
  · exact iff_of_true (hzero hC) hC

/-- Where every transition counts once or not at all, the history counts at most once
if and only if no transition counts after another. -/
theorem countP_log_le_one_iff (hcount : ∀ t ∈ tr, (C t → t.output.events.countP p = 1)
    ∧ (¬C t → t.output.events.countP p = 0)) :
    (log tr).countP p ≤ 1 ↔ tr.Pairwise fun t u => ¬(C t ∧ C u) := by
  induction tr with
  | nil => exact iff_of_true (Nat.zero_le 1) .nil
  | cons t tr ih =>
    have hrest := fun u hu => hcount u (List.mem_cons_of_mem t hu)
    obtain ⟨hone, hzero⟩ := hcount t List.mem_cons_self
    have hsplit : (log (t :: tr)).countP p = t.output.events.countP p + (log tr).countP p := by
      simp [log]
    rw [hsplit, List.pairwise_cons]
    by_cases ht : C t
    · -- then nothing after `t` may count
      have hle : 1 + (log tr).countP p ≤ 1 ↔ (log tr).countP p = 0 := by omega
      rw [hone ht, hle, countP_log_eq_zero_iff hrest]
      constructor
      · intro hnone
        refine ⟨fun u hu hc => hnone u hu hc.2, ?_⟩
        exact List.pairwise_of_forall_mem_list fun u hu v _ hc => hnone u hu hc.1
      · exact fun hpair u hu hu' => hpair.1 u hu ⟨ht, hu'⟩
    · rw [hzero ht, Nat.zero_add, ih hrest]
      exact (and_iff_right fun u _ hc => ht hc.1).symm

end Count

section Run

variable {allowed : Applied AccountId Hash → Prop} {w₀ w : World AccountId Hash}
  {tr : List (Applied AccountId Hash)}

/-- An identifier is announced at most once if no order is made after another under it. -/
theorem announced_once_iff (hrun : (runtime T).Run allowed w₀ tr w) (id : Hash) :
    (log tr).countP (Event.announces id) ≤ 1
      ↔ Machine.Along (fun tr₁ t => ∀ u ∈ tr₁, ¬(Applied.Creates u id ∧ Applied.Creates t id))
        tr := by
  rw [Machine.along_iff_pairwise]
  exact countP_log_le_one_iff fun t ht => countP_announces (outcome_of_mem hrun ht) id

/-- Announced once is made under identifiers that are not spent. -/
theorem announced_once_iff_unspent (hempty : w₀.Orders = .empty)
    (hrun : (runtime T).Run allowed w₀ tr w) :
    (∀ id, (log tr).countP (Event.announces id) ≤ 1) ↔ OrdersUnspent T tr := by
  rw [forall_congr' (announced_once_iff hrun)]
  constructor
  · -- what was removed was made before
    rintro honce tr₁ t tr₂ rfl maker asset_id money_id price amount direction salt hmakes u hu
      hremoves
    have h := outcome_of_mem hrun (t := t) (by simp)
    have hcreates := (creates_iff_makes h).mpr ⟨_, _, _, _, _, _, _, hmakes, rfl⟩
    obtain ⟨v, hv, hcreates'⟩ := (created_iff hempty hrun.split.1 _).mpr (.inr ⟨u, hu, hremoves⟩)
    exact honce _ tr₁ t tr₂ rfl v hv ⟨hcreates', hcreates⟩
  · rintro hunspent id tr₁ t tr₂ rfl v hv ⟨hcreates', hcreates⟩
    have h := outcome_of_mem hrun (t := t) (by simp)
    obtain ⟨order, hpre, -, -⟩ := (creates_iff h _).mp hcreates
    obtain ⟨maker, asset_id, money_id, price, amount, direction, salt, hmakes, rfl⟩ :=
      (creates_iff_makes h).mp hcreates
    -- made before and not in the map, so removed
    rcases (created_iff hempty hrun.split.1 _).mp ⟨v, hv, hcreates'⟩ with hne | ⟨u, hu, hremoves⟩
    · exact hne hpre
    · exact hunspent tr₁ t tr₂ rfl _ _ _ _ _ _ _ hmakes u hu hremoves

/-- Announced once is made of different fields, if the hash does not collide. -/
theorem announced_once_iff_distinct (hrun : (runtime T).Run allowed w₀ tr w)
    (hhash : HashSeparates T (tr.map Transition.input)) :
    (∀ id, (log tr).countP (Event.announces id) ≤ 1) ↔ OrdersDistinct tr := by
  rw [forall_congr' (announced_once_iff hrun), OrdersDistinct, ← Machine.along_iff_pairwise]
  constructor
  · rintro honce tr₁ t tr₂ rfl u hu maker asset_id money_id price amount direction salt
      ⟨hfirst, hsecond⟩
    have hcreates := (creates_iff_makes (outcome_of_mem hrun (t := u) (by simp [hu]))).mpr
      ⟨_, _, _, _, _, _, _, hfirst, rfl⟩
    have hcreates' := (creates_iff_makes (outcome_of_mem hrun (t := t) (by simp))).mpr
      ⟨_, _, _, _, _, _, _, hsecond, rfl⟩
    exact honce _ tr₁ t tr₂ rfl u hu ⟨hcreates, hcreates'⟩
  · rintro hdistinct id tr₁ t tr₂ rfl u hu ⟨hcreates, hcreates'⟩
    obtain ⟨maker, asset_id, money_id, price, amount, direction, salt, hfirst, hid⟩ :=
      (creates_iff_makes (outcome_of_mem hrun (t := u) (by simp [hu]))).mp hcreates
    obtain ⟨maker', asset_id', money_id', price', amount', direction', salt', hsecond, hid'⟩ :=
      (creates_iff_makes (outcome_of_mem hrun (t := t) (by simp))).mp hcreates'
    -- the same identifier is the same order
    cases hhash.preimage_eq (t := u) (by simp [hu]) (u := t) (by simp) hfirst.preimage
      hsecond.preimage (hid.symm.trans hid')
    exact hdistinct tr₁ t tr₂ rfl u hu _ _ _ _ _ _ _ ⟨hfirst, hsecond⟩

/-- **Order identifiers.** In a run from an empty order book, no identifier is
announced twice if and only if no order is made under the identifier of one that has
been filled up or cancelled; which, if the hash does not collide in it, is to say that no
order is made twice with the same fields. -/
theorem order_ids_once_iff (hempty : w₀.Orders = .empty)
    (hrun : (runtime T).Run (fun _ => True) w₀ tr w) :
    ((∀ id, (log tr).countP (Event.announces id) ≤ 1) ↔ OrdersUnspent T tr)
    ∧ (HashSeparates T (tr.map Transition.input) →
      ((∀ id, (log tr).countP (Event.announces id) ≤ 1) ↔ OrdersDistinct tr)) :=
  ⟨announced_once_iff_unspent hempty hrun, announced_once_iff_distinct hrun⟩

end Run

theorem order_ids_once_partial_fill :
    (∀ id, (log ((runtime devnet).trace (genesis fun _ => 1000) devnet_partial_fill)).countP
        (Event.announces id) ≤ 1)
      ↔ OrdersDistinct ((runtime devnet).trace (genesis fun _ => 1000) devnet_partial_fill) :=
  (order_ids_once_iff rfl (devnet_run _ _)).2
    (hashSeparates_of_injective Preimage.encode_injective _)

/-- An ask order made, cancelled, and made again with the same salt. -/
def devnet_order_again : List (Extrinsic ℕ (List ℕ)) :=
  devnet_opening ++
    [⟨.signed 1, 0, .carbonExchange (.make_order devnet_asset [] 200 3 0 0)⟩,
      ⟨.signed 1, 0, .carbonExchange (.cancel_order devnet_ask)⟩,
      ⟨.signed 1, 0, .carbonExchange (.make_order devnet_asset [] 200 3 0 0)⟩]

/-- **Two orders under one identifier.** -/
theorem order_again_reused :
    (runtime devnet).Run (fun _ => True) (genesis fun _ => 1000)
      ((runtime devnet).trace (genesis fun _ => 1000) devnet_order_again)
      ((runtime devnet).final (genesis fun _ => 1000) devnet_order_again)
    ∧ (log ((runtime devnet).trace (genesis fun _ => 1000) devnet_order_again)).countP
      (Event.announces devnet_ask) = 2 :=
  ⟨devnet_run _ _, by decide⟩

end Eco2
