/-
A market of standing offers.

Accounts own units of assets and money. An offer promises units for sale at a price, or
money for units, and what it promises stays its maker's until somebody accepts. Whatever
changes hands is posted as an entry, so that a state is what it was and what has been
posted since (`Steps.units`, `Steps.money`); and nobody gives away what is promised, so
that all offers are covered at all times (`Steps.covered`).

A market may be kept with the help of an escrow account, which holds for the makers what
their offers promise. `escrowed` is the market so kept, and the lemmas after it say what
has to be done to the accounts for each step.
-/
import Eco2.StorageMap
import Mathlib.Algebra.BigOperators.Pi
import Mathlib.Algebra.Order.Pi

set_option autoImplicit false
set_option linter.unusedSectionVars false

namespace Eco2

namespace Market

/-! ## Offers and entries -/

inductive Side
  | sell
  | buy
  deriving DecidableEq

/-- The units promised for the sale of so many. -/
def Side.units : Side → ℕ → ℕ
  | sell, n => n
  | buy, _ => 0

/-- The money promised for the purchase at so much. -/
def Side.money : Side → ℕ → ℕ
  | sell, _ => 0
  | buy, n => n

theorem Side.units_add (side : Side) (m n : ℕ) :
    side.units (m + n) = side.units m + side.units n := by
  cases side with
  | sell => rfl
  | buy => rfl

theorem Side.money_add (side : Side) (m n : ℕ) :
    side.money (m + n) = side.money m + side.money n := by
  cases side with
  | sell => rfl
  | buy => rfl

/-- An offer, with the amount that is left of it. -/
structure Offer (Account Asset : Type) where
  maker : Account
  asset : Asset
  side : Side
  price : ℕ
  left : ℕ

/-- What can be posted. -/
inductive Entry (Account Asset : Type)
  | trade (asset : Asset) (seller buyer : Account) (amount price : ℕ)
  | gift (asset : Asset) (src dst : Account) (amount : ℕ)
  | payment (src dst : Account) (value : ℕ)
  | issue (asset : Asset) (dst : Account) (amount : ℕ)
  | retire (asset : Asset) (src : Account) (amount : ℕ)
  | loss (x : Account) (value : ℕ)
  deriving DecidableEq

variable {Account Asset Id : Type} [DecidableEq Account] [DecidableEq Asset]

/-- The units that an offer promises. -/
def Offer.units (o : Offer Account Asset) : Asset × Account → ℤ :=
  Pi.single (o.asset, o.maker) (o.side.units o.left : ℤ)

/-- The money that an offer promises. -/
def Offer.money (o : Offer Account Asset) : Account → ℤ :=
  Pi.single o.maker (o.side.money (o.left * o.price) : ℤ)

/-- The part of an offer. -/
def Offer.part (o : Offer Account Asset) (amount : ℕ) : Offer Account Asset :=
  { o with left := amount }

/-- The same offer, in the name of another account. -/
def Offer.in_name_of (o : Offer Account Asset) (x : Account) : Offer Account Asset :=
  { o with maker := x }

/-- What is posted where `taker` accepts `amount` of the offer. -/
def Offer.trade (o : Offer Account Asset) (taker : Account) (amount : ℕ) : Entry Account Asset :=
  match o.side with
  | .sell => .trade o.asset o.maker taker amount o.price
  | .buy => .trade o.asset taker o.maker amount o.price

/-- So much goes from one place to another. -/
def move {K : Type} [DecidableEq K] (src dst : K) (n : ℕ) : K → ℤ :=
  Pi.single dst (n : ℤ) - Pi.single src (n : ℤ)

theorem move_zero {K : Type} [DecidableEq K] (src dst : K) : move src dst 0 = 0 := by
  unfold move
  rw [Nat.cast_zero, Pi.single_zero, Pi.single_zero, sub_zero]

theorem move_self {K : Type} [DecidableEq K] (k : K) (n : ℕ) : move k k n = 0 := sub_self _

theorem move_src {K : Type} [DecidableEq K] {src dst : K} (n : ℕ) (hne : src ≠ dst) :
    move src dst n src = -n := by
  unfold move
  rw [Pi.sub_apply, Pi.single_eq_of_ne hne, Pi.single_eq_same, zero_sub]

/-- The units that an entry brings and takes. -/
def Entry.units : Entry Account Asset → Asset × Account → ℤ
  | trade asset seller buyer amount _ => move (asset, seller) (asset, buyer) amount
  | gift asset src dst amount => move (asset, src) (asset, dst) amount
  | payment _ _ _ => 0
  | issue asset dst amount => Pi.single (asset, dst) (amount : ℤ)
  | retire asset src amount => -Pi.single (asset, src) (amount : ℤ)
  | loss _ _ => 0

/-- The money that an entry brings and takes. -/
def Entry.money : Entry Account Asset → Account → ℤ
  | trade _ seller buyer amount price => move buyer seller (amount * price)
  | gift _ _ _ _ => 0
  | payment src dst value => move src dst value
  | issue _ _ _ => 0
  | retire _ _ _ => 0
  | loss x value => -Pi.single x (value : ℤ)

end Market

open Market

/-- A state of the market: what accounts own, and the live offers. -/
structure Market (Account Asset Id : Type) where
  units : Asset × Account → ℤ
  money : Account → ℤ
  offers : StorageMap Id (Offer Account Asset)

namespace Market

variable {Account Asset Id : Type} [DecidableEq Account] [DecidableEq Asset]

/-! ## Promises -/

section Promises

/-- The units that the offers promise. -/
def promised_units (offers : StorageMap Id (Offer Account Asset)) : Asset × Account → ℤ :=
  offers.sum fun _ o => o.units

/-- The money that the offers promise. -/
def promised_money (offers : StorageMap Id (Offer Account Asset)) : Account → ℤ :=
  offers.sum fun _ o => o.money

/-- The units that are not promised. -/
def free_units (m : Market Account Asset Id) : Asset × Account → ℤ :=
  m.units - promised_units m.offers

/-- The money that is not promised. -/
def free_money (m : Market Account Asset Id) : Account → ℤ :=
  m.money - promised_money m.offers

/-- Every account owns what it promises. -/
structure Covered (m : Market Account Asset Id) : Prop where
  units : 0 ≤ m.free_units
  money : 0 ≤ m.free_money

end Promises

/-! ## Steps -/

section Steps

variable [DecidableEq Id]

/-- The offers after `amount` of one has been accepted. -/
def reduce (offers : StorageMap Id (Offer Account Asset)) (id : Id) (o : Offer Account Asset)
    (amount : ℕ) : StorageMap Id (Offer Account Asset) :=
  if amount < o.left then offers.insert id (o.part (o.left - amount)) else offers.remove id

/-- An entry is posted. -/
def post (m : Market Account Asset Id) (e : Entry Account Asset) : Market Account Asset Id :=
  { m with units := m.units + e.units, money := m.money + e.money }

/-- `amount` of the offer is accepted. -/
def accept (m : Market Account Asset Id) (id : Id) (o : Offer Account Asset) (taker : Account)
    (amount : ℕ) : Market Account Asset Id :=
  { m.post (o.trade taker amount) with offers := reduce m.offers id o amount }

/-- What an entry takes without an offer is not promised. -/
def Entry.Free (m : Market Account Asset Id) : Entry Account Asset → Prop
  | trade _ _ _ _ _ => False
  | gift asset src dst amount => src ≠ dst → (amount : ℤ) ≤ m.free_units (asset, src)
  | payment src dst value => src ≠ dst → (value : ℤ) ≤ m.free_money src
  | issue _ _ _ => True
  | retire asset src amount => (amount : ℤ) ≤ m.free_units (asset, src)
  | loss x value => (value : ℤ) ≤ m.free_money x

/-- One step, with what is posted. -/
inductive Step (m : Market Account Asset Id) :
    List (Entry Account Asset) → Market Account Asset Id → Prop
  | place (id : Id) (o : Offer Account Asset) (hfresh : m.offers.get id = none)
      (hunits : (o.side.units o.left : ℤ) ≤ m.free_units (o.asset, o.maker))
      (hmoney : (o.side.money (o.left * o.price) : ℤ) ≤ m.free_money o.maker) :
      Step m [] { m with offers := m.offers.insert id o }
  | withdraw (id : Id) (o : Offer Account Asset) (hoffer : m.offers.get id = some o) :
      Step m [] { m with offers := m.offers.remove id }
  | accept (id : Id) (o : Offer Account Asset) (taker : Account) (amount : ℕ)
      (hoffer : m.offers.get id = some o) (hleft : amount ≤ o.left)
      (hunits : o.side = .buy → taker ≠ o.maker → (amount : ℤ) ≤ m.free_units (o.asset, taker))
      (hmoney : o.side = .sell → taker ≠ o.maker →
        ((amount * o.price : ℕ) : ℤ) ≤ m.free_money taker) :
      Step m [o.trade taker amount] (m.accept id o taker amount)
  | post (e : Entry Account Asset) (hfree : e.Free m) : Step m [e] (m.post e)

/-- `m.Steps es m'`: steps lead from `m` to `m'` and post the entries `es`. -/
inductive Steps (m : Market Account Asset Id) :
    List (Entry Account Asset) → Market Account Asset Id → Prop
  | nil : Steps m [] m
  | snoc {es es' : List (Entry Account Asset)} {m' m'' : Market Account Asset Id}
      (hsteps : Steps m es m') (hstep : Step m' es' m'') : Steps m (es ++ es') m''

variable {m m' m'' : Market Account Asset Id} {es es' : List (Entry Account Asset)}

theorem Step.steps (h : m.Step es m') : m.Steps es m' := .snoc .nil h

theorem Steps.trans (h : m.Steps es m') (h' : m'.Steps es' m'') : m.Steps (es ++ es') m'' := by
  induction h' with
  | nil => rwa [List.append_nil]
  | snoc _ hstep ih =>
    rw [← List.append_assoc]
    exact ih.snoc hstep

/-! ## What has been posted -/

theorem Step.units (h : m.Step es m') : m'.units = m.units + (es.map Entry.units).sum := by
  cases h with
  | place => exact (add_zero _).symm
  | withdraw => exact (add_zero _).symm
  | accept => exact congrArg (m.units + ·) (List.sum_singleton).symm
  | post => exact congrArg (m.units + ·) (List.sum_singleton).symm

theorem Step.money (h : m.Step es m') : m'.money = m.money + (es.map Entry.money).sum := by
  cases h with
  | place => exact (add_zero _).symm
  | withdraw => exact (add_zero _).symm
  | accept => exact congrArg (m.money + ·) (List.sum_singleton).symm
  | post => exact congrArg (m.money + ·) (List.sum_singleton).symm

/-- What accounts own is what they owned and what has been posted. -/
theorem Steps.units (h : m.Steps es m') : m'.units = m.units + (es.map Entry.units).sum := by
  induction h with
  | nil => exact (add_zero _).symm
  | snoc _ hstep ih => rw [hstep.units, ih, List.map_append, List.sum_append, add_assoc]

theorem Steps.money (h : m.Steps es m') : m'.money = m.money + (es.map Entry.money).sum := by
  induction h with
  | nil => exact (add_zero _).symm
  | snoc _ hstep ih => rw [hstep.money, ih, List.map_append, List.sum_append, add_assoc]

/-! ## Cover -/

/-- What an offer promises is promised part by part. -/
theorem Offer.units_part (o : Offer Account Asset) {amount : ℕ} (hleft : amount ≤ o.left) :
    (o.part (o.left - amount)).units + (o.part amount).units = o.units := by
  have hsplit := o.side.units_add (o.left - amount) amount
  rw [Nat.sub_add_cancel hleft] at hsplit
  refine (Pi.single_add _ _ _).symm.trans (congrArg (Pi.single _) ?_)
  rw [hsplit, Nat.cast_add]
  rfl

theorem Offer.money_part (o : Offer Account Asset) {amount : ℕ} (hleft : amount ≤ o.left) :
    (o.part (o.left - amount)).money + (o.part amount).money = o.money := by
  have hsplit := o.side.money_add ((o.left - amount) * o.price) (amount * o.price)
  rw [← Nat.add_mul, Nat.sub_add_cancel hleft] at hsplit
  refine (Pi.single_add _ _ _).symm.trans (congrArg (Pi.single _) ?_)
  rw [hsplit, Nat.cast_add]
  rfl

/-- Accepting a part of an offer takes that part off a sum over the offers. -/
theorem sum_reduce {M : Type} [AddCommGroup M] {offers : StorageMap Id (Offer Account Asset)}
    {id : Id} {o : Offer Account Asset} {amount : ℕ} (f : Offer Account Asset → M)
    (hoffer : offers.get id = some o) (hleft : amount ≤ o.left)
    (hpart : f (o.part (o.left - amount)) + f (o.part amount) = f o) :
    (reduce offers id o amount).sum (fun _ o => f o) + f (o.part amount)
      = offers.sum fun _ o => f o := by
  unfold reduce
  by_cases hmore : amount < o.left
  · rw [if_pos hmore]
    have hinsert := StorageMap.sum_insert offers (fun _ o => f o) id (o.part (o.left - amount))
    rw [hoffer, StorageMap.weight_some, ← hpart] at hinsert
    -- the rest of the offer stands on both sides
    refine add_right_cancel (b := f (o.part (o.left - amount))) ?_
    rw [add_assoc, add_comm (f (o.part amount))]
    exact hinsert
  · rw [if_neg hmore]
    obtain rfl : amount = o.left := by omega
    have hremove := StorageMap.sum_remove offers (fun _ o => f o) id
    rwa [hoffer, StorageMap.weight_some] at hremove

section Nonneg

variable {K : Type} [DecidableEq K] {f : K → ℤ} {k l : K} {n : ℕ}

/-- Where there is so much, so much can be taken. -/
theorem sub_single_nonneg {n : ℤ} (hf : 0 ≤ f) (hle : n ≤ f k) : 0 ≤ f - Pi.single k n := by
  intro i
  have hi : 0 ≤ f i := hf i
  change 0 ≤ f i - (Pi.single k n : K → ℤ) i
  rw [Pi.single_apply]
  split
  · rename_i heq
    rw [heq]
    omega
  · omega

/-- What is moved has to be there, except from a place to itself. -/
theorem add_move_nonneg (hf : 0 ≤ f) (hle : k ≠ l → (n : ℤ) ≤ f k) : 0 ≤ f + move k l n := by
  unfold move
  by_cases hkl : k = l
  · rw [hkl, sub_self, add_zero]
    exact hf
  · rw [← add_sub_assoc]
    have hsum : 0 ≤ f + Pi.single l (n : ℤ) :=
      add_nonneg hf (Pi.single_nonneg.mpr (Int.natCast_nonneg n))
    refine sub_single_nonneg hsum ?_
    rw [Pi.add_apply, Pi.single_eq_of_ne hkl, add_zero]
    exact hle hkl

end Nonneg

theorem Offer.units_nonneg (o : Offer Account Asset) : 0 ≤ o.units :=
  Pi.single_nonneg.mpr (Int.natCast_nonneg _)

theorem Offer.money_nonneg (o : Offer Account Asset) : 0 ≤ o.money :=
  Pi.single_nonneg.mpr (Int.natCast_nonneg _)

/-- What is free after an offer has been withdrawn. -/
theorem free_withdraw {id : Id} {o : Offer Account Asset} (hoffer : m.offers.get id = some o) :
    free_units { m with offers := m.offers.remove id } = m.free_units + o.units
      ∧ free_money { m with offers := m.offers.remove id } = m.free_money + o.money := by
  have hunits := StorageMap.sum_remove m.offers (fun _ o => o.units) id
  have hmoney := StorageMap.sum_remove m.offers (fun _ o => o.money) id
  rw [hoffer, StorageMap.weight_some] at hunits hmoney
  constructor
  · change m.units - (m.offers.remove id).sum (fun _ o => o.units)
      = m.units - m.offers.sum (fun _ o => o.units) + _
    rw [← hunits]
    abel
  · change m.money - (m.offers.remove id).sum (fun _ o => o.money)
      = m.money - m.offers.sum (fun _ o => o.money) + _
    rw [← hmoney]
    abel

/-- What is free after an offer has been accepted in part. -/
theorem free_accept {id : Id} {o : Offer Account Asset} {amount : ℕ}
    (hoffer : m.offers.get id = some o) (hleft : amount ≤ o.left) (taker : Account) :
    (m.accept id o taker amount).free_units
        = m.free_units + ((o.trade taker amount).units + (o.part amount).units)
      ∧ (m.accept id o taker amount).free_money
        = m.free_money + ((o.trade taker amount).money + (o.part amount).money) := by
  have hunits := sum_reduce Offer.units hoffer hleft (o.units_part hleft)
  have hmoney := sum_reduce Offer.money hoffer hleft (o.money_part hleft)
  constructor
  · change m.units + _ - (reduce m.offers id o amount).sum (fun _ o => o.units)
      = m.units - m.offers.sum (fun _ o => o.units) + _
    rw [← hunits]
    abel
  · change m.money + _ - (reduce m.offers id o amount).sum (fun _ o => o.money)
      = m.money - m.offers.sum (fun _ o => o.money) + _
    rw [← hmoney]
    abel

/-- What a trade takes off the promises and what it brings. -/
theorem Offer.units_trade (o : Offer Account Asset) (taker : Account) (amount : ℕ) :
    (o.trade taker amount).units + (o.part amount).units
      = match o.side with
        | .sell => Pi.single (o.asset, taker) (amount : ℤ)
        | .buy => move (o.asset, taker) (o.asset, o.maker) amount := by
  obtain ⟨maker, asset, side, price, left⟩ := o
  cases side with
  | sell => exact sub_add_cancel _ _
  | buy =>
    refine (congrArg (_ + ·) ?_).trans (add_zero _)
    exact Pi.single_zero _

theorem Offer.money_trade (o : Offer Account Asset) (taker : Account) (amount : ℕ) :
    (o.trade taker amount).money + (o.part amount).money
      = match o.side with
        | .sell => move taker o.maker (amount * o.price)
        | .buy => Pi.single taker ((amount * o.price : ℕ) : ℤ) := by
  obtain ⟨maker, asset, side, price, left⟩ := o
  cases side with
  | sell =>
    refine (congrArg (_ + ·) ?_).trans (add_zero _)
    exact Pi.single_zero _
  | buy => exact sub_add_cancel _ _

/-- Every step keeps the offers covered. -/
theorem Step.covered (hcovered : m.Covered) (h : m.Step es m') : m'.Covered := by
  cases h with
  | place id o hfresh hunits hmoney =>
    constructor
    · refine (sub_single_nonneg hcovered.units hunits).trans_eq ?_
      change m.units - _ - _ = m.units - (m.offers.insert id o).sum _
      rw [StorageMap.sum_insert_of_none _ _ hfresh]
      exact sub_sub _ _ _
    · refine (sub_single_nonneg hcovered.money hmoney).trans_eq ?_
      change m.money - _ - _ = m.money - (m.offers.insert id o).sum _
      rw [StorageMap.sum_insert_of_none _ _ hfresh]
      exact sub_sub _ _ _
  | withdraw id o hoffer =>
    obtain ⟨hunits, hmoney⟩ := free_withdraw hoffer
    constructor
    · rw [hunits]
      exact add_nonneg hcovered.units o.units_nonneg
    · rw [hmoney]
      exact add_nonneg hcovered.money o.money_nonneg
  | accept id o taker amount hoffer hleft hunits hmoney =>
    obtain ⟨hfree_units, hfree_money⟩ := free_accept hoffer hleft taker
    -- the side that is promised covers its own part of the trade
    constructor
    · rw [hfree_units, o.units_trade]
      cases hside : o.side with
      | sell => exact add_nonneg hcovered.units (Pi.single_nonneg.mpr (Int.natCast_nonneg _))
      | buy =>
        refine add_move_nonneg hcovered.units fun hne => hunits hside ?_
        rintro rfl
        exact hne rfl
    · rw [hfree_money, o.money_trade]
      cases hside : o.side with
      | sell => exact add_move_nonneg hcovered.money (hmoney hside)
      | buy => exact add_nonneg hcovered.money (Pi.single_nonneg.mpr (Int.natCast_nonneg _))
  | post e hfree =>
    have hunits : (m.post e).free_units = m.free_units + e.units := add_sub_right_comm _ _ _
    have hmoney : (m.post e).free_money = m.free_money + e.money := add_sub_right_comm _ _ _
    cases e with
    | trade => cases hfree
    | gift asset src dst amount =>
      constructor
      · rw [hunits]
        refine add_move_nonneg hcovered.units fun hne => hfree ?_
        rintro rfl
        exact hne rfl
      · rw [hmoney]
        exact add_nonneg hcovered.money le_rfl
    | payment src dst value =>
      constructor
      · rw [hunits]
        exact add_nonneg hcovered.units le_rfl
      · rw [hmoney]
        exact add_move_nonneg hcovered.money hfree
    | issue asset dst amount =>
      constructor
      · rw [hunits]
        exact add_nonneg hcovered.units (Pi.single_nonneg.mpr (Int.natCast_nonneg _))
      · rw [hmoney]
        exact add_nonneg hcovered.money le_rfl
    | retire asset src amount =>
      constructor
      · rw [hunits]
        exact (sub_single_nonneg hcovered.units hfree).trans_eq (sub_eq_add_neg _ _)
      · rw [hmoney]
        exact add_nonneg hcovered.money le_rfl
    | loss x value =>
      constructor
      · rw [hunits]
        exact add_nonneg hcovered.units le_rfl
      · rw [hmoney]
        exact (sub_single_nonneg hcovered.money hfree).trans_eq (sub_eq_add_neg _ _)

/-- All offers are covered at all times. -/
theorem Steps.covered (hcovered : m.Covered) (h : m.Steps es m') : m'.Covered := by
  induction h with
  | nil => exact hcovered
  | snoc _ hstep ih => exact hstep.covered ih

end Steps

/-! ## Keeping what is promised in escrow -/

section Escrow

variable (p : Account) (held : Asset × Account → ℤ) (cash : Account → ℤ)
  (offers : StorageMap Id (Offer Account Asset))

/-- The units that the escrow account holds for the offers. -/
def deposited_units : Asset × Account → ℤ := offers.sum fun _ o => (o.in_name_of p).units

/-- The money that it holds for them. -/
def deposited_money : Account → ℤ := offers.sum fun _ o => (o.in_name_of p).money

/-- The market where the accounts hold units and cash, and the account `p` what the offers
promise: that is their makers'. -/
def escrowed : Market Account Asset Id where
  units := held + promised_units offers - deposited_units p offers
  money := cash + promised_money offers - deposited_money p offers
  offers := offers

theorem free_units_escrowed :
    (escrowed p held cash offers).free_units = held - deposited_units p offers :=
  (sub_right_comm _ _ _).trans (congrArg (· - _) (add_sub_cancel_right _ _))

theorem free_money_escrowed :
    (escrowed p held cash offers).free_money = cash - deposited_money p offers :=
  (sub_right_comm _ _ _).trans (congrArg (· - _) (add_sub_cancel_right _ _))

variable {p held cash offers}

/-- Nobody else holds anything in escrow. -/
theorem free_units_of_ne (a : Asset) {x : Account} (hx : x ≠ p) :
    (escrowed p held cash offers).free_units (a, x) = held (a, x) := by
  have hnone : deposited_units p offers (a, x) = 0 := by
    refine (StorageMap.sum_apply _ _ _).trans (StorageMap.sum_eq_zero fun _ o _ => ?_)
    exact Pi.single_eq_of_ne (fun hc => hx (Prod.mk.inj hc).2) _
  rw [free_units_escrowed, Pi.sub_apply, hnone, sub_zero]

theorem free_money_of_ne {x : Account} (hx : x ≠ p) :
    (escrowed p held cash offers).free_money x = cash x := by
  have hnone : deposited_money p offers x = 0 := by
    refine (StorageMap.sum_apply _ _ _).trans (StorageMap.sum_eq_zero fun _ o _ => ?_)
    exact Pi.single_eq_of_ne hx _
  rw [free_money_escrowed, Pi.sub_apply, hnone, sub_zero]

/-- Where the offers are covered, the escrow account holds what each of them promises. -/
theorem Covered.units_le (h : (escrowed p held cash offers).Covered) {id : Id}
    {o : Offer Account Asset} (hoffer : offers.get id = some o) :
    o.side.units o.left ≤ held (o.asset, p) := by
  have hfree : 0 ≤ (escrowed p held cash offers).free_units (o.asset, p) := h.units _
  have hkey : id ∈ offers.keys := (offers.mem_keys id).mpr (Option.isSome_of_eq_some hoffer)
  have hpart : StorageMap.weight (fun _ o => (o.in_name_of p).units) id (offers.get id)
      ≤ deposited_units p offers := by
    refine Finset.single_le_sum
      (f := fun k => StorageMap.weight (fun _ o => (o.in_name_of p).units) k (offers.get k))
      (fun k _ => ?_) hkey
    cases offers.get k with
    | none => exact le_rfl
    | some o => exact (o.in_name_of p).units_nonneg
  rw [hoffer] at hpart
  have hle : (o.in_name_of p).units (o.asset, p) ≤ deposited_units p offers (o.asset, p) := hpart _
  have hunits : (o.in_name_of p).units (o.asset, p) = o.side.units o.left :=
    Pi.single_eq_same _ _
  rw [free_units_escrowed, Pi.sub_apply] at hfree
  omega

variable [DecidableEq Id]

/-- A new offer is put in escrow. -/
theorem step_place {id : Id} {o : Offer Account Asset} (hfresh : offers.get id = none)
    (hmaker : o.maker ≠ p) (hunits : (o.side.units o.left : ℤ) ≤ held (o.asset, o.maker))
    (hmoney : (o.side.money (o.left * o.price) : ℤ) ≤ cash o.maker) :
    (escrowed p held cash offers).Step []
      (escrowed p (held + move (o.asset, o.maker) (o.asset, p) (o.side.units o.left))
        (cash + move o.maker p (o.side.money (o.left * o.price))) (offers.insert id o)) := by
  have hsum {M : Type} [AddCommMonoid M] (f : Offer Account Asset → M) :
      (offers.insert id o).sum (fun _ o => f o) = offers.sum (fun _ o => f o) + f o :=
    StorageMap.sum_insert_of_none _ _ hfresh
  have hplaced : escrowed p (held + ((o.in_name_of p).units - o.units))
        (cash + ((o.in_name_of p).money - o.money)) (offers.insert id o)
      = { escrowed p held cash offers with offers := offers.insert id o } := by
    unfold escrowed promised_units promised_money deposited_units deposited_money
    dsimp only
    rw [hsum Offer.units, hsum Offer.money, hsum fun o => (o.in_name_of p).units,
      hsum fun o => (o.in_name_of p).money]
    congr 1
    · abel
    · abel
  refine hplaced ▸ .place id o hfresh ?_ ?_
  · rwa [free_units_of_ne _ hmaker]
  · rwa [free_money_of_ne hmaker]

/-- An offer that is withdrawn is given back. -/
theorem step_withdraw {id : Id} {o : Offer Account Asset} (hoffer : offers.get id = some o) :
    (escrowed p held cash offers).Step []
      (escrowed p (held + move (o.asset, p) (o.asset, o.maker) (o.side.units o.left))
        (cash + move p o.maker (o.side.money (o.left * o.price))) (offers.remove id)) := by
  have hsum {M : Type} [AddCommMonoid M] (f : Offer Account Asset → M) :
      (offers.remove id).sum (fun _ o => f o) + f o = offers.sum (fun _ o => f o) := by
    have hremove := StorageMap.sum_remove offers (fun _ o => f o) id
    rwa [hoffer, StorageMap.weight_some] at hremove
  have hwithdrawn : escrowed p (held + (o.units - (o.in_name_of p).units))
        (cash + (o.money - (o.in_name_of p).money)) (offers.remove id)
      = { escrowed p held cash offers with offers := offers.remove id } := by
    unfold escrowed promised_units promised_money deposited_units deposited_money
    dsimp only
    rw [← hsum Offer.units, ← hsum Offer.money, ← hsum fun o => (o.in_name_of p).units,
      ← hsum fun o => (o.in_name_of p).money]
    congr 1
    · abel
    · abel
  exact hwithdrawn ▸ .withdraw id o hoffer

/-- What is accepted of an offer goes out of escrow. -/
theorem step_accept {id : Id} {o : Offer Account Asset} {taker : Account} {amount : ℕ}
    (hoffer : offers.get id = some o) (hleft : amount ≤ o.left) (htaker : taker ≠ p)
    (hunits : o.side = .buy → taker ≠ o.maker → (amount : ℤ) ≤ held (o.asset, taker))
    (hmoney : o.side = .sell → taker ≠ o.maker → ((amount * o.price : ℕ) : ℤ) ≤ cash taker) :
    (escrowed p held cash offers).Step [o.trade taker amount]
      (escrowed p
        (held + match o.side with
          | .sell => move (o.asset, p) (o.asset, taker) amount
          | .buy => move (o.asset, taker) (o.asset, o.maker) amount)
        (cash + match o.side with
          | .sell => move taker o.maker (amount * o.price)
          | .buy => move p taker (amount * o.price))
        (reduce offers id o amount)) := by
  have haccepted : escrowed p
        (held + ((o.trade taker amount).units + (o.part amount).units
          - ((o.part amount).in_name_of p).units))
        (cash + ((o.trade taker amount).money + (o.part amount).money
          - ((o.part amount).in_name_of p).money))
        (reduce offers id o amount)
      = (escrowed p held cash offers).accept id o taker amount := by
    unfold escrowed accept post promised_units promised_money deposited_units deposited_money
    dsimp only
    rw [← sum_reduce Offer.units hoffer hleft (o.units_part hleft),
      ← sum_reduce Offer.money hoffer hleft (o.money_part hleft),
      ← sum_reduce (fun o => (o.in_name_of p).units) hoffer hleft
        ((o.in_name_of p).units_part hleft),
      ← sum_reduce (fun o => (o.in_name_of p).money) hoffer hleft
        ((o.in_name_of p).money_part hleft)]
    congr 1
    · abel
    · abel
  have hstep : (escrowed p held cash offers).Step [o.trade taker amount]
      ((escrowed p held cash offers).accept id o taker amount) :=
    .accept id o taker amount hoffer hleft
      (fun hside hne => (hunits hside hne).trans_eq (free_units_of_ne _ htaker).symm)
      (fun hside hne => (hmoney hside hne).trans_eq (free_money_of_ne htaker).symm)
  rw [← haccepted, o.units_trade, o.money_trade] at hstep
  obtain ⟨maker, asset, side, price, left⟩ := o
  -- the side that is not promised has nothing in escrow
  have hzero {K : Type} [DecidableEq K] (f : K → ℤ) (k : K) :
      f - Pi.single k ((0 : ℕ) : ℤ) = f := by
    rw [Nat.cast_zero, Pi.single_zero, sub_zero]
  cases side with
  | sell => exact (hzero (move taker maker (amount * price)) p) ▸ hstep
  | buy => exact (hzero (move (asset, taker) (asset, maker) amount) (asset, p)) ▸ hstep

section Sides

variable {id : Id} {o : Offer Account Asset} {taker : Account} {amount : ℕ}

/-- Units that are offered for sale go into escrow. -/
theorem step_place_sell (hside : o.side = .sell) (hfresh : offers.get id = none)
    (hmaker : o.maker ≠ p) (hle : (o.left : ℤ) ≤ held (o.asset, o.maker))
    (hcash : 0 ≤ cash o.maker) :
    (escrowed p held cash offers).Step []
      (escrowed p (held + move (o.asset, o.maker) (o.asset, p) o.left) cash
        (offers.insert id o)) := by
  have hunits : o.side.units o.left = o.left := by rw [hside, Side.units]
  have hmoney : o.side.money (o.left * o.price) = 0 := by rw [hside, Side.money]
  have hle' : (o.side.units o.left : ℤ) ≤ held (o.asset, o.maker) := by rwa [hunits]
  have hcash' : (o.side.money (o.left * o.price) : ℤ) ≤ cash o.maker := by rwa [hmoney]
  have hstep := step_place hfresh hmaker hle' hcash'
  rwa [hunits, hmoney, move_zero, add_zero] at hstep

/-- Money that is offered for units goes into escrow. -/
theorem step_place_buy (hside : o.side = .buy) (hfresh : offers.get id = none)
    (hmaker : o.maker ≠ p) (hheld : 0 ≤ held (o.asset, o.maker))
    (hle : ((o.left * o.price : ℕ) : ℤ) ≤ cash o.maker) :
    (escrowed p held cash offers).Step []
      (escrowed p held (cash + move o.maker p (o.left * o.price)) (offers.insert id o)) := by
  have hunits : o.side.units o.left = 0 := by rw [hside, Side.units]
  have hmoney : o.side.money (o.left * o.price) = o.left * o.price := by rw [hside, Side.money]
  have hheld' : (o.side.units o.left : ℤ) ≤ held (o.asset, o.maker) := by rwa [hunits]
  have hle' : (o.side.money (o.left * o.price) : ℤ) ≤ cash o.maker := by rwa [hmoney]
  have hstep := step_place hfresh hmaker hheld' hle'
  rwa [hunits, hmoney, move_zero, add_zero] at hstep

theorem step_withdraw_sell (hside : o.side = .sell) (hoffer : offers.get id = some o) :
    (escrowed p held cash offers).Step []
      (escrowed p (held + move (o.asset, p) (o.asset, o.maker) o.left) cash
        (offers.remove id)) := by
  have hunits : o.side.units o.left = o.left := by rw [hside, Side.units]
  have hmoney : o.side.money (o.left * o.price) = 0 := by rw [hside, Side.money]
  have hstep : (escrowed p held cash offers).Step [] _ := step_withdraw hoffer
  rwa [hunits, hmoney, move_zero, add_zero] at hstep

theorem step_withdraw_buy (hside : o.side = .buy) (hoffer : offers.get id = some o) :
    (escrowed p held cash offers).Step []
      (escrowed p held (cash + move p o.maker (o.left * o.price)) (offers.remove id)) := by
  have hunits : o.side.units o.left = 0 := by rw [hside, Side.units]
  have hmoney : o.side.money (o.left * o.price) = o.left * o.price := by rw [hside, Side.money]
  have hstep : (escrowed p held cash offers).Step [] _ := step_withdraw hoffer
  rwa [hunits, hmoney, move_zero, add_zero] at hstep

/-- The buyer of units on sale pays the maker, and is given them out of escrow. -/
theorem step_accept_sell (hside : o.side = .sell) (hoffer : offers.get id = some o)
    (hleft : amount ≤ o.left) (htaker : taker ≠ p)
    (hle : taker ≠ o.maker → ((amount * o.price : ℕ) : ℤ) ≤ cash taker) :
    (escrowed p held cash offers).Step [o.trade taker amount]
      (escrowed p (held + move (o.asset, p) (o.asset, taker) amount)
        (cash + move taker o.maker (amount * o.price)) (reduce offers id o amount)) := by
  have hstep : (escrowed p held cash offers).Step [o.trade taker amount] _ :=
    step_accept hoffer hleft htaker (fun hbuy => by cases hside.symm.trans hbuy) fun _ => hle
  rwa [hside] at hstep

/-- The seller of units asked for hands them to the maker, and is paid out of escrow. -/
theorem step_accept_buy (hside : o.side = .buy) (hoffer : offers.get id = some o)
    (hleft : amount ≤ o.left) (htaker : taker ≠ p)
    (hle : taker ≠ o.maker → (amount : ℤ) ≤ held (o.asset, taker)) :
    (escrowed p held cash offers).Step [o.trade taker amount]
      (escrowed p (held + move (o.asset, taker) (o.asset, o.maker) amount)
        (cash + move p taker (amount * o.price)) (reduce offers id o amount)) := by
  have hstep : (escrowed p held cash offers).Step [o.trade taker amount] _ :=
    step_accept hoffer hleft htaker (fun _ => hle) fun hsell => by cases hside.symm.trans hsell
  rwa [hside] at hstep

end Sides

/-- Whatever else is posted leaves the escrow as it is. -/
theorem step_post {e : Entry Account Asset} (hfree : e.Free (escrowed p held cash offers)) :
    (escrowed p held cash offers).Step [e]
      (escrowed p (held + e.units) (cash + e.money) offers) := by
  have hposted : escrowed p (held + e.units) (cash + e.money) offers
      = (escrowed p held cash offers).post e := by
    unfold escrowed post
    dsimp only
    congr 1
    · abel
    · abel
  rw [hposted]
  exact .post e hfree

/-- Units are issued. -/
theorem step_issue (a : Asset) (x : Account) (n : ℕ) :
    (escrowed p held cash offers).Step [.issue a x n]
      (escrowed p (held + Pi.single (a, x) (n : ℤ)) cash offers) := by
  have hstep : (escrowed p held cash offers).Step [.issue a x n]
      (escrowed p (held + Pi.single (a, x) (n : ℤ)) (cash + 0) offers) := step_post trivial
  rwa [add_zero] at hstep

/-- Units are retired by an account that holds them. -/
theorem step_retire {a : Asset} {x : Account} {n : ℕ} (hx : x ≠ p) (hle : (n : ℤ) ≤ held (a, x)) :
    (escrowed p held cash offers).Step [.retire a x n]
      (escrowed p (held - Pi.single (a, x) (n : ℤ)) cash offers) := by
  have hstep : (escrowed p held cash offers).Step [.retire a x n]
      (escrowed p (held + -Pi.single (a, x) (n : ℤ)) (cash + 0) offers) :=
    step_post (hle.trans_eq (free_units_of_ne a hx).symm)
  rwa [add_zero, ← sub_eq_add_neg] at hstep

/-- Units are given by an account that holds them. -/
theorem step_gift {a : Asset} {x : Account} (y : Account) {n : ℕ} (hx : x ≠ p)
    (hle : (n : ℤ) ≤ held (a, x)) :
    (escrowed p held cash offers).Step [.gift a x y n]
      (escrowed p (held + move (a, x) (a, y) n) cash offers) := by
  have hstep : (escrowed p held cash offers).Step [.gift a x y n]
      (escrowed p (held + move (a, x) (a, y) n) (cash + 0) offers) :=
    step_post fun _ => hle.trans_eq (free_units_of_ne a hx).symm
  rwa [add_zero] at hstep

/-- Money is paid by an account that has it. -/
theorem step_payment {x y : Account} {n : ℕ} (hx : x ≠ p) (hle : x ≠ y → (n : ℤ) ≤ cash x) :
    (escrowed p held cash offers).Step [.payment x y n]
      (escrowed p held (cash + move x y n) offers) := by
  have hstep : (escrowed p held cash offers).Step [.payment x y n]
      (escrowed p (held + 0) (cash + move x y n) offers) :=
    step_post fun hne => (hle hne).trans_eq (free_money_of_ne hx).symm
  rwa [add_zero] at hstep

/-- Money is lost by an account that has it. -/
theorem step_loss {x : Account} {n : ℕ} (hx : x ≠ p) (hle : (n : ℤ) ≤ cash x) :
    (escrowed p held cash offers).Step [.loss x n]
      (escrowed p held (cash - Pi.single x (n : ℤ)) offers) := by
  have hstep : (escrowed p held cash offers).Step [.loss x n]
      (escrowed p (held + 0) (cash + -Pi.single x (n : ℤ)) offers) :=
    step_post (hle.trans_eq (free_money_of_ne hx).symm)
  rwa [add_zero, ← sub_eq_add_neg] at hstep

end Escrow

end Market

end Eco2
