/-
Finite storage maps, and sums over their entries.

A `decl_storage!` map is a partial function from keys to values of which only
finitely many keys are present. `StorageMap` keeps the set of present keys next
to the lookup function, with the proof that the two agree as a field, so that a
map with a wrong key set cannot be built and every sum over the entries is a
plain `Finset.sum`.

The two facts every accounting argument of this development ends with are
`sum_insert` and `sum_remove`: writing one cell changes a sum over the map by
the weight of the new entry less the weight of the one it replaces. They are
stated without subtraction so that they hold in every `AddCommMonoid`.
-/
import Mathlib.Algebra.BigOperators.Group.Finset.Basic
import Mathlib.Algebra.BigOperators.Finprod
import Mathlib.Algebra.Order.BigOperators.Group.Finset
import Mathlib.Data.Finset.Insert
import Mathlib.Tactic.Abel

set_option autoImplicit false

namespace Eco2

/-- A finite map. `keys` is exactly the set of keys at which `get` answers. -/
structure StorageMap (K V : Type) where
  keys : Finset K
  get : K → Option V
  mem_keys : ∀ k, k ∈ keys ↔ (get k).isSome

namespace StorageMap

variable {K V : Type}

/-! ## Reading and writing one cell -/

/-- Maps with the same lookups are equal: the key set is determined by them. -/
theorem ext_get {m m' : StorageMap K V} (h : ∀ k, m.get k = m'.get k) : m = m' := by
  have hget : m.get = m'.get := funext h
  have hkeys : m.keys = m'.keys := by
    ext k
    rw [m.mem_keys, m'.mem_keys, hget]
  cases m
  cases m'
  simp only at hget hkeys
  subst hget
  subst hkeys
  rfl

/-- The map without entries. -/
def empty : StorageMap K V where
  keys := ∅
  get _ := none
  mem_keys k := by simp

/-- `contains_key`. -/
def contains_key (m : StorageMap K V) (k : K) : Bool := (m.get k).isSome

variable [DecidableEq K]

/-- `insert`: write the cell `k`, replacing what was there. -/
def insert (m : StorageMap K V) (k : K) (v : V) : StorageMap K V where
  keys := Insert.insert k m.keys
  get k' := if k' = k then some v else m.get k'
  mem_keys k' := by
    by_cases hk : k' = k
    · simp [hk]
    · simp [hk, m.mem_keys]

/-- `remove`: delete the cell `k`. -/
def remove (m : StorageMap K V) (k : K) : StorageMap K V where
  keys := m.keys.erase k
  get k' := if k' = k then none else m.get k'
  mem_keys k' := by
    by_cases hk : k' = k
    · simp [hk]
    · simp [hk, m.mem_keys]

theorem get_insert (m : StorageMap K V) (k k' : K) (v : V) :
    (m.insert k v).get k' = if k' = k then some v else m.get k' := rfl

@[simp] theorem get_insert_self (m : StorageMap K V) (k : K) (v : V) :
    (m.insert k v).get k = some v := if_pos rfl

theorem get_insert_of_ne (m : StorageMap K V) {k k' : K} (v : V) (h : k' ≠ k) :
    (m.insert k v).get k' = m.get k' := if_neg h

/-- A key is still absent if it was, and is not the one written. -/
theorem get_insert_eq_none {m : StorageMap K V} {k k' : K} {v : V} :
    (m.insert k v).get k' = none ↔ k' ≠ k ∧ m.get k' = none := by
  rw [get_insert]
  by_cases h : k' = k
  · rw [if_pos h]
    exact iff_of_false (Option.some_ne_none v) fun hc => hc.1 h
  · rw [if_neg h]
    exact (and_iff_right h).symm

/-- What is found after a write is what was written, or was there before. -/
theorem get_insert_eq_some {m : StorageMap K V} {k k' : K} {v v' : V}
    (h : (m.insert k v).get k' = some v') :
    (k' = k ∧ v = v') ∨ (k' ≠ k ∧ m.get k' = some v') := by
  rw [get_insert] at h
  by_cases hk : k' = k
  · rw [if_pos hk] at h
    exact .inl ⟨hk, Option.some.inj h⟩
  · rw [if_neg hk] at h
    exact .inr ⟨hk, h⟩

theorem get_remove (m : StorageMap K V) (k k' : K) :
    (m.remove k).get k' = if k' = k then none else m.get k' := rfl

@[simp] theorem get_remove_self (m : StorageMap K V) (k : K) : (m.remove k).get k = none :=
  if_pos rfl

theorem get_remove_of_ne (m : StorageMap K V) {k k' : K} (h : k' ≠ k) :
    (m.remove k).get k' = m.get k' := if_neg h

omit [DecidableEq K] in
@[simp] theorem contains_key_eq_false {m : StorageMap K V} {k : K} :
    m.contains_key k = false ↔ m.get k = none := by
  rw [contains_key, Option.isSome_eq_false_iff, Option.isNone_iff_eq_none]

/-- Writing back the entry that is there changes nothing. -/
theorem insert_eq_self {m : StorageMap K V} {k : K} {v : V} (h : m.get k = some v) :
    m.insert k v = m := by
  refine ext_get fun k' => ?_
  by_cases hk : k' = k
  · rw [hk, get_insert_self, h]
  · rw [get_insert_of_ne m v hk]

/-! ## Entries that stay -/

section Carried

variable {R : V → V → Prop} {m m' m'' : StorageMap K V}

/-- Every entry of `m` is still there in `m'`, as `R` allows it to change. -/
def Carried (R : V → V → Prop) (m m' : StorageMap K V) : Prop :=
  ∀ k old, m.get k = some old → ∃ new, m'.get k = some new ∧ R old new

omit [DecidableEq K] in
theorem Carried.refl (hR : ∀ v, R v v) (m : StorageMap K V) : Carried R m m :=
  fun _ old hold => ⟨old, hold, hR old⟩

omit [DecidableEq K] in
theorem Carried.trans (hR : ∀ u v w, R u v → R v w → R u w) (h : Carried R m m')
    (h' : Carried R m' m'') : Carried R m m'' := by
  intro k old hold
  obtain ⟨mid, hmid, hfirst⟩ := h k old hold
  obtain ⟨new, hnew, hsecond⟩ := h' k mid hmid
  exact ⟨new, hnew, hR old mid new hfirst hsecond⟩

/-- A cell that was absent may be written. -/
theorem Carried.insert_of_none (hR : ∀ v, R v v) {k : K} (hfresh : m.get k = none) (v : V) :
    Carried R m (m.insert k v) := by
  intro k' old hold
  have hne : k' ≠ k := fun hk => by
    rw [hk, hfresh] at hold
    cases hold
  exact ⟨old, (get_insert_of_ne m v hne).trans hold, hR old⟩

/-- A cell may be rewritten as `R` allows. -/
theorem Carried.insert (hR : ∀ v, R v v) {k : K} {old : V} (hold : m.get k = some old) {v : V}
    (hv : R old v) : Carried R m (m.insert k v) := by
  intro k' old' hold'
  by_cases hk : k' = k
  · subst hk
    cases hold.symm.trans hold'
    exact ⟨v, get_insert_self m k' v, hv⟩
  · exact ⟨old', (get_insert_of_ne m v hk).trans hold', hR old'⟩

end Carried

/-! ## Rewriting every value -/

section Map

variable {V' : Type}

/-- The map with every value rewritten. -/
def map (f : V → V') (m : StorageMap K V) : StorageMap K V' where
  keys := m.keys
  get k := (m.get k).map f
  mem_keys k := by rw [m.mem_keys, Option.isSome_map]

theorem map_insert (f : V → V') (m : StorageMap K V) (k : K) (v : V) :
    (m.insert k v).map f = (m.map f).insert k (f v) := by
  refine ext_get fun k' => ?_
  change ((m.insert k v).get k').map f = _
  rw [get_insert, get_insert]
  split <;> rfl

theorem map_remove (f : V → V') (m : StorageMap K V) (k : K) :
    (m.remove k).map f = (m.map f).remove k := by
  refine ext_get fun k' => ?_
  change ((m.remove k).get k').map f = _
  rw [get_remove, get_remove]
  split <;> rfl

end Map

/-! ## Sums over the entries -/

section Sum

variable {M : Type} [AddCommMonoid M]

/-- The weight of one cell: nothing where the key is absent. -/
def weight (f : K → V → M) (k : K) (o : Option V) : M := o.elim 0 (f k)

omit [DecidableEq K] in
@[simp] theorem weight_none (f : K → V → M) (k : K) : weight f k none = 0 := rfl

omit [DecidableEq K] in
@[simp] theorem weight_some (f : K → V → M) (k : K) (v : V) : weight f k (some v) = f k v := rfl

/-- The sum of `f` over the entries of the map. -/
def sum (m : StorageMap K V) (f : K → V → M) : M := ∑ k ∈ m.keys, weight f k (m.get k)

omit [DecidableEq K] in
theorem get_of_not_mem_keys {m : StorageMap K V} {k : K} (h : k ∉ m.keys) : m.get k = none := by
  rw [m.mem_keys, Bool.not_eq_true, Option.isSome_eq_false_iff, Option.isNone_iff_eq_none] at h
  exact h

omit [DecidableEq K] in
/-- The sum may be taken over any finite set that contains the keys. -/
theorem sum_eq_of_subset (m : StorageMap K V) (f : K → V → M) {S : Finset K} (h : m.keys ⊆ S) :
    m.sum f = ∑ k ∈ S, weight f k (m.get k) := by
  refine Finset.sum_subset h fun k _ hk => ?_
  rw [get_of_not_mem_keys hk, weight_none]

omit [DecidableEq K] in
/-- The sum as a `finsum` over all keys: no choice of a finite set is involved. -/
theorem sum_eq_finsum (m : StorageMap K V) (f : K → V → M) :
    m.sum f = ∑ᶠ k, weight f k (m.get k) := by
  refine (finsum_eq_sum_of_support_subset _ fun k hk => ?_).symm
  -- outside the key set the weight is that of `none`
  by_contra hmem
  rw [Finset.mem_coe] at hmem
  rw [Function.mem_support, get_of_not_mem_keys hmem, weight_none] at hk
  exact hk rfl

/-- Two maps that differ only in the cell `k` have sums that differ only by the
weight of that cell. -/
theorem sum_add_weight_comm (m m' : StorageMap K V) (f : K → V → M) (k : K)
    (h : ∀ k', k' ≠ k → m'.get k' = m.get k') :
    m'.sum f + weight f k (m.get k) = m.sum f + weight f k (m'.get k) := by
  -- both sums are taken over one set that contains all keys of both maps, and `k`
  have hS : k ∈ Insert.insert k (m.keys ∪ m'.keys) := Finset.mem_insert_self _ _
  have hm : m.keys ⊆ Insert.insert k (m.keys ∪ m'.keys) :=
    fun x hx => Finset.mem_insert_of_mem (Finset.mem_union_left _ hx)
  have hm' : m'.keys ⊆ Insert.insert k (m.keys ∪ m'.keys) :=
    fun x hx => Finset.mem_insert_of_mem (Finset.mem_union_right _ hx)
  rw [sum_eq_of_subset m f hm, sum_eq_of_subset m' f hm', ← Finset.add_sum_erase _ _ hS,
    ← Finset.add_sum_erase _ (fun x => weight f x (m.get x)) hS]
  -- away from `k` the two maps agree
  have hrest : ∑ x ∈ (Insert.insert k (m.keys ∪ m'.keys)).erase k, weight f x (m'.get x)
      = ∑ x ∈ (Insert.insert k (m.keys ∪ m'.keys)).erase k, weight f x (m.get x) := by
    refine Finset.sum_congr rfl fun x hx => ?_
    rw [h x (Finset.ne_of_mem_erase hx)]
  rw [hrest]
  abel

/-- Writing a cell adds the new weight and takes away the old one. -/
theorem sum_insert (m : StorageMap K V) (f : K → V → M) (k : K) (v : V) :
    (m.insert k v).sum f + weight f k (m.get k) = m.sum f + f k v := by
  have h := sum_add_weight_comm m (m.insert k v) f k fun k' hk => get_insert_of_ne m v hk
  rwa [get_insert_self, weight_some] at h

/-- Writing a cell that was absent adds its weight. -/
theorem sum_insert_of_none {m : StorageMap K V} {k : K} (f : K → V → M) (v : V)
    (h : m.get k = none) : (m.insert k v).sum f = m.sum f + f k v := by
  have hins := sum_insert m f k v
  rwa [h, weight_none, add_zero] at hins

/-- Deleting a cell takes away its weight. -/
theorem sum_remove (m : StorageMap K V) (f : K → V → M) (k : K) :
    (m.remove k).sum f + weight f k (m.get k) = m.sum f := by
  have h := sum_add_weight_comm m (m.remove k) f k fun k' hk => get_remove_of_ne m hk
  rwa [get_remove_self, weight_none, add_zero] at h

omit [DecidableEq K] in
/-- Weights that agree on the entries give the same sum. -/
theorem sum_congr {m : StorageMap K V} {f g : K → V → M}
    (h : ∀ k v, m.get k = some v → f k v = g k v) : m.sum f = m.sum g := by
  refine Finset.sum_congr rfl fun k _ => ?_
  cases hk : m.get k with
  | none => rfl
  | some v => exact h k v hk

omit [DecidableEq K] in
/-- A weight that vanishes on the entries sums to zero. -/
theorem sum_eq_zero {m : StorageMap K V} {f : K → V → M}
    (h : ∀ k v, m.get k = some v → f k v = 0) : m.sum f = 0 := by
  rw [sum_congr h]
  refine Finset.sum_eq_zero fun k _ => ?_
  cases m.get k <;> rfl

omit [DecidableEq K] in
/-- A sum over rewritten values. -/
theorem sum_map {V' : Type} (m : StorageMap K V) (g : V → V') (f : K → V' → M) :
    (m.map g).sum f = m.sum fun k v => f k (g v) := by
  refine Finset.sum_congr rfl fun k _ => ?_
  change weight f k ((m.get k).map g) = _
  cases m.get k <;> rfl

end Sum

omit [DecidableEq K] in
theorem natCast_sum (m : StorageMap K V) (f : K → V → ℕ) :
    ((m.sum f : ℕ) : ℤ) = m.sum fun k v => (f k v : ℤ) := by
  unfold sum
  rw [Nat.cast_sum]
  refine Finset.sum_congr rfl fun k _ => ?_
  cases m.get k <;> rfl

/-! ## Sums of functions -/

omit [DecidableEq K] in
/-- A sum of functions is taken at each argument. -/
theorem sum_apply {ι M : Type} [AddCommMonoid M] (m : StorageMap K V) (f : K → V → ι → M) (i : ι) :
    m.sum f i = m.sum fun k v => f k v i := by
  unfold sum
  rw [Finset.sum_apply]
  refine Finset.sum_congr rfl fun k _ => ?_
  cases m.get k <;> rfl

/-! ## Natural-number sums bound their entries -/

omit [DecidableEq K] in
/-- One entry weighs at most the whole sum. -/
theorem le_sum {m : StorageMap K V} (f : K → V → ℕ) {k : K} {v : V} (h : m.get k = some v) :
    f k v ≤ m.sum f := by
  have hk : k ∈ m.keys := by rw [m.mem_keys, h]; rfl
  have hle : weight f k (m.get k) ≤ ∑ x ∈ m.keys, weight f x (m.get x) :=
    Finset.single_le_sum (f := fun x => weight f x (m.get x)) (fun x _ => Nat.zero_le _) hk
  rwa [h] at hle

/-- Two different cells together weigh at most the whole sum. -/
theorem weight_add_weight_le_sum (m : StorageMap K V) (f : K → V → ℕ) {k k' : K} (hne : k ≠ k') :
    weight f k (m.get k) + weight f k' (m.get k') ≤ m.sum f := by
  -- without the first cell the second is still an entry of what remains
  have hrem := sum_remove m f k
  have hle : weight f k' ((m.remove k).get k') ≤ (m.remove k).sum f := by
    cases hk : (m.remove k).get k' with
    | none => exact Nat.zero_le _
    | some v => exact le_sum f hk
  rw [get_remove_of_ne m hne.symm] at hle
  omega

omit [DecidableEq K] in
/-- A smaller weight has a smaller sum. -/
theorem sum_le_sum {m : StorageMap K V} {f g : K → V → ℕ}
    (h : ∀ k v, m.get k = some v → f k v ≤ g k v) : m.sum f ≤ m.sum g := by
  refine Finset.sum_le_sum fun k _ => ?_
  cases hk : m.get k with
  | none => exact le_rfl
  | some v => exact h k v hk

end StorageMap

end Eco2
