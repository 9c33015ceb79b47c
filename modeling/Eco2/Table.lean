/-
Tables that are lists of rows with a key.

A table is what a document store keeps: rows in the order in which they were inserted,
with a unique index on one field. What a reader asks of it is `lookup`, the row under a
key, and each of the three writes is an update of that function at one key: `insert`
writes where nothing stands, `modify` where something stands, and `upsert` anywhere. The
index stays unique under all three.
-/
import Eco2.FirstWrite
import Mathlib.Data.List.Nodup

set_option autoImplicit false
set_option linter.unusedSectionVars false

namespace Eco2.Table

variable {D K : Type} [DecidableEq K] (key : D → K)

/-- The first row under a key. -/
def lookup (rows : List D) (k : K) : Option D := rows.find? fun row => key row == k

/-- An insert, which the index refuses where the key is there already. -/
def insert (row : D) (rows : List D) : List D :=
  if rows.any fun old => key old == key row then rows else rows ++ [row]

/-- A change of the first row under a key. -/
def modify (k : K) (set : D → D) (rows : List D) : List D :=
  rows.replaceF fun row => if key row == k then some (set row) else none

/-- A row put in the place of the one under its key, or added. -/
def upsert (row : D) (rows : List D) : List D :=
  if rows.any fun old => key old == key row then modify key (key row) (fun _ => row) rows
  else rows ++ [row]

/-- No two rows have one key. -/
def Unique (rows : List D) : Prop := (rows.map key).Nodup

section Lookup

variable {key} {rows : List D} {row : D} {k : K} {set : D → D}

theorem any_key_eq (rows : List D) (k : K) :
    (rows.any fun row => key row == k) = (lookup key rows k).isSome :=
  List.isSome_find?.symm

theorem mem_of_lookup (h : lookup key rows k = some row) : row ∈ rows ∧ key row = k := by
  unfold lookup at h
  have hkey := List.find?_some h
  exact ⟨List.mem_of_find?_eq_some h, by simpa using hkey⟩

/-- Where nothing stands under its key, a row may be added. -/
theorem lookup_append (h : lookup key rows (key row) = none) :
    lookup key (rows ++ [row]) = Function.update (lookup key rows) (key row) (some row) := by
  funext k
  unfold lookup at h ⊢
  rw [List.find?_append]
  by_cases hk : k = key row
  · subst hk
    rw [h, Function.update_self]
    simp
  · have hne : (key row == k) = false := beq_false_of_ne (Ne.symm hk)
    rw [Function.update_of_ne hk]
    simp [hne]

theorem insert_of_isSome (h : (lookup key rows (key row)).isSome) : insert key row rows = rows := by
  unfold insert
  rw [any_key_eq, h]
  rfl

theorem insert_of_none (h : lookup key rows (key row) = none) :
    insert key row rows = rows ++ [row] := by
  unfold insert
  rw [any_key_eq, h]
  rfl

/-- An insert writes once. -/
theorem lookup_insert (row : D) (rows : List D) :
    lookup key (insert key row rows)
      = FirstWrite.write (lookup key rows) (some (key row, row)) := by
  cases h : lookup key rows (key row) with
  | some old =>
    have hsome : (lookup key rows (key row)).isSome := by rw [h]; rfl
    rw [insert_of_isSome hsome, FirstWrite.write_some_of_isSome hsome]
  | none =>
    rw [insert_of_none h, FirstWrite.write_some_of_none h]
    exact lookup_append h

theorem mem_insert {old : D} (h : old ∈ insert key row rows) : old ∈ rows ∨ old = row := by
  unfold insert at h
  split at h
  · exact .inl h
  · exact (List.mem_append.mp h).imp_right List.mem_singleton.mp

/-- The rows after a change are those before it, but for the one that is changed. -/
theorem mem_modify (h : row ∈ modify key k set rows) :
    row ∈ rows ∨ ∃ old ∈ rows, key old = k ∧ row = set old := by
  unfold modify at h
  induction rows with
  | nil => cases h
  | cons first rows ih =>
    rw [List.replaceF_cons] at h
    by_cases hk : key first = k
    · rw [if_pos (beq_iff_eq.mpr hk)] at h
      obtain rfl | hmem := List.mem_cons.mp h
      · exact .inr ⟨first, List.mem_cons_self, hk, rfl⟩
      · exact .inl (List.mem_cons_of_mem _ hmem)
    · rw [if_neg (by simpa using hk)] at h
      obtain rfl | hmem := List.mem_cons.mp h
      · exact .inl List.mem_cons_self
      · refine (ih hmem).imp (List.mem_cons_of_mem _) ?_
        exact fun ⟨old, hold, hset⟩ => ⟨old, List.mem_cons_of_mem _ hold, hset⟩

theorem mem_upsert {old : D} (h : old ∈ upsert key row rows) : old ∈ rows ∨ old = row := by
  unfold upsert at h
  split at h
  · obtain hmem | ⟨-, -, -, heq⟩ := mem_modify h
    · exact .inl hmem
    · exact .inr heq
  · exact (List.mem_append.mp h).imp_right List.mem_singleton.mp

/-- The keys do not change where a row is changed but for its key. -/
theorem map_modify (hset : ∀ row, key row = k → key (set row) = k) (rows : List D) :
    (modify key k set rows).map key = rows.map key := by
  unfold modify
  induction rows with
  | nil => rfl
  | cons row rows ih =>
    rw [List.replaceF_cons]
    by_cases hk : key row = k
    · rw [if_pos (beq_iff_eq.mpr hk), List.map_cons, List.map_cons, hset row hk, hk]
    · rw [if_neg (by simpa using hk), List.map_cons, List.map_cons, ih]

/-- A change is seen under its key. -/
theorem lookup_modify (hset : ∀ row, key row = k → key (set row) = k) (rows : List D) :
    lookup key (modify key k set rows)
      = Function.update (lookup key rows) k ((lookup key rows k).map set) := by
  funext k'
  unfold lookup modify
  induction rows with
  | nil => simp
  | cons row rows ih =>
    rw [List.replaceF_cons]
    by_cases hk : key row = k
    · rw [if_pos (beq_iff_eq.mpr hk)]
      by_cases hk' : k' = k
      · subst hk'
        simp [hset row hk, hk]
      · simp [hset row hk, hk, hk', Ne.symm hk']
    · rw [if_neg (by simpa using hk)]
      by_cases hk' : k' = k
      · subst hk'
        simpa [hk] using ih
      · by_cases hrow : key row = k'
        · simp [hrow, hk']
        · simpa [hrow, hk'] using ih

/-- A change takes no row away. -/
theorem lookup_modify_eq_none_iff (hset : ∀ row, key row = k → key (set row) = k) {k' : K} :
    lookup key (modify key k set rows) k' = none ↔ lookup key rows k' = none := by
  rw [lookup_modify hset]
  by_cases hk : k' = k
  · rw [hk, Function.update_self, Option.map_eq_none_iff]
  · rw [Function.update_of_ne hk]

/-- A row that is put in is what is found. -/
theorem lookup_upsert (row : D) (rows : List D) :
    lookup key (upsert key row rows)
      = Function.update (lookup key rows) (key row) (some row) := by
  unfold upsert
  rw [any_key_eq]
  cases h : lookup key rows (key row) with
  | some old =>
    rw [Option.isSome_some, if_pos rfl, lookup_modify fun _ _ => rfl, h]
    rfl
  | none =>
    rw [Option.isSome_none, if_neg Bool.false_ne_true]
    exact lookup_append h

end Lookup

section Unique

variable {key} {rows : List D} {row : D} {k : K} {set : D → D}

theorem Unique.nil : Unique key ([] : List D) := List.nodup_nil

/-- With a unique index, every row is found under its key. -/
theorem Unique.lookup (h : Unique key rows) (hrow : row ∈ rows) :
    lookup key rows (key row) = some row := by
  unfold Table.lookup
  induction rows with
  | nil => cases hrow
  | cons first rows ih =>
    obtain ⟨hfirst, hrest⟩ := List.nodup_cons.mp h
    by_cases hkey : key first = key row
    · -- the first row has the key, so no other has it
      obtain rfl | hmem := List.mem_cons.mp hrow
      · simp
      · exact absurd (hkey ▸ List.mem_map_of_mem hmem) hfirst
    · have hmem := (List.mem_cons.mp hrow).resolve_left fun heq => hkey (heq ▸ rfl)
      rw [List.find?_cons_of_neg (by simpa using hkey)]
      exact ih hrest hmem

/-- With a unique index, the rows are those that are found, in some order. -/
theorem Unique.perm {rows' : List D} (h : Unique key rows) (h' : Unique key rows')
    (heq : Table.lookup key rows = Table.lookup key rows') : rows.Perm rows' := by
  refine (List.perm_ext_iff_of_nodup (List.Nodup.of_map key h) (List.Nodup.of_map key h')).mpr
    fun row => ⟨fun hrow => ?_, fun hrow => ?_⟩
  · have hfound := h.lookup hrow
    rw [heq] at hfound
    exact (mem_of_lookup hfound).1
  · have hfound := h'.lookup hrow
    rw [← heq] at hfound
    exact (mem_of_lookup hfound).1

/-- The order of the rows does not matter to who looks one up. -/
theorem Unique.lookup_perm {rows' : List D} (h : Unique key rows) (hperm : rows.Perm rows') :
    Table.lookup key rows = Table.lookup key rows' := by
  have h' : Unique key rows' := (hperm.map key).nodup_iff.mp h
  funext k
  refine Option.ext fun row => ⟨fun hfound => ?_, fun hfound => ?_⟩
  · obtain ⟨hmem, rfl⟩ := mem_of_lookup hfound
    exact h'.lookup (hperm.mem_iff.mp hmem)
  · obtain ⟨hmem, rfl⟩ := mem_of_lookup hfound
    exact h.lookup (hperm.mem_iff.mpr hmem)

theorem Unique.append (h : Unique key rows) (hnone : Table.lookup key rows (key row) = none) :
    Unique key (rows ++ [row]) := by
  unfold Unique
  rw [List.map_append, List.map_singleton, List.nodup_append]
  refine ⟨h, List.nodup_singleton _, fun k hk k' hk' heq => ?_⟩
  obtain ⟨old, hold, rfl⟩ := List.mem_map.mp hk
  rw [List.mem_singleton.mp hk'] at heq
  have hfound := h.lookup hold
  rw [heq, hnone] at hfound
  cases hfound

/-- Putting a row in keeps the index unique. -/
theorem Unique.upsert (h : Unique key rows) (row : D) : Unique key (upsert key row rows) := by
  unfold Table.upsert
  rw [any_key_eq]
  cases hfound : Table.lookup key rows (key row) with
  | some old =>
    rw [Option.isSome_some, if_pos rfl]
    unfold Unique
    rw [map_modify fun _ _ => rfl]
    exact h
  | none =>
    rw [Option.isSome_none, if_neg Bool.false_ne_true]
    exact h.append hfound

end Unique

end Eco2.Table
