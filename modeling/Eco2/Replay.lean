/-
Readers of a stream that go back to an earlier point and read on from there.

The reader's state is ordered by what it knows, and a stream is read by a fold. A reader
who goes back keeps what it knows, so from then on it knows at least what the stream has
said so far, and it is safe as long as it knows at most what the whole stream says. That
is `Between`, and `Settles` is what a stream has to meet for reading to keep it: the fold
only adds, and an element read by somebody who is ahead of it tells nothing that the
whole stream does not. Such a reader arrives where one arrives who has never gone back.

The second half is a state with that order: rows that are written once, and flags that
are put on rows. A stream settles where no flag comes before the row it is meant for.
-/
import Eco2.FirstWrite
import Mathlib.Data.Set.Basic

set_option autoImplicit false
set_option linter.unusedSectionVars false

namespace Eco2

namespace Replay

variable {σ E : Type*} [PartialOrder σ] (f : σ → E → σ) (s₀ : σ)

/-- Where the stream leads. -/
def state (stream : List E) : σ := stream.foldl f s₀

/-- Reading on adds, for the stream as for a reader who is ahead of it, and never more
than the whole stream says. -/
structure Settles (all : List E) : Prop where
  grows : ∀ before e after, all = before ++ e :: after →
    state f s₀ before ≤ f (state f s₀ before) e
  keeps_up : ∀ before e after, all = before ++ e :: after →
    ∀ x, state f s₀ before ≤ x → x ≤ state f s₀ all → f (state f s₀ before) e ≤ f x e
  absorbs : ∀ before e after, all = before ++ e :: after →
    ∀ x, state f s₀ before ≤ x → x ≤ state f s₀ all → f x e ≤ state f s₀ all

/-- A reader who knows what the stream has said so far, and nothing that it will not say. -/
structure Between (all before : List E) (x : σ) : Prop where
  lower : state f s₀ before ≤ x
  upper : x ≤ state f s₀ all

section Readers

variable {f s₀} {all before seg after : List E} {x : σ} {e : E}

theorem state_snoc (stream : List E) (e : E) :
    state f s₀ (stream ++ [e]) = f (state f s₀ stream) e := by
  unfold state
  rw [List.foldl_append]
  rfl

/-- A stream whose elements only add leads upwards. -/
theorem state_le (hgrows : ∀ before e after, all = before ++ e :: after →
    state f s₀ before ≤ f (state f s₀ before) e) (hall : all = before ++ (seg ++ after)) :
    state f s₀ before ≤ state f s₀ (before ++ seg) := by
  induction seg using List.reverseRecOn generalizing after with
  | nil => rw [List.append_nil]
  | append_singleton seg e ih =>
    have hsplit : all = (before ++ seg) ++ e :: after := by
      rw [hall, List.append_assoc, List.append_assoc]
      rfl
    have hbefore : state f s₀ before ≤ state f s₀ (before ++ seg) :=
      ih (hsplit.trans (List.append_assoc before seg (e :: after)))
    have hlast := hgrows (before ++ seg) e after hsplit
    rw [← List.append_assoc, state_snoc]
    exact hbefore.trans hlast

/-- Where every step adds, what a reader has to keep up with is below the end. -/
theorem Settles.of_grows (hgrows : ∀ s e, s ≤ f s e)
    (hread : ∀ before e after, all = before ++ e :: after → ∀ x, state f s₀ before ≤ x →
      x ≤ state f s₀ all → f (state f s₀ before) e ≤ state f s₀ all →
      f (state f s₀ before) e ≤ f x e ∧ f x e ≤ state f s₀ all) : Settles f s₀ all := by
  have hle (before : List E) (e : E) (after : List E) (hall : all = before ++ e :: after) :
      f (state f s₀ before) e ≤ state f s₀ all := by
    rw [List.append_cons] at hall
    have hrest : all = (before ++ [e]) ++ (after ++ []) := by rw [List.append_nil, hall]
    have hstate : state f s₀ (before ++ [e]) ≤ state f s₀ (before ++ [e] ++ after) :=
      state_le (fun _ _ _ _ => hgrows _ _) hrest
    rwa [state_snoc, ← hall] at hstate
  constructor
  · exact fun before e _ _ => hgrows _ e
  · exact fun before e after hall x hlower hupper =>
      (hread before e after hall x hlower hupper (hle before e after hall)).1
  · exact fun before e after hall x hlower hupper =>
      (hread before e after hall x hlower hupper (hle before e after hall)).2

/-- The stream itself only adds. -/
theorem Settles.state_le (h : Settles f s₀ all) (hall : all = before ++ (seg ++ after)) :
    state f s₀ before ≤ state f s₀ (before ++ seg) :=
  Replay.state_le h.grows hall

theorem Settles.start (h : Settles f s₀ all) : Between f s₀ all [] s₀ where
  lower := le_refl s₀
  upper := by
    have hall : all = [] ++ (all ++ []) := (List.append_nil all).symm
    exact h.state_le hall

/-- Going back to an earlier point. -/
theorem Between.back (h : Settles f s₀ all) (hall : all = before ++ (seg ++ after))
    (hx : Between f s₀ all (before ++ seg) x) : Between f s₀ all before x :=
  ⟨(h.state_le hall).trans hx.lower, hx.upper⟩

/-- Reading the next element. -/
theorem Between.read (h : Settles f s₀ all) (hall : all = before ++ e :: after)
    (hx : Between f s₀ all before x) : Between f s₀ all (before ++ [e]) (f x e) where
  lower := by
    rw [state_snoc]
    exact h.keeps_up before e after hall x hx.lower hx.upper
  upper := h.absorbs before e after hall x hx.lower hx.upper

/-- Reading on. -/
theorem Between.read_on (h : Settles f s₀ all) (hall : all = before ++ (seg ++ after))
    (hx : Between f s₀ all before x) : Between f s₀ all (before ++ seg) (seg.foldl f x) := by
  induction seg generalizing before x with
  | nil => rwa [List.append_nil]
  | cons e seg ih =>
    rw [List.append_cons before e seg]
    refine ih (x := f x e) ?_ (hx.read h hall)
    rw [hall, List.append_assoc]
    rfl

/-- **Whoever has read all has arrived**, however often they went back. -/
theorem Between.arrived (hx : Between f s₀ all all x) : x = state f s₀ all :=
  le_antisymm hx.upper hx.lower

end Readers

end Replay

/-! ## Rows that are written once, and their flags -/

/-- Rows under keys, and the keys of those rows that are flagged. -/
@[ext]
structure Flagged (K D : Type) where
  rows : K → Option D
  flags : Set K

namespace Flagged

variable {K D : Type} [DecidableEq K]

def empty : Flagged K D := ⟨fun _ => none, ∅⟩

instance : PartialOrder (Flagged K D) where
  le v v' := FirstWrite.Extends v.rows v'.rows ∧ v.flags ⊆ v'.flags
  le_refl v := ⟨FirstWrite.Extends.refl v.rows, subset_rfl⟩
  le_trans _ _ _ h h' := ⟨h.1.trans h'.1, h.2.trans h'.2⟩
  le_antisymm v v' h h' := by
    refine Flagged.ext (funext fun k => ?_) (subset_antisymm h.2 h'.2)
    exact Option.ext fun row => ⟨h.1 k row, h'.1 k row⟩

/-- The row is written where its key has none, and the flag is put on where there is a
row. -/
def step (v : Flagged K D) (row : Option (K × D)) (flag : Option K) : Flagged K D where
  rows := FirstWrite.write v.rows row
  flags := v.flags ∪ {k | flag = some k ∧ v.rows k ≠ none}

section Step

variable {v u w : Flagged K D} {row : Option (K × D)} {flag : Option K}

@[simp] theorem step_none (v : Flagged K D) : v.step none none = v :=
  Flagged.ext rfl (by simp [step])

theorem le_step (v : Flagged K D) (row : Option (K × D)) (flag : Option K) :
    v ≤ v.step row flag :=
  ⟨FirstWrite.extends_write v.rows row, Set.subset_union_left⟩

theorem rows_ne_none_of_le (h : v ≤ u) {k : K} (hk : v.rows k ≠ none) : u.rows k ≠ none := by
  obtain ⟨value, hvalue⟩ := Option.ne_none_iff_exists'.mp hk
  rw [h.1 k value hvalue]
  exact Option.some_ne_none value

/-- The row that a reader writes who is ahead is the one that is there in the end. -/
theorem step_le_step (h : v ≤ u) (hu : u ≤ w) (hw : v.step row flag ≤ w) :
    v.step row flag ≤ u.step row flag := by
  refine ⟨fun k value hvalue => ?_, Set.union_subset_union h.2 ?_⟩
  · obtain hold | ⟨hnone, hrow⟩ := FirstWrite.write_eq_some_iff.mp hvalue
    · exact FirstWrite.extends_write u.rows row k value (h.1 k value hold)
    · refine FirstWrite.write_eq_some_iff.mpr ?_
      cases hk : u.rows k with
      | none => exact .inr ⟨rfl, hrow⟩
      | some value' => exact .inl ((hu.1 k value' hk).symm.trans (hw.1 k value hvalue))
  · rintro k ⟨hflag, hk⟩
    exact ⟨hflag, rows_ne_none_of_le h hk⟩

/-- A reader who is ahead writes nothing that is not there in the end, if the flag is for
no row or for one that is flagged in the end. -/
theorem step_le (h : v ≤ u) (hu : u ≤ w) (hw : v.step row flag ≤ w)
    (hflag : ∀ k, flag = some k → w.rows k ≠ none → k ∈ w.flags) : u.step row flag ≤ w := by
  refine ⟨fun k value hvalue => ?_, Set.union_subset hu.2 ?_⟩
  · obtain hold | ⟨hnone, hrow⟩ := FirstWrite.write_eq_some_iff.mp hvalue
    · exact hu.1 k value hold
    · apply hw.1 k value
      refine FirstWrite.write_eq_some_iff.mpr (.inr ⟨?_, hrow⟩)
      by_contra hsome
      exact rows_ne_none_of_le h hsome hnone
  · rintro k ⟨hk, hsome⟩
    exact hflag k hk (rows_ne_none_of_le hu hsome)

end Step

/-! ### Rows with their flags -/

/-- Only rows are flagged. -/
def Proper (v : Flagged K D) : Prop := ∀ k ∈ v.flags, v.rows k ≠ none

/-- A row together with whether it is flagged. -/
def view (v : Flagged K D) (k : K) : Option (D × Prop) :=
  (v.rows k).map fun row => (row, k ∈ v.flags)

section View

variable {v : Flagged K D} {k : K}

theorem Proper.step (h : v.Proper) (row : Option (K × D)) (flag : Option K) :
    (v.step row flag).Proper := by
  rintro k (hk | ⟨-, hk⟩)
  · exact rows_ne_none_of_le (le_step v row flag) (h k hk)
  · exact rows_ne_none_of_le (le_step v row flag) hk

/-- A row is written without a flag. -/
theorem view_step_row (h : v.Proper) (row : D) :
    (v.step (some (k, row)) none).view = FirstWrite.write v.view (some (k, (row, False))) := by
  have hflags (k' : K) : (k' ∈ (v.step (some (k, row)) none).flags) = (k' ∈ v.flags) := by
    simp [step]
  funext k'
  change (FirstWrite.write v.rows (some (k, row)) k').map
    (fun row' => (row', k' ∈ (v.step (some (k, row)) none).flags)) = _
  rw [hflags k']
  cases hk : v.rows k with
  | some old =>
    have hview : (v.view k).isSome := by
      unfold view
      rw [hk]
      rfl
    rw [FirstWrite.write_some_of_isSome (by rw [hk]; rfl), FirstWrite.write_some_of_isSome hview]
    rfl
  | none =>
    have hview : v.view k = none := Option.map_eq_none_iff.mpr hk
    rw [FirstWrite.write_some_of_none hk, FirstWrite.write_some_of_none hview]
    by_cases hk' : k' = k
    · have hnot : (k ∈ v.flags) = False := eq_false fun hc => h k hc hk
      rw [hk', Function.update_self, Function.update_self, Option.map_some, hnot]
    · rw [Function.update_of_ne hk', Function.update_of_ne hk']
      rfl

theorem view_step_flag (v : Flagged K D) (k : K) : (v.step none (some k)).view
    = Function.update v.view k ((v.view k).map fun row => (row.1, True)) := by
  funext k'
  change (v.rows k').map (fun row =>
    (row, k' ∈ v.flags ∪ {k' | some k = some k' ∧ v.rows k' ≠ none})) = _
  by_cases hk : k' = k
  · subst hk
    rw [Function.update_self]
    unfold view
    cases h : v.rows k' <;> simp [h]
  · rw [Function.update_of_ne hk]
    unfold view
    simp [Ne.symm hk]

end View

/-! ### The same rows under other keys -/

/-- `v` shows under `f k` the entry of `u` under `k`, and whether it is flagged. -/
structure Shown {K' U W : Type} (f : K → K') (g : D → W) (h : U → W) (flagged : U → Prop)
    (v : Flagged K' D) (u : K → Option U) : Prop where
  proper : v.Proper
  view : FirstWrite.Shown f (fun row => (g row.1, row.2)) (fun y => (h y, flagged y)) v.view u

section Shown

variable {K' U W : Type} [DecidableEq K'] {f : K → K'} {g : D → W} {h : U → W}
  {flagged : U → Prop} {v : Flagged K' D} {u : K → Option U} {k : K}

theorem Shown.keep (hs : Shown f g h flagged v u) : Shown f g h flagged (v.step none none) u := by
  rwa [step_none]

/-- A row is written on both sides. -/
theorem Shown.row (hs : Shown f g h flagged v u) (hf : Function.Injective f) {row : D} {y : U}
    (hrow : g row = h y) (hy : ¬flagged y) :
    Shown f g h flagged (v.step (some (f k, row)) none) (FirstWrite.write u (some (k, y))) where
  proper := hs.proper.step _ _
  view := by
    rw [view_step_row hs.proper]
    exact hs.view.write hf (Prod.ext hrow (eq_false hy).symm)

/-- A flag is put on on both sides. -/
theorem Shown.flag (hs : Shown f g h flagged v u) (hf : Function.Injective f) {set : U → U}
    (hset : ∀ y, h (set y) = h y) (hflagged : ∀ y, flagged (set y)) :
    Shown f g h flagged (v.step none (some (f k))) (Function.update u k ((u k).map set)) where
  proper := hs.proper.step _ _
  view := by
    rw [view_step_flag]
    refine hs.view.update hf fun row y hrow => ?_
    obtain ⟨hfst, -⟩ := Prod.ext_iff.mp hrow
    exact Prod.ext (hfst.trans (hset y).symm) (eq_true (hflagged y)).symm

end Shown

/-! ### Tables -/

/-- A table of rows that carry their flag, seen as rows without it, and flags. -/
def of {R : Type} (base : R → D) (flagged : R → Prop) (v : K → Option R) : Flagged K D where
  rows k := (v k).map base
  flags := {k | ∃ row, v k = some row ∧ flagged row}

section Of

variable {R : Type} {base : R → D} {flagged : R → Prop} {v v' : K → Option R}

theorem proper_of (base : R → D) (flagged : R → Prop) (v : K → Option R) :
    (of base flagged v).Proper := by
  rintro k ⟨row, hrow, -⟩
  change (v k).map base ≠ none
  rw [hrow]
  exact Option.some_ne_none _

/-- A row is what it is without its flag, and its flag. -/
theorem of_injective (hrow : ∀ k r r', v k = some r → v' k = some r' → base r = base r' →
    (flagged r ↔ flagged r') → r = r') (h : of base flagged v = of base flagged v') : v = v' := by
  funext k
  have hbase : (v k).map base = (v' k).map base := congrFun (congrArg Flagged.rows h) k
  have hflag : (∃ r, v k = some r ∧ flagged r) ↔ ∃ r, v' k = some r ∧ flagged r :=
    Set.ext_iff.mp (congrArg Flagged.flags h) k
  cases hv : v k with
  | none =>
    rw [hv] at hbase
    exact (Option.map_eq_none_iff.mp hbase.symm).symm
  | some r =>
    rw [hv] at hbase
    obtain ⟨r', hv', heq⟩ := Option.map_eq_some_iff.mp hbase.symm
    simp only [hv, hv', Option.some.injEq, exists_eq_left'] at hflag
    rw [hv', hrow k r r' hv hv' heq.symm hflag]

/-- Writing a row that has no flag. -/
theorem of_write {k : K} {row : R} (hrow : ¬flagged row) :
    of base flagged (FirstWrite.write v (some (k, row)))
      = (of base flagged v).step (some (k, base row)) none := by
  refine Flagged.ext (FirstWrite.write_map base v k row) (Set.ext fun k' => ?_)
  change (∃ r, FirstWrite.write v (some (k, row)) k' = some r ∧ flagged r)
    ↔ (∃ r, v k' = some r ∧ flagged r) ∨ (none = some k' ∧ _)
  simp only [FirstWrite.write_eq_some_iff, reduceCtorEq, false_and, or_false]
  refine exists_congr fun r => and_congr_left fun hr => or_iff_left ?_
  rintro ⟨-, heq⟩
  cases heq
  exact hrow hr

/-- Putting the flag on the row of a key. -/
theorem of_update {k : K} {set : R → R} (hbase : ∀ r, base (set r) = base r)
    (hset : ∀ r, flagged (set r)) :
    of base flagged (Function.update v k ((v k).map set))
      = (of base flagged v).step none (some k) := by
  refine Flagged.ext (funext fun k' => ?_) (Set.ext fun k' => ?_)
  · change (Function.update v k ((v k).map set) k').map base = (v k').map base
    by_cases hk : k' = k
    · subst hk
      rw [Function.update_self, Option.map_map]
      congr 1
      exact funext hbase
    · rw [Function.update_of_ne hk]
  · change (∃ r, Function.update v k ((v k).map set) k' = some r ∧ flagged r)
      ↔ (∃ r, v k' = some r ∧ flagged r) ∨ (some k = some k' ∧ (v k').map base ≠ none)
    by_cases hk : k' = k
    · subst hk
      rw [Function.update_self]
      cases v k' <;> simp [hset]
    · rw [Function.update_of_ne hk]
      simp [Ne.symm hk]

end Of

end Flagged

end Eco2
