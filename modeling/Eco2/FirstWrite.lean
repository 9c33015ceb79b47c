/-
Entries that are written once.

A stream of elements, some of which write a value under a key; the first write of a key
is kept and later ones are ignored, as by an insert into a collection with a unique
index. Whoever reads the stream from some earlier point again repeats writes that are
ignored, so what was written stays right: `Between` says that the entries are at least
those that a single reading has written so far, and at most those that it will have
written in the end, and it is kept by reading on and by going back.
-/
import Mathlib.Logic.Function.Basic
import Mathlib.Data.List.Induction

set_option autoImplicit false
set_option linter.unusedSectionVars false

namespace Eco2.FirstWrite

variable {K V E : Type} [DecidableEq K]

/-- The entries after a write. -/
def write (v : K → Option V) : Option (K × V) → K → Option V
  | none => v
  | some (key, value) => if (v key).isSome then v else Function.update v key (some value)

/-- The entries after the stream, where `w` says what an element writes. -/
def entries (w : E → Option (K × V)) (stream : List E) : K → Option V :=
  stream.foldl (fun v e => write v (w e)) fun _ => none

/-- `v'` has all entries of `v`. -/
def Extends (v v' : K → Option V) : Prop := ∀ key value, v key = some value → v' key = some value

section Lemmas

variable {v v' v'' : K → Option V} {w : E → Option (K × V)}

theorem Extends.refl (v : K → Option V) : Extends v v := fun _ _ h => h

theorem Extends.trans (h : Extends v v') (h' : Extends v' v'') : Extends v v'' :=
  fun key value hv => h' key value (h key value hv)

theorem write_some_of_isSome {key : K} (h : (v key).isSome) (value : V) :
    write v (some (key, value)) = v := if_pos h

theorem write_some_of_none {key : K} (h : v key = none) (value : V) :
    write v (some (key, value)) = Function.update v key (some value) := by
  change (if (v key).isSome then _ else _) = _
  rw [h]
  rfl

/-- A write of what `f` makes of a value is seen as the value through `f`. -/
theorem write_map {W : Type} (f : V → W) (v : K → Option V) (key : K) (value : V) :
    (fun k => (write v (some (key, value)) k).map f)
      = write (fun k => (v k).map f) (some (key, f value)) := by
  cases h : v key with
  | some old =>
    have hsome : ((fun k => (v k).map f) key).isSome := by
      rw [Option.isSome_map, h]
      rfl
    rw [write_some_of_isSome (by rw [h]; rfl),
      write_some_of_isSome (v := fun k => (v k).map f) hsome]
  | none =>
    have hnone : (fun k => (v k).map f) key = none := Option.map_eq_none_iff.mpr h
    rw [write_some_of_none h, write_some_of_none (v := fun k => (v k).map f) hnone]
    funext k
    by_cases hk : k = key
    · rw [hk, Function.update_self, Function.update_self]
      rfl
    · rw [Function.update_of_ne hk, Function.update_of_ne hk]

/-- A write keeps the entries there are. -/
theorem extends_write (v : K → Option V) (x : Option (K × V)) : Extends v (write v x) := by
  intro key value hv
  cases x with
  | none => exact hv
  | some x =>
    obtain ⟨key', value'⟩ := x
    cases h : v key' with
    | some _ =>
      rw [write_some_of_isSome (by rw [h]; rfl)]
      exact hv
    | none =>
      have hne : key ≠ key' := by
        rintro rfl
        cases h.symm.trans hv
      rw [write_some_of_none h, Function.update_of_ne hne]
      exact hv

/-- The only new entry is the one written. -/
theorem write_eq_some_iff {key : K} {value : V} {x : Option (K × V)} :
    write v x key = some value ↔ v key = some value ∨ (v key = none ∧ x = some (key, value)) := by
  cases x with
  | none => simp [write]
  | some x =>
    obtain ⟨key', value'⟩ := x
    by_cases hkey : key' = key
    · subst hkey
      cases h : v key' with
      | some _ =>
        rw [write_some_of_isSome (by rw [h]; rfl), h]
        simp
      | none =>
        rw [write_some_of_none h, Function.update_self]
        simp
    · have hsame : write v (some (key', value')) key = v key := by
        cases h : v key' with
        | some _ => rw [write_some_of_isSome (by rw [h]; rfl)]
        | none => rw [write_some_of_none h, Function.update_of_ne (Ne.symm hkey)]
      rw [hsame]
      simp [hkey]

theorem write_ne_none_iff {key key' : K} {value : V} :
    write v (some (key', value)) key ≠ none ↔ v key ≠ none ∨ key = key' := by
  simp only [Option.ne_none_iff_exists', write_eq_some_iff, Option.some.injEq, Prod.mk.injEq]
  cases v key with
  | some old => simp
  | none => simp [eq_comm]

theorem entries_snoc (stream : List E) (e : E) :
    entries w (stream ++ [e]) = write (entries w stream) (w e) := by
  unfold entries
  rw [List.foldl_append]
  rfl

/-- Reading on keeps the entries. -/
theorem extends_entries_append (before after : List E) :
    Extends (entries w before) (entries w (before ++ after)) := by
  induction after using List.reverseRecOn with
  | nil =>
    rw [List.append_nil]
    exact Extends.refl _
  | append_singleton after e ih =>
    rw [← List.append_assoc, entries_snoc]
    exact ih.trans (extends_write _ _)

/-- An element has an entry if and only if the stream writes it. -/
theorem isSome_entries_iff (stream : List E) (key : K) :
    (entries w stream key).isSome ↔ ∃ e ∈ stream, ∃ value, w e = some (key, value) := by
  induction stream using List.reverseRecOn with
  | nil => simp [entries]
  | append_singleton stream e ih =>
    rw [entries_snoc, Option.isSome_iff_exists]
    simp only [write_eq_some_iff, List.mem_append, List.mem_singleton, or_and_right, exists_or,
      exists_eq_left]
    rw [← ih, ← Option.isSome_iff_exists]
    cases entries w stream key <;> simp

end Lemmas

/-! ## Reading a stream more than once -/

/-- The entries of somebody who has read `before`, and maybe more, of the stream `all`. -/
structure Between (w : E → Option (K × V)) (all before : List E) (v : K → Option V) : Prop where
  lower : Extends (entries w before) v
  upper : Extends v (entries w all)

section Between

variable {v : K → Option V} {w : E → Option (K × V)} {all before after : List E}

theorem Between.start : Between w all [] fun _ => none :=
  ⟨fun _ _ h => h, fun _ _ h => nomatch h⟩

/-- Going back to an earlier point. -/
theorem Between.back (h : Between w all (before ++ after) v) : Between w all before v :=
  ⟨(extends_entries_append before after).trans h.lower, h.upper⟩

/-- Reading the next element: what is new for the reader is new for the stream. -/
theorem Between.read {e : E} (hsplit : all = before ++ e :: after)
    (h : Between w all before v) : Between w all (before ++ [e]) (write v (w e)) := by
  have hall : Extends (entries w (before ++ [e])) (entries w all) := by
    rw [hsplit, List.append_cons before e after]
    exact extends_entries_append (before ++ [e]) after
  constructor
  · intro key value hentry
    rw [entries_snoc] at hentry
    obtain hold | ⟨hnone, hwrite⟩ := write_eq_some_iff.mp hentry
    · exact extends_write v _ key value (h.lower key value hold)
    · -- the reader writes it now, or has read further and has the same
      refine write_eq_some_iff.mpr ?_
      cases hv : v key with
      | none => exact .inr ⟨rfl, hwrite⟩
      | some value' =>
        have hlast := h.upper key value' hv
        have hthis := hall key value (by rwa [entries_snoc])
        exact .inl (hlast.symm.trans hthis)
  · intro key value hentry
    obtain hold | ⟨hnone, hwrite⟩ := write_eq_some_iff.mp hentry
    · exact h.upper key value hold
    · apply hall key value
      rw [entries_snoc, write_eq_some_iff]
      refine .inr ⟨?_, hwrite⟩
      by_contra hsome
      obtain ⟨value', hvalue'⟩ := Option.ne_none_iff_exists'.mp hsome
      cases hnone.symm.trans (h.lower key value' hvalue')

end Between

/-! ## The same entries under other keys -/

section Shown

variable {K' U W : Type} [DecidableEq K'] {f : K → K'} {g : V → W} {h : U → W}
  {v : K' → Option V} {u : K → Option U} {k : K}

/-- Under `f k` stands in `v` what stands under `k` in `u`, as far as `g` and `h` tell. -/
def Shown (f : K → K') (g : V → W) (h : U → W) (v : K' → Option V) (u : K → Option U) : Prop :=
  ∀ k, (v (f k)).map g = (u k).map h

theorem Shown.isSome_eq (hs : Shown f g h v u) (k : K) : (v (f k)).isSome = (u k).isSome := by
  rw [← Option.isSome_map (f := g), hs k, Option.isSome_map]

theorem Shown.update_of (hs : Shown f g h v u) (hf : Function.Injective f) {x : Option V}
    {y : Option U} (hxy : x.map g = y.map h) :
    Shown f g h (Function.update v (f k) x) (Function.update u k y) := by
  intro k'
  by_cases hk : k' = k
  · rw [hk, Function.update_self, Function.update_self]
    exact hxy
  · rw [Function.update_of_ne hk, Function.update_of_ne (hf.ne hk)]
    exact hs k'

theorem Shown.write (hs : Shown f g h v u) (hf : Function.Injective f) {x : V} {y : U}
    (hxy : g x = h y) :
    Shown f g h (FirstWrite.write v (some (f k, x))) (FirstWrite.write u (some (k, y))) := by
  have hsome := hs.isSome_eq k
  cases hv : v (f k) with
  | some old =>
    rw [hv, Option.isSome_some] at hsome
    rw [write_some_of_isSome (by rw [hv]; rfl), write_some_of_isSome hsome.symm]
    exact hs
  | none =>
    rw [hv, Option.isSome_none, eq_comm, Option.isSome_eq_false_iff, Option.isNone_iff_eq_none]
      at hsome
    rw [write_some_of_none hv, write_some_of_none hsome]
    exact hs.update_of hf (congrArg some hxy)

theorem Shown.update (hs : Shown f g h v u) (hf : Function.Injective f) {set : V → V}
    {set' : U → U} (hset : ∀ x y, g x = h y → g (set x) = h (set' y)) :
    Shown f g h (Function.update v (f k) ((v (f k)).map set))
      (Function.update u k ((u k).map set')) := by
  refine hs.update_of hf ?_
  have hk := hs k
  cases hv : v (f k) with
  | none =>
    rw [hv] at hk
    rw [Option.map_eq_none_iff.mp hk.symm]
    rfl
  | some x =>
    rw [hv] at hk
    obtain ⟨y, hy, heq⟩ := Option.map_eq_some_iff.mp hk.symm
    rw [hy]
    exact congrArg some (hset x y heq.symm)

end Shown

end Eco2.FirstWrite
