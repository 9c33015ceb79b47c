/-
Entries that are overwritten.

A stream of elements, each written under a key of its own; what stands under a key is
the element that was written there last. Where two elements share a key, only one of
them can stand there: `Kept` says of an element that none of the others has been written
after it, and `entries_eq_some_iff` that it stands under its key exactly where it has been
written and is kept.
-/
import Mathlib.Logic.Function.Basic
import Mathlib.Data.List.Induction

set_option autoImplicit false

namespace Eco2.LastWrite

variable {K E : Type} [DecidableEq K] (key : E → K)

/-- The entries after the stream. -/
def entries (writes : List E) : K → Option E :=
  writes.foldl (fun v e => Function.update v (key e) (some e)) fun _ => none

omit [DecidableEq K] in
/-- Another element that is written under the key of `e` is followed by `e`. -/
def Kept (writes : List E) (e : E) : Prop :=
  ∀ before other after, writes = before ++ other :: after → key other = key e →
    other = e ∨ e ∈ after

section Lemmas

variable {key} {writes : List E} {e other : E}

theorem entries_snoc (writes : List E) (e : E) :
    entries key (writes ++ [e]) = Function.update (entries key writes) (key e) (some e) := by
  unfold entries
  rw [List.foldl_append]
  rfl

omit [DecidableEq K] in
theorem kept_snoc :
    Kept key (writes ++ [other]) e
      ↔ (key other = key e → other = e) ∧ (other = e ∨ Kept key writes e) := by
  constructor
  · intro h
    refine ⟨fun hkey => (h writes other [] rfl hkey).resolve_right List.not_mem_nil, ?_⟩
    by_cases heq : other = e
    · exact .inl heq
    · refine .inr fun before first after hsplit hkey => ?_
      obtain hfirst | hmem := h before first (after ++ [other])
        (by rw [hsplit, List.append_assoc, List.cons_append]) hkey
      · exact .inl hfirst
      · refine .inr ((List.mem_append.mp hmem).resolve_right fun hlast => ?_)
        exact heq (List.mem_singleton.mp hlast).symm
  · rintro ⟨hlast, hbefore⟩ before first after hsplit hkey
    -- the element that is written is the last one, or one of those before it
    obtain rfl | ⟨after', last, rfl⟩ := List.eq_nil_or_concat after
    · obtain ⟨-, hone⟩ := List.append_inj' hsplit rfl
      obtain rfl := List.singleton_inj.mp hone
      exact .inl (hlast hkey)
    · rw [List.concat_eq_append, ← List.cons_append, ← List.append_assoc] at hsplit
      obtain ⟨hinit, hone⟩ := List.append_inj' hsplit rfl
      obtain rfl := List.singleton_inj.mp hone
      rw [List.concat_eq_append, List.mem_append, List.mem_singleton]
      obtain heq | hkept := hbefore
      · exact .inr (.inr heq.symm)
      · exact (hkept before first after' hinit hkey).imp_right .inl

/-- What stands under the key of an element is that element, where it is kept. -/
theorem entries_eq_some_iff :
    entries key writes (key e) = some e ↔ e ∈ writes ∧ Kept key writes e := by
  induction writes using List.reverseRecOn with
  | nil => exact iff_of_false nofun fun h => List.not_mem_nil h.1
  | append_singleton writes last ih =>
    rw [entries_snoc, kept_snoc, List.mem_append, List.mem_singleton]
    by_cases hkey : key e = key last
    · rw [hkey, Function.update_self, Option.some_inj]
      constructor
      · rintro rfl
        exact ⟨.inr rfl, fun _ => rfl, .inl rfl⟩
      · rintro ⟨-, hlast, -⟩
        exact hlast rfl
    · have hne : last ≠ e := fun heq => hkey (heq ▸ rfl)
      rw [Function.update_of_ne hkey, ih]
      constructor
      · rintro ⟨hmem, hkept⟩
        exact ⟨.inl hmem, fun h => absurd h.symm hkey, .inr hkept⟩
      · rintro ⟨hmem, -, hkept⟩
        exact ⟨hmem.resolve_right hne.symm, hkept.resolve_left hne⟩

end Lemmas

end Eco2.LastWrite
