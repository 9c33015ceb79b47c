/-
Dispatchables that are not rolled back.

FRAME 2.0 runs a dispatchable directly against storage. A call that returns
`Err` half way keeps every write it made before that point, unless it is marked
`#[transactional]`. `EStateM` is exactly this: its error result carries the
state reached. The discipline that makes such a call all-or-nothing is *verify
first, write last*, and the second half of this file states it as rules: a
read-only prefix in front of an atomic rest is atomic, and an atomic action in
front of writes that cannot fail is atomic.

The first half is inversion. `ensure_bind_eq_ok` and `ok_or_bind_eq_ok` peel one
check at a time off a run that succeeded, and `get_bind` and `modify_bind` execute
the reads and writes between them, so that what a successful call has done is read
from its text without ever splitting its branches by hand.
-/
import Mathlib.Logic.Basic

set_option autoImplicit false

namespace Eco2.Dispatch

variable {ε σ α β : Type}

/-! ## The two checks every dispatchable is made of -/

/-- `ensure!(cond, err)`. -/
def ensure (cond : Prop) [Decidable cond] (err : ε) : EStateM ε σ Unit :=
  if cond then pure () else throw err

/-- `opt.ok_or(err)?`. -/
def ok_or (opt : Option α) (err : ε) : EStateM ε σ α :=
  match opt with
  | some a => pure a
  | none => throw err

/-! ## Inversion -/

theorem bind_eq_ok {x : EStateM ε σ α} {f : α → EStateM ε σ β} {s s' : σ} {b : β} :
    (x >>= f) s = .ok b s' ↔ ∃ a t, x s = .ok a t ∧ f a t = .ok b s' := by
  change EStateM.bind x f s = _ ↔ _
  unfold EStateM.bind
  cases hx : x s with
  | ok a t => simp [and_assoc]
  | error e t => simp

theorem bind_eq_error {x : EStateM ε σ α} {f : α → EStateM ε σ β} {s s' : σ} {e : ε} :
    (x >>= f) s = .error e s'
      ↔ x s = .error e s' ∨ ∃ a t, x s = .ok a t ∧ f a t = .error e s' := by
  change EStateM.bind x f s = _ ↔ _
  unfold EStateM.bind
  -- the second action runs only where the first has not failed
  cases hx : x s with
  | ok a t => simp [and_assoc]
  | error e' t => simp

theorem pure_eq_ok {s s' : σ} {a b : α} :
    (pure a : EStateM ε σ α) s = .ok b s' ↔ a = b ∧ s = s' := by
  change EStateM.Result.ok a s = .ok b s' ↔ _
  simp

theorem throw_eq_ok {s s' : σ} {e : ε} {a : α} :
    (throw e : EStateM ε σ α) s = .ok a s' ↔ False := by
  change EStateM.Result.error e s = .ok a s' ↔ _
  simp

theorem get_bind {f : σ → EStateM ε σ β} {s : σ} : (get >>= f) s = f s s := rfl

theorem modify_bind {g : σ → σ} {f : PUnit → EStateM ε σ β} {s : σ} :
    (modify g >>= f) s = f ⟨⟩ (g s) := rfl

theorem modify_eq_ok {f : σ → σ} {s s' : σ} {u : PUnit} :
    (modify f : EStateM ε σ PUnit) s = .ok u s' ↔ f s = s' := by
  change EStateM.Result.ok PUnit.unit (f s) = .ok u s' ↔ _
  simp

/-- A check that is known to pass. -/
theorem ensure_bind_of {cond : Prop} [Decidable cond] {e : ε} {f : Unit → EStateM ε σ β} {s : σ}
    (h : cond) : (ensure cond e >>= f) s = f () s := by
  unfold ensure
  rw [if_pos h]
  rfl

/-- A check that passes, and what follows it. -/
theorem ensure_bind_eq_ok {cond : Prop} [Decidable cond] {e : ε} {f : Unit → EStateM ε σ β}
    {s s' : σ} {b : β} :
    (ensure cond e >>= f) s = .ok b s' ↔ cond ∧ f () s = .ok b s' := by
  unfold ensure
  by_cases h : cond
  · rw [if_pos h]
    exact (and_iff_right h).symm
  · rw [if_neg h]
    exact iff_of_false (fun hok => nomatch hok) fun hok => h hok.1

/-- A lookup that succeeds, and what follows it. -/
theorem ok_or_bind_eq_ok {opt : Option α} {e : ε} {f : α → EStateM ε σ β} {s s' : σ} {b : β} :
    (ok_or opt e >>= f) s = .ok b s' ↔ ∃ a, opt = some a ∧ f a s = .ok b s' := by
  cases opt with
  | none => exact iff_of_false (fun hok => nomatch hok) fun ⟨_, hsome, _⟩ => nomatch hsome
  | some a =>
    constructor
    · exact fun hok => ⟨a, rfl, hok⟩
    · rintro ⟨a', hsome, hok⟩
      cases hsome
      exact hok

/-- A check in front of a run that fails: it is the check that fails, or what follows it. -/
theorem ensure_bind_eq_error {cond : Prop} [Decidable cond] {e e' : ε}
    {f : Unit → EStateM ε σ β} {s s' : σ} :
    (ensure cond e >>= f) s = .error e' s'
      ↔ (¬cond ∧ e = e' ∧ s = s') ∨ (cond ∧ f () s = .error e' s') := by
  unfold ensure
  by_cases h : cond
  · rw [if_pos h]
    exact ⟨fun herr => .inr ⟨h, herr⟩, fun herr => herr.elim (fun hn => absurd h hn.1) And.right⟩
  · rw [if_neg h]
    change EStateM.Result.error e s = .error e' s' ↔ _
    simp [h]

/-- A check that has another error than the one returned has passed. -/
theorem ensure_bind_eq_error_of_ne {cond : Prop} [Decidable cond] {e e' : ε}
    {f : Unit → EStateM ε σ β} {s s' : σ} (hne : e ≠ e') :
    (ensure cond e >>= f) s = .error e' s' ↔ cond ∧ f () s = .error e' s' := by
  rw [ensure_bind_eq_error, or_iff_right]
  exact fun herr => hne herr.2.1

/-- A lookup in front of a run that fails. -/
theorem ok_or_bind_eq_error {opt : Option α} {e e' : ε} {f : α → EStateM ε σ β} {s s' : σ} :
    (ok_or opt e >>= f) s = .error e' s'
      ↔ (opt = none ∧ e = e' ∧ s = s') ∨ ∃ a, opt = some a ∧ f a s = .error e' s' := by
  cases opt with
  | none =>
    change EStateM.Result.error e s = .error e' s' ↔ _
    simp
  | some a =>
    change f a s = .error e' s' ↔ _
    simp

/-! ## Verify first, write last -/

/-- The action leaves the state as it was, whether it succeeds or not. -/
def ReadOnly (x : EStateM ε σ α) : Prop :=
  (∀ s a s', x s = .ok a s' → s' = s) ∧ ∀ s e s', x s = .error e s' → s' = s

/-- The action never fails. -/
def Infallible (x : EStateM ε σ α) : Prop := ∀ s e s', x s ≠ .error e s'

/-- The action changes nothing when it fails. -/
def Atomic (x : EStateM ε σ α) : Prop := ∀ s e s', x s = .error e s' → s' = s

/-- An action that never fails has a result. -/
theorem Infallible.eq_ok {x : EStateM ε σ α} (h : Infallible x) (s : σ) :
    ∃ a s', x s = .ok a s' := by
  cases hx : x s with
  | ok a s' => exact ⟨a, s', rfl⟩
  | error e s' => exact absurd hx (h s e s')

theorem ReadOnly.atomic {x : EStateM ε σ α} (h : ReadOnly x) : Atomic x := h.2

theorem Infallible.atomic {x : EStateM ε σ α} (h : Infallible x) : Atomic x :=
  fun s e s' hx => absurd hx (h s e s')

theorem readOnly_pure (a : α) : ReadOnly (pure a : EStateM ε σ α) :=
  ⟨fun _ _ _ h => (pure_eq_ok.mp h).2.symm, fun _ _ _ h => nomatch h⟩

theorem readOnly_get : ReadOnly (get : EStateM ε σ σ) :=
  ⟨fun _ _ _ h => by cases h; rfl, fun _ _ _ h => nomatch h⟩

theorem readOnly_throw (e : ε) : ReadOnly (throw e : EStateM ε σ α) :=
  ⟨fun _ _ _ h => (throw_eq_ok.mp h).elim, fun _ _ _ h => by cases h; rfl⟩

theorem readOnly_ensure (cond : Prop) [Decidable cond] (e : ε) :
    ReadOnly (ensure cond e : EStateM ε σ Unit) := by
  unfold ensure
  by_cases h : cond
  · rw [if_pos h]; exact readOnly_pure ()
  · rw [if_neg h]; exact readOnly_throw e

theorem readOnly_ok_or (opt : Option α) (e : ε) :
    ReadOnly (ok_or opt e : EStateM ε σ α) := by
  cases opt with
  | none => exact readOnly_throw e
  | some a => exact readOnly_pure a

theorem ReadOnly.bind {x : EStateM ε σ α} {f : α → EStateM ε σ β} (hx : ReadOnly x)
    (hf : ∀ a, ReadOnly (f a)) : ReadOnly (x >>= f) := by
  constructor
  · intro s b s' h
    obtain ⟨a, t, ha, hb⟩ := bind_eq_ok.mp h
    rw [(hf a).1 t b s' hb, hx.1 s a t ha]
  · intro s e s' h
    -- either action may be the one that fails; the first has not moved the state
    rcases bind_eq_error.mp h with h | ⟨a, t, ha, hb⟩
    · exact hx.2 s e s' h
    · rw [(hf a).2 t e s' hb, hx.1 s a t ha]

theorem infallible_pure (a : α) : Infallible (pure a : EStateM ε σ α) :=
  fun _ _ _ h => nomatch h

theorem infallible_get : Infallible (get : EStateM ε σ σ) :=
  fun _ _ _ h => nomatch h

theorem infallible_modify (f : σ → σ) : Infallible (modify f : EStateM ε σ PUnit) :=
  fun _ _ _ h => nomatch h

theorem Infallible.bind {x : EStateM ε σ α} {f : α → EStateM ε σ β} (hx : Infallible x)
    (hf : ∀ a, Infallible (f a)) : Infallible (x >>= f) := by
  intro s e s' h
  rcases bind_eq_error.mp h with h | ⟨a, t, _, hb⟩
  · exact hx s e s' h
  · exact hf a t e s' hb

/-- Checks may stand in front of an all-or-nothing action. -/
theorem Atomic.check {x : EStateM ε σ α} {f : α → EStateM ε σ β} (hx : ReadOnly x)
    (hf : ∀ a, Atomic (f a)) : Atomic (x >>= f) := by
  intro s e s' h
  rcases bind_eq_error.mp h with h | ⟨a, t, ha, hb⟩
  · exact hx.2 s e s' h
  · -- the check passed without moving the state, so the rest failed from `s` itself
    rw [hf a t e s' hb, hx.1 s a t ha]

/-- Writes that cannot fail may follow an all-or-nothing action. -/
theorem Atomic.commit {x : EStateM ε σ α} {f : α → EStateM ε σ β} (hx : Atomic x)
    (hf : ∀ a, Infallible (f a)) : Atomic (x >>= f) := by
  intro s e s' h
  rcases bind_eq_error.mp h with h | ⟨a, t, _, hb⟩
  · exact hx s e s' h
  · -- past the first action there is nothing left to fail
    exact absurd hb (hf a t e s')

end Eco2.Dispatch
