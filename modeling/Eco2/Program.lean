/-
Programs that may be interrupted between two operations.

A program makes operations on a store, each atomic and durable, and may raise an
exception. What it does next may depend on the store as an operation finds it. Such a
program can be run to its end, or interrupted after any number of its operations; the
labels of the operations tell which ones it has made by then.

`Always` is the rule for what all operations of a program have in common: it goes
through a program along its text, `Always.interrupt` turns it into a statement about every
point at which the program may be interrupted, and `Always.between` into one about any two
of them: so `Always.drift` bounds how far a number can move from one to the other.
`interrupt_forM` says where an interrupted loop stands: somewhere in one of its iterations,
with those before it done.
`Once` is for a view of the store that a program writes at most once: whoever sees no
more than the view sees no interrupted program. `Passes` is for one that it writes twice
in a row: such a program shows the state in between after one operation and no other.
-/
import Mathlib.Data.List.Basic

set_option autoImplicit false

namespace Eco2

/-- A program on the store `σ` with operations labelled by `L`, exceptions in `ε` and
results in `α`. -/
inductive Program (L ε σ α : Type)
  | done (a : α)
  | raise (e : ε)
  | step (label : L) (write : σ → σ) (next : σ → Program L ε σ α)

namespace Program

variable {L ε σ α β : Type}

def bind : Program L ε σ α → (α → Program L ε σ β) → Program L ε σ β
  | .done a, f => f a
  | .raise e, _ => .raise e
  | .step label write next, f => .step label write fun s => (next s).bind f

instance : Monad (Program L ε σ) where
  pure := .done
  bind := .bind

instance : LawfulMonad (Program L ε σ) := by
  refine LawfulMonad.mk' _ ?_ (fun _ _ => rfl) ?_
  · intro α p
    change p.bind .done = p
    induction p with
    | done a => rfl
    | raise e => rfl
    | step label write next ih => exact congrArg (Program.step label write) (funext ih)
  · intro α β γ p f g
    change (p.bind f).bind g = p.bind fun a => (f a).bind g
    induction p with
    | done a => rfl
    | raise e => rfl
    | step label write next ih => exact congrArg (Program.step label write) (funext ih)

/-- `try { … } catch (e) { … }`, which goes on after an exception. -/
def attempt : Program L ε σ α → Program L ε σ Unit
  | .done _ => .done ()
  | .raise _ => .done ()
  | .step label write next => .step label write fun s => (next s).attempt

/-! ## Running a program -/

/-- The store after all operations of the program. -/
def exec : Program L ε σ α → σ → σ
  | .done _, s => s
  | .raise _, s => s
  | .step _ write next, s => (next s).exec (write s)

/-- How the program ends. -/
def result : Program L ε σ α → σ → Except ε α
  | .done a, _ => .ok a
  | .raise e, _ => .error e
  | .step _ write next, s => (next s).result (write s)

/-- The operations that the program makes. -/
def labels : Program L ε σ α → σ → List L
  | .done _, _ => []
  | .raise _, _ => []
  | .step label write next, s => label :: (next s).labels (write s)

/-- The store where the program is interrupted after `k` operations, or at its end. -/
def interrupt : ℕ → Program L ε σ α → σ → σ
  | 0, _, s => s
  | _ + 1, .done _, s => s
  | _ + 1, .raise _, s => s
  | k + 1, .step _ write next, s => (next s).interrupt k (write s)

section Run

variable (p : Program L ε σ α) (f : α → Program L ε σ β) (s : σ) {a : α} {k : ℕ}

@[simp] theorem interrupt_zero : p.interrupt 0 s = s := by
  cases p <;> rfl

/-- Interrupted after its last operation, a program has done all it does. -/
theorem interrupt_of_le (h : (p.labels s).length ≤ k) : p.interrupt k s = p.exec s := by
  induction p generalizing s k with
  | done a => cases k <;> rfl
  | raise e => cases k <;> rfl
  | step label write next ih =>
    cases k with
    | zero => cases h
    | succ k => exact ih s (write s) (Nat.le_of_succ_le_succ h)

/-- It matters only how many of its operations it makes. -/
theorem interrupt_min : p.interrupt (min k (p.labels s).length) s = p.interrupt k s := by
  obtain hle | hle := Nat.le_total k (p.labels s).length
  · rw [Nat.min_eq_left hle]
  · rw [Nat.min_eq_right hle, interrupt_of_le p s (Nat.le_refl _), interrupt_of_le p s hle]

theorem attempt_exec : p.attempt.exec s = p.exec s := by
  induction p generalizing s with
  | done a => rfl
  | raise e => rfl
  | step label write next ih => exact ih s (write s)

theorem attempt_labels : p.attempt.labels s = p.labels s := by
  induction p generalizing s with
  | done a => rfl
  | raise e => rfl
  | step label write next ih => exact congrArg (label :: ·) (ih s (write s))

theorem attempt_interrupt : p.attempt.interrupt k s = p.interrupt k s := by
  induction p generalizing s k with
  | done a => cases k <;> rfl
  | raise e => cases k <;> rfl
  | step label write next ih =>
    cases k with
    | zero => rfl
    | succ k => exact ih s (write s)

/-- An attempt raises nothing. -/
theorem attempt_result : p.attempt.result s = .ok () := by
  induction p generalizing s with
  | done a => rfl
  | raise e => rfl
  | step label write next ih => exact ih s (write s)

variable {p}

theorem exec_bind (h : p.result s = .ok a) : (p >>= f).exec s = (f a).exec (p.exec s) := by
  induction p generalizing s with
  | done a' => cases h; rfl
  | raise e => cases h
  | step label write next ih => exact ih s (write s) h

theorem result_bind (h : p.result s = .ok a) : (p >>= f).result s = (f a).result (p.exec s) := by
  induction p generalizing s with
  | done a' => cases h; rfl
  | raise e => cases h
  | step label write next ih => exact ih s (write s) h

theorem labels_bind (h : p.result s = .ok a) :
    (p >>= f).labels s = p.labels s ++ (f a).labels (p.exec s) := by
  induction p generalizing s with
  | done a' => cases h; rfl
  | raise e => cases h
  | step label write next ih => exact congrArg (label :: ·) (ih s (write s) h)

/-- Interrupted before its first part is over, a program is interrupted there. -/
theorem interrupt_bind_of_le (h : k ≤ (p.labels s).length) :
    (p >>= f).interrupt k s = p.interrupt k s := by
  induction p generalizing s k with
  | done a =>
    obtain rfl : k = 0 := Nat.le_zero.mp h
    rw [interrupt_zero, interrupt_zero]
  | raise e =>
    obtain rfl : k = 0 := Nat.le_zero.mp h
    rw [interrupt_zero, interrupt_zero]
  | step label write next ih =>
    cases k with
    | zero => rfl
    | succ k => exact ih s (write s) (Nat.le_of_succ_le_succ h)

/-- Interrupted later, it is interrupted in the rest. -/
theorem interrupt_bind_of_ge (h : p.result s = .ok a) :
    (p >>= f).interrupt ((p.labels s).length + k) s = (f a).interrupt k (p.exec s) := by
  induction p generalizing s with
  | done a' =>
    cases h
    change (f a).interrupt (0 + k) s = _
    rw [Nat.zero_add]
    rfl
  | raise e => cases h
  | step label write next ih =>
    change (Program.step label write fun s => (next s).bind f).interrupt
      ((((next s).labels (write s)).length + 1) + k) s = _
    rw [Nat.add_right_comm]
    exact ih s (write s) h

end Run

/-! ## Loops of attempts -/

/-- A loop over loops is one loop. -/
theorem forM_flatMap (f : α → List β) (g : β → Program L ε σ Unit) (as : List α) :
    (as.flatMap f).forM g = as.forM fun a => (f a).forM g := by
  induction as with
  | nil => rfl
  | cons a as ih =>
    change (f a ++ as.flatMap f).forM g = ((f a).forM g >>= fun _ => as.forM fun a => (f a).forM g)
    rw [← ih]
    exact List.forM_append

section Loops

variable {f : α → Program L ε σ Unit} (hok : ∀ a s, (f a).result s = .ok ())

include hok

theorem exec_forM (as : List α) (s : σ) :
    (as.forM f).exec s = as.foldl (fun s a => (f a).exec s) s := by
  induction as generalizing s with
  | nil => rfl
  | cons a as ih =>
    change (f a >>= fun _ => as.forM f).exec s = _
    rw [exec_bind _ s (hok a s), ih]
    rfl

theorem result_forM (as : List α) (s : σ) : (as.forM f).result s = .ok () := by
  induction as generalizing s with
  | nil => rfl
  | cons a as ih =>
    change (f a >>= fun _ => as.forM f).result s = _
    rw [result_bind _ s (hok a s), ih]

/-- **An interrupted loop.** It is over, or it is in one of its iterations, and those
before it are done. -/
theorem interrupt_forM (as : List α) (s : σ) (k : ℕ) :
    ((as.forM f).labels s).length ≤ k ∨ ∃ before a after j, as = before ++ a :: after
      ∧ (as.forM f).interrupt k s = (f a).interrupt j ((before.forM f).exec s)
      ∧ ((as.forM f).labels s).take k
        = (before.forM f).labels s ++ ((f a).labels ((before.forM f).exec s)).take j := by
  induction as generalizing s k with
  | nil => exact .inl (Nat.zero_le k)
  | cons a as ih =>
    change ((f a >>= fun _ => as.forM f).labels s).length ≤ k ∨ _
    have hlabels := labels_bind (fun _ => as.forM f) s (hok a s)
    by_cases hle : k ≤ ((f a).labels s).length
    -- in the first iteration
    · refine .inr ⟨[], a, as, k, rfl, interrupt_bind_of_le _ s hle, ?_⟩
      change ((f a >>= fun _ => as.forM f).labels s).take k = ((f a).labels s).take k
      rw [hlabels, List.take_append_of_le_length hle]
    -- in a later one
    · obtain ⟨j, rfl⟩ := Nat.exists_eq_add_of_lt (Nat.lt_of_not_le hle)
      obtain hall | ⟨before, b, after, i, rfl, hinterrupt, htake⟩ :=
        ih ((f a).exec s) (j + 1)
      · refine .inl ?_
        rw [hlabels, List.length_append]
        omega
      · refine .inr ⟨a :: before, b, after, i, rfl, ?_, ?_⟩
        · change (f a >>= fun _ => (before ++ b :: after).forM f).interrupt _ s
            = (f b).interrupt i ((f a >>= fun _ => before.forM f).exec s)
          rw [Nat.add_assoc, interrupt_bind_of_ge _ s (hok a s), exec_bind _ s (hok a s)]
          exact hinterrupt
        · change ((f a >>= fun _ => (before ++ b :: after).forM f).labels s).take _
            = (f a >>= fun _ => before.forM f).labels s
              ++ ((f b).labels ((f a >>= fun _ => before.forM f).exec s)).take i
          rw [hlabels, exec_bind _ s (hok a s), labels_bind _ s (hok a s), Nat.add_assoc,
            List.take_length_add_append, htake, List.append_assoc]

end Loops

/-! ## What all operations have in common -/

section Always

variable {S S' : L → σ → σ → Prop}

/-- Every operation that the program may make is in `S`. -/
def Always (S : L → σ → σ → Prop) : Program L ε σ α → Prop
  | .done _ => True
  | .raise _ => True
  | .step label write next => ∀ s, S label s (write s) ∧ (next s).Always S

theorem always_raise (e : ε) : (raise e : Program L ε σ α).Always S := trivial

theorem Always.bind {p : Program L ε σ α} {f : α → Program L ε σ β} (hp : p.Always S)
    (hf : ∀ a, (f a).Always S) : (p >>= f).Always S := by
  induction p with
  | done a => exact hf a
  | raise e => trivial
  | step label write next ih => exact fun s => ⟨(hp s).1, ih s (hp s).2⟩

theorem Always.mono {p : Program L ε σ α} (hp : p.Always S)
    (h : ∀ label s t, S label s t → S' label s t) : p.Always S' := by
  induction p with
  | done a => trivial
  | raise e => trivial
  | step label write next ih => exact fun s => ⟨h _ _ _ (hp s).1, ih s (hp s).2⟩

theorem Always.and {p : Program L ε σ α} (hp : p.Always S) (hp' : p.Always S') :
    p.Always fun label s t => S label s t ∧ S' label s t := by
  induction p with
  | done a => trivial
  | raise e => trivial
  | step label write next ih => exact fun s => ⟨⟨(hp s).1, (hp' s).1⟩, ih s (hp s).2 (hp' s).2⟩

theorem Always.attempt {p : Program L ε σ α} (hp : p.Always S) : p.attempt.Always S := by
  induction p with
  | done a => trivial
  | raise e => trivial
  | step label write next ih => exact fun s => ⟨(hp s).1, ih s (hp s).2⟩

theorem Always.forM {f : α → Program L ε σ Unit} {as : List α} (hf : ∀ a ∈ as, (f a).Always S) :
    (as.forM f).Always S := by
  induction as with
  | nil => trivial
  | cons a as ih =>
    obtain ⟨hfirst, hrest⟩ := List.forall_mem_cons.mp hf
    exact hfirst.bind fun _ => ih hrest

/-- What the program's operations have in common holds wherever it is interrupted. -/
theorem Always.interrupt {p : Program L ε σ α} {R : List L → σ → σ → Prop} (hp : p.Always S)
    (hnil : ∀ s, R [] s s)
    (hcons : ∀ label labels s t u, S label s t → R labels t u → R (label :: labels) s u)
    (k : ℕ) (s : σ) : R ((p.labels s).take k) s (p.interrupt k s) := by
  induction p generalizing s k with
  | done a => cases k <;> exact hnil s
  | raise e => cases k <;> exact hnil s
  | step label write next ih =>
    cases k with
    | zero => exact hnil s
    | succ k => exact hcons _ _ _ _ _ (hp s).1 (ih s (hp s).2 k (write s))

/-- It holds between any two points at which it is interrupted. -/
theorem Always.between {p : Program L ε σ α} {R : List L → σ → σ → Prop} (hp : p.Always S)
    (hnil : ∀ s, R [] s s)
    (hcons : ∀ label labels s t u, S label s t → R labels t u → R (label :: labels) s u)
    {j k : ℕ} (hjk : j ≤ k) (s : σ) :
    R (((p.labels s).take k).drop j) (p.interrupt j s) (p.interrupt k s) := by
  induction p generalizing s j k with
  | done a =>
    change R (([] : List L).take k |>.drop j) _ _
    rw [List.take_nil, List.drop_nil]
    cases j <;> cases k <;> exact hnil s
  | raise e =>
    change R (([] : List L).take k |>.drop j) _ _
    rw [List.take_nil, List.drop_nil]
    cases j <;> cases k <;> exact hnil s
  | step label write next ih =>
    cases j with
    | zero => exact Always.interrupt (p := .step label write next) hp hnil hcons k s
    | succ j =>
      cases k with
      | zero => exact absurd hjk (Nat.not_succ_le_zero j)
      | succ k => exact ih s (hp s).2 (Nat.le_of_succ_le_succ hjk) (write s)

/-- It holds of a whole execution too. -/
theorem Always.exec {p : Program L ε σ α} {R : σ → σ → Prop} (hp : p.Always S)
    (hrefl : ∀ s, R s s) (htrans : ∀ label s t u, S label s t → R t u → R s u) (s : σ) :
    R s (p.exec s) := by
  induction p generalizing s with
  | done a => exact hrefl s
  | raise e => exact hrefl s
  | step label write next ih => exact htrans _ _ _ _ (hp s).1 (ih s (hp s).2 (write s))

end Always

/-! ## A number that the store shows -/

section Drifts

/-- The number changes by one at most, and only if the operation is one of those that
count. -/
def Drifts (counts : L → Bool) (number : σ → ℕ) (label : L) (s t : σ) : Prop :=
  number t ≤ number s + (counts label).toNat ∧ number s ≤ number t + (counts label).toNat

theorem drifts_of_eq {counts : L → Bool} {number : σ → ℕ} {label : L} {s t : σ}
    (h : number t = number s) : Drifts counts number label s t :=
  ⟨h ▸ Nat.le_add_right _ _, h ▸ Nat.le_add_right _ _⟩

/-- Between two points the number changes by no more than there are operations that count. -/
theorem Always.drift {p : Program L ε σ α} {counts : L → Bool} {number : σ → ℕ}
    (hp : p.Always (Drifts counts number)) {j k : ℕ} (hjk : j ≤ k) (s : σ) :
    number (p.interrupt k s)
        ≤ number (p.interrupt j s) + (((p.labels s).take k).drop j).countP counts
      ∧ number (p.interrupt j s)
        ≤ number (p.interrupt k s) + (((p.labels s).take k).drop j).countP counts := by
  refine hp.between (R := fun labels s t =>
    number t ≤ number s + labels.countP counts ∧ number s ≤ number t + labels.countP counts)
    (fun s => ⟨Nat.le_refl _, Nat.le_refl _⟩) ?_ hjk s
  intro label labels s t u hfirst hrest
  obtain ⟨hup, hdown⟩ := hfirst
  obtain ⟨hup', hdown'⟩ := hrest
  have hcount : (label :: labels).countP counts = labels.countP counts + (counts label).toNat := by
    rw [List.countP_cons]
    cases counts label <;> rfl
  rw [hcount]
  constructor <;> omega

end Drifts

/-! ## A view of the store that is written once -/

section Once

variable {τ : Type} (view : σ → τ)

/-- The program does not change the view. -/
def Quiet (p : Program L ε σ α) : Prop := p.Always fun _ s s' => view s' = view s

/-- At most one operation of the program changes the view. -/
def Once : Program L ε σ α → Prop
  | .done _ => True
  | .raise _ => True
  | .step _ write next =>
      ∀ s, (view (write s) = view s ∧ (next s).Once) ∨ (next s).Quiet view

variable {view} {p : Program L ε σ α} {f : α → Program L ε σ β}

theorem Quiet.exec (hp : p.Quiet view) (s : σ) : view (p.exec s) = view s :=
  Always.exec (R := fun s s' => view s' = view s) hp (fun _ => rfl)
    (fun _ _ _ _ h h' => h'.trans h) s

theorem Quiet.interrupt (hp : p.Quiet view) (k : ℕ) (s : σ) :
    view (p.interrupt k s) = view s :=
  Always.interrupt (R := fun _ s s' => view s' = view s) hp (fun _ => rfl)
    (fun _ _ _ _ _ h h' => h'.trans h) k s

theorem Quiet.once (hp : p.Quiet view) : p.Once view := by
  cases p with
  | done a => trivial
  | raise e => trivial
  | step label write next => exact fun s => .inr (hp s).2

theorem Quiet.bind_once (hp : p.Quiet view) (hf : ∀ a, (f a).Once view) :
    (p >>= f).Once view := by
  induction p with
  | done a => exact hf a
  | raise e => trivial
  | step label write next ih => exact fun s => .inl ⟨(hp s).1, ih s (hp s).2⟩

theorem Once.bind_quiet (hp : p.Once view) (hf : ∀ a, (f a).Quiet view) :
    (p >>= f).Once view := by
  induction p with
  | done a => exact (hf a).once
  | raise e => trivial
  | step label write next ih =>
    intro s
    obtain ⟨hsame, honce⟩ | hquiet := hp s
    · exact .inl ⟨hsame, ih s honce⟩
    · exact .inr (Always.bind hquiet hf)

theorem Once.attempt (hp : p.Once view) : p.attempt.Once view := by
  induction p with
  | done a => trivial
  | raise e => trivial
  | step label write next ih =>
    intro s
    obtain ⟨hsame, honce⟩ | hquiet := hp s
    · exact .inl ⟨hsame, ih s honce⟩
    · exact .inr (Always.attempt hquiet)

/-- Wherever the program is interrupted, the view is as before it or as after it. -/
theorem Once.interrupt (hp : p.Once view) (k : ℕ) (s : σ) :
    view (p.interrupt k s) = view s ∨ view (p.interrupt k s) = view (p.exec s) := by
  induction p generalizing s k with
  | done a => exact .inl (by cases k <;> rfl)
  | raise e => exact .inl (by cases k <;> rfl)
  | step label write next ih =>
    cases k with
    | zero => exact .inl rfl
    | succ k =>
      obtain ⟨hsame, honce⟩ | hquiet := hp s
      · exact (ih s honce k (write s)).imp_left fun h => h.trans hsame
      · exact .inr ((hquiet.interrupt k (write s)).trans (hquiet.exec (write s)).symm)

end Once

/-! ## A view of the store that is written twice in a row -/

section Passes

variable {τ : Type}

/-- What a view shows that is written by the operations `i + 1` and `i + 2`. -/
def phase (a b c : τ) (i k : ℕ) : τ := if k ≤ i then a else if k = i + 1 then b else c

section Phase

variable {a b c : τ} {i k : ℕ}

theorem phase_of_le (h : k ≤ i) : phase a b c i k = a := if_pos h

theorem phase_succ : phase a b c i (i + 1) = b := by
  unfold phase
  rw [if_neg (Nat.not_succ_le_self i), if_pos rfl]

theorem phase_of_lt (h : i + 1 < k) : phase a b c i k = c := by
  unfold phase
  rw [if_neg (by omega), if_neg (by omega)]

theorem phase_add (n : ℕ) : phase a b c (n + i) (n + k) = phase a b c i k := by
  unfold phase
  simp only [Nat.add_assoc, Nat.add_le_add_iff_left, Nat.add_left_cancel_iff]

/-- The view is `b` at one point. -/
theorem phase_eq_iff (hab : a ≠ b) (hbc : b ≠ c) : phase a b c i k = b ↔ k = i + 1 := by
  constructor
  · intro h
    obtain hle | hlt | heq : k ≤ i ∨ i + 1 < k ∨ k = i + 1 := by omega
    · exact absurd ((phase_of_le hle).symm.trans h) hab
    · exact absurd (h.symm.trans (phase_of_lt hlt)) hbc
    · exact heq
  · rintro rfl
    exact phase_succ

end Phase

variable (view : σ → τ) (a b c : τ)

/-- Run from `s`, the program keeps the view; or it takes the view from `a` to `b` in one
operation, on to `c` in the next, and keeps it from then on. -/
def Passes (p : Program L ε σ α) (s : σ) : Prop :=
  (∀ k, view (p.interrupt k s) = view s) ∨ ∃ i, ∀ k, view (p.interrupt k s) = phase a b c i k

variable {view a b c} {p : Program L ε σ α} {f : α → Program L ε σ β} {s : σ} {x : α}

theorem Quiet.passes (hp : p.Quiet view) (s : σ) : p.Passes view a b c s :=
  .inl fun k => hp.interrupt k s

theorem Passes.attempt (hp : p.Passes view a b c s) : p.attempt.Passes view a b c s := by
  unfold Passes
  simp only [attempt_interrupt]
  exact hp

/-- A program that writes the view starts with `a`, makes both writes, and ends with `c`. -/
theorem phase_exec (hbc : b ≠ c) {i : ℕ}
    (h : ∀ k, view (p.interrupt k s) = phase a b c i k) :
    view s = a ∧ i + 1 < (p.labels s).length ∧ view (p.exec s) = c := by
  have hstart := h 0
  rw [interrupt_zero, phase_of_le (Nat.zero_le i)] at hstart
  have hlt : i + 1 < (p.labels s).length := by
    by_contra hle
    -- after its last operation the program shows the same as two operations later
    have hlast := h (i + 1)
    have hlater := h (i + 1 + 1)
    rw [interrupt_of_le p s (Nat.le_of_not_lt hle), phase_succ] at hlast
    rw [interrupt_of_le p s (Nat.le_succ_of_le (Nat.le_of_not_lt hle)),
      phase_of_lt (Nat.lt_succ_self _)] at hlater
    exact hbc (hlast.symm.trans hlater)
  have hend := h (p.labels s).length
  rw [interrupt_of_le p s (Nat.le_refl _), phase_of_lt hlt] at hend
  exact ⟨hstart, hlt, hend⟩

/-- A point of the whole is one of the first part, or one of the second. -/
theorem view_interrupt_bind (hok : p.result s = .ok x) {v : ℕ → τ}
    (hfirst : ∀ k ≤ (p.labels s).length, view (p.interrupt k s) = v k)
    (hrest : ∀ k, view ((f x).interrupt k (p.exec s)) = v ((p.labels s).length + k)) (k : ℕ) :
    view ((p >>= f).interrupt k s) = v k := by
  obtain hlt | hle := Nat.lt_or_ge (p.labels s).length k
  · obtain ⟨j, rfl⟩ := Nat.exists_eq_add_of_le (Nat.le_of_lt hlt)
    rw [interrupt_bind_of_ge f s hok]
    exact hrest j
  · rw [interrupt_bind_of_le f s hle]
    exact hfirst k hle

theorem Passes.bind (hac : a ≠ c) (hbc : b ≠ c) (hp : p.Passes view a b c s)
    (hok : p.result s = .ok x) (hf : (f x).Passes view a b c (p.exec s)) :
    (p >>= f).Passes view a b c s := by
  obtain hsame | ⟨i, hi⟩ := hp
  · have hexec : view (p.exec s) = view s := by
      rw [← interrupt_of_le p s (Nat.le_refl _)]
      exact hsame _
    obtain hquiet | ⟨j, hj⟩ := hf
    · exact .inl (view_interrupt_bind hok (fun k _ => hsame k) fun k => (hquiet k).trans hexec)
    · obtain ⟨hstart, -, -⟩ := phase_exec hbc hj
      refine .inr ⟨(p.labels s).length + j, view_interrupt_bind hok (fun k hk => ?_) fun k => ?_⟩
      · rw [hsame, ← hexec, hstart, phase_of_le (Nat.le_add_right_of_le hk)]
      · rw [hj, phase_add]
  · obtain ⟨-, hlt, hend⟩ := phase_exec hbc hi
    obtain hquiet | ⟨j, hj⟩ := hf
    · refine .inr ⟨i, view_interrupt_bind hok (fun k _ => hi k) fun k => ?_⟩
      rw [hquiet, hend, phase_of_lt (Nat.lt_add_right k hlt)]
    -- the second part starts where the first has ended, not with `a`
    · exact absurd ((phase_exec hbc hj).1.symm.trans hend) hac

/-- Wherever the program is interrupted, the view shows one of the three. -/
theorem Passes.interrupt_mem (hp : p.Passes view a b c s) (hs : view s ∈ [a, b, c]) (k : ℕ) :
    view (p.interrupt k s) ∈ [a, b, c] := by
  obtain hsame | ⟨i, hi⟩ := hp
  · rwa [hsame]
  · rw [hi]
    unfold phase
    split
    · simp
    · split <;> simp

theorem Passes.exec_mem (hp : p.Passes view a b c s) (hs : view s ∈ [a, b, c]) :
    view (p.exec s) ∈ [a, b, c] := by
  rw [← interrupt_of_le p s (Nat.le_refl _)]
  exact hp.interrupt_mem hs _

/-- A loop that starts with one of the three. -/
theorem Passes.forM (hac : a ≠ c) (hbc : b ≠ c) {f : α → Program L ε σ Unit}
    (hok : ∀ x s, (f x).result s = .ok ()) {as : List α}
    (hf : ∀ x ∈ as, ∀ s, view s ∈ [a, b, c] → (f x).Passes view a b c s)
    (hs : view s ∈ [a, b, c]) : (as.forM f).Passes view a b c s := by
  induction as generalizing s with
  | nil => exact .inl fun k => congrArg view (by cases k <;> rfl)
  | cons x as ih =>
    have hx := hf x List.mem_cons_self s hs
    refine Passes.bind hac hbc hx (hok x s) (ih (fun y hy => hf y (List.mem_cons_of_mem x hy)) ?_)
    exact hx.exec_mem hs

end Passes

end Program

end Eco2
