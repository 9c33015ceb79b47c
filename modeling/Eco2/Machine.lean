/-
Runs of a deterministic machine with outputs.

A machine answers each input with an output and a new state. A run is recorded
as the list of its transitions, each with the state it started from, so that a
property of the whole history (a sum over the successful calls, the last
creation of a key) is a plain function of that list. `Run` carries a condition
every transition must meet; the theorems about arbitrary runs take it to be
`True`, those about restricted runs put the restriction there.

`Run.invariant` is the one induction of this development: a property of history
and state that holds at the start and is kept by every step holds at the end.
-/
import Mathlib.Data.List.Induction

set_option autoImplicit false

namespace Eco2

/-- One step of a machine, with the state before it and everything it produced. -/
structure Transition (σ ι ω : Type) where
  pre : σ
  input : ι
  output : ω
  post : σ

/-- A deterministic machine with outputs. -/
structure Machine (σ ι ω : Type) where
  step : σ → ι → ω × σ

namespace Machine

variable {σ ι ω : Type} (M : Machine σ ι ω)

/-- The transition the machine makes from `s` on input `i`. -/
def fire (s : σ) (i : ι) : Transition σ ι ω :=
  { pre := s, input := i, output := (M.step s i).1, post := (M.step s i).2 }

@[simp] theorem fire_pre (s : σ) (i : ι) : (M.fire s i).pre = s := rfl

/-- `M.Run allowed s₀ tr s`: from `s₀` the transitions `tr`, all of them
allowed, lead to `s`. -/
inductive Run (allowed : Transition σ ι ω → Prop) (s₀ : σ) :
    List (Transition σ ι ω) → σ → Prop
  | nil : Run allowed s₀ [] s₀
  | snoc {tr : List (Transition σ ι ω)} {s : σ} (i : ι) (hrun : Run allowed s₀ tr s)
      (hok : allowed (M.fire s i)) : Run allowed s₀ (tr ++ [M.fire s i]) (M.fire s i).post

variable {M} {allowed allowed' : Transition σ ι ω → Prop} {s₀ s : σ}
  {tr : List (Transition σ ι ω)}

/-- **The invariant rule.** What holds of the empty history at the start and is
kept by every allowed step holds of every run. The step may use that it starts
at the end of a run. -/
theorem Run.invariant {I : List (Transition σ ι ω) → σ → Prop} (h : M.Run allowed s₀ tr s)
    (h0 : I [] s₀)
    (hstep : ∀ tr s i, M.Run allowed s₀ tr s → I tr s → allowed (M.fire s i) →
      I (tr ++ [M.fire s i]) (M.fire s i).post) : I tr s := by
  induction h with
  | nil => exact h0
  | snoc i hrun hok ih => exact hstep _ _ i hrun ih hok

/-- The invariant rule for a property of the state alone. -/
theorem Run.state_invariant {I : σ → Prop} (h : M.Run allowed s₀ tr s) (h0 : I s₀)
    (hstep : ∀ s i, I s → allowed (M.fire s i) → I (M.fire s i).post) : I s :=
  h.invariant (I := fun _ s => I s) h0 fun _ s i _ hI hok => hstep s i hI hok

/-- What is true of every transition of a run may be made its condition. -/
theorem Run.restrict (h : M.Run allowed s₀ tr s) (hall : ∀ t ∈ tr, allowed' t) :
    M.Run allowed' s₀ tr s := by
  induction h with
  | nil => exact .nil
  | snoc i _ _ ih =>
    refine (ih fun t ht => hall t (List.mem_append_left _ ht)).snoc i (hall _ ?_)
    exact List.mem_append_right _ (List.mem_singleton.mpr rfl)

/-- Every transition of a run is fired by the machine at the end of the run
before it, and what follows is a run from the state it left. -/
theorem Run.split {tr₁ tr₂ : List (Transition σ ι ω)} {t : Transition σ ι ω}
    (h : M.Run allowed s₀ (tr₁ ++ t :: tr₂) s) :
    M.Run allowed s₀ tr₁ t.pre ∧ t = M.fire t.pre t.input ∧ allowed t
      ∧ M.Run allowed t.post tr₂ s := by
  -- from the right, since `Run` grows there: the last transition is taken off first
  induction tr₂ using List.reverseRecOn generalizing s with
  | nil =>
    cases h' : tr₁ ++ [t] with
    | nil => simp at h'
    | cons a l =>
      rw [h'] at h
      -- `cases` needs the list to be a variable
      generalize hl : a :: l = whole at h
      cases h with
      | nil => cases hl
      | snoc i hrun hok =>
        rw [← h'] at hl
        obtain ⟨rfl, hlast⟩ := List.append_inj' hl rfl
        obtain rfl := List.singleton_inj.mp hlast
        exact ⟨hrun, rfl, hok, .nil⟩
  | append_singleton tr₂ u ih =>
    rw [show tr₁ ++ t :: (tr₂ ++ [u]) = (tr₁ ++ t :: tr₂) ++ [u] by simp] at h
    generalize hl : (tr₁ ++ t :: tr₂) ++ [u] = whole at h
    cases h with
    | nil => simp at hl
    | snoc i hrun hok =>
      obtain ⟨rfl, hlast⟩ := List.append_inj' hl rfl
      obtain rfl := List.singleton_inj.mp hlast
      obtain ⟨h1, h2, h3, h4⟩ := ih hrun
      exact ⟨h1, h2, h3, h4.snoc i hok⟩

/-- Every transition in a run is fired at the end of a shorter run. -/
theorem Run.of_mem (h : M.Run allowed s₀ tr s) {t : Transition σ ι ω} (ht : t ∈ tr) :
    ∃ tr₁, M.Run allowed s₀ tr₁ t.pre ∧ t = M.fire t.pre t.input ∧ allowed t := by
  obtain ⟨tr₁, tr₂, rfl⟩ := List.append_of_mem ht
  obtain ⟨h1, h2, h3, _⟩ := h.split
  exact ⟨tr₁, h1, h2, h3⟩

/-- A stronger condition may be weakened. -/
theorem Run.mono (h : M.Run allowed s₀ tr s) (himp : ∀ t, allowed t → allowed' t) :
    M.Run allowed' s₀ tr s := by
  refine h.restrict fun t ht => ?_
  obtain ⟨-, -, -, hok⟩ := h.of_mem ht
  exact himp t hok

/-- A run may be cut off after any of its transitions. -/
theorem Run.upto (h : M.Run allowed s₀ tr s) {t : Transition σ ι ω} (ht : t ∈ tr) :
    ∃ tr₁, M.Run allowed s₀ (tr₁ ++ [t]) t.post := by
  obtain ⟨tr₁, hbefore, hfire, hok⟩ := h.of_mem ht
  refine ⟨tr₁, ?_⟩
  rw [hfire] at hok ⊢
  exact hbefore.snoc t.input hok

/-- A run may be followed by another. -/
theorem Run.append {s' : σ} {tr' : List (Transition σ ι ω)} (h : M.Run allowed s₀ tr s)
    (h' : M.Run allowed s tr' s') : M.Run allowed s₀ (tr ++ tr') s' := by
  induction h' with
  | nil => rwa [List.append_nil]
  | snoc i _ hok ih =>
    rw [← List.append_assoc]
    exact ih.snoc i hok

/-! ## Conditions that are exact step by step -/

section Exact

variable {G : σ → Prop} {S : Transition σ ι ω → Prop}

/-- Good after every transition, a run is good at its end. -/
theorem Run.good_end (h : M.Run allowed s₀ tr s) (h0 : G s₀)
    (hall : ∀ t ∈ tr, G t.post) : G s := by
  cases h with
  | nil => exact h0
  | snoc i hrun hok => exact hall _ (List.mem_append_right _ List.mem_cons_self)

/-- Good after every transition, a run is good before every transition. -/
theorem Run.good_pre (h : M.Run allowed s₀ tr s) (h0 : G s₀) (hall : ∀ t ∈ tr, G t.post)
    {t : Transition σ ι ω} (ht : t ∈ tr) : G t.pre := by
  obtain ⟨tr₁, tr₂, rfl⟩ := List.append_of_mem ht
  exact h.split.1.good_end h0 fun u hu => hall u (List.mem_append_left _ hu)

/-- A condition that decides of every step whether it stays good decides of every
run whether all of it is good. -/
theorem Run.forall_good_iff (h : M.Run allowed s₀ tr s) (h0 : G s₀)
    (hstep : ∀ tr s i, M.Run allowed s₀ tr s → G s → allowed (M.fire s i) →
      (G (M.fire s i).post ↔ S (M.fire s i))) :
    (∀ t ∈ tr, G t.post) ↔ ∀ t ∈ tr, S t := by
  induction h with
  | nil => simp
  | snoc i hrun hok ih =>
    simp only [List.forall_mem_append, List.forall_mem_singleton]
    rw [← ih]
    -- the last step is judged by `hstep` only where all before it was good
    exact and_congr_right fun hall => hstep _ _ i hrun (hrun.good_end h0 hall) hok

end Exact

/-! ## Conditions on an entry of a history and those before it -/

section Along

variable {α : Type} {l : List α}

/-- Every entry of the history meets `P`, with the history before it. -/
def Along (P : List α → α → Prop) (l : List α) : Prop := ∀ before a after,
  l = before ++ a :: after → P before a

theorem along_nil {P : List α → α → Prop} : Along P [] := by
  intro before a after h
  simp at h

theorem along_snoc {P : List α → α → Prop} (a : α) :
    Along P (l ++ [a]) ↔ Along P l ∧ P l a := by
  constructor
  · intro h
    refine ⟨fun before b after hsplit => h before b (after ++ [a]) ?_, h l a [] rfl⟩
    rw [hsplit, List.append_assoc, List.cons_append]
  · rintro ⟨hall, hlast⟩ before b after hsplit
    -- the entry picked is the last one, or one of those before it
    rcases List.eq_nil_or_concat after with rfl | ⟨after', c, rfl⟩
    · obtain ⟨rfl, hone⟩ := List.append_inj' hsplit rfl
      obtain rfl := List.singleton_inj.mp hone
      exact hlast
    · rw [List.concat_eq_append, ← List.cons_append, ← List.append_assoc] at hsplit
      obtain ⟨rfl, -⟩ := List.append_inj' hsplit rfl
      exact hall before b after' rfl

theorem along_append {P : List α → α → Prop} {l' : List α} :
    Along P (l ++ l') ↔ Along P l ∧ Along (fun before a => P (l ++ before) a) l' := by
  induction l' using List.reverseRecOn with
  | nil => simp [along_nil]
  | append_singleton l' a ih => rw [← List.append_assoc, along_snoc, along_snoc, ih, and_assoc]

/-- The condition holds along an earlier part of the history. -/
theorem Along.init {P : List α → α → Prop} {l' : List α} (h : Along P (l ++ l')) : Along P l := by
  intro before a after hsplit
  refine h before a (after ++ l') ?_
  rw [hsplit, List.append_assoc, List.cons_append]

/-- A condition on the entry alone. -/
theorem along_iff_forall {Q : α → Prop} : Along (fun _ a => Q a) l ↔ ∀ a ∈ l, Q a := by
  constructor
  · intro h a ha
    obtain ⟨before, after, rfl⟩ := List.append_of_mem ha
    exact h before a after rfl
  · rintro h before a after rfl
    exact h a (List.mem_append_right _ List.mem_cons_self)

/-- What any two entries of a history, the earlier one first, are to each other. -/
theorem along_iff_pairwise {R : α → α → Prop} :
    Along (fun before a => ∀ b ∈ before, R b a) l ↔ l.Pairwise R := by
  induction l using List.reverseRecOn with
  | nil => exact iff_of_true along_nil List.Pairwise.nil
  | append_singleton l a ih =>
    rw [along_snoc, ih, List.pairwise_append]
    simp only [List.pairwise_singleton, List.mem_singleton, forall_eq, true_and]

variable {P S : List (Transition σ ι ω) → Transition σ ι ω → Prop}

/-- Two conditions that agree on every step of a run, as long as the second has
been met so far, agree on every run. -/
theorem Run.along_iff {J : List (Transition σ ι ω) → σ → Prop} (h : M.Run allowed s₀ tr s)
    (h0 : J [] s₀)
    (hiff : ∀ tr s i, M.Run allowed s₀ tr s → J tr s → allowed (M.fire s i) →
      (P tr (M.fire s i) ↔ S tr (M.fire s i)))
    (hstep : ∀ tr s i, M.Run allowed s₀ tr s → J tr s → allowed (M.fire s i) →
      S tr (M.fire s i) → J (tr ++ [M.fire s i]) (M.fire s i).post) :
    (Along P tr ↔ Along S tr) ∧ (Along S tr → J tr s) := by
  induction h with
  | nil => exact ⟨iff_of_true along_nil along_nil, fun _ => h0⟩
  | @snoc tr s i hrun hok ih =>
    simp only [along_snoc]
    rw [ih.1]
    refine ⟨and_congr_right fun hall => hiff tr s i hrun (ih.2 hall) hok, ?_⟩
    rintro ⟨hall, hlast⟩
    exact hstep tr s i hrun (ih.2 hall) hok hlast

end Along

/-! ## Executing a list of inputs -/

variable (M)

/-- The transitions of the machine on a list of inputs. -/
def trace (s : σ) : List ι → List (Transition σ ι ω)
  | [] => []
  | i :: is => M.fire s i :: trace (M.fire s i).post is

/-- The state the machine reaches on a list of inputs. -/
def final (s : σ) : List ι → σ
  | [] => s
  | i :: is => final (M.fire s i).post is

variable {M}

/-- The inputs of an execution are the ones it was given. -/
theorem input_mem_of_mem_trace {s : σ} {is : List ι} {t : Transition σ ι ω} (h : t ∈ M.trace s is) :
    t.input ∈ is := by
  induction is generalizing s with
  | nil => cases h
  | cons i is ih =>
    rcases List.mem_cons.mp h with rfl | h
    · exact List.mem_cons_self
    · exact List.mem_cons_of_mem _ (ih h)

/-- Runs can be glued. -/
theorem Run.cons {i : ι} {tr : List (Transition σ ι ω)} (hok : allowed (M.fire s₀ i))
    (h : M.Run allowed (M.fire s₀ i).post tr s) : M.Run allowed s₀ (M.fire s₀ i :: tr) s := by
  induction h with
  | nil => exact Run.snoc i .nil hok
  -- `Run` grows at its end, so the first transition is put in front by induction
  | snoc j _ hj ih => exact Run.snoc j ih hj

/-- Executing inputs whose transitions are all allowed is a run. -/
theorem run_trace (s : σ) (is : List ι) (hok : ∀ t ∈ M.trace s is, allowed t) :
    M.Run allowed s (M.trace s is) (M.final s is) := by
  induction is generalizing s with
  | nil => exact .nil
  | cons i is ih =>
    refine Run.cons (hok _ List.mem_cons_self) (ih _ fun t ht => hok t ?_)
    exact List.mem_cons_of_mem _ ht

end Machine

end Eco2
