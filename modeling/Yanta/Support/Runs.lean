import Mathlib.Data.List.Basic
import Mathlib.Logic.Function.Basic
import Mathlib.Tactic.Common

/-!
# Runs of a partial step function

A system is given by a step function `σ → ε → Option σ`: an event is either
refused in a state or leads to exactly one next state. Everything that is
nondeterministic about a system (who moves next, what its environment answers)
is part of the event, so a run is simply a list of events and can be executed.

The induction over runs is packaged here once. An invariant is shown by two
small goals, and the guarded form covers properties which hold only in those
runs whose steps all satisfy a condition on the state they start from.
-/

namespace Yanta.Support

open List Option

variable {σ ε : Type*}

/-- Execute a list of events; the result is `none` once an event is refused. -/
def run (step : σ → ε → Option σ) : σ → List ε → Option σ
  | s, [] => some s
  | s, e :: es => (step s e).bind fun s' => run step s' es

/-- Every step of the run from `s` satisfies `G` in the state it is taken in. -/
def Guarded (step : σ → ε → Option σ) (G : σ → ε → Prop) :
    σ → List ε → Prop
  | _, [] => True
  | s, e :: es => G s e ∧ ∀ s', step s e = some s' → Guarded step G s' es

@[simp] theorem run_nil (step : σ → ε → Option σ) (s : σ) :
    run step s [] = some s := rfl

theorem run_cons (step : σ → ε → Option σ) (s : σ) (e : ε) (es : List ε) :
    run step s (e :: es) = (step s e).bind fun s' => run step s' es := rfl

variable {step : σ → ε → Option σ} {es : List ε}

theorem run_cons_eq_some {s s'' : σ} {e : ε} :
    run step s (e :: es) = some s'' ↔
      ∃ s', step s e = some s' ∧ run step s' es = some s'' := by
  rw [run_cons, bind_eq_some_iff]

theorem run_append
    (step : σ → ε → Option σ) (s : σ) (es fs : List ε) :
    run step s (es ++ fs) = (run step s es).bind fun s' => run step s' fs := by
  induction es generalizing s with
  | nil => rfl
  | cons e es ih =>
    rw [cons_append, run_cons, run_cons, bind_assoc]
    congr 1
    funext s'
    exact ih s'

/-- What every step preserves, every run preserves. -/
theorem run_invariant {I : σ → Prop} (hstep : ∀ s e s', I s → step s e = some s' → I s')
    {s s' : σ} (hs : I s) (hrun : run step s es = some s') : I s' := by
  induction es generalizing s with
  | nil =>
    cases hrun
    exact hs
  | cons e es ih =>
    obtain ⟨t, ht, htail⟩ := run_cons_eq_some.mp hrun
    exact ih (hstep s e t hs ht) htail

variable {G : σ → ε → Prop}

/-- The invariant rule for runs whose steps all satisfy a guard. -/
theorem run_invariant_of_guarded {I : σ → Prop}
    (hstep : ∀ s e s', I s → G s e → step s e = some s' → I s') {s s' : σ} (hs : I s)
    (hguard : Guarded step G s es) (hrun : run step s es = some s') : I s' := by
  induction es generalizing s with
  | nil =>
    cases hrun
    exact hs
  | cons e es ih =>
    obtain ⟨t, ht, htail⟩ := run_cons_eq_some.mp hrun
    exact ih (hstep s e t hs hguard.1 ht) (hguard.2 t ht) htail

/-- If a step leads out of the invariant exactly when it breaks the guard, then the
invariant holds along a run exactly when its steps satisfy the guard. -/
theorem guarded_always_iff {I : σ → Prop}
    (hstep : ∀ s e, I s → ((∀ s', step s e = some s' → I s') ↔ G s e)) {s : σ} (hs : I s) :
    Guarded step (fun s e => ∀ s', step s e = some s' → I s') s es ↔
      Guarded step G s es := by
  induction es generalizing s with
  | nil => rfl
  | cons e es ih =>
    rw [Guarded, Guarded, ← hstep s e hs]
    exact and_congr_right fun hI => forall₂_congr fun s' hs' => ih (hI s' hs')

/-- The first part of a guarded run is guarded. -/
theorem Guarded.left {s : σ} {fs : List ε} (h : Guarded step G s (es ++ fs)) :
    Guarded step G s es := by
  induction es generalizing s with
  | nil => trivial
  | cons e es ih => exact ⟨h.1, fun s' hs' => ih (h.2 s' hs')⟩

/-- What follows the first part of a guarded run is guarded. -/
theorem Guarded.right {s s' : σ} {fs : List ε} (h : Guarded step G s (es ++ fs))
    (hrun : run step s es = some s') : Guarded step G s' fs := by
  induction es generalizing s with
  | nil =>
    cases hrun
    exact h
  | cons e es ih =>
    obtain ⟨t, ht, htail⟩ := run_cons_eq_some.mp hrun
    exact ih (h.2 t ht) htail

/-- A guard on the events alone. -/
theorem guarded_of_forall_mem {P : ε → Prop} {s : σ} (h : ∀ e ∈ es, P e) :
    Guarded step (fun _ e => P e) s es := by
  induction es generalizing s with
  | nil => trivial
  | cons e es ih =>
    refine ⟨h e mem_cons_self, fun s' _ => ih ?_⟩
    intro e' he'
    exact h e' (mem_cons_of_mem _ he')

instance guardedDecidable
    (step : σ → ε → Option σ) (G : σ → ε → Prop)
    [∀ s e, Decidable (G s e)] :
    ∀ s es, Decidable (Guarded step G s es)
  | _, [] => isTrue trivial
  | s, e :: es =>
    match h : step s e with
    | none =>
      decidable_of_iff (G s e) (by simp [Guarded, h])
    | some s' =>
      have := guardedDecidable step G s' es
      decidable_of_iff (G s e ∧ Guarded step G s' es)
        (by simp [Guarded, h])

/-! ## Families of systems -/

section

variable {ι : Type*} [DecidableEq ι]

/-- One member of a family of systems takes a step. -/
def stepAt (step : σ → ε → Option σ) (x : ι → σ) (e : ι × ε) : Option (ι → σ) :=
  (step (x e.1) e.2).map (Function.update x e.1)

/-- An invariant of each member holds along the runs of the family. -/
theorem stepAt_invariant {P : ε → Prop} {I : ι → σ → Prop}
    (hstep : ∀ i s e s', I i s → P e → step s e = some s' → I i s') {x y : ι → σ}
    {es : List (ι × ε)} (hx : ∀ i, I i (x i)) (hes : ∀ e ∈ es, P e.2)
    (hrun : run (stepAt step) x es = some y) : ∀ i, I i (y i) := by
  refine run_invariant_of_guarded (I := fun x => ∀ i, I i (x i)) ?_ hx
    (guarded_of_forall_mem hes) hrun
  intro x e y hx he hy i
  obtain ⟨s, hs, rfl⟩ := map_eq_some_iff.mp hy
  by_cases hi : i = e.1
  · rw [hi, Function.update_self]
    exact hstep e.1 (x e.1) e.2 s (hx e.1) he hs
  · rw [Function.update_of_ne hi]
    exact hx i

end

end Yanta.Support
