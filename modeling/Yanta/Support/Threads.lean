import Mathlib.Tactic.Common

/-!
# Threads under one mutex

Any number of threads, each with a phase of its own, act on a shared state. A
thread's code is a function from its phase, what its environment answers and the
shared state to a move: the next phase, the next shared state, and whether the
mutex is taken or given back. A thread that wants the mutex while another one
holds it cannot move.

If the code takes the mutex exactly when it enters its critical phases and gives
it back exactly when it leaves them, then the thread in a critical phase is the
one that holds the mutex.
-/

namespace Yanta.Support

open Function

variable {ι φ σ η : Type*}

inductive MutexOp where
  | keep
  | acquire
  | release
deriving DecidableEq, Repr

/-- One move of a thread. -/
structure Move (φ σ : Type*) where
  phase : φ
  shared : σ
  mutex : MutexOp

structure Threads (ι φ σ : Type*) where
  shared : σ
  lock : Option ι
  phase : ι → φ

/-- One step of the system: thread `e.1` moves and its environment answers
`e.2`. -/
def Threads.step [DecidableEq ι]
    (act : ι → φ → η → σ → Option (Move φ σ)) (s : Threads ι φ σ) (e : ι × η) :
    Option (Threads ι φ σ) :=
  (act e.1 (s.phase e.1) e.2 s.shared).bind fun m =>
    let phase := Function.update s.phase e.1 m.phase
    match m.mutex with
    | .keep => some ⟨m.shared, s.lock, phase⟩
    | .acquire => if s.lock.isNone then some ⟨m.shared, some e.1, phase⟩ else none
    | .release => some ⟨m.shared, none, phase⟩

/-- The effect of a move on the mutex. -/
def MutexOp.Effect (i : ι) (before after : Option ι) : MutexOp → Prop
  | .keep => after = before
  | .acquire => before = none ∧ after = some i
  | .release => after = none

variable {act : ι → φ → η → σ → Option (Move φ σ)}

/-- Everything a step can do. -/
theorem Threads.step_eq_some [DecidableEq ι] {s s' : Threads ι φ σ} {e : ι × η} :
    s.step act e = some s' ↔
      ∃ m, act e.1 (s.phase e.1) e.2 s.shared = some m ∧
        s'.shared = m.shared ∧ s'.phase = Function.update s.phase e.1 m.phase ∧
        m.mutex.Effect e.1 s.lock s'.lock := by
  obtain ⟨shared, lock, phase⟩ := s'
  rw [Threads.step, Option.bind_eq_some_iff]
  refine exists_congr fun m => and_congr_right fun _ => ?_
  have hmk : ∀ l : Option ι,
      some (⟨m.shared, l, Function.update s.phase e.1 m.phase⟩ : Threads ι φ σ) =
          some ⟨shared, lock, phase⟩ ↔
        shared = m.shared ∧ phase = Function.update s.phase e.1 m.phase ∧
          lock = l := by
    intro l
    rw [Option.some.injEq, Threads.mk.injEq]
    exact ⟨fun ⟨h₁, h₂, h₃⟩ => ⟨h₁.symm, h₃.symm, h₂.symm⟩,
      fun ⟨h₁, h₂, h₃⟩ => ⟨h₁.symm, h₃.symm, h₂.symm⟩⟩
  cases m.mutex with
  | keep => exact hmk s.lock
  | acquire =>
    cases hlock : s.lock with
    | none =>
      simp only [MutexOp.Effect, true_and]
      exact hmk (some e.1)
    | some j => simp [MutexOp.Effect]
  | release => exact hmk none

/-- How a move may use the mutex, given which phases are critical. -/
def MutexOp.Disciplined (before after : Prop) : MutexOp → Prop
  | .keep => after ↔ before
  | .acquire => ¬before ∧ after
  | .release => before ∧ ¬after

/-- The thread in a critical phase is the one that holds the mutex. -/
def Exclusive (critical : φ → Prop) (s : Threads ι φ σ) : Prop :=
  ∀ i, critical (s.phase i) ↔ s.lock = some i

theorem Exclusive.unique
    {critical : φ → Prop} {s : Threads ι φ σ} (h : Exclusive critical s) {i j : ι}
    (hi : critical (s.phase i)) (hj : critical (s.phase j)) : i = j := by
  have heq : some i = some j := ((h i).mp hi).symm.trans ((h j).mp hj)
  exact Option.some.inj heq

/-- Code that is disciplined about the mutex excludes other critical threads. -/
theorem Exclusive.step [DecidableEq ι] {critical : φ → Prop}
    (hact : ∀ i p e x m, act i p e x = some m →
      m.mutex.Disciplined (critical p) (critical m.phase)) {s s' : Threads ι φ σ}
    {e : ι × η} (h : Exclusive critical s) (hstep : s.step act e = some s') :
    Exclusive critical s' := by
  obtain ⟨m, hm, -, hphase, hlock⟩ := Threads.step_eq_some.mp hstep
  have hdis := hact _ _ _ _ _ hm
  intro i
  rw [hphase]
  cases hop : m.mutex with
  | keep =>
    rw [hop] at hdis hlock
    change critical m.phase ↔ critical (s.phase e.1) at hdis
    rw [hlock]
    by_cases hi : i = e.1
    · subst hi
      rw [update_self, hdis]
      exact h e.1
    · rw [update_of_ne hi]
      exact h i
  | acquire =>
    rw [hop] at hdis hlock
    obtain ⟨hfree, htaken⟩ := hlock
    rw [htaken, Option.some.injEq]
    by_cases hi : i = e.1
    · subst hi
      rw [update_self]
      exact iff_of_true hdis.2 rfl
    · rw [update_of_ne hi]
      refine iff_of_false ?_ (Ne.symm hi)
      rw [h i, hfree]
      simp
  | release =>
    rw [hop] at hdis hlock
    rw [hlock]
    by_cases hi : i = e.1
    · subst hi
      rw [update_self]
      exact iff_of_false hdis.2 (by simp)
    · rw [update_of_ne hi]
      refine iff_of_false ?_ (by simp)
      exact fun hcrit => hi (h.unique hcrit hdis.1)

end Yanta.Support
