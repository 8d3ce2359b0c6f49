
/-!
# Programs that make calls

A program makes calls and goes on with what they return; what a call does is left to
those who run it. One program can so be run alone, with a handler that answers its
calls, and call by call among others.

A protocol says which calls are allowed in which phase and what a call does to the
phase. A program that obeys a protocol obeys it with any answers.
-/

namespace Yanta.Support

/-- A program over the calls `C`, of which `c` returns a value of type `R c`. -/
inductive Program (C : Type) (R : C → Type) (α : Type) where
  | done (a : α)
  | call (c : C) (next : R c → Program C R α)

namespace Program

variable {C : Type} {R : C → Type} {α β σ φ : Type}

protected def bind : Program C R α → (α → Program C R β) → Program C R β
  | .done a, f => f a
  | .call c next, f => .call c fun r => (next r).bind f

instance : Monad (Program C R) where
  pure := .done
  bind := Program.bind

/-- The program of one call. -/
def perform (c : C) : Program C R (R c) := .call c .done

/-! ## Running alone -/

/-- Run a program to its end with a handler for its calls. -/
def exec (handle : (c : C) → σ → R c × σ) : Program C R α → σ → α × σ
  | .done a, s => (a, s)
  | .call c next, s => exec handle (next (handle c s).1) (handle c s).2

section

variable (handle : (c : C) → σ → R c × σ) (s : σ)

@[simp] theorem exec_pure (a : α) :
    exec handle (pure a : Program C R α) s = (a, s) := rfl

@[simp] theorem exec_perform (c : C) : exec handle (perform c) s = handle c s := rfl

@[simp] theorem exec_bind (x : Program C R α) (f : α → Program C R β) :
    exec handle (x >>= f) s = exec handle (f (exec handle x s).1) (exec handle x s).2 := by
  induction x generalizing s with
  | done a => rfl
  | call c next ih => exact ih _ _

end

/-! ## Protocols -/

structure Protocol (C : Type) (R : C → Type) (φ : Type) where
  allowed : φ → C → Prop
  next : φ → (c : C) → R c → φ

/-- From the phase on, the program makes only calls that are allowed, and it ends in
a phase and with a value that satisfy `Q`. -/
def Obeys (P : Protocol C R φ) (Q : φ → α → Prop) : φ → Program C R α → Prop
  | p, .done a => Q p a
  | p, .call c next => P.allowed p c ∧ ∀ r, Obeys P Q (P.next p c r) (next r)

section

variable {P : Protocol C R φ} {Q : φ → α → Prop} {p : φ}

theorem obeys_pure {a : α} : Obeys P Q p (pure a) ↔ Q p a := Iff.rfl

theorem obeys_perform {c : C} {Q : φ → R c → Prop} :
    Obeys P Q p (perform c) ↔ P.allowed p c ∧ ∀ r, Q (P.next p c r) r := Iff.rfl

theorem obeys_perform_bind {c : C} {f : R c → Program C R α} :
    Obeys P Q p (perform c >>= f) ↔
      P.allowed p c ∧ ∀ r, Obeys P Q (P.next p c r) (f r) := Iff.rfl

theorem obeys_ite {c : Prop} [Decidable c] {x y : Program C R α}
    (hx : c → Obeys P Q p x) (hy : ¬c → Obeys P Q p y) :
    Obeys P Q p (if c then x else y) := by
  split
  case isTrue h => exact hx h
  case isFalse h => exact hy h

/-- One program after the other. -/
theorem Obeys.bind {S : φ → β → Prop} {x : Program C R α} {f : α → Program C R β}
    (hx : Obeys P Q p x) (hf : ∀ p a, Q p a → Obeys P S p (f a)) :
    Obeys P S p (x >>= f) := by
  induction x generalizing p with
  | done a => exact hf p a hx
  | call c next ih => exact ⟨hx.1, fun r => ih r (hx.2 r)⟩

theorem Obeys.mono {Q' : φ → α → Prop} {x : Program C R α} (hx : Obeys P Q p x)
    (hQ : ∀ p a, Q p a → Q' p a) : Obeys P Q' p x := by
  induction x generalizing p with
  | done a => exact hQ p a hx
  | call c next ih => exact ⟨hx.1, fun r => ih r (hx.2 r)⟩

/-- What every allowed call keeps, a program that obeys the protocol keeps. -/
theorem Obeys.exec_related {handle : (c : C) → σ → R c × σ} {Rel : σ → σ → Prop}
    (hrefl : ∀ s, Rel s s) (htrans : ∀ s t u, Rel s t → Rel t u → Rel s u)
    (hcall : ∀ p c s, P.allowed p c → Rel s (handle c s).2)
    {x : Program C R α} (hx : Obeys P Q p x) (s : σ) : Rel s (exec handle x s).2 := by
  induction x generalizing p s with
  | done a => exact hrefl s
  | call c next ih => exact htrans _ _ _ (hcall p c s hx.1) (ih _ (hx.2 _) _)

end

end Program

end Yanta.Support
