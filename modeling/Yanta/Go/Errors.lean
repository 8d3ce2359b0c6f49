
/-!
# Error values

An error is the text it prints together with the sentinel that `errors.Is`
finds by unwrapping it. `κ` enumerates the sentinels of the package.
-/

namespace Yanta.Go

variable {text : String} {u : Unit}

variable {κ ε α β : Type}

structure Failure (κ : Type) where
  cause : Option κ
  text : String
deriving DecidableEq, Repr

/-- `errors.New` of a text that is not compared with anything. -/
def Failure.plain (text : String) : Failure κ := ⟨none, text⟩

/-- `fmt.Errorf("<label>: %w", err)`. -/
def label (text : String) : Except (Failure κ) α → Except (Failure κ) α
  | .error e => .error ⟨e.cause, text ++ ": " ++ e.text⟩
  | .ok a => .ok a

/-- `fmt.Errorf("%w: %v", sentinel, err)`: the text of `err` is kept and its
own sentinel is lost. -/
def classify (cause : κ) (text : String) :
    Except String α → Except (Failure κ) α
  | .error e => .error ⟨some cause, text ++ ": " ++ e⟩
  | .ok a => .ok a

/-- `fmt.Errorf("<label>: %w", err)` on an error without a sentinel. -/
def labelText (text : String) : Except String α → Except (Failure κ) α
  | .error e => .error ⟨none, text ++ ": " ++ e⟩
  | .ok a => .ok a

/-- An error passed on as it is. -/
def passOn : Except String α → Except (Failure κ) α
  | .error e => .error (.plain e)
  | .ok a => .ok a

/-- A call into the operating system or the database driver: it fails with the
given text, or does what the model says. -/
def attempt : Option String → Except String Unit
  | some e => .error e
  | none => .ok ()

/-- `if err != nil { … } else { … }` on the result of a call. -/
def branch (x : Except ε α) (onError : ε → β) (onOk : α → β) : β :=
  match x with
  | .error e => onError e
  | .ok a => onOk a

@[simp] theorem branch_ok (a : α) (onError : ε → β) (onOk : α → β) :
    branch (.ok a) onError onOk = onOk a := rfl

@[simp] theorem branch_error (e : ε) (onError : ε → β) (onOk : α → β) :
    branch (.error e) onError onOk = onError e := rfl

/-- The outcomes of a call whose failures are known. -/
theorem cases_of_ok_iff {x : Except ε Unit} {fails : Prop} (h : x = .ok () ↔ ¬ fails) :
    (fails ∧ ∃ e, x = .error e) ∨ (¬ fails ∧ x = .ok ()) := by
  cases x with
  | error e => exact .inl ⟨by simpa using h, e, rfl⟩
  | ok u => exact .inr ⟨h.mp rfl, rfl⟩

theorem isOk_iff {x : Except ε α} : x.isOk = true ↔ ∃ a, x = .ok a := by
  cases x <;> simp [Except.toBool]

@[simp] theorem label_error (text : String) (e : Failure κ) :
    (label text (.error e) : Except (Failure κ) α) =
      .error ⟨e.cause, text ++ ": " ++ e.text⟩ := rfl

@[simp] theorem label_eq_ok {x : Except (Failure κ) α} {a : α} :
    label text x = .ok a ↔ x = .ok a := by
  cases x <;> simp [label]

@[simp] theorem classify_eq_ok {cause : κ} {x : Except String α} {a : α} :
    classify cause text x = .ok a ↔ x = .ok a := by
  cases x <;> simp [classify]

@[simp] theorem labelText_eq_ok {x : Except String α} {a : α} :
    (labelText text x : Except (Failure κ) α) = .ok a ↔ x = .ok a := by
  cases x <;> simp [labelText]

@[simp] theorem passOn_eq_ok {x : Except String α} {a : α} :
    (passOn x : Except (Failure κ) α) = .ok a ↔ x = .ok a := by
  cases x <;> simp [passOn]

@[simp] theorem attempt_eq_ok {fault : Option String} :
    attempt fault = .ok u ↔ fault = none := by
  cases fault <;> simp [attempt]

/-- A sequence of two fallible steps succeeds exactly when both do. -/
theorem bind_eq_ok {x : Except ε α} {f : α → Except ε β} {b : β} :
    (x >>= f) = .ok b ↔ ∃ a, x = .ok a ∧ f a = .ok b := by
  cases x with
  | error | ok => simp [bind, Except.bind]

/-! ## Steps that change a state and may fail -/

section

variable {σ : Type}

/-- The second step runs on the state the first one leaves, unless that failed. -/
def andThen (x : Except ε Unit × σ) (next : σ → Except ε Unit × σ) :
    Except ε Unit × σ :=
  branch x.1 (fun e => (.error e, x.2)) fun _ => next x.2

/-- An error passed on with a text before it. -/
def prefixed (text : String) (x : Except String Unit × σ) : Except String Unit × σ :=
  (branch x.1 (fun e => .error (text ++ e)) .ok, x.2)

theorem andThen_fst_eq_ok {x : Except ε Unit × σ} {next : σ → Except ε Unit × σ} :
    (andThen x next).1 = .ok u ↔ x.1 = .ok () ∧ (next x.2).1 = .ok u := by
  cases hx : x.1 with
  | error | ok => simp [andThen, hx]

/-- What both steps keep, the sequence keeps. -/
theorem andThen_related {R : σ → σ → Prop} {s : σ} {x : Except ε Unit × σ}
    {next : σ → Except ε Unit × σ} (htrans : ∀ a b c, R a b → R b c → R a c)
    (hx : R s x.2) (hnext : ∀ t, R t (next t).2) : R s (andThen x next).2 := by
  unfold andThen
  cases x.1 with
  | error e => exact hx
  | ok u => exact htrans _ _ _ hx (hnext _)

@[simp] theorem prefixed_snd (text : String) (x : Except String Unit × σ) :
    (prefixed text x).2 = x.2 := rfl

@[simp] theorem prefixed_fst_eq_ok {x : Except String Unit × σ} :
    (prefixed text x).1 = .ok u ↔ x.1 = .ok u := by
  cases hx : x.1 with
  | error | ok => simp [prefixed, hx]

end

/-- A step that only checks returns nothing to quantify over. -/
theorem exists_unit {p : Unit → Prop} : (∃ u, p u) ↔ p () :=
  ⟨fun ⟨(), h⟩ => h, fun h => ⟨(), h⟩⟩

end Yanta.Go
