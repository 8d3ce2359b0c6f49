
/-!
# The lock of git operations

`internal/git/oplock.go`. Every successful `TryAcquire` makes a release function with a
`sync.Once` of its own, which outlives the operation and may be called again.
-/

namespace Yanta.Git

/-- `OperationLock` with the `once` of each release function that was returned: whether
it has run. -/
structure OperationLock where
  inFlight : Bool
  holder : String
  once : List Bool

def newOperationLock : OperationLock := ⟨false, "", []⟩

namespace OperationLock

/-- `TryAcquire`; the release function is given by its place in `once`. -/
def tryAcquire (l : OperationLock) (label : String) :
    OperationLock × Except String Nat :=
  if l.inFlight then (l, .error l.holder)
  else (⟨true, label, l.once ++ [false]⟩, .ok l.once.length)

/-- A call of a release function. -/
def release (l : OperationLock) (i : Nat) : OperationLock :=
  if l.once[i]? = some false then ⟨false, "", l.once.set i true⟩ else l

inductive Event
  | tryAcquire (label : String)
  | release (i : Nat)

def step (l : OperationLock) : Event → OperationLock
  | .tryAcquire label => (l.tryAcquire label).1
  | .release i => l.release i

/-- The acquisitions that are not released. -/
def holders (l : OperationLock) : Nat := l.once.count false

theorem holders_step {l : OperationLock} (h : l.holders = l.inFlight.toNat) (e : Event) :
    (l.step e).holders = (l.step e).inFlight.toNat := by
  cases e with
  | tryAcquire label =>
    cases hflight : l.inFlight with
    | true => simpa [step, tryAcquire, hflight] using h
    | false => simpa [step, tryAcquire, hflight, holders] using h
  | release i =>
    by_cases honce : l.once[i]? = some false
    · obtain ⟨hi, hget⟩ := List.getElem?_eq_some_iff.mp honce
      -- the acquisition is the one that holds the lock
      have hone : l.holders ≤ 1 := h ▸ Bool.toNat_le _
      simpa [step, release, honce, holders, List.count_set hi, hget,
        Nat.sub_eq_zero_iff_le] using hone
    · simpa [step, release, honce] using h

/-- After any calls at most one acquisition is not released, namely while the lock is
taken, and calling the release function of an earlier one again changes nothing. -/
theorem operation_lock_excludes (es : List Event) :
    let l := es.foldl step newOperationLock
    l.holders = l.inFlight.toNat ∧ l.holders ≤ 1 ∧
      ∀ i, l.once[i]? = some true → l.release i = l := by
  have h : ∀ l : OperationLock, l.holders = l.inFlight.toNat →
      (es.foldl step l).holders = (es.foldl step l).inFlight.toNat := by
    induction es with
    | nil => exact fun _ hl => hl
    | cons e es ih => exact fun l hl => ih (l.step e) (holders_step hl e)
  have hrun := h newOperationLock rfl
  refine ⟨hrun, hrun ▸ Bool.toNat_le _, fun i hi => ?_⟩
  simp [release, hi]

end OperationLock

end Yanta.Git
