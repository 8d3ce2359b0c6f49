import Mathlib.Data.List.Chain
import Yanta.Git.SyncManager

/-!
# Toasts along a sequence of results

The toasts of `notify` report the changes of the failure state and nothing else.
-/

namespace Yanta.Git

open List

inductive Failure
  | conflict
  | pushFailed
  | error (message : String)
deriving DecidableEq

/-- The failure that a result stands for; a healthy one stands for none. -/
def failureOf (result : SyncResult) : Option Failure :=
  match result.status with
  | .conflict => some .conflict
  | .pushFailed => some .pushFailed
  | .error => some (.error result.message)
  | .noChanges | .committed | .synced => none

/-- The spelling of a failure in `lastFailureKey`. -/
def keyOf : Option Failure → String
  | none => ""
  | some .conflict => "conflict"
  | some .pushFailed => "push_failed"
  | some (.error message) => "error:" ++ message

theorem failureKey_eq (result : SyncResult) :
    failureKey result = keyOf (failureOf result) := by
  unfold failureKey failureOf
  cases result.status <;> rfl

theorem keyOf_injective : Function.Injective keyOf := by
  intro f g h
  rw [← String.toList_inj] at h
  rcases f with _ | _ | _ | _ <;> rcases g with _ | _ | _ | _ <;>
    simp_all [keyOf]
  exact String.toList_inj.mp h

/-- The manager before its first result. -/
def World.unnotified (w : World) : World := { w with lastFailureKey := "", toasts := [] }

/-- The results for which a toast is emitted. -/
def World.reports (w : World) : List SyncResult → List SyncResult
  | [] => []
  | result :: results =>
    (if (w.notify result).toasts = w.toasts then [] else [result]) ++
      (w.notify result).reports results

/-- The failure of the last result. -/
def lastFailure (results : List SyncResult) : Option Failure :=
  results.getLast?.bind failureOf

open World

theorem reports_cons (w : World) (result : SyncResult) (results : List SyncResult) :
    w.reports (result :: results) =
      (if failureKey result = w.lastFailureKey then [] else [result]) ++
        (w.notify result).reports results := by
  by_cases h : failureKey result = w.lastFailureKey <;> simp [reports, notify, h]

theorem reports_append (w : World) (before after : List SyncResult) :
    w.reports (before ++ after) =
      w.reports before ++ (before.foldl World.notify w).reports after := by
  induction before generalizing w with
  | nil => rfl
  | cons result before ih => simp [reports, ih]

variable (w : World) (results : List SyncResult)

theorem toasts_foldl_notify :
    (results.foldl World.notify w).toasts.map Prod.fst =
      w.toasts.map Prod.fst ++ (w.reports results).map toastFor := by
  induction results generalizing w with
  | nil => simp [reports]
  | cons result results ih =>
    rw [foldl_cons, ih, reports_cons]
    by_cases h : failureKey result = w.lastFailureKey <;> simp [notify, h]

/-- No report repeats the one before it; the first one differs from the state. -/
theorem isChain_reports :
    (w.lastFailureKey :: (w.reports results).map failureKey).IsChain (· ≠ ·) := by
  induction results generalizing w with
  | nil => exact .singleton _
  | cons result results ih =>
    have hrest := ih (w.notify result)
    by_cases h : failureKey result = w.lastFailureKey
    · rw [reports_cons, if_pos h, nil_append, ← h]
      exact hrest
    · rw [reports_cons, if_neg h]
      exact .cons_cons (Ne.symm h) hrest

theorem lastFailureKey_foldl_notify :
    (results.foldl World.notify w.unnotified).lastFailureKey =
      keyOf (lastFailure results) := by
  induction results using List.reverseRecOn with
  | nil => rfl
  | append_singleton before result _ =>
    simp [notify, lastFailure, failureKey_eq]

/-- The emitted toasts are those of the reports, of which no two consecutive ones have
the same failure; a result is reported, once, when its failure is not that of the result
before it, and the toast says that the sync has recovered when the result is healthy. -/
theorem toasts_follow_failures :
    (results.foldl World.notify w.unnotified).toasts.map Prod.fst =
        (w.unnotified.reports results).map toastFor ∧
      ((w.unnotified.reports results).map failureOf).IsChain (· ≠ ·) ∧
      (∀ before result, w.unnotified.reports (before ++ [result]) =
        w.unnotified.reports before ++
          if failureOf result = lastFailure before then [] else [result]) ∧
      ∀ result, toastFor result = .recovered ↔ failureOf result = none := by
  refine ⟨toasts_foldl_notify _ _, ?_, fun before result => ?_, fun result => ?_⟩
  · rw [isChain_map]
    refine ((isChain_map _).mp (isChain_reports _ _).tail).imp fun r r' hne heq => ?_
    exact hne (by rw [failureKey_eq, failureKey_eq, heq])
  · rw [reports_append, reports_cons, lastFailureKey_foldl_notify, failureKey_eq]
    simp [keyOf_injective.eq_iff, reports]
  · unfold toastFor failureKey failureOf
    cases result.status <;> simp

end Yanta.Git
