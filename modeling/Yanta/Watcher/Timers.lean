import Yanta.Watcher.Freshness

/-!
# Timers and the map of timers

A timer that is not in the map can neither be stopped by `Stop` nor be replaced by a later
event. A callback removes the entry of its path when it ends, which may be that of a newer
timer.
-/

namespace Yanta.FileWatcher

open Support List

/-- The watcher and the paths of the callbacks that are running. -/
structure Firing where
  watcher : Watcher
  running : List String

inductive TimerEvent
  | schedule (path : String) (op : Op)
  | fire (k : Nat)
  /-- A callback has indexed its path without the lock and removes the entry. -/
  | finish (k : Nat)

def Firing.step (s : Firing) : TimerEvent → Option Firing
  | .schedule path op => some { s with watcher := scheduleIndexing s.watcher path op }
  | .fire k => s.watcher.timers[k]?.map fun t =>
    ⟨{ s.watcher with timers := s.watcher.timers.eraseIdx k }, s.running ++ [t.relPath]⟩
  | .finish k => s.running[k]?.map fun path =>
    ⟨{ s.watcher with debounce := Function.update s.watcher.debounce path none },
      s.running.eraseIdx k⟩

/-- `Stop` on the timers; one is in the map only under its own path. -/
def stop (w : Watcher) : Watcher :=
  { w with
    debounce := fun _ => none
    timers := w.timers.filter fun t => w.debounce t.relPath != some t.id }

/-- Every timer that can still fire is in the map, `Stop` leaves no such timer, and an
event leaves no other timer of its path. -/
structure Tracked (w : Watcher) : Prop where
  mapped : ∀ t ∈ w.timers, w.debounce t.relPath = some t.id
  stopped : (stop w).timers = []
  replaced : ∀ path op, ∀ t ∈ (scheduleIndexing w path op).timers,
    t.relPath = path → t.id = w.nextTimer

/-- When a callback removes the entry of its path, no timer of the path is pending. -/
def removesOwn (s : Firing) : TimerEvent → Bool
  | .finish k => s.running[k]?.all fun path => s.watcher.timers.all (·.relPath != path)
  | _ => true

variable {w : Watcher}

theorem tracked_iff : Tracked w ↔ ∀ t ∈ w.timers, w.debounce t.relPath = some t.id := by
  refine ⟨Tracked.mapped, fun h => ⟨h, by simpa [stop] using h, ?_⟩⟩
  intro path op t ht hpath
  rcases mem_append.mp ht with ht | ht
  · obtain ⟨hold, hne⟩ := mem_stopTimer.mp ht
    exact absurd (hpath ▸ h t hold) hne
  · rw [mem_singleton.mp ht]

theorem tracked_scheduleIndexing (h : Tracked w) (path : String) (op : Op) :
    Tracked (scheduleIndexing w path op) := by
  refine tracked_iff.mpr fun t ht => ?_
  rcases mem_append.mp ht with ht | ht
  · obtain ⟨hold, hne⟩ := mem_stopTimer.mp ht
    have hpath : t.relPath ≠ path := fun heq => hne (heq ▸ h.mapped t hold)
    rw [← h.mapped t hold]
    exact Function.update_of_ne hpath ..
  · rw [mem_singleton.mp ht]
    exact Function.update_self ..

/-- A step keeps the timers in the map exactly when it removes no newer timer's entry. -/
theorem tracked_step_iff (s : Firing) (e : TimerEvent) (h : Tracked s.watcher) :
    (∀ t, s.step e = some t → Tracked t.watcher) ↔ removesOwn s e = true := by
  cases e with
  | schedule path op =>
    refine iff_of_true ?_ rfl
    rintro t ⟨⟩
    exact tracked_scheduleIndexing h path op
  | fire k =>
    refine iff_of_true (fun t ht => ?_) rfl
    obtain ⟨timer, -, rfl⟩ := Option.map_eq_some_iff.mp ht
    exact tracked_iff.mpr fun t ht => h.mapped t (mem_of_mem_eraseIdx ht)
  | finish k =>
    cases hpath : s.running[k]? with
    | none => simp [Firing.step, removesOwn, hpath]
    | some path =>
      simp only [Firing.step, removesOwn, hpath, Option.map_some, Option.some.injEq,
        forall_eq', tracked_iff, Option.all_some, all_eq_true, bne_iff_ne]
      refine forall₂_congr fun t ht => ?_
      by_cases heq : t.relPath = path
      · simp [heq]
      · simp [heq, h.mapped t ht]

/-- The timers stay in the map along a run exactly when no callback removes its entry
while a timer of its path is pending. -/
theorem timers_tracked_iff (es : List TimerEvent) :
    Guarded Firing.step (fun s e => ∀ t, s.step e = some t → Tracked t.watcher)
        ⟨newWatcher, []⟩ es ↔
      Guarded Firing.step (removesOwn · · = true) ⟨newWatcher, []⟩ es :=
  guarded_always_iff tracked_step_iff (tracked_iff.mpr fun _ h => by cases h)

def writeOp : Op := ⟨false, true, false, false, false⟩

/-- A file changes while the callback of its first change runs, and the timer of the second
change outlives `Stop`. -/
theorem newer_timer_is_lost :
    ∃ s, run Firing.step ⟨newWatcher, []⟩
        [.schedule "a" writeOp, .fire 0, .schedule "a" writeOp, .finish 0] = some s ∧
      (stop s.watcher).timers = [⟨1, "a", writeOp⟩] ∧ ¬ Tracked s.watcher := by
  refine ⟨_, rfl, by decide, fun h => ?_⟩
  exact absurd h.stopped (by decide)

end Yanta.FileWatcher
