import Yanta.Watcher.Freshness

/-!
# Changes and their delivery

The steps before a callback runs keep the invariant of `Yanta.Watcher.Freshness`:
changes of files and of attributes, the delivery of events and the firing of
timers.
-/

namespace Yanta.FileWatcher

open Vault Document Index List

variable {op : Op} {p : String} {queue : List (String × Op)}

section

variable {β : Type} {rt : Runtime β} {root path : String} {matched : Prop}
variable {file : Option (VaultFile β)} {s : Disk β}

/-! ## Changes of files -/

theorem freshInv_begin (clock : Time) (v : Vault β) (db : Db) :
    FreshInv rt ((Disk.begin clock v db).Matches rt path) path (Disk.begin clock v db) := by
  refine ⟨watcherInv_newWatcher, .inl ⟨rfl, fun hne => absurd rfl hne⟩,
    .inl ⟨rfl, ?_⟩⟩
  rintro (h | h)
  · exact .inr h
  · cases h

theorem stores_of_reflects (h : reflects file op = true) :
    file.isSome = op.stores ∧ op.acts = true := by
  unfold reflects at h
  split_ifs at h with hfile
  · exact ⟨by rw [hfile, h], by simp [Op.acts, h]⟩
  · have hnot : op.stores = false := by
      simp only [Op.removes, Bool.and_eq_true, Bool.not_eq_true'] at h
      exact h.1
    refine ⟨?_, by simp [Op.acts, h]⟩
    rw [hnot]
    simpa using hfile

/-- The file of the path changes: its event is the last one to be handled. -/
theorem freshInv_file_self (hs : FreshInv rt matched path s) (hop : reflects file op = true)
    (hsafe : s.running.any (Job.comparedAt path) = false) :
    FreshInv rt matched path
      { s with
        vault := putFile s.vault path file
        queue := s.queue ++ [(path, op)]
        changed := Function.update s.changed path true } := by
  obtain ⟨hstores, hacts⟩ := stores_of_reflects hop
  refine ⟨hs.timers, ?_, .inr ⟨op, ?_, ?_⟩⟩
  · rcases hs.jobs with ⟨hnone, hhash⟩ | ⟨j, hj, hinv⟩
    · exact .inl ⟨hnone, hhash⟩
    · refine .inr ⟨j, hj, ?_⟩
      have hmem : j ∈ s.running.filter (Job.busyAt path) := by
        rw [hj]
        exact mem_singleton.mpr rfl
      obtain ⟨hrunning, hbusy⟩ := mem_filter.mp hmem
      have hcompared : j.comparedAt path = false := by
        simpa using any_eq_false.mp hsafe j hrunning
      unfold JobInv at hinv ⊢
      cases hstage : j.stage with
      | changed hash =>
        simp only [Job.busyAt, Bool.and_eq_true] at hbusy
        simp [Job.comparedAt, hbusy.1, hstage] at hcompared
      | started | indexed | forgotten | finishing =>
        rw [hstage] at hinv
        exact hinv
  · simp only [Disk.pending, queueOps_append_self hacts, ← append_assoc]
    exact List.getLast?_concat
  · simp only [lookup_putFile_self]
    exact hstores

section

variable (hpath : documentPath path = .ok path) (hs : FreshInv rt matched path s)

include hpath hs

/-- Another file changes. -/
theorem freshInv_file_other (hne : p ≠ path) :
    FreshInv rt matched path
      { s with
        vault := putFile s.vault p file
        queue := s.queue ++ [(p, op)]
        changed := Function.update s.changed p true } := by
  have hsame : SamePath path s
      { s with
        vault := putFile s.vault p file
        queue := s.queue ++ [(p, op)]
        changed := Function.update s.changed p true } :=
    ⟨le_refl _, lookup_putFile hne.symm, sameEntry_refl path s.db, rfl⟩
  refine ⟨hs.timers, jobsInv_of_same hpath hsame rfl rfl hs.jobs,
    entryInv_of_same hpath hsame ?_ ?_ hs.entry⟩
  · simp only [Disk.pending, queueOps_append_of_ne hne]
  · exact Function.update_of_ne hne.symm ..

/-- The attributes of a file change. -/
theorem freshInv_attributes (hop : op.acts = false) :
    FreshInv rt matched path { s with queue := s.queue ++ [(p, op)] } := by
  have hsame : SamePath path s { s with queue := s.queue ++ [(p, op)] } :=
    ⟨le_refl _, rfl, sameEntry_refl path s.db, rfl⟩
  refine ⟨hs.timers, jobsInv_of_same hpath hsame rfl rfl hs.jobs,
    entryInv_of_same hpath hsame ?_ rfl hs.entry⟩
  simp only [Disk.pending, queueOps_append_of_idle hop]

/-! ## Delivery -/

/-- A delivered event that leaves the operations to be handled as they are. -/
theorem freshInv_deliver_same
    (hops : timerOps (handleEvent root s.watcher p op).timers path ++ queueOps queue path =
      timerOps s.watcher.timers path ++ queueOps s.queue path) :
    FreshInv rt matched path
      { s with watcher := handleEvent root s.watcher p op, queue := queue } := by
  have hhash := reconciledHashes_handleEvent root s.watcher p op
  have hinv := watcherInv_handleEvent hs.timers root p op
  generalize handleEvent root s.watcher p op = w at hhash hinv hops ⊢
  have hsame : SamePath path s { s with watcher := w, queue := queue } :=
    ⟨le_refl _, rfl, sameEntry_refl path s.db, rfl⟩
  refine ⟨hinv, jobsInv_of_same hpath hsame (by rw [hhash]) rfl hs.jobs,
    entryInv_of_same hpath hsame ?_ rfl hs.entry⟩
  simp only [Disk.pending, hops]

/-- A delivered event that tells of a change of the path. -/
theorem freshInv_deliver_acts (hdoc : isDocumentFile (filepathJoin root path) = true)
    (hqueue : s.queue = (path, op) :: queue) (hacts : op.acts = true) :
    FreshInv rt matched path
      { s with watcher := handleEvent root s.watcher path op, queue := queue } := by
  have hevent : handleEvent root s.watcher path op =
      scheduleIndexing s.watcher path op := if_pos hdoc
  have hbefore : s.pending path =
      (owedOps (s.running.filter (Job.busyAt path)) ++ timerOps s.watcher.timers path) ++
        op :: queueOps queue path := by
    simp [Disk.pending, hqueue, queueOps, hacts]
  have hafter : Disk.pending
        { s with watcher := handleEvent root s.watcher path op, queue := queue } path =
      (owedOps (s.running.filter (Job.busyAt path)) ++
          timerOps (stopTimer s.watcher path) path) ++ op :: queueOps queue path := by
    simp [Disk.pending, hevent, timerOps_scheduleIndexing_self hacts]
  have hhash := reconciledHashes_handleEvent root s.watcher path op
  have hinv := watcherInv_handleEvent hs.timers root path op
  generalize handleEvent root s.watcher path op = w at hhash hinv hafter ⊢
  have hsame : SamePath path s { s with watcher := w, queue := queue } :=
    ⟨le_refl _, rfl, sameEntry_refl path s.db, rfl⟩
  refine ⟨hinv, jobsInv_of_same hpath hsame (by rw [hhash]) rfl hs.jobs, ?_⟩
  · rcases hs.entry with ⟨hnone, -⟩ | ⟨last, hlast, hfile⟩
    · rw [hbefore] at hnone
      simp at hnone
    · refine .inr ⟨last, ?_, hfile⟩
      rw [hbefore, List.getLast?_append_cons] at hlast
      rw [hafter, List.getLast?_append_cons]
      exact hlast

theorem freshInv_deliver {t : Disk β} (hdoc : isDocumentFile (filepathJoin root path) = true)
    (hsafe : s.stepIsSafe rt path .deliver = true)
    (hstep : s.deliver root = some t) :
    FreshInv rt matched path t := by
  unfold Disk.deliver at hstep
  cases hqueue : s.queue with
  | nil =>
    rw [hqueue] at hstep
    cases hstep
  | cons event queue =>
    rw [hqueue] at hstep
    cases hstep
    obtain ⟨p, op⟩ := event
    by_cases hp : p = path
    · subst hp
      by_cases hacts : op.acts = true
      · exact freshInv_deliver_acts hpath hs hdoc hqueue hacts
      · have hidle : op.acts = false := by
          simpa using hacts
        have hkeep : losesChange s.watcher p op = false := by
          simpa [Disk.stepIsSafe, hqueue] using hsafe
        refine freshInv_deliver_same hpath hs ?_
        rw [handleEvent, if_pos hdoc, timerOps_scheduleIndexing_of_idle hidle hkeep,
          hqueue]
        simp [queueOps, hidle]
    · refine freshInv_deliver_same hpath hs ?_
      have htimers : timerOps (handleEvent root s.watcher p op).timers path =
          timerOps s.watcher.timers path := by
        unfold handleEvent
        split_ifs
        · exact timerOps_scheduleIndexing_of_ne hs.timers hp
        · rfl
      rw [htimers, hqueue]
      simp [queueOps, hp]

/-- A timer fires. -/
theorem freshInv_fire {t : Disk β} {k : Nat}
    (hsafe : s.stepIsSafe rt path (.fire k) = true) (hstep : s.fire k = some t) :
    FreshInv rt matched path t := by
  obtain ⟨x, hx, rfl⟩ := Option.map_eq_some_iff.mp hstep
  have hinv : WatcherInv { s.watcher with timers := s.watcher.timers.eraseIdx k } :=
    watcherInv_of_timers hs.timers rfl (fun _ _ h => h)
      (fun _ ht => mem_of_mem_eraseIdx ht)
  have hsame : SamePath path s
      { s with
        watcher := { s.watcher with timers := s.watcher.timers.eraseIdx k }
        running := s.running ++ [⟨x.relPath, x.op, .started⟩] } :=
    ⟨le_refl _, rfl, sameEntry_refl path s.db, rfl⟩
  by_cases hp : x.relPath = path
  · simp only [Disk.stepIsSafe, hx, Option.all_some, hp, beq_self_eq_true, Bool.not_true,
      Bool.false_or, Bool.and_eq_true, Bool.not_eq_true', any_eq_false] at hsafe
    obtain ⟨hfree, hfirst⟩ := hsafe
    have hnone : s.running.filter (Job.busyAt path) = [] :=
      filter_eq_nil_iff.mpr hfree
    have hbusy : (s.running ++ [(⟨x.relPath, x.op, .started⟩ : Job)]).filter
        (Job.busyAt path) = [⟨x.relPath, x.op, .started⟩] := by
      rw [filter_append, hnone]
      simp [Job.busyAt, hp]
    have hhash : HashInv rt s path := by
      rcases hs.jobs with ⟨-, hhash⟩ | ⟨j, hj, -⟩
      · exact hhash
      · rw [hnone] at hj
        cases hj
    refine ⟨hinv, .inr ⟨_, hbusy, hhash⟩, entryInv_of_same hpath hsame ?_ rfl hs.entry⟩
    have htimers : timerOps s.watcher.timers path =
        owedOps [⟨x.relPath, x.op, .started⟩] ++
          timerOps (s.watcher.timers.eraseIdx k) path := by
      by_cases hacts : x.op.acts = true
      · have hfilter := filter_eq_cons_eraseIdx
          (p := fun t : Timer => t.relPath == path && t.op.acts) hx (by simp [hp, hacts]) (by
            refine all_eq_true.mpr fun y hy => ?_
            have hy' := all_eq_true.mp hfirst y hy
            simp [hy'])
        simp only [timerOps, hfilter]
        simp [owedOps, Job.owes, hacts]
      · have hfilter := filter_eraseIdx_of_neg
          (p := fun t : Timer => t.relPath == path && t.op.acts) hx (by simp [hacts])
        simp only [timerOps, hfilter]
        simp [owedOps, hacts]
    simp only [Disk.pending, hbusy, hnone, htimers]
    simp [owedOps]
  · have hbusy : (s.running ++ [(⟨x.relPath, x.op, .started⟩ : Job)]).filter
        (Job.busyAt path) = s.running.filter (Job.busyAt path) := by
      simp [Job.busyAt, hp]
    refine ⟨hinv, jobsInv_of_same hpath hsame rfl hbusy hs.jobs,
      entryInv_of_same hpath hsame ?_ rfl hs.entry⟩
    have hfilter := filter_eraseIdx_of_neg
      (p := fun t : Timer => t.relPath == path && t.op.acts) hx (by simp [hp])
    simp [Disk.pending, hbusy, timerOps, hfilter]

end

end

end Yanta.FileWatcher
