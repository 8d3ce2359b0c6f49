import Yanta.Watcher.Delivery

/-!
# The index follows the files

The watcher keeps only the last event of a path, so a write followed by a change
of attributes within one window is never indexed. The main result says that
under the condition of `Yanta.Watcher.Changes` no change is missed: once the
events of a path are delivered and handled and the last call of the indexer
succeeded, the entry of the path matches the file.
-/

namespace Yanta.FileWatcher

open Vault Document Index Support List Function Option

variable {now : Time}

section

variable {β : Type} {rt : Runtime β} {root path : String} {matched : Prop}
variable {a : Advance} {s : Disk β} {k : Nat} {j : Job} {env : CallbackEnv}

/-! ## Moves of a callback -/

/-- What a move of a callback of `p` leaves alone: the timers, and everything
about the other paths. -/
structure MoveFrame (p : String) (w : Watcher) (db : Db) (a : Advance) : Prop where
  timers : a.watcher.timers = w.timers
  nextTimer : a.watcher.nextTimer = w.nextTimer
  debounce : ∀ q id, a.watcher.debounce q = some id → w.debounce q = some id
  hash : ∀ q, q ≠ p → a.watcher.reconciledHashes q = w.reconciledHashes q
  entry : ∀ q, q ≠ p → SameEntry q db a.db

theorem moveFrame_of_watcher {p : String} {w : Watcher} {db : Db} (hwatcher : a.watcher = w)
    (hentry : ∀ q, q ≠ p → SameEntry q db a.db) : MoveFrame p w db a where
  timers := by rw [hwatcher]
  nextTimer := by rw [hwatcher]
  debounce := by
    rw [hwatcher]
    exact fun _ _ h => h
  hash := by
    rw [hwatcher]
    exact fun _ _ => rfl
  entry := hentry

theorem moveFrame_goOn (p : String) (w : Watcher) (db : Db) (stage : Stage) :
    MoveFrame p w db (goOn w db stage) :=
  moveFrame_of_watcher rfl fun q _ => sameEntry_refl q db

section

variable (rt : Runtime β) (env : CallbackEnv) (v : Vault β) (db : Db) (w : Watcher)
  (p : String)

theorem compareHash_cases :
    (∃ hash, diskContentHash rt env.now env.readFault v p = some hash ∧
        w.reconciledHashes p = hash ∧
        compareHash rt env v db w p = goOn w db .finishing) ∨
      compareHash rt env v db w p =
        goOn w db (.changed (diskContentHash rt env.now env.readFault v p)) := by
  unfold compareHash
  cases hhash : diskContentHash rt env.now env.readFault v p with
  | none => exact .inr rfl
  | some hash =>
    by_cases hrec : isReconciled w p hash = true
    · exact .inl ⟨hash, rfl, by simpa [isReconciled] using hrec, if_pos hrec⟩
    · exact .inr (if_neg hrec)

theorem executeIndexing_frame (op : Op) (stage : Stage) :
    MoveFrame p w db (executeIndexing rt env v db w p op stage) := by
  have hsame : ∀ q, q ≠ p → SameEntry q db db := fun q _ => sameEntry_refl q db
  cases stage with
  | started =>
    rw [executeIndexing]
    split_ifs
    · rcases compareHash_cases rt env v db w p with ⟨_, -, -, h⟩ | h
      · rw [h]
        exact moveFrame_goOn p w db _
      · rw [h]
        exact moveFrame_goOn p w db _
    · exact ⟨rfl, rfl, fun _ _ h => h, fun _ hq => update_of_ne hq .., hsame⟩
    · exact moveFrame_goOn p w db _
  | changed hash =>
    rw [executeIndexing]
    cases hindex : indexDocument rt env.now env.indexFaults v db p with
    | ok db' =>
      exact moveFrame_of_watcher rfl fun _ hq => sameEntry_indexDocument hq hindex
    | error e => exact moveFrame_of_watcher rfl hsame
  | indexed hash =>
    cases hash with
    | none => exact moveFrame_of_watcher rfl hsame
    | some hash =>
      exact ⟨rfl, rfl, fun _ _ h => h, fun _ hq => update_of_ne hq .., hsame⟩
  | forgotten =>
    rw [executeIndexing]
    cases hremove : removeDocumentCompletely env.removeFaults db p with
    | ok db' =>
      exact moveFrame_of_watcher rfl fun _ hq =>
        sameEntry_removeDocumentCompletely hq hremove
    | error e => exact moveFrame_of_watcher rfl hsame
  | finishing =>
    refine ⟨rfl, rfl, fun q id h => ?_, fun _ _ => rfl, hsame⟩
    by_cases hq : q = p
    · simp [executeIndexing, hq] at h
    · simpa [executeIndexing, hq] using h

end

theorem watcherInv_afterAdvance (hs : WatcherInv s.watcher)
    (hframe : MoveFrame j.relPath s.watcher s.db a) :
    WatcherInv (s.afterAdvance k now j a).watcher := by
  refine watcherInv_of_timers hs hframe.nextTimer hframe.debounce fun t ht => ?_
  rw [Disk.afterAdvance, hframe.timers] at ht
  exact ht

section

variable (hpath : documentPath path = .ok path) (hs : FreshInv rt matched path s)
  (hk : s.running[k]? = some j)

include hpath hs hk

/-- A callback moves that is not at work for the path, neither before nor after. -/
theorem freshInv_advance_idle (hframe : MoveFrame j.relPath s.watcher s.db a)
    (hsame : SamePath path s (s.afterAdvance k now j a))
    (hhash : a.watcher.reconciledHashes path = s.watcher.reconciledHashes path)
    (hidle : j.busyAt path = false)
    (hnext : ∀ stage ∈ a.next, ({ j with stage := stage } : Job).busyAt path = false) :
    FreshInv rt matched path (s.afterAdvance k now j a) := by
  have hbusy : (s.afterAdvance k now j a).running.filter (Job.busyAt path) =
      s.running.filter (Job.busyAt path) := by
    simp only [Disk.afterAdvance, filter_append, filter_eraseIdx_of_neg hk hidle]
    cases hstage : a.next with
    | none => simp
    | some stage => simp [hnext stage hstage]
  refine ⟨watcherInv_afterAdvance hs.timers hframe,
    jobsInv_of_same hpath hsame hhash hbusy hs.jobs,
    entryInv_of_same hpath hsame ?_ rfl hs.entry⟩
  simp only [Disk.pending, hbusy]
  simp only [Disk.afterAdvance, hframe.timers]

/-- The callback of another path moves. -/
theorem freshInv_advance_other (hclock : s.clock ≤ now) (hne : j.relPath ≠ path)
    (hframe : MoveFrame j.relPath s.watcher s.db a) :
    FreshInv rt matched path (s.afterAdvance k now j a) := by
  have hsame : SamePath path s (s.afterAdvance k now j a) := by
    refine ⟨hclock, rfl, hframe.entry path hne.symm, ?_⟩
    simp only [Disk.afterAdvance]
    cases a.failed with
    | none => rfl
    | some failed => exact update_of_ne hne.symm ..
  exact freshInv_advance_idle hpath hs hk hframe hsame (hframe.hash path hne.symm)
    (by simp [Job.busyAt, hne]) (by simp [Job.busyAt, hne])

end

section

variable {stage : Stage} (hk : s.running[k]? = some j)
  (hj : s.running.filter (Job.busyAt path) = [j]) (hnext : a.next = some stage)

include hk hj hnext

/-- The busy callback of the path moves: the others of the path are finishing. -/
theorem busy_afterAdvance :
    (s.afterAdvance k now j a).running.filter (Job.busyAt path) =
      if stage = .finishing then [] else [{ j with stage := stage }] := by
  have hmem : j ∈ s.running.filter (Job.busyAt path) := by
    rw [hj]
    exact mem_singleton.mpr rfl
  have hbusy := (mem_filter.mp hmem).2
  have hrel : j.relPath = path := by
    simp only [Job.busyAt, Bool.and_eq_true, beq_iff_eq] at hbusy
    exact hbusy.1
  have hothers := (filter_eraseIdx_of_pos hk hbusy hj).2
  simp only [Disk.afterAdvance, hnext, filter_append, hothers]
  by_cases hfinish : stage = .finishing
  · simp [hfinish, Job.busyAt]
  · simp [hfinish, Job.busyAt, hrel]

theorem pending_afterAdvance (htimers : a.watcher.timers = s.watcher.timers) :
    (s.afterAdvance k now j a).pending path =
      owedOps (if stage = .finishing then [] else [{ j with stage := stage }]) ++
        (timerOps s.watcher.timers path ++ queueOps s.queue path) := by
  unfold Disk.pending
  rw [busy_afterAdvance hk hj hnext]
  simp only [Disk.afterAdvance, htimers]

end

section

variable {s : Disk β} {k : Nat} {env : CallbackEnv} {j : Job} {a : Advance} {stage : Stage}
  (hs : FreshInv rt matched path s) (hk : s.running[k]? = some j)
  (hj : s.running.filter (Job.busyAt path) = [j])

variable (rt path s k env j a stage) in
/-- What is to show of the callback at its next stage. -/
def NextInv : Prop :=
  if stage = .finishing then HashInv rt (s.afterAdvance k env.now j a) path
  else JobInv rt (s.afterAdvance k env.now j a) path { j with stage := stage }

variable (j stage) in
/-- What the callback owes at its next stage. -/
def nextOps : List Op :=
  owedOps (if stage = .finishing then [] else [{ j with stage := stage }])

theorem nextOps_eq (howes : j.owes = true) (hacts : j.op.acts = true)
    (hnext : ({ j with stage := stage } : Job).owes = true) (hstage : stage ≠ .finishing) :
    nextOps j stage = owedOps [j] := by
  rw [nextOps, if_neg hstage, owedOps_of_owes howes hacts]
  exact owedOps_of_owes hnext hacts

include hk hj

theorem jobsInv_afterAdvance
    (hnext : a.next = some stage) (hinv : NextInv rt path s k env j a stage) :
    JobsInv rt (s.afterAdvance k env.now j a) path := by
  unfold JobsInv
  rw [busy_afterAdvance hk hj hnext]
  unfold NextInv at hinv
  split_ifs at hinv ⊢ with hfinish
  · exact .inl ⟨rfl, hinv⟩
  · exact .inr ⟨_, rfl, hinv⟩

include hs

/-- A move after which the callback still owes what it owed before. -/
theorem freshInv_advance_same
    (hpath : documentPath path = .ok path) (hclock : s.clock ≤ env.now)
    (hframe : MoveFrame j.relPath s.watcher s.db a) (hnext : a.next = some stage)
    (hdb : a.db = s.db) (hfailed : a.failed = none) (howed : nextOps j stage = owedOps [j])
    (hinv : NextInv rt path s k env j a stage) :
    FreshInv rt matched path (s.afterAdvance k env.now j a) := by
  have hsame : SamePath path s (s.afterAdvance k env.now j a) := by
    refine ⟨hclock, rfl, ?_, ?_⟩
    · simp only [Disk.afterAdvance, hdb]
      exact sameEntry_refl path s.db
    · simp [Disk.afterAdvance, hfailed]
  refine ⟨watcherInv_afterAdvance hs.timers hframe, jobsInv_afterAdvance hk hj hnext hinv,
    entryInv_of_same hpath hsame ?_ rfl hs.entry⟩
  rw [pending_afterAdvance hk hj hnext hframe.timers, ← nextOps, howed, Disk.pending, hj]

/-- A move with which the callback has had its effect. -/
theorem freshInv_advance_done
    (hframe : MoveFrame j.relPath s.watcher s.db a) (hnext : a.next = some stage)
    (howed : nextOps j stage = []) (howes : j.owes = true) (hacts : j.op.acts = true)
    (hinv : NextInv rt path s k env j a stage)
    (hdone : (s.vault.lookup path).isSome = j.op.stores →
      (s.afterAdvance k env.now j a).failed path = true ∨
        (s.afterAdvance k env.now j a).Matches rt path) :
    FreshInv rt matched path (s.afterAdvance k env.now j a) := by
  have hbefore : s.pending path =
      owedOps [j] ++ (timerOps s.watcher.timers path ++ queueOps s.queue path) := by
    rw [Disk.pending, hj]
  have hafter : (s.afterAdvance k env.now j a).pending path =
      timerOps s.watcher.timers path ++ queueOps s.queue path := by
    rw [pending_afterAdvance hk hj hnext hframe.timers, ← nextOps, howed, nil_append]
  exact ⟨watcherInv_afterAdvance hs.timers hframe, jobsInv_afterAdvance hk hj hnext hinv,
    entryInv_done hbefore hafter howes hacts rfl hdone hs.entry⟩

end

/-! ## Callbacks at the path -/

theorem failed_callIndexer {ε : Type} {stage : Stage} {e : ε} :
    (s.afterAdvance k now j (callIndexer s.watcher s.db stage (.error e))).failed j.relPath =
      true := by
  simp [Disk.afterAdvance, callIndexer]

section

variable (hs : FreshInv rt matched j.relPath s) (hk : s.running[k]? = some j)

include hs hk

/-- The callback at work is the only one, with the invariant of its stage. -/
theorem busy_at {stage : Stage} (hstage : j.stage = stage) (hbusy : stage ≠ .finishing) :
    s.running.filter (Job.busyAt j.relPath) = [j] ∧
      JobInv rt s j.relPath { j with stage := stage } := by
  have hmem : j ∈ s.running.filter (Job.busyAt j.relPath) :=
    mem_filter.mpr ⟨mem_of_getElem? hk, by simp [Job.busyAt, hstage, hbusy]⟩
  rcases hs.jobs with ⟨hnone, -⟩ | ⟨j', hj', hinv⟩
  · rw [hnone] at hmem
    cases hmem
  · have hat := mem_filter.mp hmem
    obtain ⟨rfl, -⟩ := filter_eraseIdx_of_pos hk hat.2 hj'
    rw [← hstage]
    exact ⟨hj', hinv⟩

/-- The callback compares the hash of the file with the recorded one. -/
theorem freshInv_compareHash (hrt : DistinctHashes rt)
    (hpath : documentPath j.relPath = .ok j.relPath) (hclock : s.clock ≤ env.now)
    (hstage : j.stage = .started) (hstores : j.op.stores = true)
    (hfault : env.readFault = none) :
    FreshInv rt matched j.relPath (s.afterAdvance k env.now j
      (compareHash rt env s.vault s.db s.watcher j.relPath)) := by
  obtain ⟨hj, hhash⟩ := busy_at hs hk hstage (by simp)
  have howes : j.owes = true := by
    simp [Job.owes, hstage]
  have hacts : j.op.acts = true := by
    simp [Op.acts, hstores]
  rcases compareHash_cases rt env s.vault s.db s.watcher j.relPath with
    ⟨hash, hdisk, hrec, heq⟩ | heq
  · -- The recorded hash is the file's, so its document is in the index already.
    rw [heq]
    refine freshInv_advance_done hs hk hj (moveFrame_goOn _ _ _ _) rfl rfl howes hacts
      hhash ?_
    intro hfile
    rw [hstores] at hfile
    obtain ⟨d, hread, hd⟩ := diskContentHash_eq_some.mp hdisk
    rw [hfault] at hread
    have hne : s.watcher.reconciledHashes j.relPath ≠ "" := by
      rw [hrec, ← hd]
      exact hrt.nonempty d (decoded_of_readFile hread)
    rcases hhash hne with hfailed | ⟨d', hdecoded, hindexed, hd'⟩
    · exact .inl hfailed
    · right
      have hsame : d' = d :=
        hrt.injective d' d hdecoded (decoded_of_readFile hread) (by rw [hd', hrec, hd])
      rw [hsame] at hindexed
      exact (if_pos hfile).mpr ⟨d, hread, hindexed⟩
  · rw [heq]
    refine freshInv_advance_same hs hk hj hpath hclock (moveFrame_goOn _ _ _ _) rfl rfl rfl
      (nextOps_eq howes hacts rfl (by simp)) ⟨hstores, hhash, fun hash hdisk => ?_⟩
    obtain ⟨d, hread, hd⟩ := diskContentHash_eq_some.mp hdisk
    rw [hfault] at hread
    exact ⟨d, hread, hd⟩

/-- The callback indexes the file. -/
theorem freshInv_index {hash : Option String} (hclock : s.clock ≤ env.now)
    (hstage : j.stage = .changed hash) (hsafe : jobIsSafe rt s env j = true) :
    FreshInv rt matched j.relPath (s.afterAdvance k env.now j
      (callIndexer s.watcher s.db (.indexed hash)
        (indexDocument rt env.now env.indexFaults s.vault s.db j.relPath))) := by
  obtain ⟨hj, hstores, -, hread⟩ := busy_at hs hk hstage (by simp)
  have howes : j.owes = true := by
    simp [Job.owes, hstage]
  have hacts : j.op.acts = true := by
    simp [Op.acts, hstores]
  have howed : nextOps j (.indexed hash) = [] := owedOps_of_not (.inl rfl)
  have hframe := executeIndexing_frame rt env s.vault s.db s.watcher j.relPath j.op
    (.changed hash)
  simp only [jobIsSafe, hstage, Bool.and_eq_true, Bool.not_eq_true', Bool.or_eq_true] at hsafe
  obtain ⟨harchived, hboth⟩ := hsafe
  rw [executeIndexing] at hframe
  cases hindex : indexDocument rt env.now env.indexFaults s.vault s.db j.relPath with
  | error e =>
    rw [hindex] at hframe
    exact freshInv_advance_done hs hk hj hframe rfl howed howes hacts
      (.inl failed_callIndexer) fun _ => .inl failed_callIndexer
  | ok db =>
    rw [hindex] at hframe
    obtain ⟨d, hd, hindexed⟩ := indexed_of_indexDocument harchived hindex
    have hsome : ∃ x, hash = some x ∧ computeFileHash rt d = x := by
      rcases hboth with hsome | hnot
      · obtain ⟨x, hx⟩ := isSome_iff_exists.mp hsome
        obtain ⟨d', hd', hdx⟩ := hread x hx
        have heq := readFile_later hd' hclock
        rw [hd] at heq
        cases heq
        exact ⟨x, hx, hdx⟩
      · obtain ⟨_, _, _, -, -, -, -, hfault, -⟩ := indexDocument_eq_ok.mp hindex
        rw [hfault, hd] at hnot
        cases hnot
    obtain ⟨x, rfl, hx⟩ := hsome
    refine freshInv_advance_done hs hk hj hframe rfl howed howes hacts ?_ ?_
    · exact .inr ⟨x, rfl, d, decoded_of_readFile hd, hindexed, hx⟩
    · intro hfile
      rw [hstores] at hfile
      exact .inr ((if_pos hfile).mpr ⟨d, hd, hindexed⟩)

/-- The callback records the hash it has read. -/
theorem freshInv_report {hash : Option String}
    (hpath : documentPath j.relPath = .ok j.relPath) (hclock : s.clock ≤ env.now)
    (hstage : j.stage = .indexed hash) :
    FreshInv rt matched j.relPath (s.afterAdvance k env.now j
      (report s.db s.watcher j.relPath hash)) := by
  obtain ⟨hj, hinv⟩ := busy_at hs hk hstage (by simp)
  have hframe := executeIndexing_frame rt env s.vault s.db s.watcher j.relPath j.op
    (.indexed hash)
  have howed : nextOps j .finishing = owedOps [j] := by
    rw [owedOps_of_not (.inl (by simp [Job.owes, hstage]))]
    rfl
  cases hash with
  | none =>
    refine freshInv_advance_same hs hk hj hpath hclock hframe rfl rfl rfl howed ?_
    intro _
    rcases hinv with hfailed | ⟨_, hsome, -⟩
    · exact .inl hfailed
    · cases hsome
  | some x =>
    refine freshInv_advance_same hs hk hj hpath hclock hframe rfl rfl rfl howed ?_
    intro _
    rcases hinv with hfailed | ⟨y, hy, hindexed⟩
    · exact .inl hfailed
    · cases hy
      right
      have hnow : (s.afterAdvance k env.now j (report s.db s.watcher j.relPath
          (some x))).watcher.reconciledHashes j.relPath = x := by
        simp [Disk.afterAdvance, report]
      rw [hnow]
      exact hindexed

/-- The callback removes the document from the index. -/
theorem freshInv_remove (hpath : documentPath j.relPath = .ok j.relPath)
    (hstage : j.stage = .forgotten) (hplain : plainFaults env.removeFaults = true) :
    FreshInv rt matched j.relPath (s.afterAdvance k env.now j
      (callIndexer s.watcher s.db .finishing
        (removeDocumentCompletely env.removeFaults s.db j.relPath))) := by
  obtain ⟨hj, hremoves, hforgotten⟩ := busy_at hs hk hstage (by simp)
  have howes : j.owes = true := by
    simp [Job.owes, hstage]
  have hacts : j.op.acts = true := by
    simp [Op.acts, hremoves]
  have hframe := executeIndexing_frame rt env s.vault s.db s.watcher j.relPath j.op
    .forgotten
  rw [executeIndexing] at hframe
  cases hremove : removeDocumentCompletely env.removeFaults s.db j.relPath with
  | error e =>
    rw [hremove] at hframe
    exact freshInv_advance_done hs hk hj hframe rfl rfl howes hacts
      (fun hne => absurd hforgotten hne) fun _ => .inl failed_callIndexer
  | ok db =>
    rw [hremove] at hframe
    refine freshInv_advance_done hs hk hj hframe rfl rfl howes hacts
      (fun hne => absurd hforgotten hne) ?_
    intro hfile
    simp only [Op.removes, Bool.and_eq_true, Bool.not_eq_true'] at hremoves
    rw [hremoves.1] at hfile
    exact .inr ((if_neg (Bool.eq_false_iff.mp hfile)).mpr
      (absent_of_removeDocumentCompletely (ne_empty_of_documentPath hpath) hplain hremove))

end

/-! ## Runs -/

theorem freshInv_advance {t : Disk β} (hrt : DistinctHashes rt)
    (hpath : documentPath path = .ok path) (hs : FreshInv rt matched path s)
    (hsafe : s.stepIsSafe rt path (.advance k env) = true) (hstep : s.advance rt k env = some t) :
    FreshInv rt matched path t := by
  unfold Disk.advance at hstep
  split_ifs at hstep with hnow
  have hclock : s.clock ≤ env.now := not_lt.mp hnow
  obtain ⟨j, hk, rfl⟩ := map_eq_some_iff.mp hstep
  have hframe := executeIndexing_frame rt env s.vault s.db s.watcher j.relPath j.op j.stage
  by_cases hrel : j.relPath = path
  · subst hrel
    have hjob : jobIsSafe rt s env j = true := by
      simpa [Disk.stepIsSafe, hk] using hsafe
    cases hstage : j.stage with
    | started =>
      rw [hstage] at hframe
      rw [executeIndexing] at hframe ⊢
      simp only [jobIsSafe, hstage] at hjob
      obtain ⟨hj, hinv⟩ := busy_at hs hk hstage (by simp)
      have howes : j.owes = true := by
        simp [Job.owes, hstage]
      by_cases hstores : j.op.stores = true
      · rw [if_pos hstores]
        have hfault : env.readFault = none := by
          simpa [hstores] using hjob
        exact freshInv_compareHash hs hk hrt hpath hclock hstage hstores hfault
      · rw [if_neg hstores] at hframe ⊢
        by_cases hremoves : j.op.removes = true
        · rw [if_pos hremoves] at hframe ⊢
          have hacts : j.op.acts = true := by
            simp [Op.acts, hremoves]
          refine freshInv_advance_same hs hk hj hpath hclock hframe rfl rfl rfl
            (nextOps_eq howes hacts rfl (by simp)) ⟨hremoves, ?_⟩
          simp [Disk.afterAdvance, goOn, forgetReconciled]
        · rw [if_neg hremoves] at hframe ⊢
          have hidle : j.op.acts = false := by
            simp [Op.acts, hstores, hremoves]
          have howed : nextOps j .finishing = owedOps [j] := by
            rw [owedOps_of_not (.inr hidle)]
            rfl
          exact freshInv_advance_same hs hk hj hpath hclock hframe rfl rfl rfl howed hinv
    | changed hash =>
      rw [executeIndexing]
      exact freshInv_index hs hk hclock hstage hjob
    | indexed hash =>
      exact freshInv_report hs hk hpath hclock hstage
    | forgotten =>
      simp only [jobIsSafe, hstage] at hjob
      exact freshInv_remove hs hk hpath hstage hjob
    | finishing =>
      rw [hstage] at hframe
      exact freshInv_advance_idle hpath hs hk hframe
        ⟨hclock, rfl, sameEntry_refl j.relPath s.db, rfl⟩ rfl (by simp [Job.busyAt, hstage])
        (by simp [executeIndexing])
  · exact freshInv_advance_other hpath hs hk hclock hrel hframe

theorem freshInv_step {t : Disk β} {e : Change β} (hrt : DistinctHashes rt)
    (hpath : documentPath path = .ok path)
    (hdoc : isDocumentFile (filepathJoin root path) = true) (hs : FreshInv rt matched path s)
    (hsafe : s.stepIsSafe rt path e = true) (hstep : s.step rt root e = some t) :
    FreshInv rt matched path t := by
  cases e with
  | file p file op =>
    rw [Disk.step] at hstep
    split_ifs at hstep with hop
    cases hstep
    by_cases hp : p = path
    · subst hp
      have hidle : s.running.any (Job.comparedAt p) = false := by
        simpa [Disk.stepIsSafe] using hsafe
      exact freshInv_file_self hs hop hidle
    · exact freshInv_file_other hpath hs hp
  | attributes p op =>
    rw [Disk.step] at hstep
    split_ifs at hstep with hop
    cases hstep
    exact freshInv_attributes hpath hs (by simpa using hop)
  | deliver => exact freshInv_deliver hpath hs hdoc hsafe hstep
  | fire k => exact freshInv_fire hpath hs hsafe hstep
  | advance k env => exact freshInv_advance hrt hpath hs hsafe hstep

theorem pending_of_quiet (h : s.Quiet path) : s.pending path = [] := by
  obtain ⟨hqueue, htimers, hrunning⟩ := h
  have hjobs : s.running.filter (Job.busyAt path) = [] := by
    refine filter_eq_nil_iff.mpr fun j hj => ?_
    simp [Job.busyAt, hrunning j hj]
  have hops : s.watcher.timers.filter (fun t => t.relPath == path && t.op.acts) = [] := by
    refine filter_eq_nil_iff.mpr fun t ht => ?_
    simp [htimers t ht]
  have hevents : s.queue.filter (fun e => e.1 == path && e.2.acts) = [] := by
    refine filter_eq_nil_iff.mpr fun e he => ?_
    simp [hqueue e he]
  simp [Disk.pending, hjobs, owedOps, timerOps, hops, queueOps, hevents]

/-- In every run whose steps are safe for a document path of the vault that the
watcher does not ignore: once its events are delivered and handled and the last
call of the indexer for it succeeded, its entry matches the file, provided that
the file was changed or the entry matched when the watcher was started. -/
theorem index_follows_file
    (rt : Runtime β) (hrt : DistinctHashes rt) (root path : String)
    (hpath : documentPath path = .ok path)
    (hdoc : isDocumentFile (filepathJoin root path) = true)
    (clock : Time) (v : Vault β) (db : Db) (es : List (Change β)) (s : Disk β)
    (hsafe : Guarded (Disk.step rt root) (fun s e => s.stepIsSafe rt path e = true)
      (Disk.begin clock v db) es)
    (hrun : run (Disk.step rt root) (Disk.begin clock v db) es = some s)
    (hseen : (Disk.begin clock v db).Matches rt path ∨ s.changed path = true)
    (hquiet : s.Quiet path) (hok : s.failed path = false) : s.Matches rt path := by
  have hinv : FreshInv rt ((Disk.begin clock v db).Matches rt path) path s :=
    run_invariant_of_guarded
      (fun _ _ _ hs hguard hstep => freshInv_step hrt hpath hdoc hs hguard hstep)
      (freshInv_begin clock v db) hsafe hrun
  rcases hinv.entry with ⟨-, hmatch⟩ | ⟨op, hlast, -⟩
  · rcases hmatch hseen with hfailed | hmatches
    · rw [hok] at hfailed
      cases hfailed
    · exact hmatches
  · rw [pending_of_quiet hquiet] at hlast
    cases hlast

end

/-! ## Two runs -/

namespace SampleChanges

def document (title : String) : DocumentFile where
  docMeta :=
    { project := "@ab", title := title, tags := [], aliases := [], created := 0
      updated := 0 }
  kind := documentKindDocument
  scene := none
  blocks := []
  assets := []

/-- A runtime with two files. -/
def twoFiles : Runtime Bool where
  lower := id
  size _ := 0
  marshalDocument _ := .error ""
  unmarshalDocument b := .ok (document (if b then "A" else "B"))
  hashDocument d := d.docMeta.title
  rawSize _ := 0
  parseURL _ := none
  formatRFC3339 _ := ""
  formatRFC3339Nano _ := ""
  parsesRFC3339Nano _ := true

theorem distinctHashes : DistinctHashes twoFiles := by
  have htitle : ∀ d, Decoded twoFiles d → d = document "A" ∨ d = document "B" := by
    rintro d ⟨b, stored, hstored, rfl⟩
    cases hstored
    cases b with
    | true => exact .inl rfl
    | false => exact .inr rfl
  refine ⟨?_, ?_⟩
  · intro d d' hd hd' hhash
    rcases htitle d hd with rfl | rfl <;> rcases htitle d' hd' with rfl | rfl
    · rfl
    · exact absurd hhash (by decide)
    · exact absurd hhash (by decide)
    · rfl
  · intro d hd
    rcases htitle d hd with rfl | rfl <;> decide

def path : String := "projects/@ab/a.json"

def db : Db :=
  { Db.empty with
    project :=
      [{ id := "1", projectAlias := "@ab", name := "", startDate := ""
         endDate := "", deleted := false }] }

def env : CallbackEnv where
  now := 0
  readFault := none
  indexFaults := .none
  removeFaults _ := none

def write (b : Bool) : Change Bool :=
  .file path (some ⟨b, 0⟩) ⟨false, true, false, false, false⟩

def chmod : Change Bool := .attributes path ⟨false, false, false, false, true⟩

/-- The timer fires and the callback runs to its end. -/
def handled (moves : Nat) : List (Change Bool) :=
  .fire 0 :: List.replicate moves (.advance 0 env)

/-- A file is written twice; each write has a window of its own. -/
def followed : List (Change Bool) :=
  [write true, .deliver] ++ handled 4 ++ [write false, .deliver] ++ handled 4

/-- The second write and a change of attributes share a window. -/
def missed : List (Change Bool) :=
  [write true, .deliver] ++ handled 4 ++ [write false, chmod, .deliver, .deliver] ++
    handled 2

def final (es : List (Change Bool)) : Option (Disk Bool) :=
  run (Disk.step twoFiles "/v") (Disk.begin 0 ∅ db) es

/-- Whether nothing is left to do, whether the last call failed, whether the file
was changed, its title and the title in the index. -/
def summary (s : Disk Bool) : Bool × Bool × Bool × Option String × Option String :=
  (s.queue.isEmpty && s.watcher.timers.isEmpty && s.running.isEmpty, s.failed path,
    s.changed path,
    ((readFile twoFiles s.clock none s.vault path).toOption.map fun d => d.docMeta.title),
    (s.db.doc.lookup path).map DocRow.title)

theorem quiet_of_summary {s : Disk Bool} {x : Bool × Bool × Option String × Option String}
    (h : summary s = (true, x)) : s.Quiet path := by
  simp only [summary, Prod.mk.injEq, Bool.and_eq_true, List.isEmpty_iff] at h
  obtain ⟨⟨⟨hqueue, htimers⟩, hrunning⟩, -⟩ := h
  refine ⟨?_, ?_, ?_⟩
  · simp [hqueue]
  · simp [htimers]
  · simp [hrunning]

end SampleChanges

open SampleChanges

theorem index_follows_file_sample :
    ∃ s, final followed = some s ∧
      s.changed path = true ∧ s.Quiet path ∧
      s.failed path = false ∧
      s.Matches twoFiles path := by
  have hsummary : (final followed).map
      summary = some (true, false, true, some "B", some "B") := by
    decide +kernel
  obtain ⟨s, hs, hread⟩ := map_eq_some_iff.mp hsummary
  have hquiet := quiet_of_summary hread
  simp only [summary, Prod.mk.injEq] at hread
  obtain ⟨-, hfailed, hchanged, -, -⟩ := hread
  exact ⟨s, hs, hchanged, hquiet, hfailed,
    index_follows_file twoFiles distinctHashes "/v"
      path (by decide +kernel) (by decide +kernel) 0 ∅ db
      followed s (by decide +kernel) hs (.inr hchanged) hquiet hfailed⟩

/-- The file is written and its attributes are changed before the timer fires:
the callback sees the last event only and does nothing. -/
theorem attribute_change_hides_write :
    ∃ s, final missed = some s ∧
      s.changed path = true ∧ s.Quiet path ∧
      s.failed path = false ∧
      ¬ s.Matches twoFiles path := by
  have hsummary : (final missed).map
      summary = some (true, false, true, some "B", some "A") := by
    decide +kernel
  obtain ⟨s, hs, hread⟩ := map_eq_some_iff.mp hsummary
  have hquiet := quiet_of_summary hread
  simp only [summary, Prod.mk.injEq] at hread
  obtain ⟨-, hfailed, hchanged, htitle, hrow⟩ := hread
  refine ⟨s, hs, hchanged, hquiet, hfailed, fun hmatches => ?_⟩
  obtain ⟨row, hlookup, hrowTitle⟩ := map_eq_some_iff.mp hrow
  unfold Disk.Matches at hmatches
  split_ifs at hmatches with hfile
  · obtain ⟨d, hd, hindexed⟩ := hmatches
    obtain ⟨file, hdoc⟩ := hindexed.row
    rw [hd] at htitle
    rw [hlookup] at hdoc
    cases hdoc
    have hB : d.docMeta.title = "B" := by
      simpa [Except.toOption] using htitle
    have hA : d.docMeta.title = "A" := hrowTitle
    rw [hB] at hA
    exact absurd hA (by decide)
  · rw [hmatches.row] at hlookup
    cases hlookup

end Yanta.FileWatcher
