import Yanta.Watcher.Changes

/-!
# What the watcher still has to handle

The invariant that connects the index with the files. It follows the events of
a path that still have to be handled, in order: those of the running callback, of
the armed timers and of the queue. As long as one of them tells of a change, the
last of these tells whether the file is there now; otherwise the entry of the
path matches the file.
-/

namespace Yanta.FileWatcher

open Vault Document List Function Nat

variable {op : Op} {j : Job}

/-! ## Lists without one element -/

section

variable {α : Type} {p : α → Bool} {l : List α} {k : Nat} {a : α}

theorem eq_take_cons_drop (hk : l[k]? = some a) :
    l = l.take k ++ a :: l.drop (k + 1) := by
  obtain ⟨hlt, rfl⟩ := List.getElem?_eq_some_iff.mp hk
  rw [← drop_eq_getElem_cons hlt, take_append_drop]

theorem filter_eraseIdx_of_neg (hk : l[k]? = some a) (ha : p a = false) :
    (l.eraseIdx k).filter p = l.filter p := by
  have hsplit := congrArg (List.filter p) (eq_take_cons_drop hk)
  rw [hsplit, eraseIdx_eq_take_drop_succ, filter_append, filter_append,
    filter_cons_of_neg (by simp [ha])]

/-- The element that is removed is the only one of its kind. -/
theorem filter_eraseIdx_of_pos {b : α} (hk : l[k]? = some a) (ha : p a = true)
    (h : l.filter p = [b]) : b = a ∧ (l.eraseIdx k).filter p = [] := by
  have hsplit := congrArg (List.filter p) (eq_take_cons_drop hk)
  rw [h, filter_append, filter_cons_of_pos ha] at hsplit
  rw [eraseIdx_eq_take_drop_succ, filter_append]
  cases hleft : (l.take k).filter p with
  | nil =>
    rw [hleft, nil_append, List.cons.injEq] at hsplit
    exact ⟨hsplit.1, by rw [nil_append, ← hsplit.2]⟩
  | cons x xs =>
    rw [hleft] at hsplit
    simp at hsplit

/-- The element that is removed is the first one of its kind. -/
theorem filter_eq_cons_eraseIdx (hk : l[k]? = some a) (ha : p a = true)
    (h : (l.take k).all (fun x => !p x) = true) :
    l.filter p = a :: (l.eraseIdx k).filter p := by
  have hleft : (l.take k).filter p = [] := by
    refine filter_eq_nil_iff.mpr fun x hx => ?_
    simpa using all_eq_true.mp h x hx
  have hsplit := congrArg (List.filter p) (eq_take_cons_drop hk)
  rw [hsplit, eraseIdx_eq_take_drop_succ, filter_append, filter_append,
    filter_cons_of_pos ha, hleft, nil_append, nil_append]

end

/-! ## Timers -/

/-- The map of timers points to timers of the right path. -/
structure WatcherInv (w : Watcher) : Prop where
  mapped : ∀ q id, w.debounce q = some id → id < w.nextTimer
  ids : ∀ t ∈ w.timers, t.id < w.nextTimer
  owner : ∀ t ∈ w.timers, ∀ q, w.debounce q = some t.id → t.relPath = q

theorem watcherInv_newWatcher : WatcherInv newWatcher := by
  refine ⟨?_, ?_, ?_⟩
  · intro q id h
    cases h
  · intro t h
    cases h
  · intro t h
    cases h

variable {w : Watcher}

theorem watcherInv_of_timers {w' : Watcher} (h : WatcherInv w)
    (hnext : w'.nextTimer = w.nextTimer)
    (hmap : ∀ q id, w'.debounce q = some id → w.debounce q = some id)
    (htimers : ∀ t ∈ w'.timers, t ∈ w.timers) : WatcherInv w' where
  mapped q id hid := by
    rw [hnext]
    exact h.mapped q id (hmap q id hid)
  ids t ht := by
    rw [hnext]
    exact h.ids t (htimers t ht)
  owner t ht q hq := h.owner t (htimers t ht) q (hmap q t.id hq)

variable {path : String}

theorem mem_stopTimer {t : Timer} :
    t ∈ stopTimer w path ↔ t ∈ w.timers ∧ w.debounce path ≠ some t.id := by
  simp [stopTimer_eq]

theorem watcherInv_scheduleIndexing (h : WatcherInv w) (path : String) (op : Op) :
    WatcherInv (scheduleIndexing w path op) := by
  refine ⟨?_, ?_, ?_⟩
  · intro q id hid
    simp only [scheduleIndexing] at hid ⊢
    by_cases hq : q = path
    · subst hq
      rw [update_self] at hid
      cases hid
      exact lt_succ_self _
    · rw [update_of_ne hq] at hid
      exact lt_succ_of_lt (h.mapped q id hid)
  · intro t ht
    rcases mem_append.mp ht with ht | ht
    · exact lt_succ_of_lt (h.ids t (mem_stopTimer.mp ht).1)
    · rw [mem_singleton.mp ht]
      exact lt_succ_self _
  · intro t ht q hq
    simp only [scheduleIndexing] at hq
    rcases mem_append.mp ht with ht | ht
    · have hold := (mem_stopTimer.mp ht).1
      have hlt := h.ids t hold
      by_cases hqp : q = path
      · rw [hqp, update_self, Option.some.injEq] at hq
        omega
      · rw [update_of_ne hqp] at hq
        exact h.owner t hold q hq
    · rw [mem_singleton.mp ht] at hq ⊢
      by_contra hne
      rw [update_of_ne (Ne.symm hne)] at hq
      exact absurd (h.mapped q _ hq) (lt_irrefl _)

theorem watcherInv_handleEvent (h : WatcherInv w) (root path : String) (op : Op) :
    WatcherInv (handleEvent root w path op) := by
  unfold handleEvent
  split_ifs
  · exact watcherInv_scheduleIndexing h path op
  · exact h

/-! ## Events that still have to be handled -/

/-- The callback has not had its effect yet. -/
def Job.owes (j : Job) : Bool :=
  match j.stage with
  | .started | .changed _ | .forgotten => true
  | _ => false

def owedOps (jobs : List Job) : List Op :=
  (jobs.filter fun j => j.owes && j.op.acts).map Job.op

theorem owedOps_of_owes (howes : j.owes = true) (hacts : j.op.acts = true) :
    owedOps [j] = [j.op] := by
  simp [owedOps, howes, hacts]

theorem owedOps_of_not (h : j.owes = false ∨ j.op.acts = false) : owedOps [j] = [] := by
  rcases h with h | h <;> simp [owedOps, h]

def timerOps (timers : List Timer) (path : String) : List Op :=
  (timers.filter fun t => t.relPath == path && t.op.acts).map Timer.op

def queueOps (queue : List (String × Op)) (path : String) : List Op :=
  (queue.filter fun e => e.1 == path && e.2.acts).map Prod.snd

/-- The operations on a path that the watcher has to act on, in order. -/
def Disk.pending {β : Type} (s : Disk β) (path : String) : List Op :=
  owedOps (s.running.filter (Job.busyAt path)) ++
    (timerOps s.watcher.timers path ++ queueOps s.queue path)

variable {queue : List (String × Op)}

theorem queueOps_append_of_ne {p : String} (h : p ≠ path) :
    queueOps (queue ++ [(p, op)]) path = queueOps queue path := by
  simp [queueOps, h]

theorem queueOps_append_of_idle {p : String} (h : op.acts = false) :
    queueOps (queue ++ [(p, op)]) path = queueOps queue path := by
  simp [queueOps, h]

theorem queueOps_append_self (h : op.acts = true) :
    queueOps (queue ++ [(path, op)]) path = queueOps queue path ++ [op] := by
  simp [queueOps, h]

/-- What is scheduled if the timer that is stopped tells of no change of the path. -/
theorem timerOps_scheduleIndexing {p : String}
    (hstop : ∀ t ∈ w.timers, w.debounce p = some t.id →
      (t.relPath == path && t.op.acts) = false) :
    timerOps (scheduleIndexing w p op).timers path =
      timerOps w.timers path ++ timerOps [⟨w.nextTimer, p, op⟩] path := by
  have hkept : (stopTimer w p).filter (fun t => t.relPath == path && t.op.acts) =
      w.timers.filter fun t => t.relPath == path && t.op.acts := by
    rw [stopTimer_eq, filter_filter]
    refine filter_congr fun t ht => ?_
    by_cases hid : w.debounce p = some t.id
    · simp [hstop t ht hid]
    · simp [hid]
  simp [timerOps, scheduleIndexing, hkept]

/-- An event of another path stops no timer of this one. -/
theorem timerOps_scheduleIndexing_of_ne {p : String} (hw : WatcherInv w) (hne : p ≠ path) :
    timerOps (scheduleIndexing w p op).timers path = timerOps w.timers path := by
  rw [timerOps_scheduleIndexing]
  · simp [timerOps, hne]
  · intro t ht hid
    simp [hw.owner t ht p hid, hne]

/-- An event of the path that tells of no change, and stops no timer that does. -/
theorem timerOps_scheduleIndexing_of_idle (hidle : op.acts = false)
    (hkeep : losesChange w path op = false) :
    timerOps (scheduleIndexing w path op).timers path = timerOps w.timers path := by
  rw [timerOps_scheduleIndexing]
  · simp [timerOps, hidle]
  · intro t ht hid
    simp only [losesChange, hidle, Bool.not_false, Bool.true_and, any_eq_false] at hkeep
    have hacts : t.op.acts = false := by simpa [hid] using hkeep t ht
    rw [hacts, Bool.and_false]

/-- An event of the path that tells of a change comes last. -/
theorem timerOps_scheduleIndexing_self (hacts : op.acts = true) :
    timerOps (scheduleIndexing w path op).timers path =
      timerOps (stopTimer w path) path ++ [op] := by
  simp [timerOps, scheduleIndexing, hacts]

/-! ## The invariant -/

section

variable {β : Type} (rt : Runtime β)
variable {s t : Disk β}

/-- Some file holds the document. -/
def Decoded (d : DocumentFile) : Prop :=
  ∃ data stored, rt.unmarshalDocument data = .ok stored ∧ stored.normalize rt = d

/-- Documents of files have different hashes, and none has the empty one. -/
structure DistinctHashes : Prop where
  injective : ∀ d d', Decoded rt d → Decoded rt d' →
    computeFileHash rt d = computeFileHash rt d' → d = d'
  nonempty : ∀ d, Decoded rt d → computeFileHash rt d ≠ ""

/-- The document with this hash is in the index. -/
def IndexedHash (s : Disk β) (path hash : String) : Prop :=
  ∃ d, Decoded rt d ∧ Indexed rt s.db path d ∧ computeFileHash rt d = hash

/-- A recorded hash is that of the document in the index, unless the last call
of the indexer failed. -/
def HashInv (s : Disk β) (path : String) : Prop :=
  s.watcher.reconciledHashes path ≠ "" → s.failed path = true ∨
    IndexedHash rt s path (s.watcher.reconciledHashes path)

/-- What the stage of the running callback of the path says. -/
def JobInv (s : Disk β) (path : String) (j : Job) : Prop :=
  match j.stage with
  | .started | .finishing => HashInv rt s path
  | .changed hash => j.op.stores = true ∧ HashInv rt s path ∧
      ∀ h, hash = some h → ∃ d, readFile rt s.clock none s.vault path = .ok d ∧
        computeFileHash rt d = h
  | .indexed hash => s.failed path = true ∨
      ∃ h, hash = some h ∧ IndexedHash rt s path h
  | .forgotten => j.op.removes = true ∧ s.watcher.reconciledHashes path = ""

/-- At most one callback of the path is running. -/
def JobsInv (s : Disk β) (path : String) : Prop :=
  s.running.filter (Job.busyAt path) = [] ∧ HashInv rt s path ∨
    ∃ j, s.running.filter (Job.busyAt path) = [j] ∧ JobInv rt s path j

/-- The last change that is still to be handled tells whether the file is there;
if there is none, the entry matches the file. `matched` says that it did so when
the watcher was started. -/
def EntryInv (matched : Prop) (s : Disk β) (path : String) : Prop :=
  s.pending path = [] ∧ (matched ∨ s.changed path = true →
      s.failed path = true ∨ s.Matches rt path) ∨
    ∃ op, (s.pending path).getLast? = some op ∧
      (s.vault.lookup path).isSome = op.stores

structure FreshInv (matched : Prop) (path : String) (s : Disk β) : Prop where
  timers : WatcherInv s.watcher
  jobs : JobsInv rt s path
  entry : EntryInv rt matched s path

variable {rt}

theorem decoded_of_readFile {now : Time} {fault : Option String} {v : Vault β}
    {d : DocumentFile} (h : readFile rt now fault v path = .ok d) : Decoded rt d := by
  obtain ⟨_, file, -, -, -, -, hjson⟩ := readFile_eq_ok.mp h
  obtain ⟨stored, hstored, hd, -⟩ := fromJSON_eq_ok.mp hjson
  exact ⟨file.data, stored, hstored, hd⟩

/-- What happens to other paths, and the passage of time, leave the file and the
entry of this path alone. -/
structure SamePath (path : String) (s t : Disk β) : Prop where
  clock : s.clock ≤ t.clock
  file : t.vault.lookup path = s.vault.lookup path
  entry : SameEntry path s.db t.db
  failed : t.failed path = s.failed path

theorem readFile_of_same {d : DocumentFile} (hpath : documentPath path = .ok path)
    (hclock : s.clock ≤ t.clock) (hfile : t.vault.lookup path = s.vault.lookup path)
    (h : readFile rt s.clock none s.vault path = .ok d) :
    readFile rt t.clock none t.vault path = .ok d := by
  rw [← readFile_later h hclock]
  apply readFile_congr
  intro absPath habs
  rw [hpath] at habs
  cases habs
  exact hfile

theorem indexedHash_of_same {hash : String} (hentry : SameEntry path s.db t.db)
    (h : IndexedHash rt s path hash) : IndexedHash rt t path hash := by
  obtain ⟨d, hd, hindexed, hhash⟩ := h
  exact ⟨d, hd, indexed_of_same hentry hindexed, hhash⟩

theorem hashInv_of_same (hentry : SameEntry path s.db t.db)
    (hhash : t.watcher.reconciledHashes path = s.watcher.reconciledHashes path)
    (hfailed : t.failed path = s.failed path) (h : HashInv rt s path) : HashInv rt t path := by
  intro hne
  rw [hhash] at hne ⊢
  rcases h hne with hf | hi
  · left
    rw [hfailed]
    exact hf
  · right
    exact indexedHash_of_same hentry hi

section

variable (hpath : documentPath path = .ok path) (hsame : SamePath path s t)

include hpath hsame

theorem jobInv_of_same
    (hhash : t.watcher.reconciledHashes path = s.watcher.reconciledHashes path)
    (h : JobInv rt s path j) : JobInv rt t path j := by
  have hinv : HashInv rt s path → HashInv rt t path :=
    hashInv_of_same hsame.entry hhash hsame.failed
  unfold JobInv at h ⊢
  cases hstage : j.stage with
  | started | finishing =>
    rw [hstage] at h
    exact hinv h
  | changed hash =>
    rw [hstage] at h
    obtain ⟨hstores, hold, hread⟩ := h
    refine ⟨hstores, hinv hold, fun x hx => ?_⟩
    obtain ⟨d, hd, hdx⟩ := hread x hx
    exact ⟨d, readFile_of_same hpath hsame.clock hsame.file hd, hdx⟩
  | indexed hash =>
    rw [hstage] at h
    rcases h with h | ⟨x, hx, hi⟩
    · left
      rw [hsame.failed]
      exact h
    · exact .inr ⟨x, hx, indexedHash_of_same hsame.entry hi⟩
  | forgotten =>
    rw [hstage] at h
    exact ⟨h.1, by rw [hhash]; exact h.2⟩

theorem matches_of_same (h : s.Matches rt path) : t.Matches rt path := by
  unfold Disk.Matches at h ⊢
  rw [hsame.file]
  split_ifs at h ⊢ with hfile
  · obtain ⟨d, hread, hindexed⟩ := h
    exact ⟨d, readFile_of_same hpath hsame.clock hsame.file hread,
      indexed_of_same hsame.entry hindexed⟩
  · exact absent_of_same hsame.entry h

theorem jobsInv_of_same
    (hhash : t.watcher.reconciledHashes path = s.watcher.reconciledHashes path)
    (hbusy : t.running.filter (Job.busyAt path) = s.running.filter (Job.busyAt path))
    (h : JobsInv rt s path) : JobsInv rt t path := by
  unfold JobsInv at h ⊢
  rw [hbusy]
  rcases h with ⟨hnone, hold⟩ | ⟨j, hj, hinv⟩
  · exact .inl ⟨hnone, hashInv_of_same hsame.entry hhash hsame.failed hold⟩
  · exact .inr ⟨j, hj, jobInv_of_same hpath hsame hhash hinv⟩

theorem entryInv_of_same {matched : Prop} (hpending : t.pending path = s.pending path)
    (hchanged : t.changed path = s.changed path) (h : EntryInv rt matched s path) :
    EntryInv rt matched t path := by
  unfold EntryInv at h ⊢
  rw [hpending, hchanged, hsame.file, hsame.failed]
  rcases h with ⟨hnone, hmatch⟩ | hlast
  · refine .inl ⟨hnone, fun hm => ?_⟩
    rcases hmatch hm with hf | hok
    · exact .inl hf
    · exact .inr (matches_of_same hpath hsame hok)
  · exact .inr hlast

end

/-- The callback has had its effect, and nothing else about the path changed. -/
theorem entryInv_done {matched : Prop} {rest : List Op}
    (hbefore : s.pending path = owedOps [j] ++ rest) (hafter : t.pending path = rest)
    (howes : j.owes = true) (hacts : j.op.acts = true)
    (hfile : t.vault.lookup path = s.vault.lookup path)
    (hdone : (s.vault.lookup path).isSome = j.op.stores →
      t.failed path = true ∨ t.Matches rt path) (h : EntryInv rt matched s path) :
    EntryInv rt matched t path := by
  rw [owedOps_of_owes howes hacts] at hbefore
  unfold EntryInv at h ⊢
  rw [hafter, hfile]
  rw [hbefore] at h
  rcases h with ⟨hnone, -⟩ | ⟨op, hlast, hstores⟩
  · cases hnone
  · cases rest with
    | nil =>
      cases hlast
      exact .inl ⟨rfl, fun _ => hdone hstores⟩
    | cons x xs =>
      exact .inr ⟨op, hlast, hstores⟩

end

end Yanta.FileWatcher
