import Yanta.Support.Runs
import Yanta.Watcher.Callbacks

/-!
# Changes of files and the index

The watcher, the index and the programs that change the files of the vault.
Every change of a file puts an event that tells of it into the queue of the file
system, and so does a change of attributes; the queue is delivered in order.
The debounce window is not fixed: a timer fires some time after it was armed, so
a window ends wherever a run lets a timer fire.
-/

namespace Yanta.FileWatcher

open Go Document Index Function

/-! ## The entry of a document -/

section

variable {β : Type} (rt : Runtime β)
variable {path : String} {db db' : Db} {path' : String} {faults : RemovePoint → Option String}

/-- The index holds this document under the path. The size and the time of
modification are those of some version of the file. -/
structure Indexed (db : Db) (path : String) (d : DocumentFile) : Prop where
  row : ∃ file : VaultFile β, db.doc.lookup path = some (docRowOf rt d file)
  fts : db.ftsDoc path = [ftsRowOf rt d]
  tags : db.docTag path = normalizeTags rt.lower d.docMeta.tags
  links : db.docLink path = mergeLinks [] (linksOf rt d)

/-- The index holds nothing under the path. -/
structure Absent (db : Db) (path : String) : Prop where
  row : db.doc.lookup path = none
  fts : db.ftsDoc path = []

/-- The two databases have the same entry for a path. -/
structure SameEntry (path : String) (db db' : Db) : Prop where
  row : db'.doc.lookup path = db.doc.lookup path
  fts : db'.ftsDoc path = db.ftsDoc path
  tags : db'.docTag path = db.docTag path
  links : db'.docLink path = db.docLink path

variable {rt}

theorem indexed_of_same {d : DocumentFile} (hsame : SameEntry path db db')
    (h : Indexed rt db path d) : Indexed rt db' path d where
  row := by
    rw [hsame.row]
    exact h.row
  fts := by
    rw [hsame.fts]
    exact h.fts
  tags := by
    rw [hsame.tags]
    exact h.tags
  links := by
    rw [hsame.links]
    exact h.links

theorem absent_of_same (hsame : SameEntry path db db') (h : Absent db path) :
    Absent db' path where
  row := by
    rw [hsame.row]
    exact h.row
  fts := by
    rw [hsame.fts]
    exact h.fts

theorem sameEntry_refl (path : String) (db : Db) : SameEntry path db db :=
  ⟨rfl, rfl, rfl, rfl⟩

theorem indexed_storeDocument {faults : IndexFaults}
    (db : Db) (path : String) (d : DocumentFile) (file : VaultFile β) :
    Indexed rt (storeDocument rt faults db path d file) path d where
  row := ⟨file, by rw [storeDocument_doc, AList.lookup_insert]⟩
  fts := by rw [storeDocument_ftsDoc, update_self]
  tags := by rw [storeDocument_docTag, update_self]
  links := by rw [storeDocument_docLink, update_self]

theorem sameEntry_storeDocument {faults : IndexFaults} (hne : path ≠ path') (db : Db)
    (d : DocumentFile) (file : VaultFile β) :
    SameEntry path db (storeDocument rt faults db path' d file) where
  row := by rw [storeDocument_doc, AList.lookup_insert_ne hne]
  fts := by rw [storeDocument_ftsDoc, update_of_ne hne]
  tags := by rw [storeDocument_docTag, update_of_ne hne]
  links := by rw [storeDocument_docLink, update_of_ne hne]

/-- Indexing one document leaves the entries of the others alone. -/
theorem sameEntry_indexDocument {now : Time} {faults : IndexFaults} {v : Vault β}
    (hne : path ≠ path') (h : indexDocument rt now faults v db path' = .ok db') :
    SameEntry path db db' := by
  obtain ⟨_, file, docFile, -, -, -, -, -, -, -, -, hcases⟩ := indexDocument_eq_ok.mp h
  rcases hcases with ⟨-, rfl⟩ | ⟨-, -, -, rfl⟩
  · exact sameEntry_refl path db'
  · exact sameEntry_storeDocument hne db docFile file

/-- A document that is not archived and could be indexed is in the index. -/
theorem indexed_of_indexDocument {now : Time} {faults : IndexFaults} {v : Vault β}
    (harchived : db.isArchived path = false)
    (h : indexDocument rt now faults v db path = .ok db') :
    ∃ d, readFile rt now none v path = .ok d ∧ Indexed rt db' path d := by
  obtain ⟨absPath, file, docFile, hpath, hfile, hsize, hjson, -, -, -, -, hcases⟩ :=
    indexDocument_eq_ok.mp h
  rcases hcases with ⟨harch, -⟩ | ⟨-, -, -, rfl⟩
  · rw [harchived] at harch
    cases harch
  · exact ⟨docFile, readFile_eq_ok.mpr ⟨absPath, file, hpath, hfile, hsize, rfl, hjson⟩,
      indexed_storeDocument db path docFile file⟩

theorem sameEntry_deleteFts (hne : path ≠ path') (db : Db) :
    SameEntry path db (db.deleteFts path') :=
  ⟨rfl, update_of_ne hne .., rfl, rfl⟩

theorem sameEntry_deleteDoc (hne : path ≠ path') (db : Db) :
    SameEntry path db (db.deleteDoc path') :=
  ⟨AList.lookup_erase_ne hne, rfl, update_of_ne hne ..,
    update_of_ne hne ..⟩

theorem sameEntry_trans {db'' : Db} (h : SameEntry path db db') (h' : SameEntry path db' db'') :
    SameEntry path db db'' :=
  ⟨h'.row.trans h.row, h'.fts.trans h.fts, h'.tags.trans h.tags, h'.links.trans h.links⟩

theorem unlessNotFound_eq_ok {result : Except String Db} :
    unlessNotFound db result = .ok db' ↔
      result = .ok db' ∨
        ∃ e, result = .error e ∧ contains e "not found" = true ∧ db' = db := by
  cases result with
  | ok x => simp [unlessNotFound]
  | error e =>
    by_cases hfound : contains e "not found" = true
    · simp only [unlessNotFound, hfound, if_true, Except.ok.injEq, reduceCtorEq,
        false_or, Except.error.injEq, exists_eq_left', true_and]
      exact eq_comm
    · simp [unlessNotFound, hfound]

theorem removeDocumentCompletely_eq_ok :
    removeDocumentCompletely faults db path = .ok db' ↔
      faults .beginTx = none ∧ faults .commit = none ∧
        ∃ db₁, unlessNotFound db (deleteFtsRow (faults .fts) db path) = .ok db₁ ∧
          unlessNotFound db₁ (hardDelete (faults .doc) db₁ path) = .ok db' := by
  simp only [removeDocumentCompletely, bind_eq_ok, exists_unit, wrapError_eq_ok,
    attempt_eq_ok, pure, Except.pure, Except.ok.injEq]
  constructor
  · rintro ⟨hbegin, db₁, hfts, db₂, hdoc, hcommit, rfl⟩
    exact ⟨hbegin, hcommit, db₁, hfts, hdoc⟩
  · rintro ⟨hbegin, hcommit, db₁, hfts, hdoc⟩
    exact ⟨hbegin, db₁, hfts, db', hdoc, hcommit, rfl⟩

theorem deleteFtsRow_eq_ok {fault : Option String} (h : deleteFtsRow fault db path = .ok db') :
    db' = db.deleteFts path := by
  unfold deleteFtsRow at h
  split_ifs at h with hempty hrows
  all_goals simp only [bind_eq_ok, exists_unit] at h
  · cases h.2
  · cases h.2
    rfl

theorem hardDelete_eq_ok {fault : Option String} (h : hardDelete fault db path = .ok db') :
    db' = db.deleteDoc path := by
  simp only [hardDelete, bind_eq_ok, exists_unit] at h
  obtain ⟨-, h⟩ := h
  split_ifs at h with hrow
  cases h
  rfl

/-- Removing one document leaves the entries of the others alone. -/
theorem sameEntry_removeDocumentCompletely (hne : path ≠ path')
    (h : removeDocumentCompletely faults db path' = .ok db') : SameEntry path db db' := by
  obtain ⟨-, -, db₁, hfts, hdoc⟩ := removeDocumentCompletely_eq_ok.mp h
  have hfirst : SameEntry path db db₁ := by
    rcases unlessNotFound_eq_ok.mp hfts with h | ⟨_, _, _, rfl⟩
    · rw [deleteFtsRow_eq_ok h]
      exact sameEntry_deleteFts hne db
    · exact sameEntry_refl path db₁
  have hsecond : SameEntry path db₁ db' := by
    rcases unlessNotFound_eq_ok.mp hdoc with h | ⟨_, _, _, rfl⟩
    · rw [hardDelete_eq_ok h]
      exact sameEntry_deleteDoc hne db₁
    · exact sameEntry_refl path db'
  exact sameEntry_trans hfirst hsecond

/-- No error of the database driver reads like a missing row. -/
def plainFaults (faults : RemovePoint → Option String) : Bool :=
  (faults .fts).all (fun e =>
      !contains ("deleting document from fts_doc" ++ ": " ++ e) "not found") &&
    (faults .doc).all (fun e =>
      !contains ("failed to hard delete document" ++ ": " ++ e) "not found")

/-- A document that was removed completely is not in the index. -/
theorem absent_of_removeDocumentCompletely (hne : path ≠ "")
    (hplain : plainFaults faults = true) (h : removeDocumentCompletely faults db path = .ok db') :
    Absent db' path := by
  obtain ⟨hfault, hdocFault⟩ := Bool.and_eq_true_iff.mp hplain
  obtain ⟨-, -, db₁, hfts, hdoc⟩ := removeDocumentCompletely_eq_ok.mp h
  have hfirst : db₁.ftsDoc path = [] := by
    rcases unlessNotFound_eq_ok.mp hfts with h | ⟨e, herror, hfound, rfl⟩
    · rw [deleteFtsRow_eq_ok h]
      exact update_self ..
    · rw [deleteFtsRow, if_neg hne] at herror
      cases hf : faults .fts with
      | some e' =>
        rw [hf] at herror hfault
        cases herror
        rw [Option.all_some] at hfault
        rw [hfound] at hfault
        cases hfault
      | none =>
        rw [hf] at herror
        by_contra hrows
        rw [if_neg hrows] at herror
        cases herror
  rcases unlessNotFound_eq_ok.mp hdoc with h | ⟨e, herror, hfound, rfl⟩
  · rw [hardDelete_eq_ok h]
    exact ⟨AList.lookup_erase _ _, hfirst⟩
  · refine ⟨?_, hfirst⟩
    cases hf : faults .doc with
    | some e' =>
      rw [hf] at herror hdocFault
      cases herror
      rw [Option.all_some] at hdocFault
      rw [hfound] at hdocFault
      cases hdocFault
    | none =>
      rw [hf] at herror
      by_contra hrow
      change (if (db'.doc.lookup path).isNone = true then _ else _) = _ at herror
      rw [if_neg (by simpa using hrow)] at herror
      cases herror

end

/-! ## The system -/

/-- A callback of a timer that has fired. -/
structure Job where
  relPath : String
  op : Op
  stage : Stage
deriving DecidableEq, Repr

/-- The files, the index, the watcher, and the events that are not delivered
yet. `failed` tells of each path whether the last call of the indexer returned
an error, and `changed` whether its file was changed at all. -/
structure Disk (β : Type) where
  vault : Vault β
  db : Db
  watcher : Watcher
  running : List Job
  queue : List (String × Op)
  clock : Time
  failed : String → Bool
  changed : String → Bool

inductive Change (β : Type) where
  /-- A program creates, replaces, removes or renames a file. -/
  | file (path : String) (file : Option (VaultFile β)) (op : Op)
  /-- The attributes of a file change. -/
  | attributes (path : String) (op : Op)
  /-- The watcher receives the next event. -/
  | deliver
  /-- A timer fires. -/
  | fire (k : Nat)
  /-- A callback moves. -/
  | advance (k : Nat) (env : CallbackEnv)

section

variable {β : Type} (rt : Runtime β) (root : String)

/-- The event tells how the file changed: a file that is there now was created
or written, one that is not was removed or renamed. -/
def reflects (file : Option (VaultFile β)) (op : Op) : Bool :=
  if file.isSome then op.stores else op.removes

def Disk.deliver (s : Disk β) : Option (Disk β) :=
  match s.queue with
  | [] => none
  | event :: queue =>
    some { s with
      watcher := handleEvent root s.watcher event.1 event.2
      queue := queue }

def Disk.fire (s : Disk β) (k : Nat) : Option (Disk β) :=
  s.watcher.timers[k]?.map fun t =>
    { s with
      watcher := { s.watcher with timers := s.watcher.timers.eraseIdx k }
      running := s.running ++ [⟨t.relPath, t.op, .started⟩] }

/-- The state after a move of the callback `j`. -/
def Disk.afterAdvance (s : Disk β) (k : Nat) (now : Time) (j : Job) (a : Advance) :
    Disk β :=
  { s with
    db := a.db
    watcher := a.watcher
    running := s.running.eraseIdx k ++
      (a.next.map fun stage => { j with stage := stage }).toList
    clock := now
    failed := a.failed.elim s.failed (Function.update s.failed j.relPath) }

def Disk.advance (s : Disk β) (k : Nat) (env : CallbackEnv) : Option (Disk β) :=
  if env.now < s.clock then none
  else
    s.running[k]?.map fun j =>
      s.afterAdvance k env.now j
        (executeIndexing rt env s.vault s.db s.watcher j.relPath j.op j.stage)

def Disk.step (s : Disk β) : Change β → Option (Disk β)
  | .file path file op =>
    if reflects file op then
      some { s with
        vault := putFile s.vault path file
        queue := s.queue ++ [(path, op)]
        changed := Function.update s.changed path true }
    else none
  | .attributes path op =>
    if op.acts then none else some { s with queue := s.queue ++ [(path, op)] }
  | .deliver => s.deliver root
  | .fire k => s.fire k
  | .advance k env => s.advance rt k env

/-- The watcher is started on a vault and an index. -/
def Disk.begin (clock : Time) (v : Vault β) (db : Db) : Disk β where
  vault := v
  db := db
  watcher := newWatcher
  running := []
  queue := []
  clock := clock
  failed _ := false
  changed _ := false

/-- The index entry of the path matches the file: it is present with the
content of the file if there is one, and absent otherwise. -/
def Disk.Matches (s : Disk β) (path : String) : Prop :=
  if (s.vault.lookup path).isSome then
    ∃ d, readFile rt s.clock none s.vault path = .ok d ∧ Indexed rt s.db path d
  else Absent s.db path

/-- All events of the path are delivered, its timers have fired and their
callbacks have returned. -/
def Disk.Quiet (s : Disk β) (path : String) : Prop :=
  (∀ e ∈ s.queue, e.1 ≠ path) ∧ (∀ t ∈ s.watcher.timers, t.relPath ≠ path) ∧
    ∀ j ∈ s.running, j.relPath ≠ path

/-! ## The condition -/

/-- A callback of the path has not finished `executeIndexing`. -/
def Job.busyAt (path : String) (j : Job) : Bool :=
  j.relPath == path && j.stage != .finishing

/-- The callback has compared the hash and has not indexed the file yet. -/
def Job.comparedAt (path : String) (j : Job) : Bool :=
  j.relPath == path &&
    match j.stage with
    | .changed _ => true
    | _ => false

/-- The timer that an event of the path stops is armed with a change. -/
def losesChange (w : Watcher) (path : String) (op : Op) : Bool :=
  !op.acts && w.timers.any fun t =>
    w.debounce path == some t.id && t.op.acts

/-- The condition on a move of a callback: a file that can be read is read, the
document is not archived, and a failed removal is not taken for a missing row. -/
def jobIsSafe (s : Disk β) (env : CallbackEnv) (j : Job) : Bool :=
  match j.stage with
  | .started => !j.op.stores || env.readFault.isNone
  | .changed hash =>
    !s.db.isArchived j.relPath &&
      (hash.isSome ||
        !(readFile rt env.now (env.indexFaults .read) s.vault j.relPath).isOk)
  | .forgotten => plainFaults env.removeFaults
  | _ => true

/-- The condition on a step, as far as it concerns the path: an event that only
tells of attributes does not replace one that tells of a change, callbacks run
one after the other in the order of their timers, and the file does not change
between the comparison of a callback and its call of the indexer. -/
def Disk.stepIsSafe (path : String) (s : Disk β) : Change β → Bool
  | .file p _ _ => !(p == path) || !s.running.any (Job.comparedAt path)
  | .attributes _ _ => true
  | .deliver => s.queue.head?.all fun e => !(e.1 == path && losesChange s.watcher path e.2)
  | .fire k => s.watcher.timers[k]?.all fun t =>
    !(t.relPath == path) ||
      !s.running.any (Job.busyAt path) &&
        (s.watcher.timers.take k).all fun t => !(t.relPath == path)
  | .advance k env => s.running[k]?.all fun j =>
    !(j.relPath == path) || jobIsSafe rt s env j

end

end Yanta.FileWatcher
