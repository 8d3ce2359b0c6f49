import Yanta.Document.Save
import Yanta.Project.Store

/-!
# Archiving, restoring and deleting documents

The commands of `internal/document/service.go` that archive, restore and delete
documents, on the vault and the database together. An archived document keeps
its file and its row; only a hard deletion removes them. What the operating
system refuses when a file is removed is an argument; the database driver is
taken to work.
-/

namespace Yanta.Document

open Go Yanta.Vault Index

variable {db db' : Db} {paths : List String}

/-- The check that a command is given a path. -/
def requirePath (path : String) : Except DocError Unit :=
  if trimSpace path = "" then .error (.plain "path is required") else .ok ()

/-- The error of `GetByPath` on a path without a row. -/
def noRows {α : Type} (text : String) : Except DocError α :=
  labelText text (.error "failed to get document: sql: no rows in result set")

/-- Set the mark of the row of a path, if there is a row. -/
def setDeleted (deleted : Bool) (db : Db) (path : String) : Db :=
  match db.doc.lookup path with
  | none => db
  | some row => db.setDoc path { row with deleted := deleted }

/-- `Indexer.RemoveDocument`, whose failure is only logged. -/
def removeDocument (db : Db) (path : String) : Db :=
  if path = "" then db else db.deleteFts path

/-- The paths of the rows of a project that satisfy a condition. -/
def docPathsOf (db : Db) (projectAlias : String) (cond : DocRow → Bool) :
    List String :=
  db.doc.entries.filterMap fun row =>
    if row.2.projectAlias == projectAlias && cond row.2 then some row.1 else none

/-- `Service.SoftDelete`. -/
def archive (db : Db) (path : String) : Except DocError Db := do
  requirePath path
  if db.isActive path then return removeDocument (setDeleted true db path) path
  else noRows "getting document"

/-- `Service.SoftDeleteByProject`. -/
def archiveByProject (db : Db) (projectAlias : String) : Except DocError Db := do
  let projectAlias := trimSpace projectAlias
  labelText "invalid project_alias" (validateAlias projectAlias)
  return (docPathsOf db projectAlias fun row => !row.deleted).foldl (setDeleted true) db

/-- The rows of the listed documents are removed one after the other, in one
transaction. -/
def deleteRows : List String → Db → Except DocError Db
  | [], db => .ok db
  | path :: paths, db =>
    if (db.doc.lookup path).isSome then deleteRows paths (db.deleteDoc path)
    else labelText ("hard deleting document " ++ path ++ " from database")
      (.error ("document not found: " ++ path))

/-- The first loop of `HardDeleteBatch`: every path has a row. -/
def requireRows (db : Db) : List String → Except DocError Unit
  | [] => .ok ()
  | path :: paths =>
    if trimSpace path = "" then .error (.plain "invalid empty path in batch")
    else if (db.doc.lookup path).isSome then requireRows db paths
    else noRows ("getting document " ++ path)

section

variable {β : Type} (rt : Runtime β)

/-- `Service.Restore`; a failure to index the document again is only logged. -/
def restore (now : Time) (faults : IndexFaults) (s : Workspace β) (path : String) :
    Except DocError (Workspace β) := do
  requirePath path
  if s.db.isArchived path then
    let db := setDeleted false s.db path
    return ⟨s.vault, branch (indexDocument rt now faults s.vault db path)
      (fun _ => db) id⟩
  else .error (.plain ("document not found or not deleted: " ++ path))

/-- `Service.HardDelete`; a file that is already missing does not matter. -/
def hardDelete (fault : Option String) (s : Workspace β) (path : String) :
    Except DocError (Workspace β) := do
  requirePath path
  if s.db.isActive path then
    let vault ← branch (deleteFile fault s.vault path)
      (fun e =>
        if e.cause = some .notFound then .ok s.vault
        else label "deleting document file" (.error e))
      .ok
    return ⟨vault, removeDocument (s.db.deleteDoc path) path⟩
  else noRows "getting document"

/-- The last loop of `HardDeleteBatch`: the failure to remove a file is only
logged. -/
def removeFiles (faults : String → Option String) :
    List String → Workspace β → Workspace β
  | [], s => s
  | path :: paths, s =>
    removeFiles faults paths
      ⟨branch (deleteFile (faults path) s.vault path) (fun _ => s.vault) id,
        removeDocument s.db path⟩

/-- `Service.HardDeleteBatch`. -/
def hardDeleteBatch (faults : String → Option String) (s : Workspace β)
    (paths : List String) : Except DocError (Workspace β) := do
  if paths = [] then .error (.plain "paths list cannot be empty")
  else
    requireRows s.db paths
    let db ← deleteRows paths s.db
    return removeFiles faults paths ⟨s.vault, db⟩

/-- `Service.HardDeleteByProject`. -/
def hardDeleteByProject (faults : String → Option String) (s : Workspace β)
    (projectAlias : String) : Except DocError (Workspace β) := do
  let projectAlias := trimSpace projectAlias
  labelText "invalid project_alias" (validateAlias projectAlias)
  let paths := docPathsOf s.db projectAlias fun _ => true
  if paths = [] then return s
  else label "hard deleting documents by project" (hardDeleteBatch faults s paths)

end

/-! ## What the commands change -/

/-- The databases differ in the marks of document rows and in the full-text
rows only. -/
structure MarksOnly (db db' : Db) : Prop where
  project : db'.project = db.project
  tag : db'.tag = db.tag
  doc : ∀ path, (db'.doc.lookup path).map DocRow.projectAlias =
    (db.doc.lookup path).map DocRow.projectAlias

theorem MarksOnly.refl (db : Db) : MarksOnly db db := ⟨rfl, rfl, fun _ => rfl⟩

theorem MarksOnly.trans {db'' : Db} (h : MarksOnly db db') (h' : MarksOnly db' db'') :
    MarksOnly db db'' :=
  ⟨h'.project.trans h.project, h'.tag.trans h.tag,
    fun path => (h'.doc path).trans (h.doc path)⟩

theorem marksOnly_setDeleted (deleted : Bool) (db : Db) (path : String) :
    MarksOnly db (setDeleted deleted db path) := by
  unfold setDeleted
  split
  · exact .refl db
  next row hrow =>
    refine ⟨rfl, rfl, fun p => ?_⟩
    by_cases hp : p = path
    · rw [hp, hrow, Db.setDoc, AList.lookup_insert]
      rfl
    · rw [Db.setDoc, AList.lookup_insert_ne hp]

theorem marksOnly_removeDocument (db : Db) (path : String) :
    MarksOnly db (removeDocument db path) := by
  unfold removeDocument
  split
  · exact .refl db
  · exact ⟨rfl, rfl, fun _ => rfl⟩

theorem marksOnly_archive {path : String} (h : archive db path = .ok db') :
    MarksOnly db db' := by
  simp only [archive, bind_eq_ok, exists_unit] at h
  obtain ⟨-, h⟩ := h
  split at h
  · cases h
    exact (marksOnly_setDeleted true db path).trans (marksOnly_removeDocument _ path)
  · cases h

theorem marksOnly_archiveByProject {projectAlias : String}
    (h : archiveByProject db projectAlias = .ok db') : MarksOnly db db' := by
  simp only [archiveByProject, bind_eq_ok, exists_unit] at h
  obtain ⟨-, h⟩ := h
  cases h
  refine List.foldlRecOn (motive := fun db' => MarksOnly db db') _ _ (.refl db) ?_
  intro db' hdb' path _
  exact hdb'.trans (marksOnly_setDeleted true db' path)

theorem setDeleted_isArchived_self (db : Db) (path : String) :
    (setDeleted false db path).isArchived path = false := by
  unfold setDeleted
  split
  next hrow => simp [Db.isArchived, hrow]
  · simp [Db.isArchived, Db.setDoc]

/-- Restoring changes the mark, and perhaps stores the document again. -/
theorem restore_eq_ok
    {β : Type} {rt : Runtime β} {now : Time} {faults : IndexFaults}
    {s s' : Workspace β} {path : String} (h : restore rt now faults s path = .ok s') :
    s.db.isArchived path = true ∧ ∃ db, MarksOnly s.db db ∧
      (s' = ⟨s.vault, db⟩ ∨
        ∃ absPath file docFile, documentPath path = .ok absPath ∧
          s.vault.lookup absPath = some file ∧
          fromJSON rt now file.data = .ok docFile ∧
          Accepts rt db path docFile file.mtime ∧
          s' = ⟨s.vault, storeDocument rt faults db path docFile file⟩) := by
  simp only [restore, bind_eq_ok, exists_unit] at h
  obtain ⟨-, h⟩ := h
  split at h
  next harch =>
    cases h
    refine ⟨harch, setDeleted false s.db path, marksOnly_setDeleted .., ?_⟩
    cases hindex : indexDocument rt now faults s.vault (setDeleted false s.db path)
        path with
    | error e => exact .inl rfl
    | ok db =>
      obtain ⟨absPath, file, docFile, hpath, hfile, -, hjson, -, -, -, -, hcases⟩ :=
        indexDocument_eq_ok.mp hindex
      rcases hcases with ⟨harch', -⟩ | ⟨-, hacc, -, rfl⟩
      · rw [setDeleted_isArchived_self] at harch'
        cases harch'
      · exact .inr ⟨absPath, file, docFile, hpath, hfile, hjson, hacc, rfl⟩
  · cases h

theorem requireRows_eq_ok {u : Unit} (h : requireRows db paths = .ok u) :
    ∀ p ∈ paths, (db.doc.lookup p).isSome = true := by
  induction paths with
  | nil => simp
  | cons path paths ih =>
    rw [requireRows] at h
    split at h
    · cases h
    · split at h
      next hsome =>
        intro p hp
        rcases List.mem_cons.mp hp with rfl | hp
        · exact hsome
        · exact ih h p hp
      · cases h

theorem lookup_deleteDoc (db : Db) (path p : String) :
    (db.deleteDoc path).doc.lookup p = if p = path then none else db.doc.lookup p := by
  rw [Db.deleteDoc]
  split_ifs with hp
  · rw [hp, AList.lookup_erase]
  · rw [AList.lookup_erase_ne hp]

theorem deleteRows_eq_ok (h : deleteRows paths db = .ok db') :
    db'.project = db.project ∧ db'.tag = db.tag ∧
      ∀ p, db'.doc.lookup p = if p ∈ paths then none else db.doc.lookup p := by
  induction paths generalizing db with
  | nil =>
    cases h
    simp
  | cons path paths ih =>
    rw [deleteRows] at h
    split at h
    · obtain ⟨hproject, htag, hdoc⟩ := ih h
      refine ⟨hproject, htag, fun p => ?_⟩
      rw [hdoc p, lookup_deleteDoc]
      by_cases hp : p = path <;> simp [hp]
    · cases h

/-- What is left after an attempt to remove the file of a path. -/
theorem lookup_removed {β : Type} (fault : Option String) (v : Vault β) (path key : String) :
    (branch (deleteFile fault v path) (fun _ => v) id).lookup key =
      if documentPath path = .ok key ∧ fault = none then none else v.lookup key := by
  cases hpath : documentPath path with
  | error e =>
    have herror : deleteFile fault v path =
        wrapIOError "delete" path (Sentinel.invalidPath.of (.error e)) := by
      simp [deleteFile, hpath, Sentinel.of, classify, bind, Except.bind]
    rw [herror]
    simp [wrapIOError, Sentinel.of, classify]
  | ok absPath =>
    cases hfile : v.lookup absPath with
    | none =>
      obtain ⟨e, herror, -⟩ : ∃ e, deleteFile fault v path = .error e ∧
          e.cause = some .notFound := deleteFile_of_missing hpath hfile
      rw [herror, branch_error]
      split_ifs with hkey
      · rw [← Except.ok.inj hkey.1, hfile]
      · rfl
    | some file =>
      cases hdelete : deleteFile fault v path with
      | ok removed =>
        obtain ⟨rfl, rfl⟩ := (deleteFile_eq_ok hpath hfile).mp hdelete
        by_cases hkey : absPath = key
        · simp [hkey]
        · simp [hkey, AList.lookup_erase_ne (Ne.symm hkey)]
      | error e =>
        have hfault : fault ≠ none := by
          intro hnone
          rw [(deleteFile_eq_ok hpath hfile).mpr ⟨hnone, rfl⟩] at hdelete
          cases hdelete
        simp [hfault]

theorem removeFiles_eq {β : Type} {s : Workspace β}
    (hpaths : ∀ p ∈ paths, documentPath p = .ok p) :
    MarksOnly s.db (removeFiles (fun _ => none) paths s).db ∧
      (removeFiles (fun _ => none) paths s).db.doc = s.db.doc ∧
      ∀ key, (removeFiles (fun _ => none) paths s).vault.lookup key =
        if key ∈ paths then none else s.vault.lookup key := by
  induction paths generalizing s with
  | nil => exact ⟨.refl _, rfl, by simp [removeFiles]⟩
  | cons path paths ih =>
    have hpath := hpaths path (by simp)
    obtain ⟨hmarks, hdoc, hvault⟩ := ih
      (s := ⟨branch (deleteFile none s.vault path) (fun _ => s.vault) id,
        removeDocument s.db path⟩) (List.forall_mem_cons.mp hpaths).2
    refine ⟨(marksOnly_removeDocument s.db path).trans hmarks, ?_, fun key => ?_⟩
    · rw [removeFiles, hdoc, removeDocument]
      split <;> rfl
    · rw [removeFiles, hvault, lookup_removed, hpath]
      by_cases hkey : key = path
      · simp [hkey]
      · simp [hkey, Ne.symm hkey]

end Yanta.Document
