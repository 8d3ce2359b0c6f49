import Yanta.Index.Schema
import Yanta.Journal.File
import Yanta.Vault.Tree

/-!
# Projects

The project rows of `internal/project/store.go`, the metadata files of
`internal/vault/project_metadata.go` and the commands of
`internal/project/service.go` that create, archive, restore and delete projects.
A command acts on the vault and the database together. The cache in front of
the store is left out: every command that changes a row drops the row from it,
so it holds rows of active projects as they are stored.
-/

namespace Yanta

/-- The vault and the database. -/
structure Workspace (β : Type) where
  vault : Document.Vault β
  db : Index.Db

def Workspace.empty {β : Type} : Workspace β := ⟨∅, Index.Db.empty⟩

end Yanta

namespace Yanta.Project

open Go Vault Document Index

structure ProjectMetadata where
  projectAlias : String
  name : String
  startDate : String
  endDate : String
  createdAt : String
  updatedAt : String
deriving DecidableEq, Repr

/-- The further functions of the standard library that the project and journal
packages call. -/
structure VaultRuntime (β : Type) extends Runtime β where
  /-- `unicode.ToUpper`. -/
  upper : Char → Char
  /-- `unicode.IsLetter`. -/
  isLetter : Char → Bool
  /-- `unicode.IsNumber`. -/
  isNumber : Char → Bool
  /-- `json.MarshalIndent` of project metadata, which has only text fields. -/
  marshalMetadata : ProjectMetadata → β
  /-- `json.Unmarshal` into project metadata. -/
  unmarshalMetadata : β → Except String ProjectMetadata
  /-- `json.Unmarshal` into a journal file. -/
  unmarshalJournal : β → Except String Journal.JournalFile

/-! ## Rows -/

/-- `project.Validate`. -/
def validateProject (p : ProjectRow) : Except String Unit :=
  if p.name = "" then .error "name is required"
  else wrapError "invalid alias" (validateAlias p.projectAlias)

/-- `Store.Create`; the new row is active. The `CHECK` clauses on the alias
follow from its validation. -/
def createProject (db : Db) (p : ProjectRow) : Except String Db :=
  wrapError "creating project" do
    wrapError "validation failed" (validateProject p)
    wrapError "failed to create project" <|
      if db.project.any fun q => q.id == p.id then
        .error "UNIQUE constraint failed: project.id"
      else if db.hasProject p.projectAlias then
        .error "UNIQUE constraint failed: project.alias"
      else .ok { db with project := db.project ++ [{ p with deleted := false }] }

/-- `Store.GetByID`, which sees active rows only. -/
def getProjectById (db : Db) (id : String) : Option ProjectRow :=
  db.project.find? fun p => p.id == id && !p.deleted

/-- `Store.GetByAlias`, which sees active rows only. -/
def getProjectByAlias (db : Db) (projectAlias : String) : Option ProjectRow :=
  db.project.find? fun p => p.projectAlias == projectAlias && !p.deleted

/-- An `UPDATE` of the rows that satisfy a condition. -/
def setProjects (db : Db) (cond : ProjectRow → Bool)
    (set : ProjectRow → ProjectRow) : Db :=
  { db with project := db.project.map fun p => if cond p then set p else p }

/-- The columns that the update of a row under its own alias sets. -/
def setData (name startDate endDate : String) (p : ProjectRow) : ProjectRow :=
  { p with name := name, startDate := startDate, endDate := endDate }

/-- `Store.Update` of a row under its own alias. -/
def updateProject (db : Db) (p : ProjectRow) : Except String Db :=
  wrapError "updating project" do
    wrapError "validation failed" (validateProject p)
    if (getProjectById db p.id).isSome then
      .ok (setProjects db (fun q => q.id == p.id && !q.deleted)
        (setData p.name p.startDate p.endDate))
    else .error ("no project found with id " ++ p.id)

/-- The mark of an archived row, set or taken away. -/
def setMark (deleted : Bool) (p : ProjectRow) : ProjectRow :=
  { p with deleted := deleted }

/-- `Store.softDelete`. -/
def softDeleteProject (db : Db) (id : String) : Except String Db :=
  if db.project.any fun p => p.id == id && !p.deleted then
    .ok (setProjects db (fun p => p.id == id && !p.deleted) (setMark true))
  else .error ("project not found or already deleted: " ++ id)

/-- `Store.restore`. -/
def restoreProject (db : Db) (id : String) : Except String Db :=
  if db.project.any fun p => p.id == id && p.deleted then
    .ok (setProjects db (fun p => p.id == id && p.deleted) (setMark false))
  else .error ("project not found or not deleted: " ++ id)

/-- Some document row, archived or not, belongs to the project. -/
def hasDocuments (db : Db) (projectAlias : String) : Bool :=
  db.doc.entries.any fun row => row.2.projectAlias == projectAlias

/-- `Store.hardDelete`; the rows of `doc` refer to the alias. -/
def removeProject (db : Db) (id : String) : Except String Db :=
  if db.project.any fun p => p.id == id && hasDocuments db p.projectAlias then
    .error "failed to hard delete project: FOREIGN KEY constraint failed"
  else if db.project.any fun p => p.id == id then
    .ok { db with project := db.project.filter fun p => !(p.id == id) }
  else .error ("project not found: " ++ id)

/-! ## Metadata files -/

def metadataPath (projectAlias : String) : String :=
  pathClean ("projects/" ++ projectAlias ++ "/" ++ projectMetadataFileName)

section

variable {β : Type} (rt : VaultRuntime β)

def writeProjectMetadata (mtime : Int) (v : Vault β) (metadata : ProjectMetadata) :
    Except String (Vault β) :=
  if metadata.projectAlias = "" then .error "alias cannot be empty"
  else if metadata.name = "" then .error "name cannot be empty"
  else
    .ok (v.insert (metadataPath metadata.projectAlias)
      ⟨rt.marshalMetadata metadata, mtime⟩)

def readProjectMetadata (v : Vault β) (projectAlias : String) :
    Except String ProjectMetadata :=
  if projectAlias = "" then .error "alias cannot be empty"
  else
    match v.lookup (metadataPath projectAlias) with
    | none => .error "metadata file not found: no such file or directory"
    | some file => do
        let metadata ← wrapError "parsing metadata file"
          (rt.unmarshalMetadata file.data)
        if metadata.projectAlias ≠ projectAlias then
          .error ("alias mismatch: metadata has " ++ metadata.projectAlias ++
            ", expected " ++ projectAlias)
        else if metadata.name = "" then
          .error "metadata missing required field: name"
        else .ok metadata

def projectMetadataExists (v : Vault β) (projectAlias : String) : Bool :=
  (v.lookup (metadataPath projectAlias)).isSome

/-! ## Commands -/

/-- A run of hyphens becomes one; `inRun` says that one was just kept. -/
def squeezeHyphens (inRun : Bool) : List Char → List Char
  | [] => []
  | c :: cs =>
    if c == '-' && inRun then squeezeHyphens true cs
    else c :: squeezeHyphens (c == '-') cs

def normalizeAlias (name : String) : String :=
  let text := toLower rt.lower (trimPrefix (trimSpace name) "@")
  let text := replaceAll (replaceAll (replaceAll text " " "-") "/" "-") "_" "-"
  let chars := squeezeHyphens false
    (text.toList.map fun c => if isAliasChar c then c else '-')
  let content := trimRightChars (· == '-') (trimLeftChars (· == '-') chars)
  if content = [] then "" else "@" ++ String.ofList content

/-- What a new project draws: its id, the clock and the file system's time. -/
structure ProjectEnv where
  id : String
  now : Time
  mtime : Int

/-- `project.New`. -/
def newProject (id name projectAlias startDate endDate : String) :
    Except String ProjectRow :=
  if name = "" then .error "name is required"
  else
    let input := trimSpace projectAlias
    let normalized := normalizeAlias rt (if input = "" then name else input)
    branch (validateAlias normalized) (fun e => .error ("invalid alias: " ++ e))
      fun _ => .ok ⟨id, normalized, name, startDate, endDate, false⟩

/-- The metadata of a row that was just made. -/
def metadataOf (now : Time) (p : ProjectRow) : ProjectMetadata where
  projectAlias := p.projectAlias
  name := p.name
  startDate := p.startDate
  endDate := p.endDate
  createdAt := rt.formatRFC3339 now
  updatedAt := rt.formatRFC3339 now

/-- `Service.Create`; a failure to write the metadata is only logged. -/
def create (env : ProjectEnv) (s : Workspace β)
    (name projectAlias startDate endDate : String) :
    Except String (Workspace β) := do
  let name := trimSpace name
  if name = "" then .error "name is required"
  else
    let p ← wrapError "creating project" (newProject rt env.id name
      (trimSpace projectAlias) (trimSpace startDate) (trimSpace endDate))
    let db ← wrapError "storing project" (createProject s.db p)
    let vault := branch (writeProjectMetadata rt env.mtime s.vault
      (metadataOf rt env.now p)) (fun _ => s.vault) id
    return ⟨vault, db⟩

/-- The check that a command is given an id. -/
def requireId (id : String) : Except String Unit :=
  if trimSpace id = "" then .error "id is required" else .ok ()

/-- `Service.SoftDelete`. -/
def archive (db : Db) (id : String) : Except String Db := do
  requireId id
  wrapError "soft deleting project"
    (wrapError "soft deleting project" (softDeleteProject db id))

/-- `Service.Restore`. -/
def restore (db : Db) (id : String) : Except String Db := do
  requireId id
  wrapError "restoring project" (wrapError "restoring project" (restoreProject db id))

/-- The active documents of the active project with this id. -/
def countDocuments (db : Db) (id : String) : Nat :=
  match getProjectById db id with
  | none => 0
  | some p => db.doc.entries.countP fun row =>
    row.2.projectAlias == p.projectAlias && !row.2.deleted

/-- `Service.Delete`: a project with documents is only archived. -/
def delete (db : Db) (id : String) : Except String Db := do
  requireId id
  if 0 < countDocuments db id then
    wrapError "soft deleting project" (softDeleteProject db id)
  else wrapError "hard deleting project" (removeProject db id)

/-- `Service.HardDelete`, which finds active projects only. -/
def hardDelete (db : Db) (id : String) : Except String Db := do
  requireId id
  if (getProjectById db id).isNone then
    .error ("getting project: getting project: failed to get project: " ++
      "sql: no rows in result set")
  else wrapError "hard deleting project" (removeProject db id)

end

/-! ## When the statements succeed -/

variable {p : ProjectRow}

theorem validateProject_eq_ok {u : Unit} :
    validateProject p = .ok u ↔
      p.name ≠ "" ∧ validateAlias p.projectAlias = .ok () := by
  unfold validateProject
  by_cases hname : p.name = ""
  · simp [hname]
  · simp [hname]

variable {db : Db} {projectAlias : String}

theorem hasProject_eq_true_iff :
    db.hasProject projectAlias = true ↔
      ∃ p ∈ db.project, p.projectAlias = projectAlias := by
  simp [Db.hasProject]

theorem hasProject_eq_false_iff :
    db.hasProject projectAlias = false ↔
      ∀ p ∈ db.project, p.projectAlias ≠ projectAlias := by
  simp [Db.hasProject]

variable {db' : Db}

theorem createProject_eq_ok :
    createProject db p = .ok db' ↔
      (p.name ≠ "" ∧ validateAlias p.projectAlias = .ok ()) ∧
        (∀ q ∈ db.project, q.id ≠ p.id) ∧ db.hasProject p.projectAlias = false ∧
        db' = { db with project := db.project ++ [{ p with deleted := false }] } := by
  simp only [createProject, wrapError_eq_ok, bind_eq_ok, exists_unit,
    validateProject_eq_ok]
  refine and_congr_right fun _ => ?_
  have hany : (db.project.any fun q => q.id == p.id) = true ↔
      ¬ ∀ q ∈ db.project, q.id ≠ p.id := by simp
  by_cases hid : ∀ q ∈ db.project, q.id ≠ p.id
  · rw [if_neg (mt hany.mp (not_not.mpr hid))]
    cases hproject : db.hasProject p.projectAlias with
    | true => simp
    | false => simpa using eq_comm.trans (and_iff_right hid).symm
  · simp [hany.mpr hid, hid]

theorem updateProject_eq_ok :
    updateProject db p = .ok db' ↔
      (p.name ≠ "" ∧ validateAlias p.projectAlias = .ok ()) ∧
        (getProjectById db p.id).isSome = true ∧
        db' = setProjects db (fun q => q.id == p.id && !q.deleted)
          (setData p.name p.startDate p.endDate) := by
  simp only [updateProject, wrapError_eq_ok, bind_eq_ok, exists_unit,
    validateProject_eq_ok]
  refine and_congr_right fun _ => ?_
  by_cases hsome : (getProjectById db p.id).isSome = true
  · simp [hsome, eq_comm]
  · simp [hsome]

theorem getProjectByAlias_eq_none :
    getProjectByAlias db projectAlias = none ↔
      ∀ p ∈ db.project, p.projectAlias = projectAlias → p.deleted = true := by
  simp [getProjectByAlias]

theorem mem_of_getProjectByAlias (h : getProjectByAlias db projectAlias = some p) :
    p ∈ db.project ∧ p.projectAlias = projectAlias ∧ p.deleted = false := by
  have hcond := List.find?_some h
  simp only [Bool.and_eq_true, beq_iff_eq, Bool.not_eq_true'] at hcond
  exact ⟨List.mem_of_find?_eq_some h, hcond⟩

/-- An active row is found by its id. -/
theorem getProjectById_isSome (hmem : p ∈ db.project) (hactive : p.deleted = false) :
    (getProjectById db p.id).isSome = true := by
  rw [getProjectById, List.find?_isSome]
  exact ⟨p, hmem, by simp [hactive]⟩

theorem writeProjectMetadata_eq
    {β : Type} {rt : VaultRuntime β} {mtime : Int} {v : Vault β}
    {metadata : ProjectMetadata} (halias : metadata.projectAlias ≠ "")
    (hname : metadata.name ≠ "") :
    writeProjectMetadata rt mtime v metadata =
      .ok (v.insert (metadataPath metadata.projectAlias)
        ⟨rt.marshalMetadata metadata, mtime⟩) := by
  rw [writeProjectMetadata, if_neg halias, if_neg hname]

theorem ne_empty_of_validateAlias {u : Unit} (h : validateAlias projectAlias = .ok u) :
    projectAlias ≠ "" := by
  rintro rfl
  simp [validateAlias, hasPrefix] at h

/-- What the commands on existing projects do to the project rows: they set
marks, or remove the rows of an id that no document refers to. -/
inductive ProjectChange (db : Db) : Db → Prop
  | marked (cond : ProjectRow → Bool) (deleted : Bool) :
      ProjectChange db (setProjects db cond (setMark deleted))
  | removed (id : String)
      (unused : ∀ p ∈ db.project, p.id = id → hasDocuments db p.projectAlias = false) :
      ProjectChange db
        { db with project := db.project.filter fun p => !(p.id == id) }

variable {id : String}

theorem projectChange_softDelete (h : softDeleteProject db id = .ok db') :
    ProjectChange db db' := by
  unfold softDeleteProject at h
  split_ifs at h
  cases h
  exact .marked _ _

theorem projectChange_remove (h : removeProject db id = .ok db') : ProjectChange db db' := by
  unfold removeProject at h
  split_ifs at h with hnone
  cases h
  refine .removed id ?_
  intro p hp hid
  by_contra hdocs
  exact hnone (List.any_eq_true.mpr ⟨p, hp, by simp [hid, hdocs]⟩)

theorem projectChange_archive (h : archive db id = .ok db') : ProjectChange db db' := by
  simp only [archive, bind_eq_ok, exists_unit, wrapError_eq_ok] at h
  exact projectChange_softDelete h.2

theorem projectChange_restore (h : restore db id = .ok db') : ProjectChange db db' := by
  simp only [restore, bind_eq_ok, exists_unit, wrapError_eq_ok] at h
  obtain ⟨-, h⟩ := h
  unfold restoreProject at h
  split_ifs at h
  cases h
  exact .marked _ _

theorem projectChange_delete (h : delete db id = .ok db') : ProjectChange db db' := by
  simp only [delete, bind_eq_ok, exists_unit] at h
  obtain ⟨-, h⟩ := h
  split at h
  · exact projectChange_softDelete (wrapError_eq_ok.mp h)
  · exact projectChange_remove (wrapError_eq_ok.mp h)

theorem projectChange_hardDelete (h : hardDelete db id = .ok db') : ProjectChange db db' := by
  simp only [hardDelete, bind_eq_ok, exists_unit] at h
  obtain ⟨-, h⟩ := h
  split at h
  · cases h
  · exact projectChange_remove (wrapError_eq_ok.mp h)

/-- A new project gets a row under a free alias and its metadata file. -/
theorem create_eq_ok {β : Type} {rt : VaultRuntime β} {env : ProjectEnv} {s s' : Workspace β}
    {name startDate endDate : String}
    (h : create rt env s name projectAlias startDate endDate = .ok s') :
    ∃ p : ProjectRow, ∃ file, validateAlias p.projectAlias = .ok () ∧
      s.db.hasProject p.projectAlias = false ∧
      s' = ⟨s.vault.insert (metadataPath p.projectAlias) file,
        { s.db with project := s.db.project ++ [p] }⟩ := by
  unfold create at h
  dsimp only at h
  split at h
  · cases h
  · simp only [bind_eq_ok, wrapError_eq_ok, createProject_eq_ok] at h
    obtain ⟨p, -, db, ⟨⟨hname, hvalid⟩, -, hfree, rfl⟩, h⟩ := h
    have hwrite : writeProjectMetadata rt env.mtime s.vault (metadataOf rt env.now p) =
        .ok (s.vault.insert (metadataPath p.projectAlias)
          ⟨rt.marshalMetadata (metadataOf rt env.now p), env.mtime⟩) :=
      writeProjectMetadata_eq (ne_empty_of_validateAlias hvalid) hname
    rw [hwrite] at h
    cases h
    exact ⟨{ p with deleted := false }, _, hvalid, hfree, rfl⟩

/-! ## Metadata paths -/

theorem metadataPath_spec {u : Unit} (halias : validateAlias projectAlias = .ok u) :
    split (metadataPath projectAlias) '/' =
      ["projects", projectAlias, projectMetadataFileName] := by
  obtain ⟨content, hcontent, -⟩ := validateAlias_chars halias
  have hslash := notMem_of_validateAlias halias (c := '/') (by decide) (by decide)
  have hname : '/' ∉ projectMetadataFileName.toList := by decide
  have hsplit := split_projectFile hslash hname
  have hclean : ∀ e ∈ ("projects/" ++ projectAlias ++ "/" ++
      projectMetadataFileName).toList.splitOn '/', IsCleanElem e := by
    rw [splitOn_toList, hsplit]
    simp only [List.map_cons, List.forall_mem_cons, hcontent]
    exact ⟨⟨by decide, by decide, by decide⟩, ⟨by simp, by simp, by simp⟩,
      ⟨by decide, by decide, by decide⟩, by simp⟩
  rw [metadataPath, pathClean_eq_self hclean, hsplit]

theorem metadataPath_injective {a b : String} {u u' : Unit}
    (ha : validateAlias a = .ok u) (hb : validateAlias b = .ok u')
    (h : metadataPath a = metadataPath b) : a = b := by
  have hsplit := metadataPath_spec ha
  rw [h, metadataPath_spec hb] at hsplit
  simpa [eq_comm] using hsplit

theorem not_isDocumentKey_metadataPath {u : Unit} (halias : validateAlias projectAlias = .ok u) :
    isDocumentKey (metadataPath projectAlias) = false := by
  rw [Bool.eq_false_iff, Ne, isDocumentKey_iff]
  rintro ⟨dir, name, hsplit, -, -, hname⟩
  rw [metadataPath_spec halias] at hsplit
  simp only [List.cons.injEq, and_true] at hsplit
  exact hname hsplit.2.2.symm

end Yanta.Project
