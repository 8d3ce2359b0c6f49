import Yanta.Index.Indexer
import Yanta.Project.Store

/-!
# Rebuilding the index

`ClearIndex`, `ScanAndIndexProjects`, `ScanAndIndexVault` and `IndexAllJournals`
of `internal/indexer/indexer.go`, and `ReindexDatabase` of
`internal/system/service.go`, which clears the index and scans the vault. A scan
is a sequence of transactions, so one that fails leaves what it did before in
place; its outcome is therefore a result together with a state.
-/

namespace Yanta.Index

open Go Vault Document Project Journal

/-- What a scan reads from its surroundings: the clock and the failing calls for
each document, the random id of each project it has to create, the time and the
modification time of the metadata files it writes, and whether the clearing
transaction fails. -/
structure ScanEnv where
  clock : String → Time
  faults : String → IndexFaults
  projectId : String → String
  now : Time
  mtime : Int
  clearFault : Option String

structure Outcome (β α : Type) where
  result : Except DocError α
  state : Workspace β

/-- `ClearIndex`; the rows that refer to documents go with the documents. -/
def Db.clearIndex (db : Db) : Db :=
  { db with
    doc := ∅
    ftsDoc := fun _ => []
    docTag := fun _ => []
    docLink := fun _ => []
    docAsset := []
    ftsJournal := fun _ _ => [] }

/-! ## Journals -/

/-- The tags of an entry, padded with spaces. -/
def journalTags (tags : List String) : String :=
  if tags = [] then "" else " " ++ join tags " " ++ " "

/-- The rows of a journal file: the entries that are not deleted and have an
id. -/
def journalRowsOf (file : JournalFile) : List JournalRow :=
  file.entries.filterMap fun entry =>
    if entry.deleted || entry.id == "" then none
    else some ⟨entry.id, entry.content, journalTags entry.tags⟩

def Db.addJournalRows (db : Db) (projectAlias date : String)
    (rows : List JournalRow) : Db :=
  { db with
    ftsJournal := Function.update db.ftsJournal projectAlias
      (Function.update (db.ftsJournal projectAlias) date
        (db.ftsJournal projectAlias date ++ rows)) }

section

variable {β : Type} (rt : VaultRuntime β)

def journalPath (projectAlias name : String) : String :=
  pathClean ("projects/" ++ projectAlias ++ "/journal/" ++ name)

/-- The rows of one journal file of a project directory; there are none if the
name is not a date or the file cannot be parsed. -/
def journalFileRows (v : Vault β) (projectAlias name : String) : List JournalRow :=
  if validateDate (trimSuffix name ".json") = .ok () then
    match v.lookup (journalPath projectAlias name) with
    | none => []
    | some file => branch (rt.unmarshalJournal file.data) (fun _ => []) journalRowsOf
  else []

def indexJournalFile (v : Vault β) (projectAlias : String) (db : Db)
    (name : String) : Db :=
  db.addJournalRows projectAlias (trimSuffix name ".json")
    (journalFileRows rt v projectAlias name)

/-- The journal files of a project directory. -/
def journalNames (v : Vault β) (projectAlias : String) : List String :=
  (readDir v ("projects/" ++ projectAlias ++ "/journal")).filterMap fun entry =>
    if entry.isDir || !hasSuffix entry.name ".json" then none else some entry.name

def indexAllJournals (v : Vault β) (db : Db) : Db :=
  (projectDirs v).foldl
    (fun db projectAlias =>
      (journalNames v projectAlias).foldl (indexJournalFile rt v projectAlias) db)
    { db with ftsJournal := fun _ _ => [] }

/-! ## Projects -/

/-- The loop of `strutil.ToTitle`; `inWord` says that the last character was a
letter or a number. -/
def toTitleFrom (inWord : Bool) : List Char → List Char
  | [] => []
  | c :: cs =>
    if rt.isLetter c || rt.isNumber c then
      (if inWord then c else rt.upper c) :: toTitleFrom true cs
    else c :: toTitleFrom false cs

def toTitle (s : String) : String :=
  String.ofList (toTitleFrom rt false (toLower rt.lower s).toList)

/-- The row of a project directory that has a metadata file. -/
def scanMetadata (env : ScanEnv) (db : Db) (projectAlias : String)
    (metadata : ProjectMetadata) : Except DocError Db :=
  match getProjectByAlias db projectAlias with
  | some existing =>
    if existing.name ≠ metadata.name ∨ existing.startDate ≠ metadata.startDate ∨
        existing.endDate ≠ metadata.endDate then
      labelText ("updating project " ++ projectAlias)
        (updateProject db { existing with
          name := metadata.name
          startDate := metadata.startDate
          endDate := metadata.endDate })
    else .ok db
  | none =>
    labelText ("creating project " ++ projectAlias)
      (createProject db ⟨env.projectId projectAlias, metadata.projectAlias,
        metadata.name, metadata.startDate, metadata.endDate, false⟩)

/-- The project made for a directory without a metadata file. -/
def projectOfDir (env : ScanEnv) (projectAlias : String) : ProjectRow where
  id := env.projectId projectAlias
  projectAlias := projectAlias
  name := toTitle rt (replaceAll (trimPrefix projectAlias "@") "-" " ")
  startDate := ""
  endDate := ""
  deleted := false

/-- One project directory. -/
def scanProject (env : ScanEnv) (s : Workspace β) (projectAlias : String) :
    Except DocError (Workspace β) :=
  if projectMetadataExists s.vault projectAlias then do
    let metadata ← labelText ("reading metadata for " ++ projectAlias)
      (readProjectMetadata rt s.vault projectAlias)
    let db ← scanMetadata env s.db projectAlias metadata
    return ⟨s.vault, db⟩
  else if (getProjectByAlias s.db projectAlias).isSome then .ok s
  else do
    let p := projectOfDir rt env projectAlias
    let db ← labelText ("creating project " ++ projectAlias) (createProject s.db p)
    let vault ← labelText ("writing metadata for " ++ projectAlias)
      (writeProjectMetadata rt env.mtime s.vault (metadataOf rt env.now p))
    return ⟨vault, db⟩

def scanProjects (env : ScanEnv) :
    List String → Workspace β → Outcome β Unit
  | [], s => ⟨.ok (), s⟩
  | projectAlias :: rest, s =>
    branch (scanProject rt env s projectAlias) (fun e => ⟨.error e, s⟩)
      (scanProjects env rest)

def scanAndIndexProjects (env : ScanEnv) (s : Workspace β) : Outcome β Unit :=
  scanProjects rt env (projectDirs s.vault) s

/-! ## Documents -/

/-- The loop of `ScanAndIndexVault`: corrupt files are skipped and collected in
`corrupt`, any other error ends it. -/
def indexDocuments (env : ScanEnv) (v : Vault β) :
    List String → List String → Db → Except DocError (List String) × Db
  | [], corrupt, db => (.ok corrupt, db)
  | path :: paths, corrupt, db =>
    branch (indexDocument rt.toRuntime (env.clock path) (env.faults path) v db path)
      (fun e =>
        if e.cause = some .corrupted then
          indexDocuments env v paths (corrupt ++ [path]) db
        else (label ("indexing document " ++ path) (.error e), db))
      (indexDocuments env v paths corrupt)

/-- `ScanAndIndexVault`; it returns the corrupt paths. -/
def scanAndIndexVault (env : ScanEnv) (s : Workspace β) : Outcome β (List String) :=
  let projects := scanAndIndexProjects rt env s
  branch (label "scanning projects" projects.result)
    (fun e => ⟨.error e, projects.state⟩)
    fun _ =>
      let v := projects.state.vault
      let indexed := indexDocuments rt env v (documentPaths v) [] projects.state.db
      branch indexed.1 (fun e => ⟨.error e, ⟨v, indexed.2⟩⟩)
        fun corrupt => ⟨.ok corrupt, ⟨v, indexAllJournals rt v indexed.2⟩⟩

def reindexDatabase (env : ScanEnv) (s : Workspace β) : Outcome β Unit :=
  branch (labelText "failed to clear index" (attempt env.clearFault))
    (fun e => ⟨.error e, s⟩)
    fun _ =>
      let scanned := scanAndIndexVault rt env ⟨s.vault, s.db.clearIndex⟩
      ⟨(label "failed to scan and index vault" scanned.result).map fun _ => (),
        scanned.state⟩

end

end Yanta.Index
