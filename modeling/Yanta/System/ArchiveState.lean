import Yanta.System.Commands

/-!
# The archive across a rebuild of the index

`ReindexDatabase` clears the document rows and scans the vault again. The mark
of an archived document is kept in the rows that are cleared and nowhere else,
so the document comes back active; and the project scan does not see archived
rows, so it tries to create an archived project a second time and fails. The
main result is that nothing else goes wrong: after any run of commands, if the
files can be read, the rebuild keeps the archive state exactly when there is no
archive.
-/

namespace Yanta.System

open Go Vault Document Index Project Support Option

/-- The clearing transaction and the calls of the indexer work, and the ids that
the scan draws for projects are new and different. -/
structure QuietScan (env : ScanEnv) (db : Db) : Prop where
  clear : env.clearFault = none
  faults : ∀ path, env.faults path = .none
  injective : Function.Injective env.projectId
  fresh : ∀ p ∈ db.project, ∀ a, p.id ≠ env.projectId a

section

variable {β : Type} (rt : VaultRuntime β)
variable {s : Workspace β} {env : ScanEnv}

/-- The document and metadata files of the vault can be read when the scan
comes to them. -/
def Readable (env : ScanEnv) (v : Vault β) : Prop :=
  (∀ path ∈ documentPaths v, ∃ docFile,
    readFile rt.toRuntime (env.clock path) none v path = .ok docFile) ∧
  ∀ a ∈ projectDirs v, projectMetadataExists v a = true →
    ∃ metadata, readProjectMetadata rt v a = .ok metadata

/-- The rebuild succeeds and changes neither which documents are active and
which are archived nor which projects are archived. -/
def KeepsArchiveState (env : ScanEnv) (s : Workspace β) : Prop :=
  (reindexDatabase rt env s).result = .ok () ∧
    (∀ path, (reindexDatabase rt env s).state.db.isActive path = s.db.isActive path) ∧
    (∀ path,
      (reindexDatabase rt env s).state.db.isArchived path = s.db.isArchived path) ∧
    ∀ p : ProjectRow, p.deleted = true →
      (p ∈ (reindexDatabase rt env s).state.db.project ↔ p ∈ s.db.project)

/-- A call succeeds. -/
def succeeds {ε α : Type} (x : Except ε α) : Bool :=
  branch x (fun _ => false) fun _ => true

theorem succeeds_iff {ε α : Type} {x : Except ε α} :
    succeeds x = true ↔ ∃ a, x = .ok a := by
  cases x <;> simp [succeeds]

instance (env : ScanEnv) (v : Vault β) : Decidable (Readable rt env v) :=
  decidable_of_iff
    ((∀ path ∈ documentPaths v,
        succeeds (readFile rt.toRuntime (env.clock path) none v path) = true) ∧
      ∀ a ∈ projectDirs v, projectMetadataExists v a = true →
        succeeds (readProjectMetadata rt v a) = true)
    (by simp only [succeeds_iff, Readable])

variable {rt}

theorem fromJSON_unique {t t' : Time} {data : β} {d d' : DocumentFile}
    (h : fromJSON rt.toRuntime t data = .ok d)
    (h' : fromJSON rt.toRuntime t' data = .ok d') : d = d' := by
  obtain ⟨_, hread, hnormal, -⟩ := fromJSON_eq_ok.mp h
  obtain ⟨_, hread', hnormal', -⟩ := fromJSON_eq_ok.mp h'
  rw [hread] at hread'
  cases hread'
  exact hnormal.symm.trans hnormal'

theorem mem_keys_iff {v : Vault β} {key : String} :
    key ∈ v.keys ↔ (v.lookup key).isSome = true :=
  AList.lookup_isSome.symm

section

variable (h : Consistent rt.toRuntime s)

include h

/-- In a consistent workspace the scan finds the documents that have a row. -/
theorem Consistent.mem_documentPaths_iff {vault : Vault β}
    (hvault : ∀ key, isDocumentKey key = true → vault.lookup key = s.vault.lookup key)
    {path : String} :
    path ∈ documentPaths vault ↔ (s.db.doc.lookup path).isSome = true := by
  have hkeep : ∀ key, isDocumentKey key = true → (s.vault.lookup key).isSome = true →
      normalizeDocumentPath (pathClean key) = key := by
    intro key hkey hsome
    obtain ⟨row, hrow⟩ := isSome_iff_exists.mp (h.files key hkey hsome)
    have hplaced := (h.rows key row hrow).placed
    rw [hplaced.clean, hplaced.normal]
  rw [mem_documentPaths]
  constructor
  · rintro ⟨-, key, hmem, hkey, hpath⟩
    rw [mem_keys_iff, hvault key hkey] at hmem
    rw [hpath, hkeep key hkey hmem]
    exact h.files key hkey hmem
  · intro hsome
    obtain ⟨row, hrow⟩ := isSome_iff_exists.mp hsome
    obtain ⟨hplaced, file, -, -, hfile, -, -, -⟩ := h.rows path row hrow
    refine ⟨ne_empty_of_documentPath hplaced.resolves, path, ?_, hplaced.isKey, ?_⟩
    · rw [mem_keys_iff, hvault path hplaced.isKey, hfile]
      rfl
    · rw [hplaced.clean, hplaced.normal]

theorem Consistent.validateAlias_of_mem_projectDirs {a : String}
    (ha : a ∈ projectDirs s.vault) : validateAlias a = .ok () := by
  obtain ⟨-, key, hkey, name, rest, hsplit⟩ := mem_projectDirs.mp ha
  obtain ⟨a', name', hvalid, hsplit'⟩ := h.dirs key (mem_keys_iff.mp hkey)
  rw [hsplit'] at hsplit
  obtain ⟨-, rfl, -, -⟩ : "projects" = "projects" ∧ a' = a ∧ name' = name ∧ [] = rest := by
    simpa using hsplit
  exact hvalid

/-- The directory of a project is there. -/
theorem Consistent.mem_projectDirs_of_mem {p : ProjectRow} (hp : p ∈ s.db.project) :
    p.projectAlias ∈ projectDirs s.vault := by
  obtain ⟨hvalid, hmeta⟩ := h.projects p hp
  obtain ⟨content, hcontent, -, -⟩ := validateAlias_chars hvalid
  exact mem_projectDirs.mpr ⟨by simp [hasPrefix, hcontent], _, mem_keys_iff.mpr hmeta, _, _,
    metadataPath_spec hvalid⟩

/-- An archived project blocks its alias. -/
theorem Consistent.blocked {p : ProjectRow} (hp : p ∈ s.db.project)
    (hdel : p.deleted = true) : Blocked s.db p.projectAlias := by
  refine ⟨hasProject_eq_true_iff.mpr ⟨p, hp, rfl⟩, ?_⟩
  rw [getProjectByAlias_eq_none]
  intro q hq hqa
  have hsymm : Std.Symm fun p q : ProjectRow => p.projectAlias ≠ q.projectAlias :=
    ⟨fun _ _ hne => hne.symm⟩
  by_cases heq : q = p
  · rw [heq]
    exact hdel
  · exact absurd hqa (h.aliases.forall hq hp heq)

end

/-! ## What the rebuild comes to -/

/-- The rebuild, once the index is cleared. -/
theorem reindexDatabase_eq (hclear : env.clearFault = none) :
    reindexDatabase rt env s =
      ⟨(label "failed to scan and index vault"
          (scanAndIndexVault rt env ⟨s.vault, s.db.clearIndex⟩).result).map fun _ => (),
        (scanAndIndexVault rt env ⟨s.vault, s.db.clearIndex⟩).state⟩ := by
  rw [reindexDatabase, hclear]
  rfl

/-- The parts of a rebuild that comes to its end. -/
theorem reindexDatabase_eq_ok (hclear : env.clearFault = none)
    (h : (reindexDatabase rt env s).result = .ok ()) :
    ∃ t : Workspace β,
      scanProjects rt env (projectDirs s.vault) ⟨s.vault, s.db.clearIndex⟩ = ⟨.ok (), t⟩ ∧
      (reindexDatabase rt env s).state = ⟨t.vault, indexAllJournals rt t.vault
        (indexDocuments rt env t.vault (documentPaths t.vault) [] t.db).2⟩ := by
  rw [reindexDatabase_eq hclear, scanAndIndexVault, scanAndIndexProjects] at h ⊢
  cases hprojects : scanProjects rt env (projectDirs s.vault) ⟨s.vault, s.db.clearIndex⟩ with
  | mk result t =>
    rw [hprojects] at h
    cases result with
    | error e => cases h
    | ok u =>
      refine ⟨t, rfl, ?_⟩
      dsimp only at h ⊢
      cases hdocs : (indexDocuments rt env t.vault (documentPaths t.vault) [] t.db).1 with
      | error e =>
        rw [hdocs] at h
        cases h
      | ok found => rfl

theorem indexAllJournals_doc (v : Vault β) (db : Db) :
    (indexAllJournals rt v db).doc = db.doc ∧
      (indexAllJournals rt v db).project = db.project := by
  rw [indexAllJournals_eq]
  exact ⟨rfl, rfl⟩

/-- After a rebuild nothing is archived, whatever was archived before. -/
theorem not_isArchived_of_reindexDatabase (hclear : env.clearFault = none)
    (h : (reindexDatabase rt env s).result = .ok ()) (path : String) :
    (reindexDatabase rt env s).state.db.isArchived path = false := by
  obtain ⟨t, hprojects, hstate⟩ := reindexDatabase_eq_ok hclear h
  have honly := projectsOnly_scanProjects rt env (projectDirs s.vault)
    ⟨s.vault, s.db.clearIndex⟩
  rw [hprojects] at honly
  have hempty : ∀ p, t.db.isArchived p = false := by
    intro p
    rw [honly.db]
    rfl
  rw [hstate, Db.isArchived, (indexAllJournals_doc t.vault _).1]
  exact indexDocuments_isArchived hempty path

/-- An archived project makes the rebuild fail. -/
theorem Consistent.reindexDatabase_error (h : Consistent rt.toRuntime s)
    (hclear : env.clearFault = none) {p : ProjectRow} (hp : p ∈ s.db.project)
    (hdel : p.deleted = true) : (reindexDatabase rt env s).result ≠ .ok () := by
  obtain ⟨e, he⟩ : ∃ e, (scanProjects rt env (projectDirs s.vault)
      ⟨s.vault, s.db.clearIndex⟩).result = .error e :=
    scanProjects_blocked (h.blocked hp hdel) (h.mem_projectDirs_of_mem hp)
  intro hok
  obtain ⟨t, hprojects, -⟩ := reindexDatabase_eq_ok hclear hok
  rw [hprojects] at he
  cases he

/-- Without an archive a scan of readable files finds every document again. -/
theorem Consistent.scanAndIndexVault_ok (h : Consistent rt.toRuntime s)
    (hquiet : QuietScan env s.db) (hread : Readable rt env s.vault)
    (hactive : ∀ p ∈ s.db.project, p.deleted = false) :
    ∃ s', scanAndIndexVault rt env ⟨s.vault, s.db.clearIndex⟩ = ⟨.ok [], s'⟩ ∧
      (∀ p ∈ s'.db.project, p.deleted = false) ∧
      ∀ path, s'.db.isActive path = true ↔ (s.db.doc.lookup path).isSome = true := by
  have hready : ProjectsReady env s.db.clearIndex := by
    refine ⟨hactive, fun p hp => (h.projects p hp).1, ?_⟩
    intro p hp a hid
    exact absurd hid (hquiet.fresh p hp a)
  obtain ⟨t, hprojects, honly, hready'⟩ := scanProjects_ok hquiet.injective
    (s := ⟨s.vault, s.db.clearIndex⟩) (projectDirs_nodup s.vault) hready
    (fun a ha => h.validateAlias_of_mem_projectDirs ha) hread.2
  have hpaths : ∀ path ∈ documentPaths t.vault, Indexable rt env t.vault t.db path := by
    intro path hpath
    have hsome := (h.mem_documentPaths_iff honly.documents).mp hpath
    obtain ⟨row, hrow⟩ := isSome_iff_exists.mp hsome
    obtain ⟨hplaced, file, docFile, now, hfile, hjson, hproj, hacc⟩ := h.rows path row hrow
    obtain ⟨found, hfound⟩ := hread.1 path ((h.mem_documentPaths_iff fun _ _ => rfl).mpr hsome)
    obtain ⟨absPath, file', hpath', hfile', hsize, -, hjson'⟩ := readFile_eq_ok.mp hfound
    rw [hplaced.resolves] at hpath'
    cases hpath'
    rw [hfile] at hfile'
    cases hfile'
    obtain rfl := fromJSON_unique hjson hjson'
    refine ⟨path, file, docFile, hplaced.resolves, ?_, hsize, hjson', ?_⟩
    · rw [honly.documents path hplaced.isKey]
      exact hfile
    · refine accepts_mono hacc (honly.keeps _ hacc.projectExists) ?_
      rw [honly.db]
      rfl
  have harch : ∀ p, t.db.isArchived p = false := by
    intro p
    rw [honly.db]
    rfl
  have hnone : ∀ p, t.db.isActive p = false := by
    intro p
    rw [honly.db]
    rfl
  obtain ⟨db, hdocs, hproject, hdb⟩ : ∃ db,
      indexDocuments rt env t.vault (documentPaths t.vault) [] t.db = (.ok [], db) ∧
        db.project = t.db.project ∧ ∀ path, db.isActive path = true ↔
          t.db.isActive path = true ∨ path ∈ documentPaths t.vault :=
    indexDocuments_ok hquiet.faults harch hpaths
  refine ⟨⟨t.vault, indexAllJournals rt t.vault db⟩, ?_, ?_, ?_⟩
  · rw [scanAndIndexVault, scanAndIndexProjects, hprojects]
    simp only [hdocs]
    rfl
  · simp only [(indexAllJournals_doc t.vault db).2, hproject]
    exact hready'.active
  · intro path
    simp only [Db.isActive, (indexAllJournals_doc t.vault db).1]
    rw [← Db.isActive, hdb, hnone path, ← h.mem_documentPaths_iff honly.documents]
    simp

/-- After every run of commands, if the files can be read, a rebuild of the index
keeps the archive state exactly when nothing is archived. -/
theorem reindexDatabase_keeps_archive_iff
    (rt : VaultRuntime β) (cs : List Command) (s : Workspace β)
    (hrun : run (step rt) Workspace.empty cs = some s) (env : ScanEnv)
    (hquiet : QuietScan env s.db) (hread : Readable rt env s.vault) :
    KeepsArchiveState rt env s ↔
      (∀ path, s.db.isArchived path = false) ∧
        ∀ p ∈ s.db.project, p.deleted = false := by
  have h := consistent_run hrun
  constructor
  · rintro ⟨hok, -, harch, -⟩
    constructor
    · intro path
      rw [← harch]
      exact not_isArchived_of_reindexDatabase hquiet.clear hok path
    · intro p hp
      by_contra hdel
      exact h.reindexDatabase_error hquiet.clear hp (by simpa using hdel) hok
  · rintro ⟨hdocs, hprojects⟩
    obtain ⟨s', hscan, hprojects', hactive⟩ := h.scanAndIndexVault_ok hquiet hread hprojects
    have hresult : reindexDatabase rt env s = ⟨.ok (), s'⟩ := by
      rw [reindexDatabase_eq hquiet.clear, hscan]
      rfl
    refine ⟨by rw [hresult], ?_, ?_, ?_⟩
    · intro path
      rw [hresult, Bool.eq_iff_iff, hactive]
      cases hrow : s.db.doc.lookup path with
      | none => simp [Db.isActive, hrow]
      | some row =>
        have hlive := hdocs path
        simp only [Db.isArchived, hrow, any_some] at hlive
        simp [Db.isActive, hrow, hlive]
    · intro path
      rw [hdocs path]
      exact not_isArchived_of_reindexDatabase hquiet.clear (by rw [hresult]) path
    · intro p hdel
      rw [hresult]
      constructor
      · intro hp
        rw [hprojects' p hp] at hdel
        cases hdel
      · intro hp
        rw [hprojects p hp] at hdel
        cases hdel

end

/-! ## A rebuild that forgets the archive -/

namespace SampleArchive

inductive Contents where
  | document (d : DocumentFile)
  | metadata (m : ProjectMetadata)

/-- Files hold their values as they are. -/
def runtime : VaultRuntime Contents where
  lower := id
  size _ := 0
  marshalDocument d := .ok (.document d)
  unmarshalDocument
    | .document d => .ok d
    | .metadata _ => .error "not a document"
  hashDocument d := d.docMeta.title
  rawSize _ := 0
  parseURL _ := none
  formatRFC3339 _ := ""
  formatRFC3339Nano _ := ""
  parsesRFC3339Nano _ := true
  upper := id
  isLetter _ := true
  isNumber _ := false
  marshalMetadata := .metadata
  unmarshalMetadata
    | .document _ => .error "not metadata"
    | .metadata m => .ok m
  unmarshalJournal _ := .error "not a journal"

def draw : DocumentDraw where
  id := ⟨"000000000001", by decide, by decide⟩
  buildTime := 0
  writeTime := 0
  indexTime := 0
  mtime := 0

def request : SaveRequest where
  path := ""
  projectAlias := "@ab"
  title := "A"
  kind := "document"
  blocks := []
  scene := none
  assets := []
  tags := []
  expectedHash := ""

/-- A project with one document. -/
def commands : List Command :=
  [.createProject ⟨"1", 0, 0⟩ "Ab" "@ab" "" "", .createDocument draw request]

def path : String := "projects/@ab/doc-ab-000000000001.json"

def after (cs : List Command) : Workspace Contents :=
  (run (step runtime) Workspace.empty cs).getD Workspace.empty

def env : ScanEnv where
  clock _ := 0
  faults _ := .none
  projectId a := "@" ++ a
  now := 0
  mtime := 0
  clearFault := none

theorem run_eq_after {cs : List Command}
    (h : (run (step runtime) Workspace.empty cs).isSome = true) :
    run (step runtime) Workspace.empty cs = some (after cs) := by
  obtain ⟨s, hs⟩ := isSome_iff_exists.mp h
  rw [after, hs, getD_some]

theorem run_commands : run (step runtime) Workspace.empty commands =
    some (after commands) :=
  run_eq_after (by decide +kernel)

/-- Archiving leaves the files alone. -/
theorem after_archive_vault (path : String) :
    (after (commands ++ [.archiveDocument path])).vault = (after commands).vault := by
  have hstep : run (step runtime) Workspace.empty
      (commands ++ [.archiveDocument path]) = some (orUnchangedDb (after commands)
        (Document.archive (after commands).db path)) := by
    rw [run_append, run_commands]
    rfl
  rw [after, hstep, getD_some, orUnchangedDb_vault]

theorem readable_after_commands : Readable runtime env (after commands).vault := by
  decide +kernel

/-- The scan's ids start with an at sign, those of the sample do not. -/
theorem quietScan_of_ids {db : Db} (h : ∀ p ∈ db.project, p.id = "1") :
    QuietScan env db where
  clear := rfl
  faults _ := rfl
  injective a b hab := (String.append_right_inj "@").mp hab
  fresh p hp a hid := by
    rw [h p hp] at hid
    have hlist := congrArg (fun s => s.toList.head?) hid
    simp [env] at hlist

/-- The rows after the commands. -/
theorem rows_after_commands :
    (∀ p ∈ (after commands).db.project, p.id = "1" ∧ p.deleted = false) ∧
      ∀ row ∈ (after commands).db.doc.entries, row.2.deleted = false := by
  decide +kernel

/-- The rows after the document is archived. -/
theorem rows_after_archive :
    (run (step runtime) Workspace.empty
        (commands ++ [.archiveDocument path])).isSome = true ∧
      (∀ p ∈ (after (commands ++ [.archiveDocument path])).db.project, p.id = "1") ∧
      (after (commands ++ [.archiveDocument path])).db.isArchived path = true := by
  decide +kernel

end SampleArchive

open SampleArchive in
/-- With one active document in one active project the rebuild keeps the
archive state. -/
theorem reindexDatabase_keeps_archive_sample :
    KeepsArchiveState runtime env (after commands) := by
  refine (reindexDatabase_keeps_archive_iff runtime commands (after commands)
    run_commands env (quietScan_of_ids fun p hp => (rows_after_commands.1 p hp).1)
    readable_after_commands).mpr ⟨?_, fun p hp => (rows_after_commands.1 p hp).2⟩
  intro path
  cases hrow : (after commands).db.doc.lookup path with
  | none => simp [Db.isArchived, hrow]
  | some row =>
    simpa [Db.isArchived, hrow] using
      rows_after_commands.2 ⟨path, row⟩ (AList.mem_lookup_iff.mp hrow)

open SampleArchive in
/-- A document is created and archived; all files can be read, and yet the
rebuild does not keep the archive state. -/
theorem reindexDatabase_forgets_archive :
    run (step runtime) Workspace.empty (commands ++ [.archiveDocument path]) =
        some (after (commands ++ [.archiveDocument path])) ∧
      QuietScan env (after (commands ++ [.archiveDocument path])).db ∧
      Readable runtime env (after (commands ++ [.archiveDocument path])).vault ∧
      (after (commands ++ [.archiveDocument path])).db.isArchived path = true ∧
      ¬ KeepsArchiveState runtime env (after (commands ++ [.archiveDocument path])) := by
  obtain ⟨hrun, hids, harch⟩ := rows_after_archive
  refine ⟨run_eq_after hrun, quietScan_of_ids hids, ?_, harch, ?_⟩
  · rw [after_archive_vault]
    exact readable_after_commands
  · rintro ⟨hok, -, hkeeps, -⟩
    have hforgets := not_isArchived_of_reindexDatabase rfl hok path
    rw [hkeeps, harch] at hforgets
    cases hforgets

open SampleArchive

end Yanta.System
