import Yanta.Index.Indexer

/-!
# Saving a document

`Service.Save` of `internal/document/service.go`, run without interference. It
builds the document from the request, merges it with the file it replaces,
writes the file and indexes it; when indexing fails it removes the file.

The last step makes a failed update destructive. The main result says exactly
when a save that fails leaves the document file as it was.
-/

namespace Yanta.Document

open Go Yanta.Vault Index AList

structure SaveRequest where
  path : String
  projectAlias : String
  title : String
  kind : String
  blocks : List BlockNoteBlock
  scene : Option Json
  assets : List (String × String)
  tags : List String
  expectedHash : String

/-- The environment of one call: the fresh document id, the clock at each of
its stages, the modification time the file system assigns, and what the
operating system and the database driver refuse. -/
structure SaveEnv where
  docId : String
  buildTime : Time
  readTime : Time
  writeTime : Time
  indexTime : Time
  mtime : Int
  readFault : Option String
  writeFaults : WriteFaults
  indexFaults : IndexFaults
  removeFault : Option String

section

variable {β : Type} (rt : Runtime β)
variable {d : DocumentFile} {req : SaveRequest} {existing : DocumentFile} {env : SaveEnv}

/-- The path a save writes to: the request's own, or a fresh one. -/
def savePath (env : SaveEnv) (req : SaveRequest) : String :=
  if req.path = "" then
    let projectAlias := trimSpace req.projectAlias
    pathClean ("projects/" ++ projectAlias ++ "/doc-" ++
      trimPrefix projectAlias "@" ++ "-" ++ env.docId ++ ".json")
  else req.path

/-- The file the constructors make of a request of a supported kind. -/
def requestedFile (now : Time) (req : SaveRequest) : DocumentFile :=
  let projectAlias := trimSpace req.projectAlias
  if kindOf req.kind = documentKindCanvas then
    newCanvasFile rt now projectAlias req.title req.tags req.scene req.assets
  else
    { newDocumentFile rt now projectAlias req.title req.tags with
      blocks := req.blocks }

/-- The checks on the request and the construction of the file. -/
def saveBuild (now : Time) (req : SaveRequest) : Except DocError DocumentFile := do
  labelText "invalid project_alias" (validateAlias (trimSpace req.projectAlias))
  if trimSpace req.title = "" then .error (.plain "title is required")
  else if kindOf req.kind = documentKindCanvas ∨
      kindOf req.kind = documentKindDocument then
    return requestedFile rt now req
  else .error (.plain ("unsupported document kind: " ++ quote (kindOf req.kind)))

/-- What an update keeps of the file it replaces. -/
def mergedFile (docFile existing : DocumentFile) : DocumentFile :=
  { docFile with
    docMeta := { docFile.docMeta with
      created := existing.docMeta.created
      aliases := existing.docMeta.aliases } }

/-- The comparison with the existing file. -/
def saveMerge (req : SaveRequest) (docFile existing : DocumentFile) :
    Except DocError DocumentFile :=
  if kindOf existing.kind ≠ kindOf req.kind then
    .error (.plain ("cannot change document kind from " ++
      quote (kindOf existing.kind) ++ " to " ++ quote (kindOf req.kind)))
  else if req.expectedHash ≠ "" ∧
      computeFileHash rt existing ≠ req.expectedHash then
    .error Sentinel.conflict.bare
  else .ok (mergedFile docFile existing)

/-- Everything `Save` does before it writes. -/
def saveDocument (env : SaveEnv) (v : Vault β) (req : SaveRequest) :
    Except DocError DocumentFile := do
  let docFile ← saveBuild rt env.buildTime req
  if req.path = "" then return docFile
  else
    let existing ← label "reading existing document"
      (readFile rt env.readTime env.readFault v req.path)
    saveMerge rt req docFile existing

structure SaveOutcome (β : Type) where
  result : Except DocError String
  vault : Vault β
  db : Db

/-- The file is written: index it, or remove it when that fails. The result of
the removal is ignored. -/
def finishSave (env : SaveEnv) (written : Vault β) (db : Db) (docPath : String) :
    SaveOutcome β :=
  branch (label "indexing document"
      (indexDocument rt env.indexTime env.indexFaults written db docPath))
    (fun e => branch (deleteFile env.removeFault written docPath)
      (fun _ => ⟨.error e, written, db⟩)
      (fun removed => ⟨.error e, removed, db⟩))
    (fun db' => ⟨.ok docPath, written, db'⟩)

/-- `Service.Save`. -/
def save (env : SaveEnv) (v : Vault β) (db : Db) (req : SaveRequest) :
    SaveOutcome β :=
  let docPath := savePath env req
  branch (saveDocument rt env v req) (fun e => ⟨.error e, v, db⟩) fun docFile =>
    branch (label "writing document file"
        (writeFile rt env.writeTime env.mtime env.writeFaults v docPath docFile))
      (fun e => ⟨.error e, v, db⟩)
      (fun written => finishSave rt env written db docPath)

/-! ## Failed updates -/

/-- If the save fails, the file has the contents it had before. -/
def FailureKeepsFile (env : SaveEnv) (v : Vault β) (db : Db) (req : SaveRequest)
    (absPath : String) : Prop :=
  ∀ e, (save rt env v db req).result = .error e →
    ((save rt env v db req).vault.lookup absPath).map VaultFile.data =
      (v.lookup absPath).map VaultFile.data

/-- The request is turned down, or the replacement fails, before the file is
touched. -/
def RefusedBeforeWrite (env : SaveEnv) (v : Vault β) (req : SaveRequest) : Prop :=
  ∀ docFile, saveDocument rt env v req = .ok docFile → ∀ written,
    writeFile rt env.writeTime env.mtime env.writeFaults v req.path docFile ≠
      .ok written

/-- The index takes the requested document: it is archived, or it satisfies the
constraints of the database, and no call of the indexer fails. -/
def IndexTakes (env : SaveEnv) (db : Db) (req : SaveRequest) : Prop :=
  let requested := (requestedFile rt env.buildTime req).normalize rt
  env.buildTime ≤ env.indexTime + minute ∧
    env.indexFaults .read = none ∧ env.indexFaults .stat = none ∧
    env.indexFaults .beginTx = none ∧ env.indexFaults .lookup = none ∧
    (db.isArchived req.path = true ∨
      Accepts rt db req.path requested env.mtime ∧
        CleanWrite rt env.indexFaults requested)

/-- The file cannot be removed again and its new contents are the old ones. -/
def RewritesSameContents (env : SaveEnv) (req : SaveRequest) (old : β) : Prop :=
  env.removeFault ≠ none ∧ ∃ existing,
    fromJSON rt env.readTime old = .ok existing ∧
      ((mergedFile (requestedFile rt env.buildTime req) existing).normalize rt).toJSON
        rt env.writeTime = .ok old

variable {rt}

theorem saveMerge_eq_ok {docFile : DocumentFile} :
    saveMerge rt req docFile existing = .ok d ↔
      kindOf existing.kind = kindOf req.kind ∧
        (req.expectedHash = "" ∨ computeFileHash rt existing = req.expectedHash) ∧
        d = mergedFile docFile existing := by
  unfold saveMerge
  by_cases hkind : kindOf existing.kind = kindOf req.kind
  · by_cases hhash : req.expectedHash ≠ "" ∧
        computeFileHash rt existing ≠ req.expectedHash
    · simp [hkind, hhash]
    · have hor : req.expectedHash = "" ∨
          computeFileHash rt existing = req.expectedHash := by
        tauto
      rw [if_neg (not_not.mpr hkind), if_neg hhash]
      simp only [hkind, hor, true_and, Except.ok.injEq]
      exact eq_comm
  · simp [hkind]

theorem saveBuild_eq_ok {now : Time} :
    saveBuild rt now req = .ok d ↔
      validateAlias (trimSpace req.projectAlias) = .ok () ∧
        trimSpace req.title ≠ "" ∧
        (kindOf req.kind = documentKindCanvas ∨
          kindOf req.kind = documentKindDocument) ∧
        d = requestedFile rt now req := by
  simp only [saveBuild, bind_eq_ok, exists_unit, labelText_eq_ok]
  refine and_congr_right fun _ => ?_
  by_cases htitle : trimSpace req.title = ""
  · simp [htitle]
  · by_cases hkind : kindOf req.kind = documentKindCanvas ∨
        kindOf req.kind = documentKindDocument
    · rw [if_neg htitle, if_pos hkind]
      simp only [htitle, hkind, pure, Except.pure, ne_eq, not_false_eq_true,
        true_and, Except.ok.injEq]
      exact eq_comm
    · simp [htitle, hkind]

/-- What an update that reaches the write is about to store. -/
theorem saveDocument_update_eq_ok {v : Vault β} (hne : req.path ≠ "")
    (h : saveDocument rt env v req = .ok d) :
    ∃ existing, readFile rt env.readTime env.readFault v req.path = .ok existing ∧
      d = mergedFile (requestedFile rt env.buildTime req) existing := by
  simp only [saveDocument, bind_eq_ok, if_neg hne, label_eq_ok] at h
  obtain ⟨docFile, hbuild, existing, hread, hmerge⟩ := h
  obtain ⟨-, -, -, rfl⟩ := saveBuild_eq_ok.mp hbuild
  obtain ⟨-, -, rfl⟩ := saveMerge_eq_ok.mp hmerge
  exact ⟨existing, hread, rfl⟩

/-- The index reads nothing of what is taken over from the existing file. -/
theorem accepts_mergedFile {db : Db} {path : String} {mtime : Int} :
    Accepts rt db path ((mergedFile d existing).normalize rt) mtime ↔
      Accepts rt db path (d.normalize rt) mtime :=
  ⟨fun h => ⟨h.validPath, h.mtimeNonneg, h.projectExists, h.tagsNotDeleted,
      h.linksFit, h.linksShort⟩,
    fun h => ⟨h.validPath, h.mtimeNonneg, h.projectExists, h.tagsNotDeleted,
      h.linksFit, h.linksShort⟩⟩

theorem cleanWrite_mergedFile {faults : IndexFaults} :
    CleanWrite rt faults ((mergedFile d existing).normalize rt) ↔
      CleanWrite rt faults (d.normalize rt) :=
  ⟨fun h => ⟨h.writeDoc, h.fts, h.removeTags, h.addTags, h.removeLinks, h.addLinks,
      h.unlinkAssets, h.commit⟩,
    fun h => ⟨h.writeDoc, h.fts, h.removeTags, h.addTags, h.removeLinks, h.addLinks,
      h.unlinkAssets, h.commit⟩⟩

/-- Once the file is written, indexing succeeds exactly when the index takes
the requested document. -/
theorem indexDocument_written_iff (hrt : rt.Faithful) (v : Vault β) (db : Db)
    {target : String × β} (hd : d = mergedFile (requestedFile rt env.buildTime req) existing)
    (hdata : writeData rt env.writeTime env.writeFaults.mkdir req.path d =
      .ok target) :
    (∃ db', indexDocument rt env.indexTime env.indexFaults
        (v.insert target.1 ⟨target.2, env.mtime⟩) db req.path = .ok db') ↔
      IndexTakes rt env db req := by
  obtain ⟨-, -, -, hvalid, -⟩ := writeData_eq_ok.mp hdata
  obtain ⟨hc0, hu0, hcu, -, -⟩ :=
    validateTimestamps_eq_ok.mp (DocumentFile.validate_eq_ok.mp hvalid).2
  have hupdated : d.docMeta.updated = env.buildTime := by
    rw [hd]
    simp only [requestedFile]
    split <;> rfl
  have htime :
      validateTimestamps rt env.indexTime d.docMeta.created d.docMeta.updated =
        .ok () ↔ env.buildTime ≤ env.indexTime + minute := by
    rw [validateTimestamps_eq_ok]
    change d.docMeta.updated ≠ zeroTime at hu0
    change d.docMeta.created ≤ d.docMeta.updated at hcu
    rw [hupdated] at hu0 hcu ⊢
    constructor
    · exact fun h => h.2.2.2.2
    · exact fun h => ⟨hc0, hu0, hcu, hcu.trans h, h⟩
  rw [indexDocument_of_writeData_iff db env.indexFaults hrt v env.indexTime env.mtime hdata,
    Takes, htime, hd, accepts_mergedFile, cleanWrite_mergedFile, IndexTakes]

theorem save_of_written {v written : Vault β} (db : Db) (hne : req.path ≠ "")
    (hdoc : saveDocument rt env v req = .ok d)
    (hwrite : writeFile rt env.writeTime env.mtime env.writeFaults v req.path d =
      .ok written) : save rt env v db req = finishSave rt env written db req.path := by
  have hpath : savePath env req = req.path := if_neg hne
  simp [save, hdoc, hpath, label_eq_ok.mpr hwrite]

/-- A save that does not reach the write changes nothing. -/
theorem save_of_refused {v : Vault β} {db : Db} (hne : req.path ≠ "")
    (h : RefusedBeforeWrite rt env v req) : (save rt env v db req).vault = v := by
  have hpath : savePath env req = req.path := if_neg hne
  cases hdoc : saveDocument rt env v req with
  | error e => simp [save, hdoc]
  | ok d =>
    cases hwrite : writeFile rt env.writeTime env.mtime env.writeFaults v req.path d with
    | error e => simp [save, hdoc, hpath, hwrite]
    | ok written => exact absurd hwrite (h d hdoc written)

/-- What a save leaves: every file as it was, or at its own path the document it stores,
unless that was removed again. -/
theorem save_cases (hrt : rt.Faithful) (env : SaveEnv) (v : Vault β) (db : Db)
    (req : SaveRequest) :
    ((save rt env v db req).vault = v ∧ (save rt env v db req).result.isOk = false) ∨
    ∃ absPath d, documentPath (savePath env req) = .ok absPath ∧
      saveDocument rt env v req = .ok d ∧
      (∀ p, p ≠ absPath → (save rt env v db req).vault.lookup p = v.lookup p) ∧
      (((save rt env v db req).vault.lookup absPath = none ∧
          (save rt env v db req).result.isOk = false) ∨
        ∃ file, (save rt env v db req).vault.lookup absPath = some file ∧
          rt.unmarshalDocument file.data = .ok (d.normalize rt)) := by
  cases hdoc : saveDocument rt env v req with
  | error e => exact .inl (by simp [save, hdoc, Except.toBool])
  | ok d =>
    cases hwrite : writeFile rt env.writeTime env.mtime env.writeFaults v
        (savePath env req) d with
    | error e => exact .inl (by simp [save, hdoc, hwrite, Except.toBool])
    | ok written =>
      simp only [save, hdoc, label_eq_ok.mpr hwrite, branch_ok]
      obtain ⟨-, target, hdata, rfl⟩ := writeFile_eq_ok.mp hwrite
      obtain ⟨hpath, -, hjson, -, -⟩ := writeData_eq_ok.mp hdata
      have hfile : (v.insert target.1 ⟨target.2, env.mtime⟩).lookup target.1 =
          some ⟨target.2, env.mtime⟩ := lookup_insert v
      have hother : ∀ p, p ≠ target.1 →
          (v.insert target.1 ⟨target.2, env.mtime⟩).lookup p = v.lookup p :=
        fun p hp => lookup_insert_ne hp
      have hdecode := hrt.decode_encode _ _ (toJSON_eq_ok.mp hjson).2
      rw [DocumentFile.normalize_idem hrt] at hdecode
      refine .inr ⟨target.1, d, hpath, rfl, ?_⟩
      rw [finishSave]
      cases hindex : indexDocument rt env.indexTime env.indexFaults
          (v.insert target.1 ⟨target.2, env.mtime⟩) db (savePath env req) with
      | ok db' => exact ⟨hother, .inr ⟨_, hfile, hdecode⟩⟩
      | error e =>
        cases hdelete : deleteFile env.removeFault
            (v.insert target.1 ⟨target.2, env.mtime⟩) (savePath env req) with
        | error e' => exact ⟨hother, .inr ⟨_, hfile, hdecode⟩⟩
        | ok removed =>
          obtain ⟨-, rfl⟩ := (deleteFile_eq_ok hpath hfile).mp hdelete
          refine ⟨fun p hp => ?_, .inl ⟨lookup_erase _ _, rfl⟩⟩
          exact (lookup_erase_ne hp).trans (hother p hp)

/-- After an index failure the file is gone, unless it could not be removed; then
it has the new contents. -/
theorem failureKeepsFile_of_index_error {v : Vault β} {db : Db} {absPath : String} {data : β}
    {old : VaultFile β} {e : DocError} (hpath : documentPath req.path = .ok absPath)
    (hold : v.lookup absPath = some old) (hdoc : saveDocument rt env v req = .ok d)
    (hwrite : writeFile rt env.writeTime env.mtime env.writeFaults v req.path d =
      .ok (v.insert absPath ⟨data, env.mtime⟩))
    (hres : indexDocument rt env.indexTime env.indexFaults
      (v.insert absPath ⟨data, env.mtime⟩) db req.path = .error e) :
    FailureKeepsFile rt env v db req absPath ↔
      env.removeFault ≠ none ∧ data = old.data := by
  have hfile : (v.insert absPath ⟨data, env.mtime⟩).lookup absPath =
      some ⟨data, env.mtime⟩ := lookup_insert v
  have hsave := save_of_written db (ne_empty_of_documentPath hpath) hdoc hwrite
  simp only [finishSave, hres] at hsave
  cases hdelete : deleteFile env.removeFault
      (v.insert absPath ⟨data, env.mtime⟩) req.path with
  | ok removed =>
    obtain ⟨hfault, rfl⟩ := (deleteFile_eq_ok hpath hfile).mp hdelete
    rw [hdelete] at hsave
    simp [FailureKeepsFile, hsave, hold, hfault]
  | error e' =>
    have hfault : env.removeFault ≠ none := by
      intro hnone
      rw [(deleteFile_eq_ok hpath hfile).mpr ⟨hnone, rfl⟩] at hdelete
      cases hdelete
    rw [hdelete] at hsave
    simp [FailureKeepsFile, hsave, hold, hfault]

/-- A failed update leaves the document file as it was exactly when the request
is refused before the write, or the index takes the requested document (so the
save does not fail after the write), or the file cannot be removed and was
rewritten with its old contents. -/
theorem save_failure_keeps_file_iff
    (hrt : rt.Faithful) (env : SaveEnv) (v : Vault β) (db : Db)
    (req : SaveRequest) (absPath : String) (old : VaultFile β)
    (hpath : documentPath req.path = .ok absPath)
    (hold : v.lookup absPath = some old) :
    FailureKeepsFile rt env v db req absPath ↔
      RefusedBeforeWrite rt env v req ∨ IndexTakes rt env db req ∨
        RewritesSameContents rt env req old.data := by
  have hne := ne_empty_of_documentPath hpath
  by_cases hrefused : RefusedBeforeWrite rt env v req
  · refine ⟨fun _ => .inl hrefused, fun _ e _ => ?_⟩
    rw [save_of_refused hne hrefused]
  · obtain ⟨d, hdoc, written, hwrite⟩ : ∃ d, ∃ _ : saveDocument rt env v req = .ok d,
        ∃ written, writeFile rt env.writeTime env.mtime env.writeFaults v req.path d =
          .ok written := by
      simpa only [RefusedBeforeWrite, not_forall, not_not] using hrefused
    obtain ⟨existing, hread, hd⟩ := saveDocument_update_eq_ok hne hdoc
    obtain ⟨hreplace, target, hdata, rfl⟩ := writeFile_eq_ok.mp hwrite
    obtain ⟨hpath', -, hjson, -, -⟩ := writeData_eq_ok.mp hdata
    rw [hpath] at hpath'
    cases hpath'
    have hindex := indexDocument_written_iff hrt v db hd hdata
    cases hres : indexDocument rt env.indexTime env.indexFaults
        (v.insert target.1 ⟨target.2, env.mtime⟩) db req.path with
    | ok db' =>
      -- The save succeeds, so there is no failure to speak of.
      refine ⟨fun _ => .inr (.inl (hindex.mp ⟨db', hres⟩)), fun _ e he => ?_⟩
      rw [save_of_written db hne hdoc hwrite, finishSave, label_eq_ok.mpr hres] at he
      cases he
    | error e =>
      have hnot : ¬ IndexTakes rt env db req := by
        intro htakes
        obtain ⟨db', hok⟩ := hindex.mpr htakes
        rw [hres] at hok
        cases hok
      obtain ⟨absPath', file, hpath', hlookup, -, -, hexisting⟩ :=
        readFile_eq_ok.mp hread
      rw [hpath] at hpath'
      cases hpath'
      rw [hold] at hlookup
      cases hlookup
      rw [failureKeepsFile_of_index_error hpath hold hdoc hwrite hres]
      simp only [hrefused, hnot, false_or, RewritesSameContents, hexisting,
        Except.ok.injEq, exists_eq_left']
      rw [← hd, hjson, Except.ok.injEq]

end

/-! ## An update that destroys the document -/

namespace SampleSave

/-- The document that is in the vault. -/
def document : DocumentFile where
  docMeta :=
    { project := "@demo", title := "Old", tags := [], aliases := [], created := 0
      updated := 0 }
  kind := documentKindDocument
  scene := none
  blocks := []
  assets := []

def path : String := "projects/@demo/doc.json"

def vault : Vault DocumentFile := (∅ : Vault DocumentFile).insert path ⟨document, 0⟩

/-- The project is there, and the tag `todo` was soft-deleted. -/
def db : Db :=
  { Db.empty with
    project :=
      [{ id := "1", projectAlias := "@demo", name := "Demo", startDate := ""
         endDate := "", deleted := false }]
    tag := fun name => if name = "todo" then some ⟨true⟩ else none }

/-- An update of the title that also sets the tag `todo`. -/
def request : SaveRequest where
  path := path
  projectAlias := "@demo"
  title := "New"
  kind := ""
  blocks := []
  scene := none
  assets := []
  tags := ["todo"]
  expectedHash := ""

/-- A call during which nothing outside the model fails. -/
def env : SaveEnv where
  docId := ""
  buildTime := 0
  readTime := 0
  writeTime := 0
  indexTime := 0
  mtime := 0
  readFault := none
  writeFaults := .none
  indexFaults := .none
  removeFault := none

end SampleSave

open SampleSave

theorem save_failure_keeps_file_sample :
    FailureKeepsFile plainRuntime env vault db
        request path ↔
      RefusedBeforeWrite plainRuntime env vault
          request ∨
        IndexTakes plainRuntime env db request ∨
        RewritesSameContents plainRuntime env request
          document :=
  save_failure_keeps_file_iff plainRuntime_faithful env vault
    db request path ⟨document, 0⟩
    (by decide +kernel) (lookup_insert ∅)

/-- Setting a soft-deleted tag makes indexing fail, and the document is gone. -/
theorem save_failure_destroys_document :
    ¬ FailureKeepsFile plainRuntime env vault db
      request path := by
  intro hkeep
  have hfailed : (save plainRuntime env vault
      db request).result.isOk = false := by
    decide +kernel
  have hgone : ((save plainRuntime env vault db
      request).vault.lookup path).isNone = true := by
    decide +kernel
  cases hresult : (save plainRuntime env vault
      db request).result with
  | ok docPath =>
    rw [hresult] at hfailed
    cases hfailed
  | error e =>
    have hsame := congrArg Option.isSome (hkeep e hresult)
    rw [Option.isNone_iff_eq_none.mp hgone] at hsame
    cases hsame

end Yanta.Document
