import Yanta.Support.Runs
import Yanta.System.Consistency

/-!
# Runs of commands on projects and documents

The system a user drives by creating, archiving, restoring and deleting projects
and documents. A command that fails changes nothing; the operating system and
the database driver are taken to work. Every state that such a run reaches is
consistent.
-/

namespace Yanta.System

open Go Vault Document Index Project Support List AList

variable {projectAlias : String} {req : SaveRequest}

/-- What a new document draws: its random id, the clock at each stage and the
file system's time. -/
structure DocumentDraw where
  id : DocumentId
  buildTime : Time
  writeTime : Time
  indexTime : Time
  mtime : Int

/-- A save whose calls all work. -/
def DocumentDraw.env (draw : DocumentDraw) : SaveEnv where
  docId := draw.id.text
  buildTime := draw.buildTime
  readTime := draw.buildTime
  writeTime := draw.writeTime
  indexTime := draw.indexTime
  mtime := draw.mtime
  readFault := none
  writeFaults := .none
  indexFaults := .none
  removeFault := none

inductive Command where
  | createProject (env : ProjectEnv) (name projectAlias startDate endDate : String)
  | archiveProject (id : String)
  | restoreProject (id : String)
  | deleteProject (id : String)
  | hardDeleteProject (id : String)
  | createDocument (draw : DocumentDraw) (req : SaveRequest)
  | archiveDocument (path : String)
  | archiveDocumentsOf (projectAlias : String)
  | restoreDocument (now : Time) (path : String)
  | deleteDocument (path : String)
  | deleteDocuments (paths : List String)
  | deleteDocumentsOf (projectAlias : String)

section

variable {β : Type} (rt : VaultRuntime β)
variable {s s' : Workspace β} {path : String}

/-- The state after a command that may fail. -/
def orUnchanged {ε : Type} (s : Workspace β) (x : Except ε (Workspace β)) :
    Workspace β :=
  branch x (fun _ => s) id

/-- The state after a command on the database that may fail. -/
def orUnchangedDb {ε : Type} (s : Workspace β) (x : Except ε Db) : Workspace β :=
  branch x (fun _ => s) fun db => ⟨s.vault, db⟩

theorem orUnchangedDb_vault {ε : Type} (s : Workspace β) (x : Except ε Db) :
    (orUnchangedDb s x).vault = s.vault := by
  cases x <;> rfl

/-- A random UUID does not name a file that is already there, so a new document
never meets one. -/
def step (s : Workspace β) : Command → Option (Workspace β)
  | .createProject env name projectAlias startDate endDate =>
    some (orUnchanged s (create rt env s name projectAlias startDate endDate))
  | .archiveProject id => some (orUnchangedDb s (Project.archive s.db id))
  | .restoreProject id => some (orUnchangedDb s (Project.restore s.db id))
  | .deleteProject id => some (orUnchangedDb s (Project.delete s.db id))
  | .hardDeleteProject id => some (orUnchangedDb s (Project.hardDelete s.db id))
  | .createDocument draw req =>
    let req := { req with path := "" }
    if (s.vault.lookup (savePath draw.env req)).isSome then none
    else
      let saved := save rt.toRuntime draw.env s.vault s.db req
      some ⟨saved.vault, saved.db⟩
  | .archiveDocument path => some (orUnchangedDb s (Document.archive s.db path))
  | .archiveDocumentsOf projectAlias =>
    some (orUnchangedDb s (archiveByProject s.db projectAlias))
  | .restoreDocument now path =>
    some (orUnchanged s (Document.restore rt.toRuntime now .none s path))
  | .deleteDocument path => some (orUnchanged s (Document.hardDelete none s path))
  | .deleteDocuments paths =>
    some (orUnchanged s (hardDeleteBatch (fun _ => none) s paths))
  | .deleteDocumentsOf projectAlias =>
    some (orUnchanged s (hardDeleteByProject (fun _ => none) s projectAlias))

variable {rt}

section

variable (h : Consistent rt.toRuntime s)

include h

theorem consistent_orUnchanged {ε : Type} {x : Except ε (Workspace β)}
    (hstep : some (orUnchanged s x) = some s')
    (hx : ∀ s', x = .ok s' → Consistent rt.toRuntime s') : Consistent rt.toRuntime s' := by
  rw [← Option.some.inj hstep]
  cases x with
  | error e => exact h
  | ok s' => exact hx s' rfl

theorem consistent_orUnchangedDb {ε : Type} {x : Except ε Db}
    (hstep : some (orUnchangedDb s x) = some s')
    (hx : ∀ db, x = .ok db → Consistent rt.toRuntime ⟨s.vault, db⟩) :
    Consistent rt.toRuntime s' := by
  rw [← Option.some.inj hstep]
  cases x with
  | error e => exact h
  | ok db => exact hx db rfl

/-! ## Projects -/

theorem Consistent.projectOf {row : DocRow} (hrow : s.db.doc.lookup path = some row) :
    ∃ p ∈ s.db.project, p.projectAlias = row.projectAlias := by
  obtain ⟨-, file, docFile, now, -, -, hproj, hacc⟩ := h.rows path row hrow
  obtain ⟨p, hp, hpa⟩ := hasProject_eq_true_iff.mp hacc.projectExists
  exact ⟨p, hp, hpa.trans hproj.symm⟩

theorem consistent_create {env : ProjectEnv} {name startDate endDate : String}
    (hcreate : create rt env s name projectAlias startDate endDate = .ok s') :
    Consistent rt.toRuntime s' := by
  obtain ⟨p, file, hvalid, hfree, rfl⟩ := create_eq_ok hcreate
  have hfresh := hasProject_eq_false_iff.mp hfree
  apply h.setProjects
  · intro q hq
    rcases mem_append.mp hq with hq | hq
    · obtain ⟨hqv, hqm⟩ := h.projects q hq
      refine ⟨hqv, ?_⟩
      have hne : metadataPath q.projectAlias ≠ metadataPath p.projectAlias :=
        fun heq => hfresh q hq (metadataPath_injective hqv hvalid heq)
      rw [lookup_insert_ne hne]
      exact hqm
    · obtain rfl : q = p := by simpa using hq
      exact ⟨hvalid, by rw [lookup_insert]; rfl⟩
  · rw [pairwise_append]
    refine ⟨h.aliases, pairwise_singleton _ _, ?_⟩
    intro q hq q' hq'
    obtain rfl : q' = p := by simpa using hq'
    exact hfresh q hq
  · intro path row hrow
    obtain ⟨q, hq, hqa⟩ := h.projectOf hrow
    exact ⟨q, by simp [hq], hqa⟩
  · intro key hkey
    by_cases heq : key = metadataPath p.projectAlias
    · exact ⟨p.projectAlias, projectMetadataFileName, hvalid, heq ▸ metadataPath_spec hvalid⟩
    · rw [lookup_insert_ne heq] at hkey
      exact h.dirs key hkey
  · intro key hkey
    apply lookup_insert_ne
    rintro rfl
    rw [not_isDocumentKey_metadataPath hvalid] at hkey
    cases hkey

theorem consistent_projectChange {db : Db} (hchange : ProjectChange s.db db) :
    Consistent rt.toRuntime ⟨s.vault, db⟩ := by
  cases hchange with
  | marked cond deleted =>
    have hmark : ∀ p : ProjectRow,
        (if cond p then setMark deleted p else p).projectAlias = p.projectAlias := by
      intro p
      split <;> rfl
    apply h.setProjects _ _ _ h.dirs (fun _ _ => rfl)
    · intro p' hp'
      obtain ⟨p, hp, rfl⟩ := mem_map.mp hp'
      rw [hmark]
      exact h.projects p hp
    · rw [pairwise_map]
      simp only [hmark]
      exact h.aliases
    · intro path row hdoc
      obtain ⟨p, hp, hpa⟩ := h.projectOf hdoc
      exact ⟨_, mem_map_of_mem hp, by rw [hmark, hpa]⟩
  | removed id unused =>
    apply h.setProjects _ _ _ h.dirs (fun _ _ => rfl)
    · intro p hp
      exact h.projects p (mem_of_mem_filter hp)
    · exact h.aliases.filter _
    · intro path row hdoc
      obtain ⟨p, hp, hpa⟩ := h.projectOf hdoc
      refine ⟨p, mem_filter.mpr ⟨hp, ?_⟩, hpa⟩
      by_contra hid
      have hused : hasDocuments s.db p.projectAlias = true := by
        rw [hasDocuments, any_eq_true]
        exact ⟨⟨path, row⟩, mem_lookup_iff.mp hdoc, by simp [hpa]⟩
      rw [unused p hp (by simpa using hid)] at hused
      cases hused

/-! ## Documents -/

theorem consistent_marksOnly {db : Db} (hmarks : MarksOnly s.db db) :
    Consistent rt.toRuntime ⟨s.vault, db⟩ :=
  h.setMarks (fun _ => rfl) hmarks.project hmarks.tag hmarks.doc

theorem Consistent.inProject {row : DocRow} (hrow : s.db.doc.lookup path = some row) :
    InProject path := by
  obtain ⟨-, file, -, -, hfile, -, -, -⟩ := h.rows path row hrow
  exact h.dirs path (by rw [hfile]; rfl)

theorem consistent_restore {now : Time} {faults : IndexFaults}
    (hrestore : Document.restore rt.toRuntime now faults s path = .ok s') :
    Consistent rt.toRuntime s' := by
  obtain ⟨harch, db, hmarks, hcases⟩ := restore_eq_ok hrestore
  have hdb := consistent_marksOnly h hmarks
  rcases hcases with rfl | ⟨absPath, file, docFile, hpath, hfile, hjson, hacc, rfl⟩
  · exact hdb
  · obtain ⟨row, hrow, -⟩ := (Option.any_eq_true _ _).mp harch
    have hplaced := (h.rows path row hrow).placed
    rw [hplaced.resolves] at hpath
    cases hpath
    exact hdb.store hplaced (h.inProject hrow) hfile (fun _ _ => rfl) hjson hacc

theorem consistent_removeFiles {db : Db} {paths : List String}
    (hrows : ∀ p ∈ paths, (s.db.doc.lookup p).isSome = true)
    (hdelete : deleteRows paths s.db = .ok db) :
    Consistent rt.toRuntime (removeFiles (fun _ => none) paths ⟨s.vault, db⟩) := by
  have hplaced : ∀ p ∈ paths, Placed p := by
    intro p hp
    obtain ⟨row, hrow⟩ := Option.isSome_iff_exists.mp (hrows p hp)
    exact (h.rows p row hrow).placed
  obtain ⟨hproject, htag, hdoc⟩ := deleteRows_eq_ok hdelete
  obtain ⟨hmarks, hsame, hvault⟩ := removeFiles_eq
    (s := ⟨s.vault, db⟩) (fun p hp => (hplaced p hp).resolves)
  refine h.remove (fun p hp => (hplaced p hp).isKey) (hmarks.project.trans hproject)
    (hmarks.tag.trans htag) ?_ hvault
  rw [hsame]
  exact hdoc

theorem consistent_hardDeleteBatch {paths : List String}
    (hdelete : hardDeleteBatch (fun _ => none) s paths = .ok s') :
    Consistent rt.toRuntime s' := by
  unfold hardDeleteBatch at hdelete
  split at hdelete
  · cases hdelete
  · simp only [bind_eq_ok, exists_unit] at hdelete
    obtain ⟨hrequire, db, hrows, hdelete⟩ := hdelete
    cases hdelete
    exact consistent_removeFiles h (requireRows_eq_ok hrequire) hrows

theorem consistent_hardDeleteByProject
    (hdelete : hardDeleteByProject (fun _ => none) s projectAlias = .ok s') :
    Consistent rt.toRuntime s' := by
  simp only [hardDeleteByProject, bind_eq_ok, exists_unit] at hdelete
  obtain ⟨-, hdelete⟩ := hdelete
  split at hdelete
  · cases hdelete
    exact h
  · exact consistent_hardDeleteBatch h (label_eq_ok.mp hdelete)

theorem consistent_hardDelete (hdelete : Document.hardDelete none s path = .ok s') :
    Consistent rt.toRuntime s' := by
  simp only [Document.hardDelete, bind_eq_ok, exists_unit] at hdelete
  obtain ⟨-, hdelete⟩ := hdelete
  split at hdelete
  next hactive =>
    obtain ⟨row, hrow, -⟩ := (Option.any_eq_true _ _).mp hactive
    obtain ⟨hplaced, file, -, -, hfile, -, -, -⟩ := h.rows path row hrow
    simp only [(deleteFile_eq_ok hplaced.resolves hfile).mpr ⟨rfl, rfl⟩, branch_ok,
      bind_eq_ok, Except.ok.injEq, exists_eq_left'] at hdelete
    cases hdelete
    have hmarks := marksOnly_removeDocument (s.db.deleteDoc path) path
    have hdoc : (removeDocument (s.db.deleteDoc path) path).doc = s.db.doc.erase path := by
      unfold removeDocument
      split <;> rfl
    have hkey : ∀ p ∈ [path], isDocumentKey p = true := by
      simp [hplaced.isKey]
    refine h.remove hkey hmarks.project hmarks.tag (fun p => ?_) (fun p => ?_)
    · rw [hdoc]
      by_cases hp : p = path
      · subst hp
        simp
      · simp [hp]
    · by_cases hp : p = path
      · subst hp
        simp
      · simp [hp]
  · cases hdelete

end

/-- The path of a new document, if the request names a valid project. -/
theorem savePath_new (draw : DocumentDraw) (hnew : req.path = "") {u : Unit}
    (halias : validateAlias (trimSpace req.projectAlias) = .ok u) :
    InProject (savePath draw.env req) ∧ isDocumentKey (savePath draw.env req) = true ∧
      pathClean (savePath draw.env req) = savePath draw.env req ∧
      normalizeDocumentPath (savePath draw.env req) = savePath draw.env req := by
  have htext : "projects/" ++ trimSpace req.projectAlias ++ "/doc-" ++
      trimPrefix (trimSpace req.projectAlias) "@" ++ "-" ++ draw.id.text ++ ".json" =
        "projects/" ++ trimSpace req.projectAlias ++ "/" ++
          newDocumentName (trimSpace req.projectAlias) draw.id.text := by
    apply String.toList_injective
    simp [newDocumentName]
  obtain ⟨hsplit, hkey, hclean, hnormal⟩ := newDocumentPath_spec halias draw.id htext
  have hpath : savePath draw.env req = "projects/" ++ trimSpace req.projectAlias ++
      "/doc-" ++ trimPrefix (trimSpace req.projectAlias) "@" ++ "-" ++ draw.id.text ++
      ".json" := by
    rw [savePath, if_pos hnew]
    exact hclean
  rw [hpath]
  exact ⟨⟨_, _, halias, hsplit⟩, hkey, hclean, hnormal⟩

theorem documentPath_of_normal {absPath : String} (hnormal : normalizeDocumentPath path = path)
    (h : documentPath path = .ok absPath) : absPath = path := by
  unfold documentPath at h
  rw [hnormal] at h
  dsimp only at h
  split at h
  · cases h
  · cases h
    rfl

/-- The file of a new document is written: it is indexed, or removed again. -/
theorem consistent_finishSave {env : SaveEnv} {file : VaultFile β}
    (h : Consistent rt.toRuntime s) (hplaced : Placed path) (hin : InProject path)
    (hfree : s.vault.lookup path = none) (hremove : env.removeFault = none) :
    Consistent rt.toRuntime
      ⟨(finishSave rt.toRuntime env (s.vault.insert path file) s.db path).vault,
        (finishSave rt.toRuntime env (s.vault.insert path file) s.db path).db⟩ := by
  have hfile : (s.vault.insert path file).lookup path = some file :=
    lookup_insert s.vault
  cases hindex : indexDocument rt.toRuntime env.indexTime env.indexFaults
      (s.vault.insert path file) s.db path with
  | error e =>
    have hdelete := (deleteFile_eq_ok hplaced.resolves hfile).mpr ⟨rfl, rfl⟩
    simp only [finishSave, hindex, hremove, hdelete]
    refine h.setMarks (fun key => ?_) rfl rfl (fun _ => rfl)
    by_cases hkey : key = path
    · rw [hkey, hfree]
      exact lookup_erase ..
    · change (erase path (insert path file s.vault)).lookup key = _
      rw [lookup_erase_ne hkey, lookup_insert_ne hkey]
  | ok db =>
    simp only [finishSave, label_eq_ok.mpr hindex]
    obtain ⟨absPath, file', docFile, hpath, hfile', -, hjson, -, -, -, -, hcases⟩ :=
      indexDocument_eq_ok.mp hindex
    rw [hplaced.resolves] at hpath
    cases hpath
    rw [hfile] at hfile'
    cases hfile'
    rcases hcases with ⟨harch, -⟩ | ⟨-, hacc, -, rfl⟩
    · -- A row would have a file, and the path is free.
      obtain ⟨row, hrow, -⟩ := (Option.any_eq_true _ _).mp harch
      obtain ⟨-, file', -, -, hfile', -, -, -⟩ := h.rows path row hrow
      rw [hfree] at hfile'
      cases hfile'
    · exact h.store hplaced hin hfile (fun key hkey => lookup_insert_ne hkey)
        hjson hacc

/-- A new document is stored, or the save leaves nothing behind. -/
theorem consistent_save_new {draw : DocumentDraw} (hnew : req.path = "")
    (h : Consistent rt.toRuntime s) (hfree : s.vault.lookup (savePath draw.env req) = none) :
    Consistent rt.toRuntime
      ⟨(save rt.toRuntime draw.env s.vault s.db req).vault,
        (save rt.toRuntime draw.env s.vault s.db req).db⟩ := by
  cases hdoc : saveDocument rt.toRuntime draw.env s.vault req with
  | error e =>
    simp only [save, hdoc]
    exact h
  | ok docFile =>
    cases hwrite : writeFile rt.toRuntime draw.env.writeTime draw.env.mtime
        draw.env.writeFaults s.vault (savePath draw.env req) docFile with
    | error e =>
      simp only [save, hdoc, hwrite, branch_ok]
      exact h
    | ok written =>
      have halias : validateAlias (trimSpace req.projectAlias) = .ok () := by
        simp only [saveDocument, bind_eq_ok] at hdoc
        obtain ⟨built, hbuild, -⟩ := hdoc
        exact (saveBuild_eq_ok.mp hbuild).1
      obtain ⟨hin, hkey, hclean, hnormal⟩ := savePath_new draw hnew halias
      obtain ⟨-, ⟨absPath, data⟩, hdata, rfl⟩ := writeFile_eq_ok.mp hwrite
      obtain ⟨hresolves, -, -, -, -⟩ := writeData_eq_ok.mp hdata
      obtain rfl := documentPath_of_normal hnormal hresolves
      have hplaced : Placed (savePath draw.env req) := ⟨hkey, hclean, hnormal, hresolves⟩
      simp only [save, hdoc, label_eq_ok.mpr hwrite, branch_ok]
      exact consistent_finishSave h hplaced hin hfree rfl

/-! ## Runs -/

theorem consistent_step {c : Command} (h : Consistent rt.toRuntime s)
    (hstep : step rt s c = some s') : Consistent rt.toRuntime s' := by
  cases c with
  | createProject env name projectAlias startDate endDate =>
    exact consistent_orUnchanged h hstep fun s' hs' => consistent_create h hs'
  | archiveProject id =>
    exact consistent_orUnchangedDb h hstep fun db hdb =>
      consistent_projectChange h (projectChange_archive hdb)
  | restoreProject id =>
    exact consistent_orUnchangedDb h hstep fun db hdb =>
      consistent_projectChange h (projectChange_restore hdb)
  | deleteProject id =>
    exact consistent_orUnchangedDb h hstep fun db hdb =>
      consistent_projectChange h (projectChange_delete hdb)
  | hardDeleteProject id =>
    exact consistent_orUnchangedDb h hstep fun db hdb =>
      consistent_projectChange h (projectChange_hardDelete hdb)
  | createDocument draw req =>
    simp only [step] at hstep
    split at hstep
    · cases hstep
    next hfree =>
      rw [← Option.some.inj hstep]
      exact consistent_save_new rfl h (by simpa using hfree)
  | archiveDocument path =>
    exact consistent_orUnchangedDb h hstep fun db hdb =>
      consistent_marksOnly h (marksOnly_archive hdb)
  | archiveDocumentsOf projectAlias =>
    exact consistent_orUnchangedDb h hstep fun db hdb =>
      consistent_marksOnly h (marksOnly_archiveByProject hdb)
  | restoreDocument now path =>
    exact consistent_orUnchanged h hstep fun s' hs' => consistent_restore h hs'
  | deleteDocument path =>
    exact consistent_orUnchanged h hstep fun s' hs' => consistent_hardDelete h hs'
  | deleteDocuments paths =>
    exact consistent_orUnchanged h hstep fun s' hs' => consistent_hardDeleteBatch h hs'
  | deleteDocumentsOf projectAlias =>
    exact consistent_orUnchanged h hstep fun s' hs' => consistent_hardDeleteByProject h hs'

/-- Every run from the empty workspace ends in a consistent one. -/
theorem consistent_run {cs : List Command} (hrun : run (step rt) Workspace.empty cs = some s) :
    Consistent rt.toRuntime s :=
  run_invariant (I := fun s => Consistent rt.toRuntime s)
    (fun _ _ _ h hstep => consistent_step h hstep) (consistent_empty rt.toRuntime) hrun

end

end Yanta.System
