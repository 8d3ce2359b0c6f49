import Yanta.Asset.Reference
import Yanta.Document.Io
import Yanta.Index.Schema

/-!
# Indexing one document

`Indexer.IndexDocument` of `internal/indexer/indexer.go`. The function runs in
one transaction, so it either returns the new database or an error and leaves
the database as it was. The main result says exactly when it succeeds and what
it stores then.
-/

namespace Yanta.Index

open Go Vault Document Yanta.Asset List Db DocumentFile

/-- The calls of `IndexDocument` that the operating system or the database
driver may fail, apart from the constraints of the schema. -/
inductive IndexPoint where
  | read
  | stat
  | beginTx
  | lookup
  | writeDoc
  | fts
  | removeTags
  | addTags
  | removeLinks
  | addLinks
  | unlinkAssets
  -- The statements on the asset at a position: their errors are only logged.
  | getAsset (position : Nat)
  | linkAsset (position : Nat)
  | commit
deriving DecidableEq, Repr

/-- The error of each call that fails. -/
abbrev IndexFaults := IndexPoint → Option String

def IndexFaults.none : IndexFaults := fun _ => Option.none

section

variable {β : Type} (rt : Runtime β)
variable {path : String} {db : Db} {docFile : DocumentFile} {file : VaultFile β} {now : Time}
  {faults : IndexFaults} {db' : Db}

/-- The row stored for a document. -/
def docRowOf (docFile : DocumentFile) (file : VaultFile β) : DocRow :=
  let content := parse rt docFile
  { projectAlias := docFile.docMeta.project
    title := docFile.docMeta.title
    kind := kindOf docFile.kind
    mtime := file.mtime
    size := rt.size file.data
    hasCode := content.hasCode
    hasImages := content.hasImages
    hasLinks := content.hasLinks
    deleted := false }

def ftsRowOf (docFile : DocumentFile) : FtsRow :=
  let content := parse rt docFile
  { title := content.title
    headings := join content.headings " "
    body := join content.body " "
    code := join content.code " " }

/-- The links of the document that `link.New` accepts. -/
def linksOf (docFile : DocumentFile) : List (String × String) :=
  (parse rt docFile).links.filterMap fun l => newLink rt l.url

/-- The hashes the extracted assets refer to. -/
def assetsOf (docFile : DocumentFile) : List String :=
  (parse rt docFile).assets.filterMap fun a => referencedHash a.path

/-- The loop over the assets, from a position on. An asset that is not visible is
skipped, and so is one whose lookup or link statement fails. -/
def linkAssets (faults : IndexFaults) (path : String) (db : Db) : Nat → List String → Db
  | _, [] => db
  | position, hash :: hashes =>
    if faults (.getAsset position) = none ∧ assetIsVisible rt db hash ∧
        faults (.linkAsset position) = none then
      linkAssets faults path (db.linkAsset path hash) (position + 1) hashes
    else linkAssets faults path db (position + 1) hashes

/-- The tags are added only if there are any. -/
def addFileTags (faults : IndexFaults) (db : Db) (docPath : String)
    (docFile : DocumentFile) : Except String Db :=
  if docFile.docMeta.tags = [] then .ok db
  else do
    attempt (faults .addTags)
    addTagsToDocument rt.lower db docPath docFile.docMeta.tags

/-- The links are added only if one was accepted. -/
def addFileLinks (faults : IndexFaults) (db : Db) (docPath : String)
    (docFile : DocumentFile) : Except String Db :=
  if linksOf rt docFile = [] then .ok db
  else do
    attempt (faults .addLinks)
    addLinks db docPath (linksOf rt docFile)

/-- The statements that follow the write of the document's row. -/
def indexContent (faults : IndexFaults) (db : Db) (docPath : String)
    (docFile : DocumentFile) : Except DocError Db := do
  labelText "updating fts_doc" (attempt (faults .fts))
  let db ← labelText "updating fts_doc" (updateFts db docPath (ftsRowOf rt docFile))
  labelText "removing existing tags" (attempt (faults .removeTags))
  let db := db.removeAllDocTags docPath
  let db ← labelText "adding document tags" (addFileTags rt faults db docPath docFile)
  labelText "removing existing links" (attempt (faults .removeLinks))
  let db := db.removeAllDocLinks docPath
  let db ← labelText "adding document links"
    (addFileLinks rt faults db docPath docFile)
  labelText "unlinking document assets" (attempt (faults .unlinkAssets))
  let db := linkAssets rt faults docPath (db.unlinkAllAssets docPath) 0 (assetsOf rt docFile)
  labelText "committing transaction" (attempt (faults .commit))
  return db

/-- The transaction on the file that was read. -/
def indexTx (faults : IndexFaults) (db : Db) (docPath : String)
    (docFile : DocumentFile) (file : VaultFile β) : Except DocError Db := do
  labelText "beginning transaction" (attempt (faults .beginTx))
  labelText "checking existing doc" (attempt (faults .lookup))
  -- An archived document stays out of the active index.
  if db.isArchived docPath then return db
  else if db.isActive docPath then
    labelText "updating doc table" (attempt (faults .writeDoc))
    let db ← labelText "updating doc table"
      (updateDoc db docPath (docRowOf rt docFile file))
    indexContent rt faults db docPath docFile
  else
    labelText "creating doc table entry" (attempt (faults .writeDoc))
    let db ← labelText "creating doc table entry"
      (createDoc db docPath (docRowOf rt docFile file))
    indexContent rt faults db docPath docFile

/-- What follows the read: the file's status and the transaction. -/
def indexParsed (faults : IndexFaults) (v : Vault β) (db : Db)
    (docPath : String) (docFile : DocumentFile) : Except DocError Db := do
  let fullPath ← labelText "getting document full path" (documentPath docPath)
  labelText "stating document file" (attempt (faults .stat))
  match v.lookup fullPath with
  | none => labelText "stating document file" (.error "no such file or directory")
  | some file => indexTx rt faults db docPath docFile file

/-- `Indexer.IndexDocument`. -/
def indexDocument (now : Time) (faults : IndexFaults) (v : Vault β) (db : Db)
    (docPath : String) : Except DocError Db := do
  let docFile ← label "reading document file"
    (readFile rt now (faults .read) v docPath)
  indexParsed rt faults v db docPath docFile

variable {rt}

/-! ## What is stored -/

theorem linkAssets_eq (path : String) (db : Db) (position : Nat) (hashes : List String) :
    linkAssets rt faults path db position hashes =
      { db with docAsset := (linkAssets rt faults path db position hashes).docAsset } := by
  induction hashes generalizing db position with
  | nil => rfl
  | cons hash hashes ih =>
    unfold linkAssets
    split
    · rw [ih, linkAsset]
      split <;> rfl
    · exact ih db _

variable (rt) in
/-- The database after a successful transaction on an active or new document. -/
def storeDocument (faults : IndexFaults) (db : Db) (path : String) (docFile : DocumentFile)
    (file : VaultFile β) : Db :=
  let names := normalizeTags rt.lower docFile.docMeta.tags
  linkAssets rt faults path
    { db with
      doc := db.doc.insert path (docRowOf rt docFile file)
      ftsDoc := Function.update db.ftsDoc path [ftsRowOf rt docFile]
      tag := fun n => if n ∈ names then some ⟨false⟩ else db.tag n
      docTag := Function.update db.docTag path names
      docLink := Function.update db.docLink path (mergeLinks [] (linksOf rt docFile))
      docAsset := db.docAsset.filter fun row => !(row.1 == path) }
    0 (assetsOf rt docFile)

section

variable (db : Db) (path : String) (docFile : DocumentFile) (file : VaultFile β)

@[simp] theorem storeDocument_doc :
    (storeDocument rt faults db path docFile file).doc =
      db.doc.insert path (docRowOf rt docFile file) := by
  rw [storeDocument, linkAssets_eq]

@[simp] theorem storeDocument_project :
    (storeDocument rt faults db path docFile file).project = db.project := by
  rw [storeDocument, linkAssets_eq]

@[simp] theorem storeDocument_ftsDoc :
    (storeDocument rt faults db path docFile file).ftsDoc =
      Function.update db.ftsDoc path [ftsRowOf rt docFile] := by
  rw [storeDocument, linkAssets_eq]

@[simp] theorem storeDocument_docTag :
    (storeDocument rt faults db path docFile file).docTag =
      Function.update db.docTag path (normalizeTags rt.lower docFile.docMeta.tags) := by
  rw [storeDocument, linkAssets_eq]

@[simp] theorem storeDocument_docLink :
    (storeDocument rt faults db path docFile file).docLink =
      Function.update db.docLink path (mergeLinks [] (linksOf rt docFile)) := by
  rw [storeDocument, linkAssets_eq]

@[simp] theorem storeDocument_tag (n : String) :
    (storeDocument rt faults db path docFile file).tag n =
      if n ∈ normalizeTags rt.lower docFile.docMeta.tags then some ⟨false⟩
      else db.tag n := by
  rw [storeDocument, linkAssets_eq]

theorem storeDocument_isActive (p : String) :
    (storeDocument rt faults db path docFile file).isActive p =
      (decide (p = path) || db.isActive p) := by
  by_cases hp : p = path
  · subst hp
    simp [isActive, docRowOf]
  · simp [isActive, hp]

theorem storeDocument_isArchived (p : String) :
    (storeDocument rt faults db path docFile file).isArchived p =
      (decide (p ≠ path) && db.isArchived p) := by
  by_cases hp : p = path
  · subst hp
    simp [isArchived, docRowOf]
  · simp [isArchived, hp]

end

variable (rt) in
/-- The database accepts the document: what the validation of the row and the
constraints of the schema ask for. -/
structure Accepts (db : Db) (path : String) (docFile : DocumentFile)
    (mtime : Int) : Prop where
  validPath : validatePath path = .ok ()
  mtimeNonneg : 0 ≤ mtime
  projectExists : db.hasProject docFile.docMeta.project = true
  tagsNotDeleted : ∀ n ∈ normalizeTags rt.lower docFile.docMeta.tags,
    db.tag n ≠ some ⟨true⟩
  linksFit : 3 * (linksOf rt docFile).length ≤ maxVariableNumber
  linksShort : ∀ l ∈ linksOf rt docFile, l.1.length ≤ 2048

/-- Storing a document does not make another one unacceptable. -/
theorem accepts_storeDocument {path' : String} {docFile' : DocumentFile} {mtime : Int}
    (h : Accepts rt db path docFile mtime) :
    Accepts rt (storeDocument rt faults db path' docFile' file) path
      docFile mtime := by
  refine ⟨h.validPath, h.mtimeNonneg, ?_, ?_, h.linksFit, h.linksShort⟩
  · simpa [hasProject] using h.projectExists
  · intro n hn
    rw [storeDocument_tag]
    split
    · simp
    · exact h.tagsNotDeleted n hn

variable (rt) in
/-- None of the statements that are executed after the lookup fails. -/
structure CleanWrite (faults : IndexFaults) (docFile : DocumentFile) : Prop where
  writeDoc : faults .writeDoc = none
  fts : faults .fts = none
  removeTags : faults .removeTags = none
  addTags : docFile.docMeta.tags = [] ∨ faults .addTags = none
  removeLinks : faults .removeLinks = none
  addLinks : linksOf rt docFile = [] ∨ faults .addLinks = none
  unlinkAssets : faults .unlinkAssets = none
  commit : faults .commit = none

/-! ## When indexing succeeds -/

theorem ne_empty_of_validatePath {u : Unit} (h : validatePath path = .ok u) : path ≠ "" := by
  rintro rfl
  simp [validatePath] at h

theorem not_contains_of_validatePath {u : Unit} (h : validatePath path = .ok u) :
    contains path ".." = false := by
  by_contra hdots
  have hne := ne_empty_of_validatePath h
  simp only [Bool.not_eq_false] at hdots
  simp [validatePath, hne, hdots] at h

section

variable (hvalid : docFile.validate rt now = .ok ())

include hvalid

/-- The checks on the row of a valid document. -/
theorem docRow_checks :
    (validateDocument path (docRowOf rt docFile file) = .ok () ∧
      checkDocRow db path (docRowOf rt docFile file) = .ok ()) ↔
      validatePath path = .ok () ∧ 0 ≤ file.mtime ∧
        db.hasProject docFile.docMeta.project = true := by
  have halias := validate_project hvalid
  have hkind := validate_kind hvalid
  rw [validateDocument_eq_ok, checkDocRow_eq_ok]
  constructor
  · rintro ⟨⟨hpath, -, hmtime⟩, -, -, hproject⟩
    exact ⟨hpath, hmtime, hproject⟩
  · rintro ⟨hpath, hmtime, hproject⟩
    exact ⟨⟨hpath, halias, hmtime⟩, not_contains_of_validatePath hpath, hkind, hproject⟩

theorem validTagName_of_validate :
    ∀ n ∈ normalizeTags rt.lower docFile.docMeta.tags, ValidTagName n := by
  intro n hn
  obtain ⟨-, tag, htag, rfl⟩ := mem_normalizeTags.mp hn
  exact validateTagsFrom_ok (validate_tags hvalid) tag htag

/-- The tag stage: every tag becomes active and is associated. -/
theorem addFileTags_eq_ok (hpath : path ≠ "") (hdoc : (db.doc.lookup path).isSome)
    (hnone : db.docTag path = []) :
    addFileTags rt faults db path docFile = .ok db' ↔
      (docFile.docMeta.tags = [] ∨ faults .addTags = none) ∧
        (∀ n ∈ normalizeTags rt.lower docFile.docMeta.tags,
          db.tag n ≠ some ⟨true⟩) ∧
        db' = { db.ensured (normalizeTags rt.lower docFile.docMeta.tags) with
          docTag := Function.update db.docTag path
            (normalizeTags rt.lower docFile.docMeta.tags) } := by
  have htags := validTagName_of_validate hvalid
  by_cases hempty : docFile.docMeta.tags = []
  · have hself : Function.update db.docTag path [] = db.docTag := by
      rw [← hnone, Function.update_eq_self]
    simp only [addFileTags, hempty, normalizeTags, normalizeTagsFrom, hself, if_true,
      not_mem_nil, false_imp_iff, implies_true, true_and, true_or, Except.ok.injEq]
    exact eq_comm
  · have hinsert : insertDocTags (db.ensured (normalizeTags rt.lower docFile.docMeta.tags))
          path (normalizeTags rt.lower docFile.docMeta.tags) =
        .ok { db.ensured (normalizeTags rt.lower docFile.docMeta.tags) with
          docTag := Function.update db.docTag path
            (normalizeTags rt.lower docFile.docMeta.tags) } := by
      rw [insertDocTags_eq]
      · simp [ensured, hnone]
      · exact hdoc
      · intro n hn
        simp [ensured, hn]
      · exact htags
      · simpa [ensured, hnone] using normalizeTags_nodup docFile.docMeta.tags
    simp only [addFileTags, hempty, addTagsToDocument, if_neg hpath, bind_eq_ok,
      exists_unit, attempt_eq_ok, if_false, false_or]
    refine and_congr_right fun _ => ?_
    constructor
    · rintro ⟨db₁, hens, hins⟩
      obtain ⟨hlive, rfl⟩ := (ensureTags_eq_ok htags).mp hens
      rw [hinsert] at hins
      cases hins
      exact ⟨hlive, rfl⟩
    · rintro ⟨hlive, rfl⟩
      exact ⟨_, (ensureTags_eq_ok htags).mpr ⟨hlive, rfl⟩, hinsert⟩

end

/-- The link stage. -/
theorem addFileLinks_eq_ok (hdoc : (db.doc.lookup path).isSome) (hnone : db.docLink path = []) :
    addFileLinks rt faults db path docFile = .ok db' ↔
      (linksOf rt docFile = [] ∨ faults .addLinks = none) ∧
        3 * (linksOf rt docFile).length ≤ maxVariableNumber ∧
        (∀ l ∈ linksOf rt docFile, l.1.length ≤ 2048) ∧
        db' = { db with
          docLink := Function.update db.docLink path
            (mergeLinks [] (linksOf rt docFile)) } := by
  have hsome := Option.isSome_iff_ne_none.mp hdoc
  by_cases hempty : linksOf rt docFile = []
  · have hself : Function.update db.docLink path [] = db.docLink := by
      rw [← hnone, Function.update_eq_self]
    simp only [addFileLinks, hempty, mergeLinks, hself, if_true, length_nil,
      Nat.mul_zero, Nat.zero_le, not_mem_nil, false_imp_iff, implies_true,
      true_and, true_or, Except.ok.injEq]
    exact eq_comm
  · simp only [addFileLinks, addLinks, hempty, if_false, bind_eq_ok, exists_unit,
      attempt_eq_ok, wrapError_eq_ok, false_or, hnone]
    refine and_congr_right fun _ => ?_
    by_cases hfit : 3 * (linksOf rt docFile).length ≤ maxVariableNumber
    · rw [if_neg (not_lt.mpr hfit)]
      by_cases hshort : ∀ l ∈ linksOf rt docFile, l.1.length ≤ 2048
      · rw [if_neg (by simpa using hshort), if_neg (by simpa using hsome), Except.ok.injEq]
        exact ⟨fun h => ⟨hfit, hshort, h.symm⟩, fun h => h.2.2.symm⟩
      · rw [if_pos (by simpa using hshort)]
        exact ⟨fun h => (by cases h), fun h => absurd h.2.1 hshort⟩
    · rw [if_pos (not_le.mp hfit)]
      exact ⟨fun h => (by cases h), fun h => absurd h.1 hfit⟩

section

variable (hvalid : docFile.validate rt now = .ok ())

include hvalid

/-- The statements after the row was written. -/
theorem indexContent_eq_ok (hpath : path ≠ "") (hdoc : (db.doc.lookup path).isSome) :
    indexContent rt faults db path docFile = .ok db' ↔
      faults .fts = none ∧ faults .removeTags = none ∧
      (docFile.docMeta.tags = [] ∨ faults .addTags = none) ∧
      (∀ n ∈ normalizeTags rt.lower docFile.docMeta.tags, db.tag n ≠ some ⟨true⟩) ∧
      faults .removeLinks = none ∧
      (linksOf rt docFile = [] ∨ faults .addLinks = none) ∧
      3 * (linksOf rt docFile).length ≤ maxVariableNumber ∧
      (∀ l ∈ linksOf rt docFile, l.1.length ≤ 2048) ∧
      faults .unlinkAssets = none ∧ faults .commit = none ∧
      db' = linkAssets rt faults path
        { db with
          ftsDoc := Function.update db.ftsDoc path [ftsRowOf rt docFile]
          tag := fun n =>
            if n ∈ normalizeTags rt.lower docFile.docMeta.tags then some ⟨false⟩
            else db.tag n
          docTag := Function.update db.docTag path
            (normalizeTags rt.lower docFile.docMeta.tags)
          docLink := Function.update db.docLink path
            (mergeLinks [] (linksOf rt docFile))
          docAsset := db.docAsset.filter fun row => !(row.1 == path) }
        0 (assetsOf rt docFile) := by
  simp only [indexContent, bind_eq_ok, exists_unit, labelText_eq_ok, attempt_eq_ok,
    updateFts, if_neg hpath, Except.ok.injEq, exists_eq_left', pure, Except.pure]
  refine and_congr_right fun _ => and_congr_right fun _ => ?_
  constructor
  · rintro ⟨db₁, htags, hremove, db₂, hlinks, hunlink, hcommit, rfl⟩
    obtain ⟨htagFault, hlive, rfl⟩ :=
      (addFileTags_eq_ok hvalid hpath (by exact hdoc)
        (by simp [removeAllDocTags])).mp htags
    obtain ⟨hlinkFault, hfit, hshort, rfl⟩ :=
      (addFileLinks_eq_ok (by exact hdoc) (by simp [removeAllDocLinks])).mp hlinks
    refine ⟨htagFault, hlive, hremove, hlinkFault, hfit, hshort, hunlink, hcommit, ?_⟩
    simp [ensured, removeAllDocTags, removeAllDocLinks, unlinkAllAssets]
  · rintro ⟨htagFault, hlive, hremove, hlinkFault, hfit, hshort, hunlink, hcommit, rfl⟩
    refine ⟨_, (addFileTags_eq_ok hvalid hpath (by exact hdoc)
        (by simp [removeAllDocTags])).mpr ⟨htagFault, hlive, rfl⟩, hremove, _,
      (addFileLinks_eq_ok (by exact hdoc) (by simp [removeAllDocLinks])).mpr
        ⟨hlinkFault, hfit, hshort, rfl⟩, hunlink, hcommit, ?_⟩
    simp [ensured, removeAllDocTags, removeAllDocLinks, unlinkAllAssets]

/-- The row is written and then the rest: together these succeed exactly when
the database accepts the document and no statement fails. -/
theorem writeRow_indexContent_eq_ok :
    (faults .writeDoc = none ∧ ∃ db₁,
      ((validatePath path = .ok () ∧ 0 ≤ file.mtime ∧
          db.hasProject docFile.docMeta.project = true) ∧
        db₁ = db.setDoc path { docRowOf rt docFile file with deleted := false }) ∧
      indexContent rt faults db₁ path docFile = .ok db') ↔
      Accepts rt db path docFile file.mtime ∧ CleanWrite rt faults docFile ∧
        db' = storeDocument rt faults db path docFile file := by
  constructor
  · rintro ⟨hwrite, _, ⟨⟨hpath, hmtime, hproject⟩, rfl⟩, hcontent⟩
    obtain ⟨hfts, hremoveTags, haddTags, hlive, hremoveLinks, haddLinks, hfit, hshort,
      hunlink, hcommit, rfl⟩ :=
      (indexContent_eq_ok hvalid (ne_empty_of_validatePath hpath)
        (by simp [setDoc])).mp hcontent
    exact ⟨⟨hpath, hmtime, hproject, hlive, hfit, hshort⟩,
      ⟨hwrite, hfts, hremoveTags, haddTags, hremoveLinks, haddLinks, hunlink, hcommit⟩,
      rfl⟩
  · rintro ⟨hacc, hclean, rfl⟩
    refine ⟨hclean.writeDoc, _,
      ⟨⟨hacc.validPath, hacc.mtimeNonneg, hacc.projectExists⟩, rfl⟩, ?_⟩
    exact (indexContent_eq_ok hvalid (ne_empty_of_validatePath hacc.validPath)
      (by simp [setDoc])).mpr
      ⟨hclean.fts, hclean.removeTags, hclean.addTags, hacc.tagsNotDeleted,
        hclean.removeLinks, hclean.addLinks, hacc.linksFit, hacc.linksShort,
        hclean.unlinkAssets, hclean.commit, rfl⟩

/-- The transaction leaves an archived document alone, and otherwise succeeds
exactly when the database accepts the document and no statement fails. -/
theorem indexTx_eq_ok :
    indexTx rt faults db path docFile file = .ok db' ↔
      faults .beginTx = none ∧ faults .lookup = none ∧
        (db.isArchived path = true ∧ db' = db ∨
          db.isArchived path = false ∧ Accepts rt db path docFile file.mtime ∧
            CleanWrite rt faults docFile ∧
            db' = storeDocument rt faults db path docFile file) := by
  simp only [indexTx, bind_eq_ok, exists_unit, labelText_eq_ok, attempt_eq_ok]
  refine and_congr_right fun _ => and_congr_right fun _ => ?_
  by_cases harch : db.isArchived path = true
  · simp only [harch, pure, Except.pure]
    simp [eq_comm]
  · have hnotArch : db.isArchived path = false := by simpa using harch
    by_cases hactive : db.isActive path = true
    · simp only [hnotArch, hactive, if_true, Bool.false_eq_true, if_false, bind_eq_ok,
        exists_unit, labelText_eq_ok, attempt_eq_ok, updateDoc_eq_ok,
        docRow_checks hvalid, false_and, false_or, true_and]
      exact writeRow_indexContent_eq_ok hvalid
    · have hnone : db.doc.lookup path = none :=
        doc_eq_none_iff.mpr ⟨by simpa using hactive, hnotArch⟩
      simp only [hnotArch, hactive, Bool.false_eq_true, if_false, bind_eq_ok,
        exists_unit, labelText_eq_ok, attempt_eq_ok, createDoc_eq_ok,
        docRow_checks hvalid, hnone, false_and, false_or, true_and]
      exact writeRow_indexContent_eq_ok hvalid

end

/-- `IndexDocument` succeeds exactly when the file can be read, no call fails,
and the document is archived or accepted by the database. -/
theorem indexDocument_eq_ok {v : Vault β} :
    indexDocument rt now faults v db path = .ok db' ↔
      ∃ absPath file docFile, documentPath path = .ok absPath ∧
        v.lookup absPath = some file ∧
        rt.size file.data ≤ maxDocumentFileBytes ∧
        fromJSON rt now file.data = .ok docFile ∧
        faults .read = none ∧ faults .stat = none ∧
        faults .beginTx = none ∧ faults .lookup = none ∧
        (db.isArchived path = true ∧ db' = db ∨
          db.isArchived path = false ∧ Accepts rt db path docFile file.mtime ∧
            CleanWrite rt faults docFile ∧
            db' = storeDocument rt faults db path docFile file) := by
  simp only [indexDocument, indexParsed, bind_eq_ok, label_eq_ok, labelText_eq_ok,
    exists_unit, attempt_eq_ok, readFile_eq_ok]
  constructor
  · rintro ⟨docFile, ⟨absPath, file, hpath, hfile, hsize, hread, hjson⟩,
      absPath', hpath', hstat, htx⟩
    rw [hpath] at hpath'
    cases hpath'
    have hvalid : docFile.validate rt now = .ok () :=
      (fromJSON_eq_ok.mp hjson).elim fun _ h => h.2.2
    rw [hfile] at htx
    obtain ⟨hbegin, hlookup, hcases⟩ := (indexTx_eq_ok hvalid).mp htx
    exact ⟨absPath, file, docFile, hpath, hfile, hsize, hjson, hread, hstat, hbegin,
      hlookup, hcases⟩
  · rintro ⟨absPath, file, docFile, hpath, hfile, hsize, hjson, hread, hstat, hbegin,
      hlookup, hcases⟩
    have hvalid : docFile.validate rt now = .ok () :=
      (fromJSON_eq_ok.mp hjson).elim fun _ h => h.2.2
    refine ⟨docFile, ⟨absPath, file, hpath, hfile, hsize, hread, hjson⟩, absPath, hpath,
      hstat, ?_⟩
    rw [hfile]
    exact (indexTx_eq_ok hvalid).mpr ⟨hbegin, hlookup, hcases⟩

variable (rt) in
/-- The index takes the document: it is archived, or it satisfies the constraints of the
database, and no call of the indexer fails. -/
def Takes (now : Time) (faults : IndexFaults) (db : Db) (path : String)
    (docFile : DocumentFile) (mtime : Int) : Prop :=
  validateTimestamps rt now docFile.docMeta.created docFile.docMeta.updated = .ok () ∧
    faults .read = none ∧ faults .stat = none ∧
    faults .beginTx = none ∧ faults .lookup = none ∧
    (db.isArchived path = true ∨
      Accepts rt db path (docFile.normalize rt) mtime ∧
        CleanWrite rt faults (docFile.normalize rt))

variable (faults db) in
/-- A file that was just written is indexed exactly when the index takes the document. -/
theorem indexDocument_of_writeData_iff (hrt : rt.Faithful) (v : Vault β)
    {mkdir : Option String} {target : String × β} (later : Time) (mtime : Int)
    (hdata : writeData rt now mkdir path docFile = .ok target) :
    (∃ db', indexDocument rt later faults (v.insert target.1 ⟨target.2, mtime⟩) db path =
      .ok db') ↔ Takes rt later faults db path docFile mtime := by
  obtain ⟨hpath, -, -, -, hsize⟩ := writeData_eq_ok.mp hdata
  constructor
  · rintro ⟨db', hindex⟩
    obtain ⟨absPath, file, docFile', hpath', hfile, -, hjson, hread, hstat, hbegin, hlookup,
      hcases⟩ := indexDocument_eq_ok.mp hindex
    obtain rfl : target.1 = absPath := Except.ok.inj (hpath.symm.trans hpath')
    rw [AList.lookup_insert] at hfile
    cases hfile
    obtain ⟨rfl, hstamps⟩ := (fromJSON_of_writeData hrt hdata).mp hjson
    refine ⟨hstamps, hread, hstat, hbegin, hlookup, ?_⟩
    exact hcases.imp And.left fun h => ⟨h.2.1, h.2.2.1⟩
  · rintro ⟨hstamps, hread, hstat, hbegin, hlookup, hcases⟩
    have hjson := (fromJSON_of_writeData hrt hdata).mpr ⟨rfl, hstamps⟩
    by_cases harch : db.isArchived path = true
    · exact ⟨db, indexDocument_eq_ok.mpr ⟨target.1, _, _, hpath, AList.lookup_insert _,
        hsize, hjson, hread, hstat, hbegin, hlookup, .inl ⟨harch, rfl⟩⟩⟩
    · obtain ⟨hacc, hclean⟩ := hcases.resolve_left harch
      exact ⟨_, indexDocument_eq_ok.mpr ⟨target.1, _, _, hpath, AList.lookup_insert _,
        hsize, hjson, hread, hstat, hbegin, hlookup,
        .inr ⟨by simpa using harch, hacc, hclean, rfl⟩⟩⟩

end

end Yanta.Index
