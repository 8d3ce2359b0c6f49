import Mathlib.Data.List.AList
import Yanta.Document.Parser
import Yanta.Go.Errors

/-!
# The index database

The tables of `internal/db/migrations` that the index reads and writes, and the
statements of the document, tag, link, asset and full-text stores on them. A
table with a primary key is a map from keys to rows; the full-text tables have no
key, so they give a list of rows for a path or a journal day. The
statements check the constraints of the schema: primary keys, foreign keys and
`CHECK` clauses. The creation and update times of document, tag and project
rows are not read by anything modelled here and are left out.
-/

namespace Yanta.Index

open Go Vault Document List

structure DocRow where
  projectAlias : String
  title : String
  kind : String
  mtime : Int
  size : Nat
  hasCode : Bool
  hasImages : Bool
  hasLinks : Bool
  deleted : Bool
deriving DecidableEq, Repr

structure FtsRow where
  title : String
  headings : String
  body : String
  code : String
deriving DecidableEq, Repr

structure JournalRow where
  entryId : String
  content : String
  tags : String
deriving DecidableEq, Repr

structure ProjectRow where
  id : String
  projectAlias : String
  name : String
  startDate : String
  endDate : String
  deleted : Bool
deriving DecidableEq, Repr

structure TagRow where
  deleted : Bool
deriving DecidableEq, Repr

structure AssetRow where
  ext : String
  createdAt : String
deriving DecidableEq, Repr

@[ext] structure Db where
  project : List ProjectRow
  doc : AList fun _ : String => DocRow
  ftsDoc : String → List FtsRow
  tag : String → Option TagRow
  docTag : String → List String
  docLink : String → List (String × String)
  asset : String → Option AssetRow
  docAsset : List (String × String)
  ftsJournal : String → String → List JournalRow

def Db.empty : Db where
  project := []
  doc := ∅
  ftsDoc _ := []
  tag _ := none
  docTag _ := []
  docLink _ := []
  asset _ := none
  docAsset := []
  ftsJournal _ _ := []

variable {path : String} {db db' : Db} {d : DocRow}

/-- SQLite's `lower`, which folds the ASCII letters only. -/
def sqlLower (s : String) : String :=
  String.ofList (s.toList.map fun c =>
    if 65 ≤ c.toNat ∧ c.toNat ≤ 90 then Char.ofNat (c.toNat + 32) else c)

/-- The number of variables a statement may bind by default. -/
def maxVariableNumber : Nat := 32766

/-- Some row of `project`, archived or not, has this alias. -/
def Db.hasProject (db : Db) (projectAlias : String) : Bool :=
  db.project.any fun p => p.projectAlias == projectAlias

/-! ## Documents -/

def validatePath (path : String) : Except String Unit :=
  if path = "" then .error "path is required"
  else if contains path ".." then
    .error "path must not contain directory traversal (..)"
  else
    let normalized := normalizeDocumentPath path
    if normalized = "" then .error "path is required"
    else if !hasPrefix normalized "projects/" then
      .error "path must start with 'projects/'"
    else if !hasSuffix normalized ".json" then
      .error "path must end with '.json'"
    else .ok ()

/-- `document.Validate`; a size is never negative here. -/
def validateDocument (path : String) (d : DocRow) : Except String Unit := do
  wrapError "invalid path" (validatePath path)
  wrapError "invalid project_alias" (validateAlias d.projectAlias)
  if d.mtime < 0 then .error "mtime_ns must be non-negative" else .ok ()

/-- The column constraints of `doc` that a row must satisfy. -/
def checkDocRow (db : Db) (path : String) (d : DocRow) : Except String Unit :=
  if contains path ".." then .error "CHECK constraint failed: path"
  else if d.kind ≠ documentKindDocument ∧ d.kind ≠ documentKindCanvas then
    .error "CHECK constraint failed: kind"
  else if !db.hasProject d.projectAlias then
    .error "FOREIGN KEY constraint failed"
  else .ok ()

/-- The document has a row that is not archived. -/
def Db.isActive (db : Db) (path : String) : Bool :=
  (db.doc.lookup path).any fun d => !d.deleted

/-- The document has a row that is archived. -/
def Db.isArchived (db : Db) (path : String) : Bool :=
  (db.doc.lookup path).any fun d => d.deleted

def Db.setDoc (db : Db) (path : String) (d : DocRow) : Db :=
  { db with doc := db.doc.insert path d }

/-- `Store.create` of documents. -/
def createDoc (db : Db) (path : String) (d : DocRow) : Except String Db := do
  wrapError "validation failed" (validateDocument path d)
  wrapError "failed to create document" do
    checkDocRow db path d
    if (db.doc.lookup path).isSome then
      .error "UNIQUE constraint failed: doc.path"
    else .ok (db.setDoc path { d with deleted := false })

/-- `Store.update` of documents; only an active row is updated. -/
def updateDoc (db : Db) (path : String) (d : DocRow) : Except String Db := do
  wrapError "validation failed" (validateDocument path d)
  if db.isActive path then
    wrapError "failed to update document" do
      checkDocRow db path d
      .ok (db.setDoc path { d with deleted := false })
  else .error ("no document found with path " ++ path)

theorem validateDocument_eq_ok {u : Unit} :
    validateDocument path d = .ok u ↔
      validatePath path = .ok () ∧ validateAlias d.projectAlias = .ok () ∧
        0 ≤ d.mtime := by
  simp only [validateDocument, bind_eq_ok, exists_unit, wrapError_eq_ok]
  refine and_congr_right fun _ => and_congr_right fun _ => ?_
  split
  · simpa using ‹d.mtime < 0›
  · simpa using ‹¬d.mtime < 0›

theorem checkDocRow_eq_ok {u : Unit} :
    checkDocRow db path d = .ok u ↔
      contains path ".." = false ∧
        (d.kind = documentKindDocument ∨ d.kind = documentKindCanvas) ∧
        db.hasProject d.projectAlias = true := by
  unfold checkDocRow
  by_cases hdots : contains path ".." = true
  · simp [hdots]
  · by_cases hkind : d.kind ≠ documentKindDocument ∧ d.kind ≠ documentKindCanvas
    · simp [hdots, hkind]
    · have hor : d.kind = documentKindDocument ∨ d.kind = documentKindCanvas := by
        tauto
      by_cases hproject : db.hasProject d.projectAlias = true
      · simp [hkind, hor, hproject]
      · simp [hdots, hkind, hproject]

theorem createDoc_eq_ok :
    createDoc db path d = .ok db' ↔
      (validateDocument path d = .ok () ∧ checkDocRow db path d = .ok ()) ∧
        db.doc.lookup path = none ∧ db' = db.setDoc path { d with deleted := false } := by
  simp only [createDoc, bind_eq_ok, exists_unit, wrapError_eq_ok, and_assoc]
  refine and_congr_right fun _ => and_congr_right fun _ => ?_
  cases hrow : db.doc.lookup path with
  | none => simp [eq_comm]
  | some row => simp

theorem updateDoc_eq_ok :
    updateDoc db path d = .ok db' ↔
      (validateDocument path d = .ok () ∧ checkDocRow db path d = .ok ()) ∧
        db.isActive path = true ∧
        db' = db.setDoc path { d with deleted := false } := by
  simp only [updateDoc, bind_eq_ok, exists_unit, wrapError_eq_ok, and_assoc]
  refine and_congr_right fun _ => ?_
  by_cases hactive : db.isActive path = true
  · simp only [hactive, if_true, wrapError_eq_ok, bind_eq_ok, exists_unit, true_and,
      Except.ok.injEq]
    exact and_congr_right fun _ => eq_comm
  · simp [hactive]

/-- A document without an active or archived row has no row. -/
theorem doc_eq_none_iff :
    db.doc.lookup path = none ↔ db.isActive path = false ∧ db.isArchived path = false := by
  cases hrow : db.doc.lookup path with
  | none => simp [Db.isActive, Db.isArchived, hrow]
  | some row => cases hdel : row.deleted <;> simp [Db.isActive, Db.isArchived, hrow]

/-- `DELETE FROM doc WHERE path = ?`, with the cascades. -/
def Db.deleteDoc (db : Db) (path : String) : Db :=
  { db with
    doc := db.doc.erase path
    docTag := Function.update db.docTag path []
    docLink := Function.update db.docLink path []
    docAsset := db.docAsset.filter fun row => !(row.1 == path) }

/-! ## Full text -/

/-- `UpdateDocumentTx` of the search store: delete, then insert. -/
def updateFts (db : Db) (path : String) (row : FtsRow) : Except String Db :=
  if path = "" then .error "path cannot be empty"
  else .ok { db with ftsDoc := Function.update db.ftsDoc path [row] }

def Db.deleteFts (db : Db) (path : String) : Db :=
  { db with ftsDoc := Function.update db.ftsDoc path [] }

/-! ## Tags -/

/-- The `CHECK` clauses of `tag`. -/
def checkTagName (name : String) : Bool :=
  name == sqlLower name && (name.toList.head?.any isTagChar) &&
    1 ≤ name.length && name.length ≤ 64

/-- `getByName`, which sees active rows only. -/
def tagIsActive (db : Db) (name : String) : Bool :=
  (db.tag (sqlLower name)).any fun row => !row.deleted

/-- `Store.create` of tags. -/
def createTag (db : Db) (name : String) : Except String Db :=
  wrapError "failed to create tag" <|
    if !checkTagName (sqlLower name) then
      .error "CHECK constraint failed: name"
    else if (db.tag (sqlLower name)).isSome then
      .error "UNIQUE constraint failed: tag.name"
    else .ok { db with tag := Function.update db.tag (sqlLower name) (some ⟨false⟩) }

/-- The first loop of `addTagsToDocument`: make every tag's row. -/
def ensureTags (db : Db) : List String → Except String Db
  | [] => .ok db
  | name :: names =>
    if tagIsActive db name then ensureTags db names
    else do
      let db ← wrapError ("creating tag " ++ name) (createTag db name)
      ensureTags db names

def Db.removeAllDocTags (db : Db) (path : String) : Db :=
  { db with docTag := Function.update db.docTag path [] }

/-- One insertion into `doc_tag`, which ignores a pair already there. -/
def insertDocTag (db : Db) (path name : String) : Except String Db :=
  if (db.doc.lookup path).isNone || (db.tag (sqlLower name)).isNone then
    .error "FOREIGN KEY constraint failed"
  else if sqlLower name ∈ db.docTag path then .ok db
  else
    .ok { db with
      docTag := Function.update db.docTag path (db.docTag path ++ [sqlLower name]) }

/-- The second loop of `addTagsToDocument`. -/
def insertDocTags (db : Db) (path : String) : List String → Except String Db
  | [] => .ok db
  | name :: names => do
      let db ← wrapError "inserting doc_tag association" (insertDocTag db path name)
      insertDocTags db path names

def addTagsToDocument (lower : Char → Char) (db : Db) (path : String)
    (tagNames : List String) : Except String Db :=
  if path = "" then .error "document path is required"
  else if tagNames = [] then .ok db
  else do
    let names := normalizeTags lower tagNames
    let db ← ensureTags db names
    insertDocTags db path names

/-- What document validation guarantees of the tags it lets through. -/
def ValidTagName (name : String) : Prop :=
  name ≠ "" ∧ len name ≤ 64 ∧ name.toList.all isTagChar = true

theorem sqlLower_of_validTagName {name : String} (h : ValidTagName name) :
    sqlLower name = name := by
  have hchar : ∀ c ∈ name.toList,
      (if 65 ≤ c.toNat ∧ c.toNat ≤ 90 then Char.ofNat (c.toNat + 32) else c) = c := by
    intro c hc
    have htag := all_eq_true.mp h.2.2 c hc
    refine if_neg ?_
    rintro ⟨hlow, hhigh⟩
    simp only [isTagChar, Bool.or_eq_true, Bool.and_eq_true, decide_eq_true_eq,
      beq_iff_eq, Char.le_def, UInt32.le_iff_toNat_le] at htag
    simp only [Char.toNat] at hlow hhigh
    rcases htag with ((⟨ha, -⟩ | ⟨-, hb⟩) | rfl) | rfl
    · have : 'a'.val.toNat = 97 := by decide
      omega
    · have : '9'.val.toNat = 57 := by decide
      omega
    · revert hhigh
      decide
    · revert hlow
      decide
  rw [sqlLower, map_congr_left hchar, map_id', String.ofList_toList]

theorem checkTagName_of_validTagName {name : String} (h : ValidTagName name) :
    checkTagName name = true := by
  have hpos : name.toList ≠ [] := by simpa using h.1
  obtain ⟨c, cs, hcs⟩ := exists_cons_of_ne_nil hpos
  have hhead : name.toList.head?.any isTagChar = true := by
    have := all_eq_true.mp h.2.2 c (by simp [hcs])
    simpa [hcs] using this
  have hlength : name.length ≤ 64 := (length_le_len name).trans h.2.1
  have hone : 1 ≤ name.length := by
    rw [← String.length_toList, hcs]
    simp
  simp [checkTagName, sqlLower_of_validTagName h, hhead, hlength, hone]

/-- The tags have active rows. -/
def Db.ensured (db : Db) (names : List String) : Db :=
  { db with tag := fun n => if n ∈ names then some ⟨false⟩ else db.tag n }

/-- Making one more tag active, in either order. -/
theorem ensured_cons (db : Db) (name : String) (names : List String) :
    ({ db with tag := Function.update db.tag name (some ⟨false⟩) } : Db).ensured names =
      db.ensured (name :: names) := by
  have htag : ∀ n, (if n ∈ names then some ⟨false⟩
      else Function.update db.tag name (some ⟨false⟩) n) =
      if n ∈ name :: names then some ⟨false⟩ else db.tag n := by
    intro n
    by_cases heq : n = name <;> simp [heq]
  simp only [Db.ensured, htag]

/-- The tag rows are made exactly when none of them is soft-deleted. -/
theorem ensureTags_eq_ok {names : List String} (hvalid : ∀ n ∈ names, ValidTagName n) :
    ensureTags db names = .ok db' ↔
      (∀ n ∈ names, db.tag n ≠ some ⟨true⟩) ∧ db' = db.ensured names := by
  induction names generalizing db with
  | nil => simp [ensureTags, Db.ensured, eq_comm]
  | cons name names ih =>
    obtain ⟨hname, htail⟩ := forall_mem_cons.mp hvalid
    have hlower := sqlLower_of_validTagName hname
    cases hrow : db.tag name with
    | none =>
      have hcreate : createTag db name =
          .ok { db with tag := Function.update db.tag name (some ⟨false⟩) } := by
        simp [createTag, hlower, hrow, checkTagName_of_validTagName hname]
      have hstep : ensureTags db (name :: names) =
          ensureTags { db with tag := Function.update db.tag name (some ⟨false⟩) }
            names := by
        simp [ensureTags, tagIsActive, hlower, hrow, hcreate, wrapError, bind,
          Except.bind]
      rw [hstep, ih htail]
      refine and_congr ?_ (by rw [ensured_cons])
      simp only [mem_cons, forall_eq_or_imp, hrow, ne_eq, reduceCtorEq,
        not_false_eq_true, true_and]
      refine forall₂_congr fun n _ => ?_
      by_cases heq : n = name
      · simp [heq, hrow]
      · rw [Function.update_of_ne heq]
    | some row =>
      obtain ⟨deleted⟩ := row
      cases deleted with
      | true =>
        simp [ensureTags, tagIsActive, hlower, hrow, createTag,
          checkTagName_of_validTagName hname, wrapError, bind, Except.bind]
      | false =>
        have hstep : ensureTags db (name :: names) = ensureTags db names := by
          simp [ensureTags, tagIsActive, hlower, hrow]
        have hsame : Function.update db.tag name (some ⟨false⟩) = db.tag := by
          rw [← hrow, Function.update_eq_self]
        rw [hstep, ih htail]
        refine and_congr (by simp [hrow]) ?_
        rw [← ensured_cons, hsame]

/-- Inserting fresh associations appends them. -/
theorem insertDocTags_eq {names : List String} (hdoc : (db.doc.lookup path).isSome)
    (htag : ∀ n ∈ names, (db.tag n).isSome) (hvalid : ∀ n ∈ names, ValidTagName n)
    (hnodup : (db.docTag path ++ names).Nodup) :
    insertDocTags db path names =
      .ok { db with
        docTag := Function.update db.docTag path (db.docTag path ++ names) } := by
  induction names generalizing db with
  | nil => simp [insertDocTags]
  | cons name names ih =>
    have hlower := sqlLower_of_validTagName (hvalid name (by simp))
    have hfresh : name ∉ db.docTag path := by
      intro hmem
      exact (nodup_append.mp hnodup).2.2 name hmem name (by simp) rfl
    have hinsert : insertDocTag db path name =
        .ok { db with
          docTag := Function.update db.docTag path (db.docTag path ++ [name]) } := by
      have hname := htag name (by simp)
      have h1 := Option.isSome_iff_ne_none.mp hdoc
      have h2 := Option.isSome_iff_ne_none.mp hname
      simp [insertDocTag, hlower, h1, h2, hfresh]
    simp only [insertDocTags, hinsert, wrapError, bind, Except.bind]
    rw [ih]
    · simp
    · exact hdoc
    · exact (forall_mem_cons.mp htag).2
    · exact (forall_mem_cons.mp hvalid).2
    · simpa using hnodup

/-! ## Links -/

/-- `link.New`: the stored URL and host of an acceptable link. -/
def newLink {β : Type} (rt : Runtime β) (rawURL : String) :
    Option (String × String) :=
  let trimmed := trimSpace rawURL
  if trimmed = "" ∨ 2048 < len trimmed then none
  else
    match rt.parseURL trimmed with
    | none => none
    | some (scheme, host, hostname) =>
      if scheme ≠ "http" ∧ scheme ≠ "https" then none
      else if host = "" then none
      else some (rawURL, if hostname = "" then host else hostname)

def Db.removeAllDocLinks (db : Db) (path : String) : Db :=
  { db with docLink := Function.update db.docLink path [] }

/-- The rows of `doc_link` after inserting links, the first of a URL winning. -/
def mergeLinks (rows : List (String × String)) :
    List (String × String) → List (String × String)
  | [] => rows
  | l :: ls =>
    if rows.any (fun row => row.1 == l.1) then mergeLinks rows ls
    else mergeLinks (rows ++ [l]) ls

/-- `addLinks`: one statement with three variables for each link. -/
def addLinks (db : Db) (path : String) (links : List (String × String)) :
    Except String Db :=
  if links = [] then .ok db
  else wrapError "inserting links" <|
    if maxVariableNumber < 3 * links.length then .error "too many SQL variables"
    else if links.any fun l => decide (2048 < l.1.length) then
      .error "CHECK constraint failed: url"
    else if (db.doc.lookup path).isNone then .error "FOREIGN KEY constraint failed"
    else
      .ok { db with
        docLink := Function.update db.docLink path (mergeLinks (db.docLink path) links) }

/-! ## Assets -/

def Db.unlinkAllAssets (db : Db) (path : String) : Db :=
  { db with docAsset := db.docAsset.filter fun row => !(row.1 == path) }

/-- `GetByHashTx` succeeds. -/
def assetIsVisible {β : Type} (rt : Runtime β) (db : Db) (hash : String) : Bool :=
  (db.asset hash).any fun row => rt.parsesRFC3339Nano row.createdAt

/-- `LinkToDocumentTx`; its failure is logged and ignored. -/
def Db.linkAsset (db : Db) (path hash : String) : Db :=
  if (path, hash) ∈ db.docAsset then db
  else { db with docAsset := db.docAsset ++ [(path, hash)] }

end Yanta.Index
