import Mathlib.Data.List.AList
import Yanta.Document.Normal

/-!
# Reading and writing document files

`internal/document/io.go` and `errors.go`. The vault is a finite map from clean
relative paths to files; a directory is there when a file is below it. What the
operating system may refuse is an explicit argument of each operation, and an
atomic replacement either happens or leaves the vault as it was.
-/

namespace Yanta.Document

open Go Yanta.Vault

/-- The sentinel errors of the package and of its service. -/
inductive Sentinel where
  | notFound
  | invalidPath
  | validation
  | corrupted
  | writeFailed
  | conflict
deriving DecidableEq, Repr

variable {now : Time} {absPath : String} {fault mkdir : Option String} {cause : Sentinel}

/-- The text a sentinel prints. -/
def Sentinel.text : Sentinel → String
  | .notFound => "document not found"
  | .invalidPath => "invalid document path"
  | .validation => "document validation failed"
  | .corrupted => "document file corrupted"
  | .writeFailed => "failed to write document"
  | .conflict => "ERR_CONFLICT: document was modified externally"

abbrev DocError := Failure Sentinel

/-- A sentinel returned without a wrapping text. -/
def Sentinel.bare (cause : Sentinel) : DocError := ⟨some cause, cause.text⟩

/-- `fmt.Errorf("%w: %v", cause, err)`. -/
def Sentinel.of {α : Type} (cause : Sentinel) :
    Except String α → Except DocError α :=
  classify cause cause.text

open Sentinel

@[simp] theorem Sentinel.of_eq_ok {α : Type} {x : Except String α} {a : α} :
    cause.of x = .ok a ↔ x = .ok a := by
  simp [of]

/-- A file with its modification time in nanoseconds. -/
structure VaultFile (β : Type) where
  data : β
  mtime : Int
deriving DecidableEq, Repr

abbrev Vault (β : Type) := AList fun _ : String => VaultFile β

def wrapIOError {α : Type} (op path : String) :
    Except DocError α → Except DocError α :=
  label (op ++ " " ++ path)

variable {path : String}

@[simp] theorem wrapIOError_eq_ok {α : Type} {op : String} {x : Except DocError α} {a : α} :
    wrapIOError op path x = .ok a ↔ x = .ok a := by
  simp [wrapIOError]

def maxDocumentFileBytes : Nat := 50 * 1024 * 1024

/-- What `os.MkdirAll` and the atomic replacement answer. -/
structure WriteFaults where
  mkdir : Option String
  replace : Option String

def WriteFaults.none : WriteFaults := ⟨Option.none, Option.none⟩

section

variable {β : Type} (rt : Runtime β)
variable {d : DocumentFile}

/-- The size limit shared by reading and writing. -/
def checkSize (cause : Sentinel) (data : β) : Except DocError Unit :=
  if maxDocumentFileBytes < rt.size data then
    cause.of (.error ("file too large (" ++ decimal (rt.size data) ++ " bytes)"))
  else .ok ()

@[simp] theorem checkSize_eq_ok {data : β} {u : Unit} :
    checkSize rt cause data = .ok u ↔ rt.size data ≤ maxDocumentFileBytes := by
  unfold checkSize
  split
  · simp
    omega
  · simp
    omega

/-- `FileReader.ReadFile`. The size is checked on the file's status and again
on the bytes read; the read is one step here, so both see the same size. -/
def readFile (now : Time) (fault : Option String) (v : Vault β)
    (relativePath : String) : Except DocError DocumentFile :=
  wrapIOError "read" relativePath do
    let absPath ← Sentinel.invalidPath.of (documentPath relativePath)
    match v.lookup absPath with
    | none => .error Sentinel.notFound.bare
    | some file =>
      checkSize rt .corrupted file.data
      passOn (attempt fault)
      Sentinel.corrupted.of (fromJSON rt now file.data)

/-- What `FileWriter.WriteFile` does before it replaces the file: it finds the
file's place and encodes the new contents. -/
def writeData (now : Time) (mkdir : Option String)
    (relativePath : String) (doc : DocumentFile) :
    Except DocError (String × β) := do
  let doc := doc.normalize rt
  Sentinel.validation.of (doc.validate rt now)
  let absPath ← Sentinel.invalidPath.of (documentPath relativePath)
  labelText "creating directory" (attempt mkdir)
  let jsonData ← labelText "serializing" (doc.toJSON rt now)
  checkSize rt .validation jsonData
  return (absPath, jsonData)

/-- `FileWriter.WriteFile`. -/
def writeFile (now : Time) (mtime : Int) (faults : WriteFaults) (v : Vault β)
    (relativePath : String) (doc : DocumentFile) :
    Except DocError (Vault β) :=
  wrapIOError "write" relativePath do
    let (absPath, jsonData) ← writeData rt now faults.mkdir relativePath doc
    Sentinel.writeFailed.of (attempt faults.replace)
    return v.insert absPath ⟨jsonData, mtime⟩

/-- `FileWriter.DeleteFile`. -/
def deleteFile (fault : Option String) (v : Vault β) (relativePath : String) :
    Except DocError (Vault β) :=
  wrapIOError "delete" relativePath do
    let absPath ← Sentinel.invalidPath.of (documentPath relativePath)
    match v.lookup absPath with
    | none => .error Sentinel.notFound.bare
    | some _ =>
      passOn (attempt fault)
      return v.erase absPath

variable {rt}

/-! ## What success means -/

/-- A document path that resolves is not empty. -/
theorem ne_empty_of_documentPath (h : documentPath path = .ok absPath) : path ≠ "" := by
  rintro rfl
  cases h

theorem readFile_eq_ok {v : Vault β} :
    readFile rt now fault v path = .ok d ↔
      ∃ absPath file, documentPath path = .ok absPath ∧
        v.lookup absPath = some file ∧
        rt.size file.data ≤ maxDocumentFileBytes ∧ fault = none ∧
        fromJSON rt now file.data = .ok d := by
  simp only [readFile, wrapIOError_eq_ok, bind_eq_ok, of_eq_ok]
  constructor
  · rintro ⟨absPath, hpath, h⟩
    cases hfile : v.lookup absPath with
    | none => simp [hfile] at h
    | some file =>
      simp only [hfile, bind_eq_ok, exists_unit, checkSize_eq_ok,
        passOn_eq_ok, attempt_eq_ok, of_eq_ok] at h
      exact ⟨absPath, file, hpath, hfile, h⟩
  · rintro ⟨absPath, file, hpath, hfile, h⟩
    refine ⟨absPath, hpath, ?_⟩
    simpa only [hfile, bind_eq_ok, exists_unit, checkSize_eq_ok,
      passOn_eq_ok, attempt_eq_ok, of_eq_ok] using h

theorem writeData_eq_ok {target : String × β} :
    writeData rt now mkdir path d = .ok target ↔
      documentPath path = .ok target.1 ∧ mkdir = none ∧
        (d.normalize rt).toJSON rt now = .ok target.2 ∧
        (d.normalize rt).validate rt now = .ok () ∧
        rt.size target.2 ≤ maxDocumentFileBytes := by
  obtain ⟨absPath, data⟩ := target
  simp only [writeData, bind_eq_ok, exists_unit, of_eq_ok, labelText_eq_ok,
    attempt_eq_ok, checkSize_eq_ok, pure, Except.pure, Except.ok.injEq, Prod.mk.injEq]
  constructor
  · rintro ⟨hvalid, _, hpath, hmkdir, _, hjson, hsize, rfl, rfl⟩
    exact ⟨hpath, hmkdir, hjson, hvalid, hsize⟩
  · rintro ⟨hpath, hmkdir, hjson, hvalid, hsize⟩
    exact ⟨hvalid, _, hpath, hmkdir, _, hjson, hsize, rfl, rfl⟩

theorem writeFile_eq_ok {mtime : Int} {faults : WriteFaults} {v v' : Vault β} :
    writeFile rt now mtime faults v path d = .ok v' ↔
      faults.replace = none ∧ ∃ target,
        writeData rt now faults.mkdir path d = .ok target ∧
        v' = v.insert target.1 ⟨target.2, mtime⟩ := by
  simp only [writeFile, wrapIOError_eq_ok, bind_eq_ok, exists_unit,
    of_eq_ok, attempt_eq_ok, pure, Except.pure, Except.ok.injEq]
  constructor
  · rintro ⟨target, hdata, hreplace, rfl⟩
    exact ⟨hreplace, target, hdata, rfl⟩
  · rintro ⟨hreplace, target, hdata, rfl⟩
    exact ⟨target, hdata, hreplace, rfl⟩

/-- Removing a file that is there fails only if the operating system refuses. -/
theorem deleteFile_eq_ok {v v' : Vault β} {file : VaultFile β}
    (hpath : documentPath path = .ok absPath) (hfile : v.lookup absPath = some file) :
    deleteFile fault v path = .ok v' ↔ fault = none ∧ v' = v.erase absPath := by
  simp only [deleteFile, hpath, wrapIOError_eq_ok, bind_eq_ok, of_eq_ok,
    Except.ok.injEq, exists_eq_left', hfile, passOn_eq_ok, attempt_eq_ok,
    exists_unit, pure, Except.pure]
  exact and_congr_right fun _ => eq_comm

/-- Removing a file that is not there is a `notFound` error. -/
theorem deleteFile_of_missing {v : Vault β} (hpath : documentPath path = .ok absPath)
    (hfile : v.lookup absPath = none) :
    ∃ e, deleteFile fault v path = .error e ∧ e.cause = some .notFound := by
  have herror : deleteFile fault v path =
      wrapIOError "delete" path (.error notFound.bare) := by
    simp only [deleteFile, hpath, of, classify, bind, Except.bind, hfile]
  exact ⟨_, herror, rfl⟩

/-- Reading back a file that was just written. -/
theorem fromJSON_of_writeData (hrt : rt.Faithful) {later : Time} {d' : DocumentFile}
    {target : String × β} (h : writeData rt now mkdir path d = .ok target) :
    fromJSON rt later target.2 = .ok d' ↔
      d' = d.normalize rt ∧
        validateTimestamps rt later d.docMeta.created d.docMeta.updated =
          .ok () := by
  obtain ⟨-, -, hjson, -, -⟩ := writeData_eq_ok.mp h
  rw [fromJSON_of_toJSON hrt hjson, DocumentFile.normalize_idem hrt]
  rfl

end

end Yanta.Document
