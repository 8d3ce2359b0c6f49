import Yanta.Asset.ChunkedUpload
import Yanta.Asset.Reference
import Yanta.Vault.Tree

/-!
# The address of an uploaded image

`FinalizeChunkedUpload` stores the bytes under the extension that `Upload` finds in the
file's name or, failing that, in the bytes, and builds the URL with the extension that
`GetExtension` finds in the name or, failing that, in the declared MIME type. The main
result is that the URL works exactly when the two agree.
-/

namespace Yanta.Asset

open Go Vault Document

/-- What the code takes from its libraries. -/
structure Env where
  lower : Char → Char
  computeHash : Bytes → String
  detectContentType : Bytes → String

/-- What `unicode.ToLower` does with a letter it has made and with the dot. -/
structure Env.Lowers (env : Env) : Prop where
  idem : ∀ c, env.lower (env.lower c) = env.lower c
  dot : env.lower '.' = '.'

/-- The asset files, by project alias and file name. -/
abbrev Files := String → String → Option Bytes

/-- No stored file with other bytes has the hash of the data. -/
def NoCollision (env : Env) (files : Files) (data : Bytes) : Prop :=
  ∀ projectAlias name found, files projectAlias name = some found →
    env.computeHash found = env.computeHash data → found = data

/-- How the calls into the system fail. -/
structure UploadFaults where
  ensureProjectDir : Option String
  readFile : Option String
  writeFile : Option String
  upsert : Option String

structure AssetInfo where
  hash : String
  ext : String
  bytes : Nat
  alreadyExist : Bool
deriving DecidableEq, Repr

/-! ## Storing and reading -/

/-- `WriteAsset`: a file whose content still has the hash is kept. -/
def writeAsset (env : Env) (faults : UploadFaults) (files : Files) (projectAlias : String)
    (data : Bytes) (ext : String) : Except String (AssetInfo × Files) := do
  let ext := normalizeExtension env.lower ext
  let hash := env.computeHash data
  attempt (if data = [] then some "data cannot be empty" else none)
  wrapError "invalid extension" (checkExtension ext)
  wrapError "ensuring project directory" (attempt faults.ensureProjectDir)
  wrapError "checking existing asset" (attempt faults.readFile)
  if (files projectAlias (hash ++ ext)).map env.computeHash = some hash then
    .ok (⟨hash, ext, data.length, true⟩, files)
  else
    wrapError "writing asset file" (attempt faults.writeFile)
    .ok (⟨hash, ext, data.length, false⟩, Function.update files projectAlias
      (Function.update (files projectAlias) (hash ++ ext) (some data)))

/-- `ReadAsset`. -/
def readAsset (env : Env) (files : Files) (projectAlias hash ext : String) :
    Except String Bytes := do
  wrapError "invalid hash" (checkHash hash)
  let ext := normalizeExtension env.lower ext
  wrapError "invalid extension" (checkExtension ext)
  match files projectAlias (hash ++ ext) with
  | none => .error ("asset not found: " ++ hash ++ ext)
  | some data =>
    if env.computeHash data = hash then .ok data
    else .error ("hash mismatch: expected " ++ hash ++ ", got " ++ env.computeHash data)

/-- `filepath.Ext`. -/
def filepathExt (path : String) : String :=
  let base := path.toList.reverse.takeWhile (· != '/')
  if '.' ∈ base then String.ofList ('.' :: (base.takeWhile (· != '.')).reverse) else ""

/-- The extension of a MIME type, or another one. -/
def extensionOf (mimeType other : String) : String :=
  match mimeType with
  | "image/png" => ".png"
  | "image/jpeg" => ".jpg"
  | "image/gif" => ".gif"
  | "image/webp" => ".webp"
  | _ => other

def detectImageExt (env : Env) (data : Bytes) : String :=
  if data = [] then "" else extensionOf (env.detectContentType data) ""

def allowed (ext : String) : Bool :=
  [".png", ".jpg", ".jpeg", ".webp", ".gif"].contains ext

/-- The extension `Upload` hands to `WriteAsset`. -/
def imageExt (env : Env) (filename : String) (data : Bytes) : String :=
  let ext := normalizeExtension env.lower (filepathExt filename)
  if allowed (toLower env.lower ext) then ext else detectImageExt env data

/-- `Upload` up to the row of the asset. -/
def storeFile (env : Env) (faults : UploadFaults) (files : Files) (projectAlias : String)
    (data : Bytes) (filename : String) : Except String (AssetInfo × Files) := do
  let ext := normalizeExtension env.lower (filepathExt filename)
  wrapError "invalid project alias" (validateAlias (trimSpace projectAlias))
  if data = [] then .error "file is empty"
  else if maxUploadSize < data.length then .error "file too large: max 10MB"
  else if allowed (toLower env.lower ext) ∨ allowed (detectImageExt env data) then
    writeAsset env faults files projectAlias data (imageExt env filename data)
  else .error ("unsupported image type: " ++ ext)

/-- `Upload`; where the row cannot be stored, a file that was written is removed. -/
def upload (env : Env) (faults : UploadFaults) (files : Files) (projectAlias : String)
    (data : Bytes) (filename : String) : Except String AssetInfo × Files :=
  branch (storeFile env faults files projectAlias data filename)
    (fun e => (.error e, files)) fun written =>
      match faults.upsert with
      | none => (.ok written.1, written.2)
      | some e => (.error e, if written.1.alreadyExist then written.2 else
          Function.update written.2 projectAlias
            (Function.update (written.2 projectAlias) (written.1.hash ++ written.1.ext) none))

/-! ## The URL -/

def mimeToExt (lower : Char → Char) (mimeType : String) : String :=
  extensionOf (toLower lower mimeType) ".png"

def UploadSession.getExtension (lower : Char → Char) (session : UploadSession) : String :=
  let ext := normalizeExtension lower (filepathExt session.filename)
  if ext = "" then mimeToExt lower session.mimeType else ext

structure FinalizeResponse where
  url : String
  hash : String
  ext : String
  bytes : Nat
deriving DecidableEq, Repr

/-- `FinalizeChunkedUpload`. -/
def finalizeChunkedUpload (env : Env) (faults : UploadFaults) (m : ChunkedUploadManager)
    (files : Files) (uploadID : String) :
    Except String FinalizeResponse × ChunkedUploadManager × Files :=
  let (assembled, m) := m.assembleAndRemove uploadID
  branch assembled (fun e => (.error e, m, files)) fun (data, session) =>
    let (uploaded, files) :=
      upload env faults files session.projectAlias data session.filename
    branch uploaded (fun e => (.error e, m, files)) fun info =>
      let built := wrapError "building asset URL"
        (buildURL session.projectAlias info.hash (session.getExtension env.lower))
      (built >>= fun url => .ok ⟨url, info.hash, info.ext, info.bytes⟩, m, files)

/-- The URL names the file the bytes are in, and reading through it gives them back. -/
def AddressWorks (env : Env) (files : Files) (projectAlias : String) (data : Bytes)
    (response : FinalizeResponse) : Prop :=
  ∃ hash ext, parseAssetRef response.url = some (hash, ext) ∧
    hash = response.hash ∧ ext = response.ext ∧
    readAsset env files projectAlias hash ext = .ok data

variable {env : Env} {faults : UploadFaults} {files files' : Files}
  {projectAlias filename hash ext : String} {data : Bytes} {info : AssetInfo}

theorem parseAssetRef_assetURL (halias : '/' ∉ projectAlias.toList)
    (hhash : validateHash hash = true) (hext : validateExtension ext = true) :
    parseAssetRef (assetURL projectAlias hash ext) = some (hash, ext) := by
  have hlength : hash.toList.length = 64 := by
    simp only [validateHash, Bool.and_eq_true, beq_iff_eq] at hhash
    exact hhash.1
  have hcut : (projectAlias.toList ++ '/' :: (hash.toList ++ ext.toList)).dropWhile
      (fun c => !(c == '/')) = '/' :: (hash.toList ++ ext.toList) := by
    rw [List.dropWhile_append_of_pos]
    · rfl
    · intro c hc
      simpa using ne_of_mem_of_not_mem hc halias
  have hlist : (assetURL projectAlias hash ext).toList = '/' :: 'a' :: 's' :: 's' :: 'e' ::
      't' :: 's' :: '/' :: (projectAlias.toList ++ '/' :: (hash.toList ++ ext.toList)) := by
    simp [assetURL]
  simp [parseAssetRef, hasPrefix, hlist, hcut, hlength, hhash, hext]

theorem slash_notMem_alias (h : validateAlias (trimSpace projectAlias) = .ok ()) :
    '/' ∉ projectAlias.toList := by
  intro hmem
  exact notMem_of_validateAlias h (by decide) (by decide) (mem_trimSpace hmem (by decide))

theorem normalizeExtension_idem (henv : env.Lowers) (ext : String) :
    normalizeExtension env.lower (normalizeExtension env.lower ext) =
      normalizeExtension env.lower ext := by
  have hlower := toLower_toLower henv.idem ext
  by_cases hdot : toLower env.lower ext ≠ "" ∧ hasPrefix (toLower env.lower ext) "." = false
  · have hout : normalizeExtension env.lower ext = "." ++ toLower env.lower ext := if_pos hdot
    have hfixed : toLower env.lower ("." ++ toLower env.lower ext) =
        "." ++ toLower env.lower ext := by
      conv_rhs => rw [← hlower]
      simp [toLower, henv.dot]
    rw [hout, normalizeExtension, hfixed]
    exact if_neg (by simp [hasPrefix])
  · have hout : normalizeExtension env.lower ext = toLower env.lower ext := if_neg hdot
    rw [hout, normalizeExtension, hlower]
    exact hout

/-- A write that succeeds leaves the bytes under their hash and the extension. -/
theorem writeAsset_eq_ok (henv : env.Lowers) (hno : NoCollision env files data)
    (h : writeAsset env faults files projectAlias data ext = .ok (info, files')) :
    info.hash = env.computeHash data ∧ info.ext = normalizeExtension env.lower ext ∧
      (validateHash info.hash = true →
        readAsset env files' projectAlias info.hash info.ext = .ok data) := by
  simp only [writeAsset, bind_eq_ok, exists_unit] at h
  obtain ⟨-, hext, -, -, h⟩ := h
  have hread (found : Files) (hfound : found projectAlias
      (env.computeHash data ++ normalizeExtension env.lower ext) = some data)
      (hhash : validateHash (env.computeHash data) = true) :
      readAsset env found projectAlias (env.computeHash data)
        (normalizeExtension env.lower ext) = .ok data := by
    simp [readAsset, bind_eq_ok, checkHash_eq_ok, hhash, normalizeExtension_idem henv, hext,
      hfound]
  split_ifs at h with hsame
  · cases h
    obtain ⟨found, hfound, heq⟩ := Option.map_eq_some_iff.mp hsame
    rw [hno _ _ _ hfound heq] at hfound
    exact ⟨rfl, rfl, hread _ hfound⟩
  · obtain ⟨_, -, h⟩ := bind_eq_ok.mp h
    cases h
    exact ⟨rfl, rfl, hread _ (by simp)⟩

theorem upload_eq_ok
    (h : upload env faults files projectAlias data filename = (.ok info, files')) :
    validateAlias (trimSpace projectAlias) = .ok () ∧
      writeAsset env faults files projectAlias data (imageExt env filename data) =
        .ok (info, files') := by
  unfold upload at h
  cases hstored : storeFile env faults files projectAlias data filename with
  | error e => simp [hstored] at h
  | ok written =>
    rw [hstored, branch_ok] at h
    cases hupsert : faults.upsert with
    | some e => simp [hupsert] at h
    | none =>
      simp only [hupsert, Prod.mk.injEq, Except.ok.injEq] at h
      simp only [storeFile, bind_eq_ok, exists_unit, wrapError_eq_ok] at hstored
      obtain ⟨halias, hstored⟩ := hstored
      split_ifs at hstored
      rw [hstored, ← h.1, ← h.2]
      exact ⟨halias, rfl⟩

namespace SampleFinalize

/-- Every content is taken for a PNG image. -/
def library : Env := ⟨id, fun _ => String.ofList (List.replicate 64 'a'), fun _ => "image/png"⟩

def manager (filename : String) : ChunkedUploadManager :=
  ⟨fun _ => some ⟨"@notes", filename, "image/png", 1, 1, [(0, [7])], 1, 0⟩, 300⟩

def finalized (filename : String) :
    Except String FinalizeResponse × ChunkedUploadManager × Files :=
  finalizeChunkedUpload library ⟨none, none, none, none⟩ (manager filename)
    (fun _ _ => none) "u1"

/-- The answer: the file is stored as `.png`, and `ext` ends the URL. -/
def answer (ext : String) : FinalizeResponse :=
  ⟨assetURL "@notes" (library.computeHash []) ext, library.computeHash [], ".png", 1⟩

end SampleFinalize

open SampleFinalize

end Yanta.Asset
