import Yanta.Go.Errors
import Yanta.Go.Strings

/-!
# Asset references

The checks of `internal/asset/asset.go`. A reference has the form
`/assets/<project>/<hash><ext>` with a hash of 64 hexadecimal digits; the digits
are single bytes, so cutting the name by characters and by bytes is the same
thing on the references that are accepted.
-/

namespace Yanta.Asset

open Go

def isHashChar (c : Char) : Bool :=
  ('0' ≤ c && c ≤ '9') || ('a' ≤ c && c ≤ 'f')

/-- `ValidateHash` accepts. -/
def validateHash (hash : String) : Bool :=
  hash.toList.length == 64 && hash.toList.all isHashChar

def isExtensionChar (c : Char) : Bool :=
  ('a' ≤ c && c ≤ 'z') || ('A' ≤ c && c ≤ 'Z') || ('0' ≤ c && c ≤ '9')

/-- `ValidateExtension` accepts. -/
def validateExtension (ext : String) : Bool :=
  match ext.toList with
  | [] => true
  | c :: cs =>
    c == '.' && 2 ≤ len ext && len ext ≤ 10 && cs.all isExtensionChar

/-- `ValidateHash` with its errors. -/
def checkHash (hash : String) : Except String Unit :=
  if validateHash hash then .ok ()
  else if len hash ≠ 64 then
    .error ("invalid hash length: got " ++ decimal (len hash) ++ ", want 64")
  else
    .error ("invalid hash character: " ++
      String.ofList ((hash.toList.filter fun c => !isHashChar c).take 1) ++
        " (must be 0-9a-f)")

/-- `ValidateExtension` with its errors. -/
def checkExtension (ext : String) : Except String Unit :=
  if validateExtension ext then .ok ()
  else if !hasPrefix ext "." then .error ("extension must start with dot, got: " ++ ext)
  else if len ext < 2 || 10 < len ext then
    .error ("extension length invalid: " ++ decimal (len ext) ++ " chars")
  else
    .error ("extension contains invalid character: " ++
      String.ofList (((ext.toList.drop 1).filter fun c => !isExtensionChar c).take 1))

def normalizeExtension (lower : Char → Char) (ext : String) : String :=
  let ext := toLower lower ext
  if ext ≠ "" ∧ hasPrefix ext "." = false then "." ++ ext else ext

/-- The URL of an asset. -/
def assetURL (projectAlias hash ext : String) : String :=
  "/assets/" ++ projectAlias ++ "/" ++ hash ++ ext

/-- `BuildURL`. -/
def buildURL (projectAlias hash ext : String) : Except String String := do
  checkHash hash
  checkExtension ext
  if trimSpace projectAlias = "" then .error "project alias is required"
  else .ok (assetURL projectAlias hash ext)

theorem checkHash_eq_ok {hash : String} {u : Unit} :
    checkHash hash = .ok u ↔ validateHash hash = true := by
  unfold checkHash
  split_ifs with hvalid <;> simp [hvalid]

theorem checkExtension_eq_ok {ext : String} {u : Unit} :
    checkExtension ext = .ok u ↔ validateExtension ext = true := by
  unfold checkExtension
  split_ifs with hvalid <;> simp [hvalid]

theorem buildURL_eq_ok {projectAlias hash ext url : String}
    (h : buildURL projectAlias hash ext = .ok url) :
    validateHash hash = true ∧ validateExtension ext = true ∧
      url = assetURL projectAlias hash ext := by
  obtain ⟨_, hhash, h⟩ := bind_eq_ok.mp h
  obtain ⟨_, hext, h⟩ := bind_eq_ok.mp h
  split_ifs at h
  exact ⟨checkHash_eq_ok.mp hhash, checkExtension_eq_ok.mp hext, (Except.ok.inj h).symm⟩

/-- `ParseAssetRef`: the hash and the extension of a reference. -/
def parseAssetRef (ref : String) : Option (String × String) :=
  if !hasPrefix ref "/assets/" then none
  else
    match (ref.toList.drop 8).dropWhile (fun c => !(c == '/')) with
    | [] => none
    | _ :: filename =>
      let hash := String.ofList (filename.take 64)
      let ext := String.ofList (filename.drop 64)
      if validateHash hash && validateExtension ext then some (hash, ext)
      else none

/-- The hash an extracted path refers to: the reference is read from the first
`/assets/` segment on. -/
def referencedHash (url : String) : Option String :=
  (findFrom "/assets/".toList url.toList).bind fun rest =>
    (parseAssetRef (String.ofList rest)).map Prod.fst

end Yanta.Asset
