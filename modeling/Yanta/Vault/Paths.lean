import Yanta.Go.Strings

/-!
# Vault paths and project aliases

`internal/vault/paths.go`, `Vault.DocumentPath` of `internal/vault/vault.go` and
`ValidateAlias` of `internal/project/project.go`. The vault root is a fixed
clean absolute path, and joining a clean relative path to it is injective, so a
file of the vault is named here by its clean path relative to the root.
-/

namespace Yanta.Vault

open Go

/-- The character class of `aliasContentPattern`. -/
def isAliasChar (c : Char) : Bool :=
  ('a' ≤ c && c ≤ 'z') || ('0' ≤ c && c ≤ '9') || c == '-'

/-- `project.ValidateAlias`. -/
def validateAlias (projectAlias : String) : Except String Unit :=
  if !hasPrefix projectAlias "@" then .error "alias must start with @"
  else
    let aliasContent := projectAlias.toList.drop 1
    let n := len (String.ofList aliasContent)
    if n < 2 || 32 < n then
      .error ("alias must be 2-32 characters (excluding @ prefix), got " ++ decimal n)
    else if !aliasContent.all isAliasChar then
      .error "alias must contain only lowercase letters, numbers, and hyphens after @"
    else .ok ()

def normalizeDocumentPath (docPath : String) : String :=
  let docPath := trimSpace docPath
  if docPath = "" then ""
  else
    let normalized := replaceAll docPath "\\" "/"
    let normalized := trimPrefix normalized "./"
    let normalized := trimPrefix normalized "/"
    let normalized := replaceAll normalized "//" "/"
    let cleanPath := pathClean normalized
    if cleanPath = "." then "" else cleanPath

def validateDocumentPath (docPath : String) : Except String Unit :=
  if docPath = "" then .error "path cannot be empty"
  else if contains docPath ".." then
    .error ("path contains directory traversal: " ++ docPath)
  else
    let cleanPath := normalizeDocumentPath docPath
    if cleanPath = "" then .error "path cannot be empty"
    else if !hasPrefix cleanPath "projects/" then
      .error ("path must start with 'projects/', got: " ++ cleanPath)
    else if !hasSuffix cleanPath ".json" then
      .error ("path must end with '.json', got: " ++ cleanPath)
    else
      let projectAlias := pathBase (pathDir cleanPath)
      if projectAlias = "" || projectAlias = "." || projectAlias = ".." ||
          projectAlias = "projects" then
        .error ("invalid project alias in path: " ++ cleanPath)
      else .ok ()

/-- `Vault.DocumentPath`: the vault file a document path names. -/
def documentPath (relativePath : String) : Except String String :=
  let relativePath := normalizeDocumentPath relativePath
  match validateDocumentPath relativePath with
  | .error e => .error e
  | .ok () => .ok relativePath

end Yanta.Vault
