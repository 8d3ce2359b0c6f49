import Yanta.Plugin.Signing
import Yanta.Support.Files

/-!
# Plugin manifests and build metadata

The checks of `internal/plugins/service.go` and `build_metadata.go` on the files
of a plugin. A plugin's directory is given by the nodes below it. The
descriptive fields of a manifest and of the build metadata, which no check reads,
are left out.
-/

namespace Yanta.Plugin

open Go Support

structure Manifest where
  id : String
  name : String
  version : String
  apiVersion : String
  entry : String
deriving DecidableEq, Repr

structure ValidationIssue where
  code : String
  message : String
  field : String
deriving DecidableEq, Repr

structure PluginBuildMetadata where
  builder : String
  buildTool : String
  format : String
  hostExternals : List String
  detectedBundledPackages : List String
  entryHashSHA256 : String
deriving DecidableEq, Repr

/-- The decoders and tables that the plugin service uses. -/
structure PluginRuntime extends SigningRuntime where
  /-- `unicode.ToLower`. -/
  lower : Char → Char
  /-- `string(bytes)`. -/
  textOf : Bytes → String
  /-- `toml.DecodeFile`: the fields it filled in, and its error. -/
  decodeManifest : Bytes → Manifest × Option String
  /-- `json.Unmarshal` into build metadata. -/
  unmarshalBuild : Bytes → Except String PluginBuildMetadata
  /-- `json.Unmarshal` into install metadata. -/
  unmarshalMetadata : Bytes → Except String InstallMetadata
  /-- `json.MarshalIndent` of install metadata. -/
  marshalMetadata : InstallMetadata → Bytes

/-- The nodes below a plugin's directory, which is the empty path. -/
abbrev PluginTree := FileSystem Bytes

/-- `os.ReadFile` of a file directly in the directory. -/
def readTop (tree : PluginTree) (name : String) : Option Bytes :=
  match tree [name] with
  | some (.file data) => some data
  | _ => none

def pluginStateNamespace : String := "__plugin_state"
def requiredPluginEntrypoint : String := "main.js"
def requiredPluginBuildMetadataFile : String := "main.meta.json"
def manifestFile : String := "plugin.toml"
def installMetadataFile : String := ".yanta-install.json"

def pluginErrInvalidManifest : String := "PLUGIN_INVALID_MANIFEST"
def pluginErrIncompatibleAPI : String := "PLUGIN_INCOMPATIBLE_API"
def pluginErrBuildMetadataMissing : String := "PLUGIN_BUILD_METADATA_MISSING"
def pluginErrBuildMetadataInvalid : String := "PLUGIN_BUILD_METADATA_INVALID"
def pluginErrBuildHashMismatch : String := "PLUGIN_BUILD_HASH_MISMATCH"
def pluginErrForbiddenBundle : String := "PLUGIN_FORBIDDEN_BUNDLE"

inductive PluginStatus where
  | ok
  | invalidManifest
  | incompatibleAPI
deriving DecidableEq, Repr

/-! ## The manifest -/

/-- A required field that is blank. -/
def missingField (field value : String) : List ValidationIssue :=
  if trimSpace value = "" then
    [⟨"MISSING_REQUIRED_FIELD", "missing required field: " ++ field, field⟩]
  else []

def entryIssues (entry : String) : List ValidationIssue :=
  if trimSpace entry = "" then missingField "entry" entry
  else if trimSpace entry ≠ requiredPluginEntrypoint then
    [⟨"INVALID_ENTRYPOINT", "entry must be " ++ quote requiredPluginEntrypoint,
      "entry"⟩]
  else []

def manifestValidationIssues (m : Manifest) : List ValidationIssue :=
  missingField "id" m.id ++ missingField "name" m.name ++
    missingField "version" m.version ++ missingField "api_version" m.apiVersion ++
    entryIssues m.entry ++
    (if trimSpace m.id = pluginStateNamespace then
      [⟨"RESERVED_PLUGIN_ID", "plugin id uses reserved namespace", "id"⟩]
    else [])

/-- `strconv.Atoi` on the digits of a number. -/
def digitsValue (cs : List Char) : Option Nat :=
  if cs ≠ [] ∧ cs.all Char.isDigit then
    some (cs.foldl (fun n c => 10 * n + (c.toNat - 48)) 0)
  else none

/-- `strconv.Atoi`. -/
def atoi (s : String) : Option Int :=
  match s.toList with
  | '-' :: cs => (digitsValue cs).map fun n => -(n : Int)
  | '+' :: cs => (digitsValue cs).map fun n => (n : Int)
  | cs => (digitsValue cs).map fun n => (n : Int)

def supportedPluginAPIMajor : Int := 1

def isAPIVersionCompatible (raw : String) : Bool :=
  let trimmed := trimSpace raw
  let majorPart := String.ofList (trimmed.toList.takeWhile fun c => !(c == '.'))
  !(trimmed == "") && atoi majorPart == some supportedPluginAPIMajor

def validateManifest (m : Manifest) (decodeErr : Option String) :
    PluginStatus × List ValidationIssue :=
  let issues :=
    (decodeErr.toList.map fun e => ⟨"MANIFEST_DECODE_ERROR", e, "plugin.toml"⟩) ++
      manifestValidationIssues m
  if issues ≠ [] then (.invalidManifest, issues)
  else if !isAPIVersionCompatible m.apiVersion then
    (.incompatibleAPI,
      [⟨"INCOMPATIBLE_API_VERSION",
        "plugin api_version " ++ quote m.apiVersion ++
          " is not supported (expected major 1)", "api_version"⟩])
  else (.ok, [])

def summarizeIssues (issues : List ValidationIssue) : String :=
  if issues = [] then "manifest validation failed"
  else join (issues.map ValidationIssue.message) "; "

section

variable (rt : PluginRuntime)

/-- `toml.DecodeFile` of the manifest of a plugin's directory. -/
def readManifest (tree : PluginTree) : Manifest × Option String :=
  match readTop tree manifestFile with
  | none => (⟨"", "", "", "", ""⟩, some "open plugin.toml: no such file or directory")
  | some data => rt.decodeManifest data

/-- A manifest that an install accepts. -/
def checkManifest (tree : PluginTree) : Except String Manifest :=
  let decoded := readManifest rt tree
  let checked := validateManifest decoded.1 decoded.2
  match checked.1 with
  | .invalidManifest => pluginError pluginErrInvalidManifest (summarizeIssues checked.2)
  | .incompatibleAPI => pluginError pluginErrIncompatibleAPI (summarizeIssues checked.2)
  | .ok => .ok decoded.1

/-! ## The build metadata -/

def forbiddenBundledRuntimePackages : List String :=
  ["react", "react-dom", "@blocknote/core", "@blocknote/react", "yjs"]

/-- `normalizeStringList`, without the sorting, which no check depends on. -/
def normalizeStringList (values : List String) : List String :=
  ((values.map fun v => trimSpace (toLower rt.lower v)).filter fun v => !(v == "")).dedup

/-- The texts that give a bundled package away. -/
def bundlePatterns : List (String × List String) :=
  [("@blocknote/core", ["node_modules/@blocknote/core/"]),
    ("@blocknote/react", ["node_modules/@blocknote/react/"]),
    ("react", ["node_modules/react/", "react.production.min.js"]),
    ("react-dom", ["node_modules/react-dom/", "react-dom.production.min.js"]),
    ("yjs", ["node_modules/yjs/", "yjs was already imported"])]

def detectBundledForbiddenPackages (bundle : String) : List String :=
  bundlePatterns.filterMap fun candidate =>
    if candidate.2.any fun pattern => contains (toLower rt.lower bundle) pattern then
      some candidate.1
    else none

/-- The packages of the list that a bundle must not contain, sorted. -/
def forbiddenDetected (packages : List String) : List String :=
  ["@blocknote/core", "@blocknote/react", "react", "react-dom", "yjs"].filter
    fun p => p ∈ normalizeStringList rt packages

/-- The checks on the fields of the build metadata that concern no other file. -/
def buildFieldFailure (build : PluginBuildMetadata) : Option (String × String) :=
  let externals := normalizeStringList rt build.hostExternals
  if trimSpace build.builder ≠ "yanta-plugin-cli" then
    some (pluginErrBuildMetadataInvalid,
      "metadata builder must be " ++ quote "yanta-plugin-cli")
  else if trimSpace build.buildTool ≠ "bun" then
    some (pluginErrBuildMetadataInvalid, "metadata build_tool must be " ++ quote "bun")
  else if trimSpace build.format ≠ "yanta-esm-v1" then
    some (pluginErrBuildMetadataInvalid,
      "metadata format must be " ++ quote "yanta-esm-v1")
  else if externals = [] then
    some (pluginErrBuildMetadataInvalid, "metadata host_externals must not be empty")
  else
    (forbiddenBundledRuntimePackages.find? fun p => p ∉ externals).map fun p =>
      (pluginErrBuildMetadataInvalid, "metadata host_externals missing " ++ quote p)

/-- The checks that compare the build metadata with the entry point. -/
def buildEntryFailure (build : PluginBuildMetadata) (entry : Bytes) :
    Option (String × String) :=
  let expected := toLower rt.lower (trimSpace build.entryHashSHA256)
  let message := "bundle includes forbidden runtime packages: "
  let bundled := detectBundledForbiddenPackages rt (rt.textOf entry)
  let declared := forbiddenDetected rt build.detectedBundledPackages
  if expected = "" then
    some (pluginErrBuildMetadataInvalid, "metadata entry_hash_sha256 is required")
  else if expected ≠ hexEncode (rt.sha256 entry) then
    some (pluginErrBuildHashMismatch,
      "main.js hash does not match metadata entry_hash_sha256")
  else if bundled ≠ [] then
    some (pluginErrForbiddenBundle, message ++ join bundled ", ")
  else if declared ≠ [] then
    some (pluginErrForbiddenBundle, message ++ join declared ", ")
  else none

/-- `checkPluginBuildMetadata`: the code and the message of the failure. -/
def checkPluginBuildMetadata (tree : PluginTree) : Option (String × String) :=
  match tree [requiredPluginBuildMetadataFile] with
  | none =>
    some (pluginErrBuildMetadataMissing,
      "missing required build metadata " ++ quote requiredPluginBuildMetadataFile)
  | some .dir =>
    some (pluginErrBuildMetadataInvalid, "read build metadata failed: is a directory")
  | some (.file data) =>
    match rt.unmarshalBuild data with
    | .error e =>
      some (pluginErrBuildMetadataInvalid, "invalid build metadata JSON: " ++ e)
    | .ok build =>
      (buildFieldFailure rt build).or
        (match readTop tree requiredPluginEntrypoint with
        | none =>
          some (pluginErrBuildMetadataInvalid,
            "read entrypoint for metadata validation failed")
        | some entry => buildEntryFailure rt build entry)

end

end Yanta.Plugin
