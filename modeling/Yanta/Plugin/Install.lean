import Yanta.Go.JoinPaths
import Yanta.Plugin.Manifest

/-!
# Installing, listing and removing plugins

`InstallFromDirectory`, `Uninstall` and `scanLocalPlugins` of
`internal/plugins/service.go`, and `InstallFromPackage` of `package_install.go`.
The plugin directory `root` is part of one file system; the directory a plugin is
installed from, and the unpacked package, are trees given by the caller. What the
operating system refuses is an argument of each operation: a copy may stop
anywhere and a removal may leave files behind.

The preferences that remember which plugins are enabled are only written here,
so of them only the failure to write is modelled.
-/

namespace Yanta.Plugin

open Go Support

def pluginSourceLocal : String := "local"
def isolationModeLocal : String := "local"
def verificationStatusNone : String := "none"

def pluginErrBadSource : String := "PLUGIN_BAD_SOURCE"
def pluginErrAlreadyInstalled : String := "PLUGIN_ALREADY_INSTALLED"
def pluginErrNotInstalled : String := "PLUGIN_NOT_INSTALLED"

/-- What the operating system and the preferences refuse during an install. -/
structure InstallFaults where
  mkdirRoot : Option String
  statDest : Option String
  copy : Option (String × (Path → Progress))
  persistMetadata : Option (String × Progress)
  persistState : Option String
  stuck : List Path

def InstallFaults.none : InstallFaults :=
  ⟨Option.none, Option.none, Option.none, Option.none, Option.none, []⟩

structure UninstallFaults where
  remove : Option (String × List Path)
  persistState : Option String

structure InstallRecord where
  manifest : Manifest
  path : Path
  source : String
  status : PluginStatus
  isolation : String
  canExecute : Bool
  verificationStatus : String
  publisherId : String
  signingKeyId : String
  issues : List ValidationIssue
deriving DecidableEq, Repr

/-! ## Copying into the plugin directory -/

/-- `copyDirectory`: the destination is made first, then filled. -/
def copyDirectory (fault : Option (String × (Path → Progress)))
    (fs : FileSystem Bytes) (dest : Path) (tree : PluginTree) :
    Except String Unit × FileSystem Bytes :=
  let copy := copyTree fault fs dest tree
  (branch copy.1 (fun e => .error ("copy plugin files: " ++ e)) .ok, copy.2)

/-- The plugin directory is made and the destination must be free. -/
def prepareDest (root : Path) (faults : InstallFaults) (fs : FileSystem Bytes)
    (id : String) : Except String Unit × FileSystem Bytes :=
  match faults.mkdirRoot with
  | some e => (.error ("create plugin directory: " ++ e), fs)
  | none =>
    match faults.statDest with
    | some e => (.error ("stat destination: " ++ e), mkdirAll fs root)
    | none =>
      if (mkdirAll fs root (joinPath root id)).isSome then
        (pluginError pluginErrAlreadyInstalled
          ("plugin " ++ quote id ++ " is already installed"), mkdirAll fs root)
      else (.ok (), mkdirAll fs root)

/-- The last steps of an install, each of which removes the destination again
when it fails. -/
def finishInstall (faults : InstallFaults) (dest : Path) (record : InstallRecord)
    (steps : Except String Unit × FileSystem Bytes) :
    Except String InstallRecord × FileSystem Bytes :=
  match steps.1 with
  | .error e => (.error e, removeAll steps.2 dest faults.stuck)
  | .ok _ =>
    match faults.persistState with
    | some e =>
      (.error ("persist plugin state: " ++ e), removeAll steps.2 dest faults.stuck)
    | none => (.ok record, steps.2)

section

variable (rt : PluginRuntime) (root : Path)

/-! ## Installing from a directory -/

/-- Everything `InstallFromDirectory` checks before it looks at the plugin
directory; `source` is what the path leads to. -/
def directoryManifest (sourcePath : String) (source : PluginTree) :
    Except String Manifest :=
  if trimSpace sourcePath = "" then
    pluginError pluginErrBadSource "source path is required"
  else
    match source [] with
    | none => pluginError pluginErrBadSource "source path not accessible"
    | some (.file _) =>
      pluginError pluginErrBadSource "source path must be a directory"
    | some .dir => do
        let manifest ← checkManifest rt source
        match source [requiredPluginEntrypoint] with
        | none =>
          pluginError pluginErrInvalidManifest
            ("required runtime entry " ++ quote requiredPluginEntrypoint ++
              " is missing")
        | some .dir =>
          pluginError pluginErrInvalidManifest
            ("required runtime entry " ++ quote requiredPluginEntrypoint ++
              " must be a file")
        | some (.file _) =>
          match checkPluginBuildMetadata rt source with
          | some failure => pluginError failure.1 failure.2
          | none => .ok manifest

theorem directoryManifest_dir {sourcePath : String} {source : PluginTree} {m : Manifest}
    (h : directoryManifest rt sourcePath source = .ok m) : source [] = some .dir := by
  unfold directoryManifest at h
  split at h
  · cases h
  · split at h
    · cases h
    · cases h
    next hdir => exact hdir

def localRecord (manifest : Manifest) : InstallRecord where
  manifest := manifest
  path := joinPath root manifest.id
  source := pluginSourceLocal
  status := .ok
  isolation := isolationModeLocal
  canExecute := true
  verificationStatus := verificationStatusNone
  publisherId := ""
  signingKeyId := ""
  issues := []

def installFromDirectory (faults : InstallFaults) (fs : FileSystem Bytes)
    (sourcePath : String) (source : PluginTree) :
    Except String InstallRecord × FileSystem Bytes :=
  branch (directoryManifest rt sourcePath source) (fun e => (.error e, fs))
    fun manifest =>
      let dest := joinPath root manifest.id
      let prepared := prepareDest root faults fs manifest.id
      branch prepared.1 (fun e => (.error e, prepared.2)) fun _ =>
        finishInstall faults dest (localRecord root manifest)
          (copyDirectory faults.copy prepared.2 dest source)

/-! ## Installing from a package -/

/-- The unpacked package as a tree of directories and files. -/
def PackageTree.nodes (package : PackageTree) : PluginTree := fun r =>
  if r = [] then some .dir
  else
    match package.files.find? fun f => split f.1.text '/' == r with
    | some f => some (.file f.2)
    | none =>
      if package.files.any fun f => decide (r <+: split f.1.text '/') then some .dir
      else none

/-- Everything `InstallFromPackage` checks before it looks at the plugin
directory; `opened` is the unpacked package, or why there is none. -/
def packageManifest (keys : TrustedKeys) (sourcePath : String)
    (opened : Except String PackageTree) :
    Except String (Manifest × PackageTree × InstallMetadata) :=
  if trimSpace sourcePath = "" then
    pluginError pluginErrBadSource "package path is required"
  else
    match opened with
    | .error e => pluginError pluginErrBadSource e
    | .ok package => do
        let manifest ← checkManifest rt package.nodes
        -- The entry's text is `main.js` up to surrounding space, so it does not
        -- lead out of the package.
        if (package.nodes (joinPath [] manifest.entry)).isNone then
          pluginError pluginErrInvalidManifest
            ("entry file " ++ quote manifest.entry ++ " does not exist in package")
        else
          match checkPluginBuildMetadata rt package.nodes with
          | some failure => pluginError failure.1 failure.2
          | none =>
            let metadata ← verifyPackageSignature rt.toSigningRuntime package keys
            return (manifest, package, metadata)

/-- A tree of at most the metadata file. -/
def metadataTree (node : Option (Node Bytes)) : PluginTree := fun r =>
  if r = [installMetadataFile] then node else none

/-- `persistInstallMetadata` replaces a file the package may have brought. -/
def persistInstallMetadata (fault : Option (String × Progress))
    (fs : FileSystem Bytes) (dest : Path) (metadata : InstallMetadata) :
    Except String Unit × FileSystem Bytes :=
  let data := Node.file (rt.marshalMetadata metadata)
  match fault with
  | none => (.ok (), place fs dest (metadataTree (some data)))
  | some (e, progress) =>
    (.error ("persist install metadata: " ++ e),
      place fs dest (metadataTree (progress.node data)))

theorem persistInstallMetadata_snd (fault : Option (String × Progress))
    (fs : FileSystem Bytes) (dest : Path) (metadata : InstallMetadata) :
    ∃ node, (persistInstallMetadata rt fault fs dest metadata).2 =
      place fs dest (metadataTree node) := by
  cases fault with
  | none | some => exact ⟨_, rfl⟩

def packageRecord (manifest : Manifest) (metadata : InstallMetadata) :
    InstallRecord where
  manifest := manifest
  path := joinPath root manifest.id
  source := metadata.source
  status := .ok
  isolation := metadata.isolation
  canExecute := metadata.canExecute
  verificationStatus := metadata.verificationStatus
  publisherId := metadata.publisherId
  signingKeyId := metadata.signingKeyId
  issues := []

/-- The two writes of a package install. -/
def writePackage (faults : InstallFaults) (fs : FileSystem Bytes) (dest : Path)
    (package : PackageTree) (metadata : InstallMetadata) :
    Except String Unit × FileSystem Bytes :=
  let files := copyDirectory faults.copy fs dest package.nodes
  branch files.1 (fun e => (.error e, files.2)) fun _ =>
    persistInstallMetadata rt faults.persistMetadata files.2 dest metadata

def installFromPackage (faults : InstallFaults) (fs : FileSystem Bytes)
    (keys : TrustedKeys) (sourcePath : String) (opened : Except String PackageTree) :
    Except String InstallRecord × FileSystem Bytes :=
  branch (packageManifest rt keys sourcePath opened) (fun e => (.error e, fs))
    fun checked =>
      let dest := joinPath root checked.1.id
      let prepared := prepareDest root faults fs checked.1.id
      branch prepared.1 (fun e => (.error e, prepared.2)) fun _ =>
        finishInstall faults dest (packageRecord root checked.1 checked.2.2)
          (writePackage rt faults prepared.2 dest checked.2.1 checked.2.2)

/-! ## Removing -/

/-- The id that `Uninstall` works with. -/
def uninstallId (id : String) : Except String String :=
  if trimSpace id = "" then .error "plugin id is required"
  else if trimSpace id = pluginStateNamespace then .error "reserved plugin id"
  else .ok (trimSpace id)

def uninstall (faults : UninstallFaults) (fs : FileSystem Bytes) (id : String) :
    Except String Unit × FileSystem Bytes :=
  branch (uninstallId id) (fun e => (.error e, fs)) fun trimmed =>
    let pluginPath := joinPath root trimmed
    if (fs pluginPath).isNone then
      (pluginError pluginErrNotInstalled ("plugin " ++ quote trimmed ++
        " is not installed"), fs)
    else
      match faults.remove with
      | some (e, stuck) => (.error ("remove plugin path: " ++ e),
          removeAll fs pluginPath stuck)
      | none =>
        (branch (attempt faults.persistState)
          (fun e => .error ("persist plugin uninstall state: " ++ e)) .ok,
          removeAll fs pluginPath [])

/-- `Uninstall` changes nothing, or removes below the path of an accepted id. -/
theorem uninstall_cases (faults : UninstallFaults) (fs : FileSystem Bytes) (id : String) :
    (uninstall root faults fs id).2 = fs ∨
      ∃ trimmed stuck, uninstallId id = .ok trimmed ∧
        (uninstall root faults fs id).2 = removeAll fs (joinPath root trimmed) stuck := by
  unfold uninstall
  cases hid : uninstallId id with
  | error e => exact .inl rfl
  | ok trimmed =>
    rw [branch_ok]
    simp only
    split
    · exact .inl rfl
    · split
      · exact .inr ⟨trimmed, _, rfl, rfl⟩
      · exact .inr ⟨trimmed, _, rfl, rfl⟩

/-! ## Listing -/

/-- `loadInstallMetadata`. -/
def loadInstallMetadata (tree : PluginTree) : Option InstallMetadata :=
  (readTop tree installMetadataFile).bind fun data =>
    branch (rt.unmarshalMetadata data) (fun _ => none) some

/-- A field of the metadata file, unless it is blank. -/
def fieldOr (metadata : Option InstallMetadata) (field : InstallMetadata → String)
    (default : String) : String :=
  match metadata with
  | none => default
  | some metadata =>
    if trimSpace (field metadata) = "" then default else field metadata

/-- The record of the entry `name` of the plugin directory, if
`scanLocalPlugins` lists it. -/
def scanEntry (fs : FileSystem Bytes) (name : String) : Option InstallRecord :=
  let tree : PluginTree := fun r => fs (root ++ name :: r)
  if fs (root ++ [name]) ≠ some .dir ∨ (tree [manifestFile]).isNone then none
  else
    let decoded := readManifest rt tree
    let checked := validateManifest decoded.1 decoded.2
    let metadata := loadInstallMetadata rt tree
    let build := checkPluginBuildMetadata rt tree
    some
      { manifest :=
          if trimSpace decoded.1.id = "" then { decoded.1 with id := name }
          else decoded.1
        path := root ++ [name]
        source := fieldOr metadata InstallMetadata.source pluginSourceLocal
        status := checked.1
        isolation := fieldOr metadata InstallMetadata.isolation isolationModeLocal
        canExecute := build.isNone && (metadata.map InstallMetadata.canExecute).getD true
        verificationStatus :=
          fieldOr metadata InstallMetadata.verificationStatus verificationStatusNone
        publisherId := (metadata.map InstallMetadata.publisherId).getD ""
        signingKeyId := (metadata.map InstallMetadata.signingKeyId).getD ""
        issues := checked.2 ++ (build.toList.map fun failure =>
          ⟨failure.1, failure.2, requiredPluginBuildMetadataFile⟩) }

end

/-- How an install goes on once the manifest is accepted. -/
theorem prepareDest_cases
    (root : Path) (faults : InstallFaults) (fs : FileSystem Bytes) (id : String) :
    (∃ e, (prepareDest root faults fs id).1 = .error e ∧
      ((prepareDest root faults fs id).2 = fs ∨
        (prepareDest root faults fs id).2 = mkdirAll fs root)) ∨
    ((prepareDest root faults fs id).1 = .ok () ∧
      (prepareDest root faults fs id).2 = mkdirAll fs root ∧
      mkdirAll fs root (joinPath root id) = none) := by
  unfold prepareDest
  split
  · exact .inl ⟨_, rfl, .inl rfl⟩
  · split
    · exact .inl ⟨_, rfl, .inr rfl⟩
    · split
      · exact .inl ⟨_, rfl, .inr rfl⟩
      next hsome => exact .inr ⟨rfl, rfl, by simpa using hsome⟩

end Yanta.Plugin
