import Yanta.Go.Bytes
import Yanta.Go.Errors
import Yanta.Go.JoinPaths

/-!
# Moving the data directory

`Service.MigrateData` of `internal/migration/service.go`: the checks, the four
cases of data in the current and in the target directory, the three strategies for
two vaults, the set-up of the git repository and the rollback. The data directory
is the one of `internal/config`: a value in memory that is changed before the
configuration file is written.

What the operating system and git do is part of the input: which call fails, what
a removal could not remove, how far a copy got.
-/

namespace Yanta.Migration

open Go Support

/-! ## The configuration -/

/-- The data directory in the running process and in the configuration file. An
empty value stands for the default directory. -/
structure Config where
  /-- `YANTA_HOME`. -/
  home : Option Path
  root : Path
  dataDirectory : Option Path
  saved : Option Path

def getDataDirectory (config : Config) : Path :=
  config.home.getD (config.dataDirectory.getD config.root)

/-- The data directory of the next process. -/
def directoryAfterRestart (config : Config) : Path :=
  config.home.getD (config.saved.getD config.root)

/-- `SetDataDirectory`: the value in memory changes also when the file cannot be
written; the file then says what `fault` gives. -/
def setDataDirectory (fault : Option (String × Option Path)) (config : Config)
    (dir : Path) : Except String Unit × Config :=
  match fault with
  | none => (.ok (), { config with dataDirectory := some dir, saved := some dir })
  | some (e, left) => (.error e, { config with dataDirectory := some dir, saved := left })

structure State where
  fs : FileSystem Bytes
  config : Config

/-! ## What may go wrong -/

/-- How a git command ends, and the repository's files after it. -/
structure GitCall where
  error : Option String
  leaves : FileSystem Bytes

structure MigrationFaults where
  statTarget : Option String
  gitInstalled : Bool
  /-- The error, and how many of the directories of the path exist then. -/
  makeTarget : Option (String × Nat)
  removeOldBackup : Option (String × List Path)
  backUpVault : Option String
  copyVault : Option (String × (Path → Progress))
  /-- What a copy of a directory into itself has written when a name is too long. -/
  runaway : FileSystem Bytes
  verifyVault : Option String
  /-- What stays of the copy when the backup is to be put back. -/
  restoreStuck : List Path
  restoreVault : Option String
  backupStuck : List Path
  mergeVaults : Option (String × (Path → Progress))
  makeVault : Option (String × Nat)
  removeDatabase : Option String
  isRepository : Except String Bool
  init : GitCall
  createGitIgnore : Option (String × Progress)
  add : GitCall
  commit : GitCall
  setDirectory : Option (String × Option Path)
  rollbackStuck : List Path
  rollbackDatabase : Option String
  rollbackDirectory : Option (String × Option Path)

/-! ## Paths -/

def vaultPath (dir : Path) : Path := dir ++ ["vault"]

def backupPath (dir : Path) : Path := dir ++ ["vault.backup"]

def databasePath (dir : Path) : Path := dir ++ ["yanta.db"]

def gitPath (dir : Path) : Path := dir ++ [".git"]

def gitIgnorePath (dir : Path) : Path := dir ++ [".gitignore"]

/-! ## The steps -/

section

variable (faults : MigrationFaults) (target : Path)

/-- `copyDirectory`. -/
def copyDirectory (fs : FileSystem Bytes) (src dst : Path) :
    Except String Unit × FileSystem Bytes :=
  match fs src with
  | none => (.error "no such file or directory", fs)
  | some (.file _) => (.error "not a directory", mkdirAll fs dst)
  | some .dir =>
    if StrictlyBelow src dst then
      (.error "file name too long", place (mkdirAll fs dst) dst faults.runaway)
    else copyTree faults.copyVault fs dst fun r => fs (src ++ r)

/-- The database of the target is removed if it is there; the strategies go on
when that fails. -/
def removeDatabase (fault : Option String) (fs : FileSystem Bytes) :
    Except String Unit × FileSystem Bytes :=
  if (fs (databasePath target)).isSome then
    match fault with
    | some e => (.error e, fs)
    | none => (.ok (), Function.update fs (databasePath target) none)
  else (.ok (), fs)

/-- `rollback`; its own errors are only logged. -/
def rollback (originalDataDir : Path) (st : State) : State where
  fs := (removeDatabase target faults.rollbackDatabase
    (removeAll st.fs (vaultPath target) faults.rollbackStuck)).2
  config := (setDataDirectory faults.rollbackDirectory st.config originalDataDir).2

/-- A git command changes only the repository's own files. -/
def runGit (call : GitCall) (st : State) : Except String Unit × State :=
  (attempt call.error,
    { st with fs := place (removeAll st.fs (gitPath target) []) (gitPath target) call.leaves })

def gitIgnorePatterns : List String :=
  ["# YANTA - Disposable files", "yanta.db*", "",
    "# Local pre-sync backups (machine-local, never synced)", ".backups/", "",
    "# WebView / OS runtime junk (machine-local, never synced)", "*.marker", ".DS_Store",
    "Thumbs.db", "desktop.ini", "EBWebView/", "", "# Logs", "*.log"]

def gitIgnoreText : String :=
  gitIgnorePatterns.foldl (fun text pattern => text ++ pattern ++ "\n")
    "# YANTA - Auto-generated .gitignore\n\n"

/-- `CreateGitIgnore`. -/
def createGitIgnore (st : State) : Except String Unit × State :=
  let text := Node.file (bytesOf gitIgnoreText)
  match faults.createGitIgnore with
  | none =>
    (.ok (), { st with fs := Function.update st.fs (gitIgnorePath target) (some text) })
  | some (e, .missing) => (.error ("writing .gitignore: " ++ e), st)
  | some (e, progress) =>
    (.error ("writing .gitignore: " ++ e),
      { st with fs := Function.update st.fs (gitIgnorePath target) (progress.node text) })

/-- A commit with nothing in it is as good as one with something. -/
def commit (st : State) : Except String Unit × State :=
  let result := runGit target faults.commit st
  (if faults.commit.error = some "nothing to commit" then .ok () else result.1, result.2)

/-- The part of `setupGitRepository` before the configuration is changed. -/
def prepareRepository (st : State) : Except String Unit × State :=
  branch faults.isRepository
    (fun e => (.error ("checking git repository: " ++ e), st))
    fun isRepo =>
      andThen
        (prefixed "git init failed: "
          (if isRepo then (.ok (), st) else runGit target faults.init st)) fun st =>
      andThen (prefixed "creating .gitignore: " (createGitIgnore faults target st)) fun st =>
      andThen (prefixed "git add failed: " (runGit target faults.add st)) fun st =>
      prefixed "git commit failed: " (commit faults target st)

/-- Every failing step of `setupGitRepository` is followed by the same rollback, if
there is a directory to go back to. -/
def abandon (originalDataDir : Option Path) (e : String) (st : State) :
    Except String Unit × State :=
  (.error e,
    match originalDataDir with
    | none => st
    | some dir => rollback faults target dir st)

/-- `setupGitRepository`. -/
def setupGitRepository (originalDataDir : Option Path) (st : State) :
    Except String Unit × State :=
  let prepared := prepareRepository faults target st
  branch prepared.1 (fun e => abandon faults target originalDataDir e prepared.2) fun _ =>
    let updated := setDataDirectory faults.setDirectory prepared.2.config target
    let st := { prepared.2 with config := updated.2 }
    branch updated.1
      (fun e => abandon faults target originalDataDir ("updating config: " ++ e) st)
      fun _ => (.ok (), st)

/-- The common end of the strategies. -/
def finishMigration (originalDataDir : Option Path) (st : State) :
    Except String Unit × State :=
  setupGitRepository faults target originalDataDir
    { st with fs := (removeDatabase target faults.removeDatabase st.fs).2 }

/-! ## The strategies -/

/-- `strategyUseRemote`. -/
def strategyUseRemote (currentDataDir : Path) (st : State) : Except String Unit × State :=
  finishMigration faults target (some currentDataDir) st

/-- The backup is put back where the copy was; both errors are ignored. -/
def restoreVault (fs : FileSystem Bytes) : FileSystem Bytes :=
  if (fs (backupPath target)).isSome then
    (rename faults.restoreVault
      (removeAll fs (vaultPath target) faults.restoreStuck)
      (backupPath target) (vaultPath target)).2
  else fs

/-- The target's vault is renamed out of the way. -/
def backUpVault (fs : FileSystem Bytes) : Except String Unit × FileSystem Bytes :=
  if (fs (vaultPath target)).isSome then
    let cleared : Except String Unit × FileSystem Bytes :=
      if (fs (backupPath target)).isSome then
        match faults.removeOldBackup with
        | some (e, stuck) => (.error e, removeAll fs (backupPath target) stuck)
        | none => (.ok (), removeAll fs (backupPath target) [])
      else (.ok (), fs)
    andThen (prefixed "removing old backup: " cleared) fun fs =>
      prefixed "backing up target vault: "
        (rename faults.backUpVault fs (vaultPath target) (backupPath target))
  else (.ok (), fs)

/-- The current vault is copied and compared with the copy. -/
def copyAndVerify (copying : String) (currentDataDir : Path) (fs : FileSystem Bytes) :
    Except String Unit × FileSystem Bytes :=
  let copy := prefixed copying
    (copyDirectory faults fs (vaultPath currentDataDir) (vaultPath target))
  andThen copy fun fs =>
    prefixed "integrity verification failed: " (attempt faults.verifyVault, fs)

/-- `strategyUseLocal`. -/
def strategyUseLocal (currentDataDir : Path) (st : State) : Except String Unit × State :=
  let backedUp := backUpVault faults target st.fs
  branch backedUp.1 (fun e => (.error e, { st with fs := backedUp.2 })) fun _ =>
    let copy :=
      copyAndVerify faults target "copying local vault: " currentDataDir backedUp.2
    branch copy.1 (fun e => (.error e, { st with fs := restoreVault faults target copy.2 }))
      fun _ =>
        finishMigration faults target (some currentDataDir)
          { st with fs := removeAll copy.2 (backupPath target) faults.backupStuck }

/-- A path has a file where one of its directories should be; `os.Stat` then fails
with an error other than "does not exist". -/
def Blocked (fs : FileSystem Bytes) (p : Path) : Prop :=
  ∃ q ∈ p.inits, q ≠ p ∧ ∃ node ∈ fs q, node ≠ .dir

instance (fs : FileSystem Bytes) (p : Path) : Decidable (Blocked fs p) :=
  inferInstanceAs (Decidable (∃ q ∈ p.inits, q ≠ p ∧ ∃ node ∈ fs q, node ≠ .dir))

/-- The walk of `strategyMergeBoth`: what the local vault has and the target has
not is copied. -/
def mergeVaults (fs : FileSystem Bytes) (src dst : Path) :
    Except String Unit × FileSystem Bytes :=
  let missing : FileSystem Bytes := fun r =>
    if (fs (dst ++ r)).isSome ∨ Blocked fs (dst ++ r) then none else fs (src ++ r)
  if StrictlyBelow src dst then
    (.error "file name too long",
      place fs dst fun r => if (fs (dst ++ r)).isSome then none else faults.runaway r)
  else
    match faults.mergeVaults with
    | none => (.ok (), place fs dst missing)
    | some (e, progress) => (.error e, place fs dst (copied progress missing))

/-- `strategyMergeBoth`. -/
def strategyMergeBoth (currentDataDir : Path) (st : State) : Except String Unit × State :=
  let merged := prefixed "merging vaults: "
    (mergeVaults faults st.fs (vaultPath currentDataDir) (vaultPath target))
  branch merged.1 (fun e => (.error e, { st with fs := merged.2 })) fun _ =>
    finishMigration faults target (some currentDataDir) { st with fs := merged.2 }

/-- `migrateExistingData`, for a target without a vault. -/
def migrateExistingData (currentDataDir : Path) (st : State) :
    Except String Unit × State :=
  let copied : Except String Unit × FileSystem Bytes :=
    if (st.fs (vaultPath target)).isSome ∨ (st.fs (vaultPath currentDataDir)).isNone then
      (.ok (), st.fs)
    else copyAndVerify faults target "copying vault data: " currentDataDir st.fs
  branch copied.1
    (fun e => (.error e, rollback faults target currentDataDir { st with fs := copied.2 }))
    fun _ => finishMigration faults target (some currentDataDir) { st with fs := copied.2 }

/-- `initializeWithExistingVault`. -/
def initializeWithExistingVault (st : State) : Except String Unit × State :=
  let removed := removeDatabase target faults.removeDatabase st.fs
  branch removed.1
    (fun e => (.error ("removing existing database: " ++ e), { st with fs := removed.2 }))
    fun _ => setupGitRepository faults target none { st with fs := removed.2 }

/-- `initializeFreshVault`. -/
def initializeFreshVault (st : State) : Except String Unit × State :=
  let projects := vaultPath target ++ ["projects"]
  match faults.makeVault with
  | some (e, made) =>
    (.error ("creating vault structure: " ++ e),
      { st with fs := mkdirAll st.fs (projects.take made) })
  | none => setupGitRepository faults target none { st with fs := mkdirAll st.fs projects }

end

inductive Strategy where
  | useRemote
  | useLocal
  | mergeBoth
deriving DecidableEq, Repr

/-- The strategy of a text; without one the target's vault is kept. -/
def parseStrategy (text : String) : Except String Strategy :=
  if text = "" ∨ text = "use_remote" then .ok .useRemote
  else if text = "use_local" then .ok .useLocal
  else if text = "merge_both" then .ok .mergeBoth
  else .error ("invalid migration strategy: " ++ text)

/-- `ValidateTargetDirectory`. -/
def validateTargetDirectory (faults : MigrationFaults) (st : State) (target : Path) :
    Except String Unit :=
  if target = getDataDirectory st.config then
    .error "target directory is same as current data directory"
  else if (st.fs target).isNone then
    match st.fs target.dropLast with
    | none => .error "parent directory not accessible: no such file or directory"
    | some (.file _) => .error "parent path is not a directory"
    | some .dir => .ok ()
  else
    match faults.statTarget with
    | some e => .error ("accessing target directory: " ++ e)
    | none =>
      if st.fs target = some .dir then .ok () else .error "target path is not a directory"

/-- The checks before the database is closed. -/
def checkMigration (faults : MigrationFaults) (st : State) (target : Path)
    (strategy : String) : Except String Strategy := do
  let strategy ← parseStrategy strategy
  branch (validateTargetDirectory faults st target)
    (fun e => .error ("validation failed: " ++ e)) .ok
  if faults.gitInstalled then .ok strategy
  else .error "git is not installed or not found in PATH"

/-- The four cases of data in the current and in the target directory. -/
def migrate (faults : MigrationFaults) (target : Path) (strategy : Strategy)
    (hasCurrentData hasTargetVault : Bool) (currentDataDir : Path) (st : State) :
    Except String Unit × State :=
  match hasCurrentData, hasTargetVault with
  | true, true =>
    match strategy with
    | .useRemote => strategyUseRemote faults target currentDataDir st
    | .useLocal => strategyUseLocal faults target currentDataDir st
    | .mergeBoth => strategyMergeBoth faults target currentDataDir st
  | true, false => migrateExistingData faults target currentDataDir st
  | false, true => initializeWithExistingVault faults target st
  | false, false => initializeFreshVault faults target st

def needsRestart : String :=
  "migration failed after database was closed; app restart required: "

/-- `MigrateData`. -/
def migrateData (faults : MigrationFaults) (cwd : Path) (st : State)
    (targetPath strategy : String) : Except String Unit × State :=
  let target := absolutePath cwd targetPath
  let currentDataDir := getDataDirectory st.config
  branch (checkMigration faults st target strategy) (fun e => (.error e, st)) fun strategy =>
    match faults.makeTarget with
    | some (e, made) =>
      (.error (needsRestart ++ "creating target directory: " ++ e),
        { st with fs := mkdirAll st.fs (target.take made) })
    | none =>
      prefixed needsRestart
        (migrate faults target strategy (st.fs (vaultPath currentDataDir)).isSome
          (st.fs (vaultPath target)).isSome currentDataDir
          { st with fs := mkdirAll st.fs target })

end Yanta.Migration
