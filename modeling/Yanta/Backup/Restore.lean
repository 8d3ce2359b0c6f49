import Yanta.Go.Bytes
import Yanta.Go.Errors
import Yanta.Go.JoinPaths

/-!
# Restoring a backup

`Service.RestoreBackup` of `internal/backup/service.go` with its `copyDir` and
`copyFile`. The current vault is removed before the backup is copied, and nothing
is put back when a later step fails. The main result says exactly when a restore
that fails leaves the vault and the database as they were.

The files of a tree are copied by several workers; they write different files, so
their order does not show, and after a failure each file is missing, torn or
complete.
-/

namespace Yanta.Backup

open Go Support Function

/-- What the operating system refuses during a restore. A copy of a directory
into one of its own subdirectories meets its own copies until a name is too long;
`runaway` is what it has written then. -/
structure RestoreFaults where
  statBackup : Option String
  removeVault : Option (String × List Path)
  copyVault : Option (String × (Path → Progress))
  runaway : FileSystem Bytes
  removeDatabase : Option String
  copyDatabase : Option (String × Progress)

def vaultPath (dataDir : Path) : Path := dataDir ++ ["vault"]

def databasePath (dataDir : Path) : Path := dataDir ++ ["yanta.db"]

/-- `copyDir`. -/
def copyDir (faults : RestoreFaults) (fs : FileSystem Bytes) (src dst : Path) :
    Except String Unit × FileSystem Bytes :=
  match fs src with
  | none => (.error "failed to stat source directory: no such file or directory", fs)
  | some (.file _) => (.error "source is not a directory", fs)
  | some .dir =>
    if StrictlyBelow src dst then
      (.error "file name too long", place fs dst faults.runaway)
    else copyTree faults.copyVault fs dst fun r => fs (src ++ r)

/-- `copyFile`. -/
def copyFile (fault : Option (String × Progress)) (fs : FileSystem Bytes)
    (src dst : Path) : Except String Unit × FileSystem Bytes :=
  match fs src with
  | none => (.error "failed to open source file: no such file or directory", fs)
  | some .dir =>
    (.error "failed to copy file contents: is a directory",
      Function.update fs dst (some (.file [])))
  | some (.file data) =>
    match fault with
    | none => (.ok (), Function.update fs dst (some (.file data)))
    | some (e, .missing) => (.error ("failed to create destination file: " ++ e), fs)
    | some (e, progress) =>
      (.error ("failed to copy file contents: " ++ e),
        Function.update fs dst (progress.node (.file data)))

/-- The checks on the arguments and on the backup. -/
def checkBackup (faults : RestoreFaults) (fs : FileSystem Bytes) (dataDirArg : String)
    (backupPath : String) (backup : Path) : Except String Unit :=
  if trimSpace dataDirArg = "" then .error "data directory path is empty"
  else if trimSpace backupPath = "" then .error "backup path is empty"
  else if (fs backup).isNone then .error ("backup does not exist: " ++ backupPath)
  else
    match faults.statBackup with
    | some e => .error ("cannot access backup path " ++ quote backupPath ++ ": " ++ e)
    | none =>
      if fs backup ≠ some .dir then
        .error ("backup path is not a directory: " ++ backupPath)
      else if (fs (vaultPath backup)).isNone then
        .error "backup is missing vault directory"
      else if (fs (databasePath backup)).isNone then
        .error "backup is missing database file"
      else .ok ()

/-- The database is replaced once the vault is restored. -/
def restoreDatabase (faults : RestoreFaults) (dataDir : Path) (fs : FileSystem Bytes)
    (backup : Path) : Except String Unit × FileSystem Bytes :=
  match faults.removeDatabase with
  | some e => (.error ("failed to remove existing database: " ++ e), fs)
  | none =>
    let copy := copyFile faults.copyDatabase
      (Function.update fs (databasePath dataDir) none)
      (databasePath backup) (databasePath dataDir)
    (branch copy.1 (fun e => .error ("failed to restore database: " ++ e)) .ok, copy.2)

/-- The steps after the checks. -/
def restoreFrom (faults : RestoreFaults) (dataDir : Path) (fs : FileSystem Bytes)
    (backup : Path) : Except String Unit × FileSystem Bytes :=
  match faults.removeVault with
  | some (e, stuck) =>
    (.error ("failed to remove existing vault: " ++ e),
      removeAll fs (vaultPath dataDir) stuck)
  | none =>
    let copy := copyDir faults (removeAll fs (vaultPath dataDir) [])
      (vaultPath backup) (vaultPath dataDir)
    branch copy.1
      (fun e => (.error ("failed to restore vault directory: " ++ e), copy.2))
      fun _ => restoreDatabase faults dataDir copy.2 backup

/-- `RestoreBackup` for the configured data directory. -/
def restoreBackup (faults : RestoreFaults) (cwd dataDir : Path) (fs : FileSystem Bytes)
    (dataDirArg backupPath : String) : Except String Unit × FileSystem Bytes :=
  let backup := absolutePath cwd backupPath
  branch (checkBackup faults fs dataDirArg backupPath backup) (fun e => (.error e, fs))
    fun _ => restoreFrom faults dataDir fs backup

/-! ## What a restore leaves, in terms of the backup -/

section

variable (faults : RestoreFaults) (dataDir : Path) (fs : FileSystem Bytes)
  (backup : Path)

/-- The vault that the copy leaves, relative to the vault's directory. -/
def vaultLeft : FileSystem Bytes :=
  if vaultPath dataDir <+: vaultPath backup then fun _ => none
  else if fs (vaultPath backup) ≠ some .dir then fun _ => none
  else if StrictlyBelow (vaultPath backup) (vaultPath dataDir) then faults.runaway
  else
    match faults.copyVault with
    | none => fun r => fs (vaultPath backup ++ r)
    | some (_, progress) =>
      if progress [] = .missing then fun _ => none
      else copied progress fun r => fs (vaultPath backup ++ r)

/-- The copy of the vault succeeds: the backup's vault is a directory apart from
the current one, and no file of it fails. -/
def VaultCopied : Prop :=
  ¬ vaultPath dataDir <+: vaultPath backup ∧ fs (vaultPath backup) = some .dir ∧
    ¬ StrictlyBelow (vaultPath backup) (vaultPath dataDir) ∧ faults.copyVault = none

/-- What a copy of a node to a free place leaves there. -/
def fileLeft (fault : Option (String × Progress)) :
    Option (Node Bytes) → Option (Node Bytes)
  | none => none
  | some .dir => some (.file [])
  | some (.file data) =>
    match fault with
    | none => some (.file data)
    | some (_, progress) => progress.node (.file data)

/-- The database that the last steps leave. -/
def databaseLeft : Option (Node Bytes) :=
  match faults.removeDatabase with
  | some _ => fs (databasePath dataDir)
  | none => fileLeft faults.copyDatabase (fs (databasePath backup))

/-- The database of the backup is a file and replaces the current one. -/
def DatabaseCopied : Prop :=
  faults.removeDatabase = none ∧ (∃ data, fs (databasePath backup) = some (.file data)) ∧
    faults.copyDatabase = none

variable {faults dataDir fs backup}

theorem vaultPath_not_above_database : ¬ vaultPath dataDir <+: databasePath dataDir := by
  rw [vaultPath, databasePath, List.prefix_append_right_inj]
  decide

theorem databasePath_not_above_vault : ¬ databasePath dataDir <+: vaultPath dataDir := by
  rw [vaultPath, databasePath, List.prefix_append_right_inj]
  decide

theorem vault_ne_database {r : Path} : vaultPath dataDir ++ r ≠ databasePath dataDir := by
  intro heq
  exact vaultPath_not_above_database ⟨r, heq⟩

/-- Nothing of the vault is left once it is removed. -/
theorem removed_vault (fs : FileSystem Bytes) (dataDir r : Path) :
    removeAll fs (vaultPath dataDir) [] (vaultPath dataDir ++ r) = none := by
  simp [removeAll]

/-- The file system after the current vault was removed. -/
theorem removed_outside {p : Path} (h : ¬ vaultPath dataDir <+: p) :
    removeAll fs (vaultPath dataDir) [] p = fs p :=
  removeAll_outside h

section

variable (faults)

/-- When the copy of the vault gets past its checks, and what it copies then. -/
theorem copyDir_eq_copyTree
    (hbelow : ¬ vaultPath dataDir <+: vaultPath backup)
    (hdir : fs (vaultPath backup) = some .dir)
    (habove : ¬ StrictlyBelow (vaultPath backup) (vaultPath dataDir)) :
    copyDir faults (removeAll fs (vaultPath dataDir) []) (vaultPath backup)
        (vaultPath dataDir) =
      copyTree faults.copyVault (removeAll fs (vaultPath dataDir) []) (vaultPath dataDir)
        fun r => fs (vaultPath backup ++ r) := by
  have hapart : ∀ r, ¬ vaultPath dataDir <+: vaultPath backup ++ r := by
    intro r hpre
    rcases List.prefix_or_prefix_of_prefix hpre (List.prefix_append _ r) with h | h
    · exact hbelow h
    · refine habove ⟨h, fun heq => hbelow ?_⟩
      rw [heq]
  simp [copyDir, removed_outside hbelow, hdir, if_neg habove, removed_outside (hapart _)]

/-- A copy that does not get past its checks fails and copies nothing from the
backup. -/
theorem copyDir_refused
    (h : vaultPath dataDir <+: vaultPath backup ∨ fs (vaultPath backup) ≠ some .dir) :
    ∃ e, copyDir faults (removeAll fs (vaultPath dataDir) []) (vaultPath backup)
      (vaultPath dataDir) = (.error e, removeAll fs (vaultPath dataDir) []) := by
  have hne : removeAll fs (vaultPath dataDir) [] (vaultPath backup) ≠ some .dir := by
    rcases h with ⟨r, hr⟩ | hnode
    · rw [← hr, removed_vault]
      simp
    · intro hdir
      exact hnode (removeAll_eq_some hdir)
  unfold copyDir
  split
  · exact ⟨_, rfl⟩
  · exact ⟨_, rfl⟩
  next hdir => exact absurd hdir hne

end

variable (faults dataDir fs backup) in
/-- What the copy of the vault leaves, and whether it fails. -/
theorem copyDir_spec :
    let copy := copyDir faults (removeAll fs (vaultPath dataDir) []) (vaultPath backup)
      (vaultPath dataDir)
    ((VaultCopied faults dataDir fs backup ∧ copy.1 = .ok ()) ∨
        (¬ VaultCopied faults dataDir fs backup ∧ ∃ e, copy.1 = .error e)) ∧
      (∀ r, copy.2 (vaultPath dataDir ++ r) = vaultLeft faults dataDir fs backup r) ∧
      copy.2 (databasePath dataDir) = fs (databasePath dataDir) := by
  intro copy
  have hdb : removeAll fs (vaultPath dataDir) [] (databasePath dataDir) =
      fs (databasePath dataDir) := removed_outside vaultPath_not_above_database
  by_cases hrefused :
      vaultPath dataDir <+: vaultPath backup ∨ fs (vaultPath backup) ≠ some .dir
  · obtain ⟨e, heq⟩ := copyDir_refused faults hrefused
    have hleft : vaultLeft faults dataDir fs backup = fun _ => none := by
      unfold vaultLeft
      by_cases hbelow : vaultPath dataDir <+: vaultPath backup
      · rw [if_pos hbelow]
      · rw [if_neg hbelow, if_pos (hrefused.resolve_left hbelow)]
    have hnot : ¬ VaultCopied faults dataDir fs backup := by
      rintro ⟨hbelow, hdir, -⟩
      exact hrefused.elim hbelow fun h => h hdir
    simp only [copy, heq]
    exact ⟨.inr ⟨hnot, e, rfl⟩, fun r => by rw [hleft, removed_vault], hdb⟩
  · rw [not_or, not_not] at hrefused
    obtain ⟨hbelow, hdir⟩ := hrefused
    by_cases habove : StrictlyBelow (vaultPath backup) (vaultPath dataDir)
    · have hleft : vaultLeft faults dataDir fs backup = faults.runaway := by
        simp [vaultLeft, hbelow, hdir, habove]
      have hnot : ¬ VaultCopied faults dataDir fs backup := fun h => h.2.2.1 habove
      simp only [copy, copyDir, removed_outside hbelow, hdir, if_pos habove]
      refine ⟨.inr ⟨hnot, _, rfl⟩, fun r => ?_, ?_⟩
      · rw [place_append, removed_vault, Option.or_none, hleft]
      · rw [place_outside vaultPath_not_above_database, hdb]
    · have heq := copyDir_eq_copyTree faults hbelow hdir habove
      have hvault := fun r => copyTree_below faults.copyVault
        (fun r => fs (vaultPath backup ++ r))
        (removed_vault fs dataDir) (by simpa using hdir) r
      have hdatabase : copy.2 (databasePath dataDir) = fs (databasePath dataDir) := by
        simp only [copy, heq]
        rw [copyTree_outside vaultPath_not_above_database
          (.inl databasePath_not_above_vault), hdb]
      refine ⟨?_, fun r => ?_, hdatabase⟩
      · simp only [copy, heq, VaultCopied, hbelow, hdir, habove, not_false_eq_true,
          true_and]
        cases faults.copyVault with
        | none => exact .inl ⟨rfl, rfl⟩
        | some fault => exact .inr ⟨by simp, fault.1, rfl⟩
      · simp only [copy, heq, hvault r, vaultLeft, hbelow, hdir, habove]
        cases faults.copyVault with
        | none => rfl
        | some fault =>
          simp only
          split
          · rfl
          · rfl

/-- The backup's database is not touched while the vault is replaced. -/
theorem copyDir_backupDatabase
    (hcopied : VaultCopied faults dataDir fs backup)
    (hsome : fs (databasePath backup) ≠ none) :
    (copyDir faults (removeAll fs (vaultPath dataDir) []) (vaultPath backup)
      (vaultPath dataDir)).2 (databasePath backup) = fs (databasePath backup) := by
  obtain ⟨hbelow, hdir, habove, -⟩ := hcopied
  have hout : ¬ vaultPath dataDir <+: databasePath backup := by
    intro hpre
    rcases List.prefix_concat_iff.mp hpre with heq | hbackup
    · have hlast := congrArg List.getLast? heq
      simp [vaultPath] at hlast
    · exact hbelow (hbackup.trans (List.prefix_append _ _))
  rw [copyDir_eq_copyTree faults hbelow hdir habove,
    copyTree_outside hout (.inr (by rwa [removed_outside hout])), removed_outside hout]

theorem databasePath_ne (hbelow : ¬ vaultPath dataDir <+: vaultPath backup) :
    databasePath backup ≠ databasePath dataDir := by
  intro heq
  apply hbelow
  have hsame : backup = dataDir := List.append_cancel_right heq
  rw [hsame]

variable (fault : Option (String × Progress))

theorem copyFile_elsewhere (fs : FileSystem Bytes) {src dst p : Path} (hp : p ≠ dst) :
    (copyFile fault fs src dst).2 p = fs p := by
  unfold copyFile
  split
  · rfl
  · exact update_of_ne hp _ _
  · split
    · exact update_of_ne hp _ _
    · rfl
    · exact update_of_ne hp _ _

theorem copyFile_dst {fs : FileSystem Bytes} {src dst : Path} (hfree : fs dst = none) :
    (copyFile fault fs src dst).2 dst = fileLeft fault (fs src) := by
  unfold copyFile fileLeft
  cases hsrc : fs src with
  | none => simpa [hsrc] using hfree
  | some node =>
    cases node with
    | dir => simp
    | file data =>
      rcases fault with - | ⟨e, - | n | -⟩
      · simp
      · simpa [Progress.node] using hfree
      · simp
      · simp

theorem copyFile_fst (fs : FileSystem Bytes) (src dst : Path) :
    ((copyFile fault fs src dst).1 = .ok () ∧
        (∃ data, fs src = some (.file data)) ∧ fault = none) ∨
      ((∃ e, (copyFile fault fs src dst).1 = .error e) ∧
        ¬ ((∃ data, fs src = some (.file data)) ∧ fault = none)) := by
  unfold copyFile
  cases hsrc : fs src with
  | none => simp
  | some node =>
    cases node with
    | dir => simp
    | file data =>
      rcases fault with - | ⟨e, - | n | -⟩
      · simp
      · simp
      · simp
      · simp

/-- What the last steps leave, once the vault is in place. -/
theorem restoreDatabase_spec {fs₂ : FileSystem Bytes}
    (hne : databasePath backup ≠ databasePath dataDir)
    (hbackup : fs₂ (databasePath backup) = fs (databasePath backup))
    (hcurrent : fs₂ (databasePath dataDir) = fs (databasePath dataDir)) :
    let last := restoreDatabase faults dataDir fs₂ backup
    ((DatabaseCopied faults fs backup ∧ last.1 = .ok ()) ∨
        (¬ DatabaseCopied faults fs backup ∧ ∃ e, last.1 = .error e)) ∧
      (∀ p, p ≠ databasePath dataDir → last.2 p = fs₂ p) ∧
      last.2 (databasePath dataDir) = databaseLeft faults dataDir fs backup := by
  intro last
  cases hremove : faults.removeDatabase with
  | some e =>
    simp only [last, restoreDatabase, DatabaseCopied, databaseLeft, hremove, hcurrent]
    refine ⟨.inr ⟨by simp, _, rfl⟩, fun p _ => ?_, trivial⟩
    trivial
  | none =>
    have hsrc : Function.update fs₂ (databasePath dataDir) none (databasePath backup) =
        fs (databasePath backup) := by
      rw [update_of_ne hne, hbackup]
    simp only [last, restoreDatabase, DatabaseCopied, databaseLeft, hremove, true_and]
    refine ⟨?_, fun p hp => ?_, ?_⟩
    · have hfst := copyFile_fst faults.copyDatabase
        (Function.update fs₂ (databasePath dataDir) none) (databasePath backup)
        (databasePath dataDir)
      rw [hsrc] at hfst
      rcases hfst with ⟨hok, hcopied⟩ | ⟨⟨e, herr⟩, hnot⟩
      · exact .inl ⟨hcopied, by rw [hok, branch_ok]⟩
      · exact .inr ⟨hnot, _, by rw [herr, branch_error]⟩
    · rw [copyFile_elsewhere _ _ hp, update_of_ne hp]
    · rw [copyFile_dst _ (update_self _ _ _), hsrc]

/-! ## When a failed restore loses nothing -/

variable (faults fs backup) in
/-- The removal of the current vault fails before it removed anything of it; or
it does not fail, and then either nothing else fails or what is put back so far is
what was there. -/
def PutBack (dataDir : Path) : Prop :=
  match faults.removeVault with
  | some (_, stuck) =>
    ∀ r, fs (vaultPath dataDir ++ r) ≠ none →
      ∃ k ∈ stuck, vaultPath dataDir ++ r <+: k
  | none =>
    (VaultCopied faults dataDir fs backup ∧ DatabaseCopied faults fs backup) ∨
      (∀ r, vaultLeft faults dataDir fs backup r = fs (vaultPath dataDir ++ r)) ∧
        (VaultCopied faults dataDir fs backup →
          databaseLeft faults dataDir fs backup = fs (databasePath dataDir))

variable (fs) in
/-- The vault tree and the database file are what they were. -/
def Unchanged (dataDir : Path) (fs' : FileSystem Bytes) : Prop :=
  (∀ r, fs' (vaultPath dataDir ++ r) = fs (vaultPath dataDir ++ r)) ∧
    fs' (databasePath dataDir) = fs (databasePath dataDir)

theorem unchanged_removeAll_iff {stuck : List Path} :
    Unchanged fs dataDir (removeAll fs (vaultPath dataDir) stuck) ↔
      ∀ r, fs (vaultPath dataDir ++ r) ≠ none →
        ∃ k ∈ stuck, vaultPath dataDir ++ r <+: k := by
  have hdb : removeAll fs (vaultPath dataDir) stuck (databasePath dataDir) =
      fs (databasePath dataDir) := removeAll_outside vaultPath_not_above_database
  rw [Unchanged, and_iff_left hdb]
  refine forall_congr' fun r => ?_
  by_cases hstuck : ∃ k ∈ stuck, vaultPath dataDir ++ r <+: k
  · have hkept : ¬ ∀ k ∈ stuck, ¬ vaultPath dataDir ++ r <+: k := by
      push Not
      exact hstuck
    simp only [removeAll, hkept, and_false, if_false, hstuck, implies_true]
  · have hgone : ∀ k ∈ stuck, ¬ vaultPath dataDir ++ r <+: k := by
      push Not at hstuck
      exact hstuck
    simp only [removeAll, List.prefix_append, true_and, if_pos hgone, hstuck,
      imp_false, not_not]
    exact eq_comm

/-- A restore past the checks that fails leaves everything as it was exactly when
what it put back is what was there. -/
theorem restoreFrom_iff (hsome : fs (databasePath backup) ≠ none) :
    (∀ e, (restoreFrom faults dataDir fs backup).1 = .error e →
      Unchanged fs dataDir (restoreFrom faults dataDir fs backup).2) ↔
      PutBack faults fs backup dataDir := by
  unfold PutBack restoreFrom
  split
  next e stuck hremove =>
    simp only [Except.error.injEq, forall_eq']
    exact unchanged_removeAll_iff
  next hremove =>
    obtain ⟨hfst, hvault, hdatabase⟩ := copyDir_spec faults dataDir fs backup
    rcases hfst with ⟨hcopied, hok⟩ | ⟨hnot, e, herr⟩
    · have hne := databasePath_ne hcopied.1
      have hbackup := copyDir_backupDatabase hcopied hsome
      obtain ⟨hlast, helsewhere, hleft⟩ := restoreDatabase_spec hne hbackup hdatabase
      have hunchanged : ∀ fs', fs' = (restoreDatabase faults dataDir
          (copyDir faults (removeAll fs (vaultPath dataDir) []) (vaultPath backup)
            (vaultPath dataDir)).2 backup).2 →
          (Unchanged fs dataDir fs' ↔
            (∀ r, vaultLeft faults dataDir fs backup r = fs (vaultPath dataDir ++ r)) ∧
              databaseLeft faults dataDir fs backup = fs (databasePath dataDir)) := by
        rintro fs' rfl
        rw [Unchanged, hleft]
        refine and_congr_left fun _ => forall_congr' fun r => ?_
        rw [helsewhere _ vault_ne_database, hvault]
      simp only [hok, branch_ok, hcopied, true_and, true_implies]
      rcases hlast with ⟨hdb, hlast⟩ | ⟨hdb, e, hlast⟩
      · simp [hlast, hdb]
      · simp only [hlast, Except.error.injEq, forall_eq', hdb, false_or]
        exact hunchanged _ rfl
    · simp only [herr, branch_error, Except.error.injEq, forall_eq', hnot, false_and,
        false_or, false_implies, and_true]
      rw [Unchanged, and_iff_left hdatabase]
      exact forall_congr' fun r => by rw [hvault]

end

/-- If the restore fails, the vault and the database are what they were. -/
def LosesNothing (faults : RestoreFaults) (cwd dataDir : Path) (fs : FileSystem Bytes)
    (dataDirArg backupPath : String) : Prop :=
  ∀ e, (restoreBackup faults cwd dataDir fs dataDirArg backupPath).1 = .error e →
    Unchanged fs dataDir (restoreBackup faults cwd dataDir fs dataDirArg backupPath).2

theorem databasePath_of_checkBackup {faults : RestoreFaults} {fs : FileSystem Bytes}
    {dataDirArg backupPath : String} {backup : Path} {u : Unit}
    (h : checkBackup faults fs dataDirArg backupPath backup = .ok u) :
    fs (databasePath backup) ≠ none := by
  intro hnone
  unfold checkBackup at h
  cases hstat : faults.statBackup with
  | some e =>
    simp only [hstat] at h
    split_ifs at h
  | none =>
    simp only [hstat, hnone, Option.isNone_none] at h
    split_ifs at h

/-- A restore of a backup that passes the checks loses nothing when it fails
exactly when it fails before it removed anything, or what it had put back is what
was there. -/
theorem losesNothing_iff
    (faults : RestoreFaults) (cwd dataDir : Path) (fs : FileSystem Bytes)
    (dataDirArg backupPath : String) :
    LosesNothing faults cwd dataDir fs dataDirArg backupPath ↔
      (checkBackup faults fs dataDirArg backupPath (absolutePath cwd backupPath) = .ok () →
        PutBack faults fs (absolutePath cwd backupPath) dataDir) := by
  simp only [LosesNothing, restoreBackup]
  cases hcheck : checkBackup faults fs dataDirArg backupPath
      (absolutePath cwd backupPath) with
  | error e => simp [Unchanged]
  | ok u =>
    simp only [true_implies]
    exact restoreFrom_iff (databasePath_of_checkBackup hcheck)

namespace SampleRestore

def dataDir : Path := ["data"]

/-- A vault with one note and a database, and a backup of other contents. -/
def fs : FileSystem Bytes := fun p =>
  if p = ["data", "vault", "note"] then some (.file [1])
  else if p = ["data", "yanta.db"] then some (.file [2])
  else if p = ["backup", "vault", "note"] then some (.file [3])
  else if p = ["backup", "yanta.db"] then some (.file [4])
  else if p = ["data"] ∨ p = ["data", "vault"] ∨ p = ["backup"] ∨
      p = ["backup", "vault"] then some .dir
  else none

/-- The copy of the backup's note fails. -/
def faults : RestoreFaults where
  statBackup := none
  removeVault := none
  copyVault := some ("no space left on device",
    fun r => if r = ["note"] then .missing else .complete)
  runaway _ := none
  removeDatabase := none
  copyDatabase := none

end SampleRestore

open SampleRestore

/-- When the copy of the backup fails, the vault is gone. -/
theorem failed_restore_loses_vault :
    (restoreBackup faults [] dataDir fs
        "/data" "/backup").1.isOk = false ∧
      fs ["data", "vault", "note"] = some (.file [1]) ∧
      (restoreBackup faults [] dataDir fs
        "/data" "/backup").2 ["data", "vault", "note"] = none := by
  decide +kernel

end Yanta.Backup
