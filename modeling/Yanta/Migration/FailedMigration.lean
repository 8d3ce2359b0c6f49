import Yanta.Migration.Strategies

/-!
# A migration that fails

What a failed `MigrateData` leaves: the files of the target's vault, the source
vault, and the configured data directory. The main result says exactly which failures
lose nothing, for source and target directories that do not lie in each other's data.
-/

namespace Yanta.Migration

open Go Support List Option

/-! ## The other cases -/

section

variable {faults : MigrationFaults} {target current : Path} {base st : State}

/-- A target without a vault has no files that could be lost. -/
theorem no_vaultFile (hrooted : Rooted base.fs) (hvault : base.fs (vaultPath target) = none)
    {r : Path} {data : Bytes} (h : base.fs (vaultPath target ++ r) = some (.file data)) :
    False :=
  hrooted _ _ (prefix_append _ r) (by rw [h]; exact some_ne_none _) hvault

theorem migrateExistingData_iff (hsep : Separate current target) (hne : target ≠ current)
    (hcurrent : current = getDataDirectory base.config) (haside : Aside target base st)
    (hrooted : Rooted base.fs) (hvault : base.fs (vaultPath target) = none)
    (hdata : base.fs (vaultPath current) ≠ none) :
    FailsSafely base current target (migrateExistingData faults target current st) ↔
      (CopyFails faults current base.fs ∨ SetupFails faults →
        ConfigRestored faults base.config) := by
  have hframe := touched_of_beside haside.2
  have hsource : st.fs (vaultPath current) = base.fs (vaultPath current) := by
    have hroot := hframe _ (not_touched_source hsep hne [])
    rwa [append_nil] at hroot
  have hfree : st.fs (vaultPath target) = none := by
    have hroot := vault_of_beside haside.2 []
    rw [append_nil] at hroot
    rw [hroot, hvault]
  have hspares : ∀ st', RollbackSpares faults target base st' := by
    intro st' r data hr
    exact (no_vaultFile hrooted hvault hr).elim
  have hcopy := copyAndVerify_ok_iff faults "copying vault data: " st.fs
    (not_strictlyBelow_vault hsep hne)
  have hcopyFrame : ChangesOnly (Touched target) base.fs
      (copyAndVerify faults target "copying vault data: " current st.fs).2 := by
    rw [copyAndVerify_snd]
    exact hframe.trans (copyDirectory_frame _ _ _ _)
  have hfails : CopyFails faults current st.fs ↔ CopyFails faults current base.fs := by
    simp [CopyFails, hsource]
  rw [hfails] at hcopy
  have hnotSkipped : ¬ ((st.fs (vaultPath target)).isSome ∨
      (st.fs (vaultPath current)).isNone) := by
    simp [hfree, hsource, hdata]
  simp only [migrateExistingData, if_neg hnotSkipped]
  rcases cases_of_ok_iff hcopy with ⟨hfailed, e, hresult⟩ | ⟨hfine, hresult⟩
  · simp only [hresult, branch_error, failsSafely_error, hfailed, true_or, true_implies]
    refine (kept_rollback_iff hsep hne hcurrent ?_ ?_ ?_).trans (and_iff_right (hspares _))
    · rw [haside.1]
    · rw [haside.1]
    · exact hcopyFrame
  · simp only [hresult, branch_ok, hfine]
    rw [finish_iff hsep hne hcurrent]
    · simp [hspares]
    · exact haside.1
    · exact hcopyFrame

/-- The database of the target, if there is one, cannot be removed. -/
def DatabaseStays (faults : MigrationFaults) (target : Path) (fs : FileSystem Bytes) :
    Prop :=
  fs (databasePath target) ≠ none ∧ faults.removeDatabase ≠ none

theorem removeDatabase_ok_iff (faults : MigrationFaults) (target : Path)
    (fs : FileSystem Bytes) :
    (removeDatabase target faults.removeDatabase fs).1 = .ok () ↔
      ¬ DatabaseStays faults target fs := by
  unfold removeDatabase DatabaseStays
  split
  next hsome =>
    cases faults.removeDatabase with
    | none => simp
    | some e => simpa [isSome_iff_ne_none] using hsome
  next hnone =>
    have hfs : fs (databasePath target) = none := by simpa using hnone
    simp [hfs]

section

variable (hsep : Separate current target) (hne : target ≠ current)
  (hcurrent : current = getDataDirectory base.config) (haside : Aside target base st)

include hsep hne hcurrent haside

theorem initializeWithExistingVault_iff
    (hdatabase : st.fs (databasePath target) = base.fs (databasePath target)) :
    FailsSafely base current target (initializeWithExistingVault faults target st) ↔
      (¬ DatabaseStays faults target base.fs → ¬ RepositoryFails faults →
        faults.setDirectory ≠ none → base.config.home.isSome) := by
  have hstays : DatabaseStays faults target st.fs ↔ DatabaseStays faults target base.fs := by
    simp [DatabaseStays, hdatabase]
  have hok := removeDatabase_ok_iff faults target st.fs
  have hremoved : Aside target base
      { st with fs := (removeDatabase target faults.removeDatabase st.fs).2 } :=
    ⟨haside.1, haside.2.trans (aside_removeDatabase _ _ _)⟩
  rw [hstays] at hok
  simp only [initializeWithExistingVault]
  rcases cases_of_ok_iff hok with ⟨hfailed, e, hresult⟩ | ⟨hfine, hresult⟩
  · simp only [hresult, branch_error, failsSafely_error, hfailed, not_true_eq_false,
      false_implies, iff_true]
    exact kept_of_aside hsep hne hremoved
  · simp only [hresult, hfine, not_false_eq_true, true_implies]
    apply setup_none_iff hsep hne hcurrent
    · exact hremoved.1
    · exact touched_of_beside hremoved.2
    · exact (kept_of_aside hsep hne hremoved).targetFiles

theorem initializeFreshVault_iff (hrooted : Rooted base.fs)
    (hvault : base.fs (vaultPath target) = none) :
    FailsSafely base current target (initializeFreshVault faults target st) ↔
      (faults.makeVault = none → ¬ RepositoryFails faults → faults.setDirectory ≠ none →
        base.config.home.isSome) := by
  have hframe : ∀ p, p <+: vaultPath target ++ ["projects"] →
      ChangesOnly (Touched target) base.fs (mkdirAll st.fs p) := by
    intro p hp
    refine (touched_of_beside haside.2).trans ((changesOnly_mkdirAll st.fs p).mono ?_)
    intro q hq
    rcases prefix_concat_iff.mp (hq.trans hp) with rfl | hinside
    · exact touched_vault (prefix_append _ _)
    · rcases prefix_concat_iff.mp hinside with rfl | habove
      · exact touched_vault (prefix_refl _)
      · exact .inl habove
  unfold initializeFreshVault
  cases faults.makeVault with
  | some fault =>
    simp only [failsSafely_error, reduceCtorEq, false_implies, iff_true]
    refine ⟨fun r data hr => (no_vaultFile hrooted hvault hr).elim, fun r => ?_, ?_, ?_⟩
    · exact hframe _ (List.take_prefix _ _) _ (not_touched_source hsep hne r)
    · rw [haside.1]
    · rw [haside.1]
  | none =>
    simp only [true_implies]
    apply setup_none_iff hsep hne hcurrent
    · exact haside.1
    · exact hframe _ (prefix_refl _)
    · intro r data hr
      exact (no_vaultFile hrooted hvault hr).elim

end

end

/-! ## Main result -/

/-- A file system in which whatever is there is inside directories that are. -/
structure Disk where
  fs : FileSystem Bytes
  rooted : Rooted fs

/-- The failures that lose nothing. Without a vault in the target there is nothing
but the configuration to lose; with one, the rollback of a failed set-up removes
it. -/
def FailureIsSafe (faults : MigrationFaults) (st : State) (target : Path)
    (strategy : Strategy) : Prop :=
  let current := getDataDirectory st.config
  match (st.fs (vaultPath current)).isSome, (st.fs (vaultPath target)).isSome with
  | true, true =>
    match strategy with
    | .useRemote =>
      SetupFails faults → FilesStuck faults target st ∧ ConfigRestored faults st.config
    | .useLocal =>
      ¬ BackupFails faults target st.fs →
        (CopyFails faults current st.fs → RestoreSafe faults target current st.fs) ∧
        (¬ CopyFails faults current st.fs → SetupFails faults →
          CopySpares faults target current st.fs ∧ ConfigRestored faults st.config)
    | .mergeBoth =>
      faults.mergeVaults = none → SetupFails faults →
        FilesStuck faults target st ∧ ConfigRestored faults st.config
  | true, false =>
    CopyFails faults current st.fs ∨ SetupFails faults → ConfigRestored faults st.config
  | false, true =>
    ¬ DatabaseStays faults target st.fs → ¬ RepositoryFails faults →
      faults.setDirectory ≠ none → st.config.home.isSome
  | false, false =>
    faults.makeVault = none → ¬ RepositoryFails faults →
      faults.setDirectory ≠ none → st.config.home.isSome

theorem target_ne_of_checkMigration {faults : MigrationFaults} {st : State} {target : Path}
    {text : String} {strategy : Strategy}
    (h : checkMigration faults st target text = .ok strategy) :
    target ≠ getDataDirectory st.config := by
  rintro rfl
  obtain ⟨s, -, h⟩ := bind_eq_ok.mp h
  simp [validateTargetDirectory, bind, Except.bind] at h

/-- The four cases together. -/
theorem migrate_iff {faults : MigrationFaults} {target : Path} {strategy : Strategy}
    {st : State} (hrooted : Rooted st.fs)
    (hsep : Separate (getDataDirectory st.config) target)
    (hne : target ≠ getDataDirectory st.config) :
    FailsSafely st (getDataDirectory st.config) target
        (migrate faults target strategy
          (st.fs (vaultPath (getDataDirectory st.config))).isSome
          (st.fs (vaultPath target)).isSome (getDataDirectory st.config)
          { st with fs := mkdirAll st.fs target }) ↔
      FailureIsSafe faults st target strategy := by
  have haside : Aside target st { st with fs := mkdirAll st.fs target } := by
    refine ⟨rfl, ?_⟩
    have hmkdir := aside_mkdirAll_target target st.fs target.length
    rwa [take_length] at hmkdir
  have hentry : ∀ name, mkdirAll st.fs target (target ++ [name]) =
      st.fs (target ++ [name]) := by
    intro name
    apply mkdirAll_elsewhere
    intro hpre
    have hlength := hpre.length_le
    rw [length_append, length_singleton] at hlength
    omega
  simp only [FailureIsSafe]
  cases hcurrent : (st.fs (vaultPath (getDataDirectory st.config))).isSome with
  | true =>
    have hdata := isSome_iff_ne_none.mp hcurrent
    cases htarget : (st.fs (vaultPath target)).isSome with
    | true =>
      cases strategy with
      | useRemote => exact strategyUseRemote_iff hsep hne rfl haside
      | useLocal =>
        exact strategyUseLocal_iff hsep hne rfl haside (hentry _)
          (isSome_iff_ne_none.mp htarget)
      | mergeBoth => exact strategyMergeBoth_iff hsep hne rfl haside
    | false =>
      have hvault : st.fs (vaultPath target) = none := by simpa using htarget
      exact migrateExistingData_iff hsep hne rfl haside hrooted hvault hdata
  | false =>
    cases htarget : (st.fs (vaultPath target)).isSome with
    | true => exact initializeWithExistingVault_iff hsep hne rfl haside (hentry _)
    | false =>
      have hvault : st.fs (vaultPath target) = none := by simpa using htarget
      exact initializeFreshVault_iff hsep hne rfl haside hrooted hvault

namespace SampleMigration

/-- A vault with one note in each of two directories. -/
def disk : Disk where
  fs := ofFiles [(["old", "vault", "a"], [1]), (["new", "vault", "b"], [2])]
  rooted := rooted_ofFiles _

def config : Config where
  home := none
  root := ["root"]
  dataDirectory := some ["old"]
  saved := some ["old"]

/-- Nothing fails but the commit. -/
def faults : MigrationFaults where
  statTarget := none
  gitInstalled := true
  makeTarget := none
  removeOldBackup := none
  backUpVault := none
  copyVault := none
  runaway _ := none
  verifyVault := none
  restoreStuck := []
  restoreVault := none
  backupStuck := []
  mergeVaults := none
  makeVault := none
  removeDatabase := none
  isRepository := .ok true
  init := ⟨none, fun _ => none⟩
  createGitIgnore := none
  add := ⟨none, fun _ => none⟩
  commit := ⟨some "GIT_IDENTITY_NOT_CONFIGURED", fun _ => none⟩
  setDirectory := none
  rollbackStuck := []
  rollbackDatabase := none
  rollbackDirectory := none

end SampleMigration

open SampleMigration

end Yanta.Migration
