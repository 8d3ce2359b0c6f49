import Yanta.Migration.Rollback

/-!
# The strategies for two vaults

For each strategy of `migrateWithStrategy`, the failures after which the files of the
target's vault are still there: merging only adds files, the local vault is copied
over a backup that is put back when the copy fails, and all three end with a set-up
whose rollback removes the vault.
-/

namespace Yanta.Migration

open Go Support Option
open List hiding removeAll

section

variable {faults : MigrationFaults} {target current : Path} {base st : State}

variable (faults target) in
/-- The rollback cannot remove any file that was in the target's vault. -/
def FilesStuck (base : State) : Prop :=
  ∀ r data, base.fs (vaultPath target ++ r) = some (.file data) →
    ∃ k ∈ faults.rollbackStuck, vaultPath target ++ r <+: k

/-- A rollback after changes that kept the files of the vault. -/
theorem rollbackSpares_iff
    (hfiles : ∀ r data, base.fs (vaultPath target ++ r) = some (.file data) →
      st.fs (vaultPath target ++ r) = some (.file data)) :
    RollbackSpares faults target base st ↔ FilesStuck faults target base := by
  refine forall_congr' fun r => forall_congr' fun data => imp_congr_right fun hr => ?_
  exact and_iff_right (hfiles r data hr)

theorem strategyUseRemote_iff (hsep : Separate current target) (hne : target ≠ current)
    (hcurrent : current = getDataDirectory base.config) (haside : Aside target base st) :
    FailsSafely base current target (strategyUseRemote faults target current st) ↔
      (SetupFails faults →
        FilesStuck faults target base ∧ ConfigRestored faults base.config) := by
  rw [strategyUseRemote, finish_iff hsep hne hcurrent haside.1 (touched_of_beside haside.2),
    rollbackSpares_iff]
  intro r data hr
  rw [vault_of_beside haside.2, hr]

theorem not_strictlyBelow_vault (hsep : Separate current target) (hne : target ≠ current) :
    ¬ StrictlyBelow (vaultPath current) (vaultPath target) := by
  rintro ⟨hpre, -⟩
  rcases prefix_concat_iff.mp hpre with heq | hinside
  · exact hne (append_inj' heq rfl).1.symm
  · exact hsep.1 hinside

variable (faults) in
/-- A merge writes only where the target has nothing. -/
theorem mergeVaults_snd (fs : FileSystem Bytes) {src dst : Path}
    (hbelow : ¬ StrictlyBelow src dst) :
    ∃ tree, (mergeVaults faults fs src dst).2 = place fs dst tree ∧
      ∀ r, fs (dst ++ r) ≠ none → tree r = none := by
  have hmissing : ∀ r, fs (dst ++ r) ≠ none →
      (if (fs (dst ++ r)).isSome ∨ Blocked fs (dst ++ r) then none
        else fs (src ++ r)) = none := by
    intro r hr
    exact if_pos (.inl (isSome_iff_ne_none.mpr hr))
  simp only [mergeVaults, hbelow]
  cases faults.mergeVaults with
  | none => exact ⟨_, rfl, hmissing⟩
  | some fault =>
    refine ⟨_, rfl, fun r hr => ?_⟩
    simp [copied, hmissing r hr]

variable (faults) in
theorem mergeVaults_ok_iff (fs : FileSystem Bytes) {src dst : Path}
    (hbelow : ¬ StrictlyBelow src dst) :
    (mergeVaults faults fs src dst).1 = .ok () ↔ faults.mergeVaults = none := by
  simp only [mergeVaults, hbelow]
  cases faults.mergeVaults with
  | none => simp
  | some fault => simp

theorem strategyMergeBoth_iff (hsep : Separate current target) (hne : target ≠ current)
    (hcurrent : current = getDataDirectory base.config) (haside : Aside target base st) :
    FailsSafely base current target (strategyMergeBoth faults target current st) ↔
      (faults.mergeVaults = none → SetupFails faults →
        FilesStuck faults target base ∧ ConfigRestored faults base.config) := by
  have hbelow := not_strictlyBelow_vault hsep hne
  obtain ⟨tree, hmerged, hfree⟩ :=
    mergeVaults_snd faults st.fs hbelow
  have hok := mergeVaults_ok_iff faults st.fs hbelow
  have hframe : ChangesOnly (Touched target) base.fs (place st.fs (vaultPath target) tree) :=
    (touched_of_beside haside.2).trans
      ((changesOnly_place _ _ _).mono fun q => touched_vault)
  have hfiles : ∀ r data, base.fs (vaultPath target ++ r) = some (.file data) →
      place st.fs (vaultPath target) tree (vaultPath target ++ r) = some (.file data) := by
    intro r data hr
    have hst : st.fs (vaultPath target ++ r) = some (.file data) := by
      rw [vault_of_beside haside.2, hr]
    rw [place_append, hfree r (by simp [hst]), none_or, hst]
  simp only [strategyMergeBoth, prefixed_snd, hmerged]
  cases hresult : (prefixed "merging vaults: "
      (mergeVaults faults st.fs (vaultPath current) (vaultPath target))).1 with
  | error e =>
    have hfault : faults.mergeVaults ≠ none := by
      intro hnone
      rw [prefixed_fst_eq_ok.mpr (hok.mpr hnone)] at hresult
      cases hresult
    simp only [branch_error, failsSafely_error, hfault, false_implies, iff_true]
    exact ⟨hfiles, fun r => hframe _ (not_touched_source hsep hne r), by rw [haside.1],
      by rw [haside.1]⟩
  | ok u =>
    have hnone : faults.mergeVaults = none := hok.mp (prefixed_fst_eq_ok.mp hresult)
    have hfiles' : ∀ r data, base.fs (vaultPath target ++ r) = some (.file data) →
        ({ st with fs := place st.fs (vaultPath target) tree } : State).fs
          (vaultPath target ++ r) = some (.file data) := hfiles
    simp only [hnone, true_implies]
    rw [← rollbackSpares_iff hfiles']
    apply finish_iff hsep hne hcurrent
    · exact haside.1
    · exact hframe

end

/-! ## The local vault copied over the target's -/

/-- What a copy of the current vault leaves, relative to its destination. -/
def vaultCopy (faults : MigrationFaults) (current : Path) (fs : FileSystem Bytes) :
    FileSystem Bytes :=
  match fs (vaultPath current) with
  | none => fun _ => none
  | some (.file _) => fun r => if r = [] then some .dir else none
  | some .dir =>
    match faults.copyVault with
    | none => fun r => fs (vaultPath current ++ r)
    | some (_, progress) =>
      if progress [] = .missing then fun _ => none
      else copied progress fun r => fs (vaultPath current ++ r)

/-- The copy of the current vault or its verification fails. -/
def CopyFails (faults : MigrationFaults) (current : Path) (fs : FileSystem Bytes) : Prop :=
  fs (vaultPath current) ≠ some .dir ∨ faults.copyVault ≠ none ∨ faults.verifyVault ≠ none

section

variable {faults : MigrationFaults} {target current : Path} {fs : FileSystem Bytes}

theorem vaultCopy_root (faults : MigrationFaults) (current : Path)
    (fs : FileSystem Bytes) :
    vaultCopy faults current fs [] = none ∨ vaultCopy faults current fs [] = some .dir := by
  unfold vaultCopy
  cases hnode : fs (vaultPath current) with
  | none => exact .inl rfl
  | some node =>
    cases node with
    | file data => exact .inr rfl
    | dir =>
      cases faults.copyVault with
      | none =>
        right
        exact (congrArg fs (append_nil _)).trans hnode
      | some fault =>
        obtain ⟨e, progress⟩ := fault
        cases hprogress : progress [] with
        | missing => simp [hprogress]
        | torn n => simp [hprogress, copied, hnode, Progress.node]
        | complete => simp [hprogress, copied, hnode]

theorem copyDirectory_ok_iff {src dst : Path} (hbelow : ¬ StrictlyBelow src dst) :
    (copyDirectory faults fs src dst).1 = .ok () ↔
      fs src = some .dir ∧ faults.copyVault = none := by
  unfold copyDirectory
  split
  next h => simp [h]
  next h => simp [h]
  next h =>
    rw [if_neg hbelow]
    cases faults.copyVault with
    | none => simp [copyTree, h]
    | some fault => simp [copyTree]

variable (faults fs) in
/-- A copy changes the destination and the directories it is in. -/
theorem changesOnly_copyDirectory (src dst : Path) :
    ChangesOnly (fun q => q <+: dst ∨ dst <+: q) fs
      (copyDirectory faults fs src dst).2 := by
  have hmkdir : ChangesOnly (fun q => q <+: dst ∨ dst <+: q) fs (mkdirAll fs dst) :=
    (changesOnly_mkdirAll fs dst).mono fun q hq => .inl hq
  unfold copyDirectory
  split
  · exact .refl _ _
  · exact hmkdir
  · split
    · exact hmkdir.trans ((changesOnly_place _ _ _).mono fun q hq => .inr hq)
    · exact changesOnly_copyTree dst _ _ _

/-- A copy of the current vault to where nothing is. -/
theorem copyDirectory_vault {src : FileSystem Bytes}
    (hbelow : ¬ StrictlyBelow (vaultPath current) (vaultPath target))
    (hfree : ∀ r, fs (vaultPath target ++ r) = none)
    (hsame : ∀ r, fs (vaultPath current ++ r) = src (vaultPath current ++ r)) (r : Path) :
    (copyDirectory faults fs (vaultPath current) (vaultPath target)).2
      (vaultPath target ++ r) = vaultCopy faults current src r := by
  have hroot := hsame []
  rw [append_nil] at hroot
  unfold copyDirectory vaultCopy
  rw [← hroot]
  cases hnode : fs (vaultPath current) with
  | none => exact hfree r
  | some node =>
    cases node with
    | file data =>
      simp only [mkdirAll, hfree]
      refine if_congr ?_ rfl rfl
      constructor
      · intro hpre
        have hlength := hpre.length_le
        rw [length_append] at hlength
        exact length_eq_zero_iff.mp (by omega)
      · rintro rfl
        rw [append_nil]
    | dir =>
      simp only [if_neg hbelow]
      rw [copyTree_below _ _ hfree (by rw [append_nil, hnode])]
      cases faults.copyVault with
      | none => exact hsame r
      | some fault =>
        simp only [hsame]
        split
        · rfl
        · rfl

theorem copyAndVerify_ok_iff (faults : MigrationFaults) (copying : String)
    (fs : FileSystem Bytes)
    (hbelow : ¬ StrictlyBelow (vaultPath current) (vaultPath target)) :
    (copyAndVerify faults target copying current fs).1 = .ok () ↔
      ¬ CopyFails faults current fs := by
  simp only [copyAndVerify, andThen_fst_eq_ok, prefixed_fst_eq_ok, attempt_eq_ok,
    copyDirectory_ok_iff hbelow, CopyFails, not_or, not_not, and_assoc]

theorem copyAndVerify_snd (copying : String) :
    (copyAndVerify faults target copying current fs).2 =
      (copyDirectory faults fs (vaultPath current) (vaultPath target)).2 := by
  simp only [copyAndVerify, andThen]
  cases (prefixed copying
      (copyDirectory faults fs (vaultPath current) (vaultPath target))).1 with
  | error e => rfl
  | ok u => rfl

end

section

variable {faults : MigrationFaults} {target current : Path} {base st : State}
  {fs : FileSystem Bytes}

/-- The target's vault cannot be put out of the way. -/
def BackupFails (faults : MigrationFaults) (target : Path) (fs : FileSystem Bytes) : Prop :=
  (fs (backupPath target) ≠ none ∧ faults.removeOldBackup ≠ none) ∨
    faults.backUpVault ≠ none

theorem besideVault_backup {q : Path} (h : backupPath target <+: q) :
    BesideVault target q :=
  besideVault_of_entry (by decide) (by decide) h

/-- The vault was renamed to the backup. -/
structure BackedUp (target : Path) (fs fs' : FileSystem Bytes) : Prop where
  backup : ∀ r, fs' (backupPath target ++ r) = fs (vaultPath target ++ r)
  vault : ∀ r, fs' (vaultPath target ++ r) = none
  frame : ChangesOnly (Touched target) fs fs'

/-- A step that renames the vault, or fails and leaves it. -/
def BackupOutcome (fails : Prop) (target : Path) (fs : FileSystem Bytes)
    (result : Except String Unit × FileSystem Bytes) : Prop :=
  (fails ∧ (∃ e, result.1 = .error e) ∧ ChangesOnly (BesideVault target) fs result.2) ∨
    (¬ fails ∧ result.1 = .ok () ∧ BackedUp target fs result.2)

theorem BackupOutcome.prefixed {fails : Prop}
    {result : Except String Unit × FileSystem Bytes}
    (h : BackupOutcome fails target fs result) (text : String) :
    BackupOutcome fails target fs (prefixed text result) := by
  rcases h with ⟨hfails, ⟨e, he⟩, hbeside⟩ | ⟨hfine, hok, hbacked⟩
  · exact .inl ⟨hfails, ⟨text ++ e, by simp [Go.prefixed, he]⟩, hbeside⟩
  · exact .inr ⟨hfine, prefixed_fst_eq_ok.mpr hok, hbacked⟩

/-- Once the old backup is gone, only the operating system can refuse to rename. -/
theorem rename_outcome (faults : MigrationFaults) {cleared : FileSystem Bytes}
    (hvault : fs (vaultPath target) ≠ none)
    (hcleared : ChangesOnly (BesideVault target) fs cleared)
    (hfree : cleared (backupPath target) = none) :
    BackupOutcome (faults.backUpVault ≠ none) target fs
      (rename faults.backUpVault cleared (vaultPath target) (backupPath target)) := by
  have hthere : cleared (vaultPath target) ≠ none := by
    have hsame := vault_of_beside hcleared []
    rw [append_nil] at hsame
    rwa [hsame]
  have hframe := (touched_of_beside hcleared).trans ((changesOnly_rename cleared
    (vaultPath target) faults.backUpVault (backupPath target)).mono fun q hq =>
      hq.elim touched_vault fun hbackup => (besideVault_backup hbackup).1)
  cases hfault : faults.backUpVault with
  | some e => exact .inl ⟨by simp, ⟨e, rfl⟩, hcleared⟩
  | none =>
    rw [hfault] at hframe
    have hmoved := rename_free hthere hfree
    rw [hmoved] at hframe ⊢
    refine .inr ⟨by simp, rfl, fun r => ?_, fun r => ?_, hframe⟩
    · exact (moved_append _ _ _ _).trans (vault_of_beside hcleared r)
    · exact moved_source (prefix_append _ _) (backup_not_above_vault target r)

/-- The vault is put out of the way, or stays where it is. -/
theorem backUpVault_outcome (faults : MigrationFaults)
    (hvault : fs (vaultPath target) ≠ none) :
    BackupOutcome (BackupFails faults target fs) target fs
      (backUpVault faults target fs) := by
  have hremove : ∀ stuck, ChangesOnly (BesideVault target) fs
      (removeAll fs (backupPath target) stuck) := by
    intro stuck
    exact (changesOnly_removeAll fs _ stuck).mono fun q => besideVault_backup
  unfold backUpVault BackupFails
  rw [if_pos (isSome_iff_ne_none.mpr hvault)]
  by_cases hbackup : fs (backupPath target) = none
  · have houtcome := (rename_outcome faults hvault (.refl _ _) hbackup).prefixed
      "backing up target vault: "
    simpa [hbackup, andThen, Go.prefixed] using houtcome
  · cases hfault : faults.removeOldBackup with
    | some fault =>
      have hisSome := isSome_iff_ne_none.mpr hbackup
      simp only [hisSome]
      exact .inl ⟨.inl ⟨hbackup, by simp⟩, ⟨_, rfl⟩, hremove _⟩
    | none =>
      have hgone : removeAll fs (backupPath target) [] (backupPath target) = none := by
        simp [removeAll]
      have houtcome := (rename_outcome faults hvault (hremove []) hgone).prefixed
        "backing up target vault: "
      have hisSome := isSome_iff_ne_none.mpr hbackup
      simp only [hisSome, andThen]
      simpa [Go.prefixed] using houtcome

/-- What is left of a failed copy when the backup is to be put back. -/
def copyLeft (faults : MigrationFaults) (target current : Path) (fs : FileSystem Bytes) :
    FileSystem Bytes := fun r =>
  if ∃ k ∈ faults.restoreStuck, vaultPath target ++ r <+: k then
    vaultCopy faults current fs r
  else none

/-- The backup is put back after a failed copy, or all that was in it is there in
the part of the copy that could not be removed. -/
def RestoreSafe (faults : MigrationFaults) (target current : Path)
    (fs : FileSystem Bytes) : Prop :=
  (faults.restoreVault = none ∧ copyLeft faults target current fs [] = none) ∨
    ∀ r data, fs (vaultPath target ++ r) = some (.file data) →
      copyLeft faults target current fs r = some (.file data)

/-- What the copy leaves after the vault was put out of the way. -/
structure Overwritten (faults : MigrationFaults) (target current : Path)
    (fs fs' : FileSystem Bytes) : Prop where
  backup : ∀ r, fs' (backupPath target ++ r) = fs (vaultPath target ++ r)
  vault : ∀ r, fs' (vaultPath target ++ r) = vaultCopy faults current fs r
  frame : ChangesOnly (Touched target) fs fs'

theorem copyDirectory_frame (faults : MigrationFaults) (fs : FileSystem Bytes)
    (src target : Path) :
    ChangesOnly (Touched target) fs (copyDirectory faults fs src (vaultPath target)).2 := by
  apply (changesOnly_copyDirectory faults fs src (vaultPath target)).mono
  rintro q (habove | hbelow)
  · rcases prefix_concat_iff.mp habove with rfl | hinside
    · exact touched_vault (prefix_refl _)
    · exact .inl hinside
  · exact touched_vault hbelow

theorem overwritten_of_backedUp (faults : MigrationFaults) (copying : String)
    {fs' : FileSystem Bytes}
    (hsep : Separate current target) (hne : target ≠ current)
    (h : BackedUp target fs fs') :
    Overwritten faults target current fs
      (copyAndVerify faults target copying current fs').2 := by
  rw [copyAndVerify_snd]
  refine ⟨fun r => ?_, fun r => ?_, h.frame.trans (copyDirectory_frame _ _ _ _)⟩
  · rw [changesOnly_copyDirectory, h.backup]
    rintro (habove | hbelow)
    · rcases prefix_concat_iff.mp habove with heq | hinside
      · apply vault_not_above_backup target r
        rw [heq]
        exact prefix_refl _
      · have hlength := hinside.length_le
        simp only [backupPath, length_append, length_singleton] at hlength
        omega
    · exact vault_not_above_backup target r hbelow
  · apply copyDirectory_vault (not_strictlyBelow_vault hsep hne) h.vault
    intro r
    exact h.frame _ (not_touched_source hsep hne r)

/-- After a failed copy the backup is put back, or what is left is the part of the
copy that could not be removed. -/
theorem restoreVault_vault {fs' : FileSystem Bytes}
    (hvault : fs (vaultPath target) ≠ none) (h : Overwritten faults target current fs fs') :
    (∀ r data, fs (vaultPath target ++ r) = some (.file data) →
        restoreVault faults target fs' (vaultPath target ++ r) = some (.file data)) ↔
      RestoreSafe faults target current fs := by
  have hbackup : fs' (backupPath target) ≠ none := by
    have hroot := h.backup []
    rw [append_nil, append_nil] at hroot
    rwa [hroot]
  have hleft : ∀ r, removeAll fs' (vaultPath target) faults.restoreStuck
      (vaultPath target ++ r) = copyLeft faults target current fs r := by
    intro r
    unfold removeAll copyLeft
    by_cases hstuck : ∃ k ∈ faults.restoreStuck, vaultPath target ++ r <+: k
    · rw [if_pos hstuck, if_neg, h.vault]
      rintro ⟨-, hnone⟩
      obtain ⟨k, hk, hpre⟩ := hstuck
      exact hnone k hk hpre
    · rw [if_neg hstuck, if_pos]
      exact ⟨prefix_append _ _, by simpa using hstuck⟩
  have hkept : ∀ r, removeAll fs' (vaultPath target) faults.restoreStuck
      (backupPath target ++ r) = fs (vaultPath target ++ r) := by
    intro r
    rw [removeAll_outside (vault_not_above_backup target r), h.backup]
  have hroot : removeAll fs' (vaultPath target) faults.restoreStuck (vaultPath target) =
      copyLeft faults target current fs [] := by
    rw [← hleft, append_nil]
  rw [restoreVault, if_pos (isSome_iff_ne_none.mpr hbackup)]
  unfold RestoreSafe
  cases hfault : faults.restoreVault with
  | some e => simp [rename, hleft]
  | none =>
    by_cases hgone : copyLeft faults target current fs [] = none
    · have hthere : removeAll fs' (vaultPath target) faults.restoreStuck
          (backupPath target) ≠ none := by
        have hsame := hkept []
        rw [append_nil, append_nil] at hsame
        rwa [hsame]
      rw [rename_free hthere (hroot.trans hgone)]
      simp [hgone, hkept]
    · have hdir : copyLeft faults target current fs [] = some .dir := by
        unfold copyLeft at hgone ⊢
        split at hgone
        next hstuck =>
          rw [if_pos hstuck]
          exact (vaultCopy_root faults current fs).resolve_left hgone
        next => exact absurd rfl hgone
      obtain ⟨e, hrename⟩ := rename_dir (backupPath target) (hroot.trans hdir)
      simp [hrename, hleft, hgone]

theorem restoreVault_frame (faults : MigrationFaults) (target : Path)
    (fs : FileSystem Bytes) :
    ChangesOnly (Touched target) fs (restoreVault faults target fs) := by
  unfold restoreVault
  split
  · have hremove := (changesOnly_removeAll fs (vaultPath target)
      faults.restoreStuck).mono fun q => touched_vault
    refine hremove.trans ((changesOnly_rename _ _ _ _).mono ?_)
    rintro q (hq | hq)
    · exact (besideVault_backup hq).1
    · exact touched_vault hq
  · exact .refl _ _

/-- The files of the target's vault are those of the copy, and the rollback cannot
remove them. -/
def CopySpares (faults : MigrationFaults) (target current : Path)
    (fs : FileSystem Bytes) : Prop :=
  ∀ r data, fs (vaultPath target ++ r) = some (.file data) →
    fs (vaultPath current ++ r) = some (.file data) ∧
      ∃ k ∈ faults.rollbackStuck, vaultPath target ++ r <+: k

theorem vaultCopy_eq_of_not_copyFails (h : ¬ CopyFails faults current fs) (r : Path) :
    vaultCopy faults current fs r = fs (vaultPath current ++ r) := by
  simp only [CopyFails, not_or, not_not] at h
  simp [vaultCopy, h.1, h.2.1]

theorem strategyUseLocal_iff (hsep : Separate current target) (hne : target ≠ current)
    (hcurrent : current = getDataDirectory base.config) (haside : Aside target base st)
    (hbackup : st.fs (backupPath target) = base.fs (backupPath target))
    (hvault : base.fs (vaultPath target) ≠ none) :
    FailsSafely base current target (strategyUseLocal faults target current st) ↔
      (¬ BackupFails faults target base.fs →
        (CopyFails faults current base.fs → RestoreSafe faults target current base.fs) ∧
        (¬ CopyFails faults current base.fs → SetupFails faults →
          CopySpares faults target current base.fs ∧
            ConfigRestored faults base.config)) := by
  have hsource : ∀ fs', ChangesOnly (Touched target) base.fs fs' →
      ∀ r, fs' (vaultPath current ++ r) = base.fs (vaultPath current ++ r) := by
    intro fs' hframe r
    exact hframe _ (not_touched_source hsep hne r)
  have hthere : st.fs (vaultPath target) ≠ none := by
    have hsame := vault_of_beside haside.2 []
    rw [append_nil] at hsame
    rwa [hsame]
  have hfails : BackupFails faults target st.fs ↔ BackupFails faults target base.fs := by
    simp [BackupFails, hbackup]
  simp only [strategyUseLocal]
  rcases backUpVault_outcome faults hthere with ⟨hback, ⟨e, he⟩, hbeside⟩ | ⟨hback, hok, hst⟩
  · have hkept : Aside target base
        { st with fs := (backUpVault faults target st.fs).2 } :=
      ⟨haside.1, haside.2.trans hbeside⟩
    simp only [he, branch_error, failsSafely_error, hfails.mp hback, not_true_eq_false,
      false_implies, iff_true]
    exact kept_of_aside hsep hne hkept
  · have hbacked : BackedUp target base.fs (backUpVault faults target st.fs).2 :=
      ⟨fun r => (hst.backup r).trans (vault_of_beside haside.2 r), hst.vault,
        (touched_of_beside haside.2).trans hst.frame⟩
    have hover := overwritten_of_backedUp faults "copying local vault: " hsep hne
      hbacked
    have hcopy : CopyFails faults current (backUpVault faults target st.fs).2 ↔
        CopyFails faults current base.fs := by
      have hroot := hsource _ hbacked.frame []
      rw [append_nil] at hroot
      simp [CopyFails, hroot]
    have hcopyOk := copyAndVerify_ok_iff faults "copying local vault: "
      (backUpVault faults target st.fs).2
      (not_strictlyBelow_vault hsep hne)
    rw [hcopy] at hcopyOk
    generalize (copyAndVerify faults target "copying local vault: " current
      (backUpVault faults target st.fs).2) = copy at hover hcopyOk ⊢
    simp only [hok, branch_ok, mt hfails.mpr hback, not_false_eq_true]
    rcases cases_of_ok_iff hcopyOk with ⟨hfailed, e, hresult⟩ | ⟨hfine, hresult⟩
    · simp only [hresult, branch_error, failsSafely_error, hfailed, true_implies,
        not_true_eq_false, false_implies, and_true]
      rw [← restoreVault_vault hvault hover]
      constructor
      · intro h
        exact h.targetFiles
      · intro h
        refine ⟨h, hsource _ (hover.frame.trans (restoreVault_frame _ _ _)), ?_, ?_⟩
        · rw [haside.1]
        · rw [haside.1]
    · simp only [hresult, hfine, false_implies, not_false_eq_true, true_implies,
        true_and]
      have hremove := (changesOnly_removeAll copy.2 (backupPath target)
        faults.backupStuck).mono fun q => besideVault_backup
      have hspares : RollbackSpares faults target base
          { st with fs := removeAll copy.2 (backupPath target) faults.backupStuck } ↔
            CopySpares faults target current base.fs := by
        simp [RollbackSpares, vault_of_beside hremove, hover.vault,
          vaultCopy_eq_of_not_copyFails hfine, CopySpares]
      rw [← hspares]
      apply finish_iff hsep hne hcurrent
      · exact haside.1
      · exact hover.frame.trans (touched_of_beside hremove)

end

end Yanta.Migration
