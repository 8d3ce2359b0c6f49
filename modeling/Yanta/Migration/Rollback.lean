import Yanta.Migration.Migrate

/-!
# What a rollback loses

`setupGitRepository` ends every migration, and the rollback that follows its
failures removes the target's vault, also where it was there before the call. The
results say which paths each step can change and what is kept of the files of the
target's vault, of the source vault and of the configured data directory when the
set-up fails.
-/

namespace Yanta.Migration

open Go Support

/-- Nothing is lost between two states. -/
structure Kept (st : State) (current target : Path) (st' : State) : Prop where
  targetFiles : ∀ r data, st.fs (vaultPath target ++ r) = some (.file data) →
    st'.fs (vaultPath target ++ r) = some (.file data)
  sourceVault : ∀ r, st'.fs (vaultPath current ++ r) = st.fs (vaultPath current ++ r)
  running : getDataDirectory st'.config = getDataDirectory st.config
  restarted : directoryAfterRestart st'.config = directoryAfterRestart st.config

/-- If the result is an error, nothing is lost. -/
def FailsSafely (st : State) (current target : Path)
    (result : Except String Unit × State) : Prop :=
  ∀ e, result.1 = .error e → Kept st current target result.2

/-! ## Where a migration writes -/

/-- The entries of the target directory that a migration writes. -/
def written : List String := ["vault", "vault.backup", "yanta.db", ".git", ".gitignore"]

/-- A migration may change the path. -/
def Touched (target q : Path) : Prop :=
  q <+: target ∨ ∃ name ∈ written, target ++ [name] <+: q

/-- A migration may change the path, and the path is not in the target's vault. -/
def BesideVault (target q : Path) : Prop :=
  Touched target q ∧ ¬ vaultPath target <+: q

/-- Neither directory lies in the data of the other. -/
def Separate (current target : Path) : Prop :=
  ¬ vaultPath current <+: target ∧ ∀ name ∈ written, ¬ target ++ [name] <+: current

instance (current target : Path) : Decidable (Separate current target) :=
  inferInstanceAs (Decidable (_ ∧ _))

variable {target : Path}

theorem not_touched_source {current : Path} (hsep : Separate current target)
    (hne : target ≠ current) (r : Path) : ¬ Touched target (vaultPath current ++ r) := by
  rintro (habove | ⟨name, hname, hbelow⟩)
  · exact hsep.1 ((List.prefix_append _ _).trans habove)
  · have hcurrent : vaultPath current <+: vaultPath current ++ r := List.prefix_append _ _
    rcases List.prefix_or_prefix_of_prefix hbelow hcurrent with hpre | hpre
    · rcases List.prefix_concat_iff.mp hpre with heq | hinside
      · exact hne (List.append_inj' heq rfl).1
      · exact hsep.2 name hname hinside
    · rcases List.prefix_concat_iff.mp hpre with heq | hinside
      · exact hne (List.append_inj' heq rfl).1.symm
      · exact hsep.1 hinside

/-- Entries of one directory do not lie in each other. -/
theorem sibling_outside {dir r : Path} {name name' : String} (h : name ≠ name') :
    ¬ dir ++ [name] <+: dir ++ [name'] ++ r := by
  simp [h]

theorem besideVault_of_above {q : Path} (h : q <+: target) : BesideVault target q := by
  refine ⟨.inl h, fun hvault => ?_⟩
  have hlong := (hvault.trans h).length_le
  simp [vaultPath] at hlong

theorem besideVault_of_entry {q : Path} {name : String} (hname : name ∈ written)
    (hvault : name ≠ "vault") (h : target ++ [name] <+: q) : BesideVault target q := by
  refine ⟨.inr ⟨name, hname, h⟩, fun hin => ?_⟩
  obtain ⟨r, rfl⟩ := h
  exact sibling_outside hvault.symm hin

theorem vault_not_above_backup (target r : Path) :
    ¬ vaultPath target <+: backupPath target ++ r :=
  sibling_outside (by decide)

theorem backup_not_above_vault (target r : Path) :
    ¬ backupPath target <+: vaultPath target ++ r :=
  sibling_outside (by decide)

theorem touched_vault {q : Path} (h : vaultPath target <+: q) :
    Touched target q :=
  .inr ⟨"vault", by decide, h⟩

theorem touched_of_beside {fs fs' : FileSystem Bytes}
    (h : ChangesOnly (BesideVault target) fs fs') : ChangesOnly (Touched target) fs fs' :=
  h.mono fun _ hq => hq.1

/-- The target's vault is as it was. -/
theorem vault_of_beside {fs fs' : FileSystem Bytes}
    (h : ChangesOnly (BesideVault target) fs fs') (r : Path) :
    fs' (vaultPath target ++ r) = fs (vaultPath target ++ r) :=
  h _ fun hbeside => hbeside.2 (List.prefix_append _ _)

section

variable (faults : MigrationFaults) (target : Path)

theorem aside_mkdirAll_target (fs : FileSystem Bytes) (n : Nat) :
    ChangesOnly (BesideVault target) fs (mkdirAll fs (target.take n)) := by
  apply (changesOnly_mkdirAll fs _).mono
  intro q hq
  exact besideVault_of_above (hq.trans (List.take_prefix _ _))

theorem aside_removeDatabase (fault : Option String) (fs : FileSystem Bytes) :
    ChangesOnly (BesideVault target) fs (removeDatabase target fault fs).2 := by
  unfold removeDatabase
  split
  · split
    · exact .refl _ _
    · apply (changesOnly_update fs _ none).mono
      rintro q rfl
      exact besideVault_of_entry (by decide) (by decide) (List.prefix_refl _)
  · exact .refl _ _

theorem aside_runGit (call : GitCall) (st : State) :
    ChangesOnly (BesideVault target) st.fs (runGit target call st).2.fs := by
  have hgit : ∀ q, gitPath target <+: q → BesideVault target q := by
    intro q hq
    exact besideVault_of_entry (by decide) (by decide) hq
  exact ((changesOnly_removeAll _ _ _).mono hgit).trans
    ((changesOnly_place _ _ _).mono hgit)

theorem aside_createGitIgnore (st : State) :
    ChangesOnly (BesideVault target) st.fs (createGitIgnore faults target st).2.fs := by
  have hupdate : ∀ node, ChangesOnly (BesideVault target) st.fs
      (Function.update st.fs (gitIgnorePath target) node) := by
    intro node
    apply (changesOnly_update st.fs _ node).mono
    rintro q rfl
    exact besideVault_of_entry (by decide) (by decide) (List.prefix_refl _)
  unfold createGitIgnore
  split
  · exact hupdate _
  · exact .refl _ _
  · exact hupdate _

/-- Two states that differ beside the vault only. -/
def Aside (st st' : State) : Prop :=
  st'.config = st.config ∧ ChangesOnly (BesideVault target) st.fs st'.fs

variable {target} in
theorem Aside.trans (a b c : State) (h : Aside target a b) (h' : Aside target b c) :
    Aside target a c :=
  ⟨h'.1.trans h.1, h.2.trans h'.2⟩

theorem aside_prepareRepository (st : State) :
    Aside target st (prepareRepository faults target st).2 := by
  have hgit : ∀ call st, Aside target st (runGit target call st).2 := by
    intro call st
    exact ⟨rfl, aside_runGit target call st⟩
  have hignore : ∀ st, Aside target st (createGitIgnore faults target st).2 := by
    intro st
    refine ⟨?_, aside_createGitIgnore faults target st⟩
    unfold createGitIgnore
    split
    · rfl
    · rfl
    · rfl
  unfold prepareRepository
  cases faults.isRepository with
  | error e => exact ⟨rfl, .refl _ _⟩
  | ok isRepo =>
    rw [branch_ok]
    apply andThen_related Aside.trans
    · cases isRepo with
      | true => exact ⟨rfl, .refl _ _⟩
      | false => exact hgit faults.init st
    · intro st
      apply andThen_related Aside.trans
      · exact hignore st
      · intro st
        apply andThen_related Aside.trans
        · exact hgit faults.add st
        · intro st
          exact hgit faults.commit st

/-- A step of the set-up before the configuration is changed fails. -/
def RepositoryFails : Prop :=
  match faults.isRepository with
  | .error _ => True
  | .ok isRepo =>
    (isRepo = false ∧ faults.init.error ≠ none) ∨ faults.createGitIgnore ≠ none ∨
      faults.add.error ≠ none ∨
      (faults.commit.error ≠ none ∧ faults.commit.error ≠ some "nothing to commit")

theorem createGitIgnore_ok_iff (st : State) :
    (createGitIgnore faults target st).1 = .ok () ↔ faults.createGitIgnore = none := by
  unfold createGitIgnore
  split
  next h => simp [h]
  next h => simp [h]
  next h => simp [h]

theorem prepareRepository_ok_iff (st : State) :
    (prepareRepository faults target st).1 = .ok () ↔ ¬ RepositoryFails faults := by
  unfold prepareRepository RepositoryFails
  cases faults.isRepository with
  | error e => simp
  | ok isRepo =>
    simp only [branch_ok, andThen_fst_eq_ok, prefixed_fst_eq_ok, createGitIgnore_ok_iff,
      runGit, commit]
    by_cases hcommit : faults.commit.error = some "nothing to commit" <;>
      cases isRepo <;> simp [hcommit]

/-- The set-up fails. -/
def SetupFails : Prop := RepositoryFails faults ∨ faults.setDirectory ≠ none

end

/-! ## The configuration after a failure -/

/-- The rollback writes the old directory to the configuration file, or that fails
and what it leaves stands for the same directory. -/
def ConfigRestored (faults : MigrationFaults) (config : Config) : Prop :=
  config.home.isSome ∨
    (match faults.rollbackDirectory with
      | none => config.dataDirectory
      | some (_, left) => left).getD config.root = config.saved.getD config.root

/-- The rollback brings back the directory of the running process in any case. -/
theorem configRestored_iff (faults : MigrationFaults) {config changed : Config}
    (hhome : changed.home = config.home) (hroot : changed.root = config.root) :
    (getDataDirectory (setDataDirectory faults.rollbackDirectory changed
        (getDataDirectory config)).2 = getDataDirectory config ∧
      directoryAfterRestart (setDataDirectory faults.rollbackDirectory changed
        (getDataDirectory config)).2 = directoryAfterRestart config) ↔
      ConfigRestored faults config := by
  unfold ConfigRestored getDataDirectory directoryAfterRestart setDataDirectory
  cases hcase : config.home with
  | some dir => cases faults.rollbackDirectory with
    | none | some => simp [hhome, hcase]
  | none => cases faults.rollbackDirectory with
    | none | some => simp [hhome, hroot, hcase]

/-- Where nothing is rolled back, a failed update leaves the new directory in
memory. -/
theorem updateHarmless_iff {faults : MigrationFaults} {config : Config}
    (hfails : faults.setDirectory ≠ none) (hne : target ≠ getDataDirectory config) :
    (getDataDirectory (setDataDirectory faults.setDirectory config target).2 =
        getDataDirectory config ∧
      directoryAfterRestart (setDataDirectory faults.setDirectory config target).2 =
        directoryAfterRestart config) ↔
      config.home.isSome := by
  obtain ⟨⟨e, left⟩, hfault⟩ := Option.ne_none_iff_exists'.mp hfails
  cases hhome : config.home with
  | some dir =>
    simp [setDataDirectory, hfault, getDataDirectory, directoryAfterRestart, hhome]
  | none =>
    have hdir : getDataDirectory (setDataDirectory faults.setDirectory config target).2 =
        target := by
      simp [setDataDirectory, hfault, getDataDirectory, hhome]
    simp [hdir, hne]

/-! ## The end that the strategies share -/

section

variable {faults : MigrationFaults} {target current : Path} {base st : State} {st' : State}

theorem failsSafely_ok {u : Unit} : FailsSafely base current target (.ok u, st') := by
  intro e he
  cases he

theorem failsSafely_error {e : String} :
    FailsSafely base current target (.error e, st') ↔ Kept base current target st' := by
  simp [FailsSafely]

theorem failsSafely_prefixed {text : String} {result : Except String Unit × State} :
    FailsSafely base current target (prefixed text result) ↔
      FailsSafely base current target result := by
  obtain ⟨outcome, st'⟩ := result
  cases outcome with
  | error e => simp [prefixed, failsSafely_error]
  | ok u => simp [prefixed]

/-- A change beside the vault loses nothing if the configuration is kept. -/
theorem kept_of_aside (hsep : Separate current target) (hne : target ≠ current)
    (h : Aside target base st') : Kept base current target st' where
  targetFiles r data hr := by rw [vault_of_beside h.2, hr]
  sourceVault r := h.2 _ fun hbeside => not_touched_source hsep hne r hbeside.1
  running := by rw [h.1]
  restarted := by rw [h.1]

variable (faults target) in
/-- What is in the vault of a state and the rollback cannot remove. -/
def RollbackSpares (base st : State) : Prop :=
  ∀ r data, base.fs (vaultPath target ++ r) = some (.file data) →
    st.fs (vaultPath target ++ r) = some (.file data) ∧
      ∃ k ∈ faults.rollbackStuck, vaultPath target ++ r <+: k

theorem removeAll_eq_file_iff {fs : FileSystem Bytes} {p q : Path} {stuck : List Path}
    {data : Bytes} (h : p <+: q) :
    removeAll fs p stuck q = some (.file data) ↔
      fs q = some (.file data) ∧ ∃ k ∈ stuck, q <+: k := by
  unfold removeAll
  by_cases hstuck : ∃ k ∈ stuck, q <+: k
  · simp [hstuck]
  · simp [h, hstuck]

variable (hsep : Separate current target) (hne : target ≠ current)
  (hcurrent : current = getDataDirectory base.config)

include hsep hne hcurrent

/-- What a rollback keeps. -/
theorem kept_rollback_iff (hhome : st.config.home = base.config.home)
    (hroot : st.config.root = base.config.root)
    (hframe : ChangesOnly (Touched target) base.fs st.fs) :
    Kept base current target (rollback faults target current st) ↔
      RollbackSpares faults target base st ∧ ConfigRestored faults base.config := by
  have hremoved : ∀ r, (rollback faults target current st).fs (vaultPath target ++ r) =
      removeAll st.fs (vaultPath target) faults.rollbackStuck (vaultPath target ++ r) := by
    intro r
    exact vault_of_beside (aside_removeDatabase target _ _) r
  have hsource : ∀ r, (rollback faults target current st).fs (vaultPath current ++ r) =
      base.fs (vaultPath current ++ r) := by
    intro r
    have hremove := (changesOnly_removeAll st.fs (vaultPath target)
      faults.rollbackStuck).mono fun q => touched_vault
    have hdatabase := touched_of_beside (aside_removeDatabase target
      faults.rollbackDatabase (removeAll st.fs (vaultPath target) faults.rollbackStuck))
    exact ((hframe.trans hremove).trans hdatabase) _ (not_touched_source hsep hne r)
  have hfile : ∀ r data, (rollback faults target current st).fs (vaultPath target ++ r) =
      some (.file data) ↔ st.fs (vaultPath target ++ r) = some (.file data) ∧
        ∃ k ∈ faults.rollbackStuck, vaultPath target ++ r <+: k := by
    intro r data
    rw [hremoved, removeAll_eq_file_iff (List.prefix_append _ _)]
  rw [← configRestored_iff faults hhome hroot]
  subst hcurrent
  constructor
  · intro h
    exact ⟨fun r data hr => (hfile r data).mp (h.targetFiles r data hr), h.running,
      h.restarted⟩
  · rintro ⟨hspares, hrunning, hrestarted⟩
    exact ⟨fun r data hr => (hfile r data).mpr (hspares r data hr), hsource, hrunning,
      hrestarted⟩

section

variable (hconfig : st.config = base.config)
  (hframe : ChangesOnly (Touched target) base.fs st.fs)

include hconfig hframe

/-- The set-up with a directory to go back to. -/
theorem setup_some_iff :
    FailsSafely base current target (setupGitRepository faults target (some current) st) ↔
      (SetupFails faults →
        RollbackSpares faults target base st ∧ ConfigRestored faults base.config) := by
  obtain ⟨hkept, haside⟩ := aside_prepareRepository faults target st
  have hok := prepareRepository_ok_iff faults target st
  have hspares : ∀ config, RollbackSpares faults target base
      { prepareRepository faults target st |>.2 with config := config } ↔
        RollbackSpares faults target base st := by
    intro config
    simp [RollbackSpares, vault_of_beside haside]
  have hframe' := hframe.trans (touched_of_beside haside)
  unfold SetupFails
  simp only [setupGitRepository]
  rcases cases_of_ok_iff hok with ⟨hfails, e, hprepared⟩ | ⟨hfine, hprepared⟩
  · simp only [hprepared, branch_error, abandon, failsSafely_error, hfails, true_or,
      true_implies]
    refine (kept_rollback_iff hsep hne hcurrent ?_ ?_ ?_).trans
      (and_congr_left fun _ => hspares _)
    · rw [hkept, hconfig]
    · rw [hkept, hconfig]
    · exact hframe'
  · cases hset : faults.setDirectory with
    | none =>
      simp [hprepared, hfine, setDataDirectory, failsSafely_ok]
    | some fault =>
      simp only [hprepared, branch_ok, setDataDirectory, branch_error, abandon,
        failsSafely_error, hfine, false_or, ne_eq, reduceCtorEq, not_false_eq_true,
        true_implies]
      refine (kept_rollback_iff hsep hne hcurrent ?_ ?_ ?_).trans
        (and_congr_left fun _ => hspares _)
      · simp [hkept, hconfig]
      · simp [hkept, hconfig]
      · exact hframe'

/-- The set-up without a directory to go back to. -/
theorem setup_none_iff
    (hfiles : ∀ r data, base.fs (vaultPath target ++ r) = some (.file data) →
      st.fs (vaultPath target ++ r) = some (.file data)) :
    FailsSafely base current target (setupGitRepository faults target none st) ↔
      (¬ RepositoryFails faults → faults.setDirectory ≠ none →
        base.config.home.isSome) := by
  obtain ⟨hkept, haside⟩ := aside_prepareRepository faults target st
  have hok := prepareRepository_ok_iff faults target st
  have hkeptWith : ∀ config, Kept base current target
      { prepareRepository faults target st |>.2 with config := config } ↔
        getDataDirectory config = getDataDirectory base.config ∧
          directoryAfterRestart config = directoryAfterRestart base.config := by
    intro config
    constructor
    · intro h
      exact ⟨h.running, h.restarted⟩
    · rintro ⟨hrunning, hrestarted⟩
      refine ⟨fun r data hr => ?_, fun r => ?_, hrunning, hrestarted⟩
      · rw [vault_of_beside haside]
        exact hfiles r data hr
      · exact (hframe.trans (touched_of_beside haside)) _ (not_touched_source hsep hne r)
  simp only [setupGitRepository]
  rcases cases_of_ok_iff hok with ⟨hfails, e, hprepared⟩ | ⟨hfine, hprepared⟩
  · simp only [hprepared, branch_error, abandon, failsSafely_error, hfails,
      not_true_eq_false, false_implies, iff_true]
    refine (hkeptWith (prepareRepository faults target st).2.config).mpr ?_
    rw [hkept, hconfig]
    exact ⟨rfl, rfl⟩
  · cases hset : faults.setDirectory with
    | none => simp [hprepared, setDataDirectory, failsSafely_ok]
    | some fault =>
      have hfails : faults.setDirectory ≠ none := by simp [hset]
      have hharmless := updateHarmless_iff hfails (hcurrent ▸ hne)
      rw [hset] at hharmless
      simp only [hprepared, branch_ok, setDataDirectory, branch_error, abandon,
        failsSafely_error, hfine, not_false_eq_true, true_implies, ne_eq, reduceCtorEq]
      rw [hkeptWith, ← hharmless, hkept, hconfig]
      rfl

/-- The common end of the strategies, after the vault is what it is to be. -/
theorem finish_iff :
    FailsSafely base current target (finishMigration faults target (some current) st) ↔
      (SetupFails faults →
        RollbackSpares faults target base st ∧ ConfigRestored faults base.config) := by
  have hdatabase := aside_removeDatabase target faults.removeDatabase st.fs
  have hspares : RollbackSpares faults target base
      { st with fs := (removeDatabase target faults.removeDatabase st.fs).2 } ↔
        RollbackSpares faults target base st := by
    simp [RollbackSpares, vault_of_beside hdatabase]
  rw [← hspares]
  apply setup_some_iff hsep hne hcurrent
  · exact hconfig
  · exact hframe.trans (touched_of_beside hdatabase)

end

end

end Yanta.Migration
