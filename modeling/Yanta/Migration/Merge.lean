import Yanta.Migration.FailedMigration

/-!
# What merging two vaults keeps

`strategyMergeBoth` copies what the target's vault does not have. A file of the source is
left out where `os.Stat` of its place in the target fails for another reason than that
nothing is there, and that is the case below a file. The main result says that nothing else
is lost: a merge that succeeds keeps both sides exactly when no such file is left out.
-/

namespace Yanta.Migration

open Go Support Option

/-- Both vaults are in the merged one: nothing of the target is lost, nothing of the source
that it did not have, and nothing else is added. -/
structure MergesBoth (src dst : Path) (fs fs' : FileSystem Bytes) : Prop where
  targetKept : ∀ r data, fs (dst ++ r) = some (.file data) →
    fs' (dst ++ r) = some (.file data)
  sourceCopied : ∀ r data, fs (src ++ r) = some (.file data) → fs (dst ++ r) = none →
    fs' (dst ++ r) = some (.file data)
  nothingElse : ∀ r, fs' (dst ++ r) = fs (dst ++ r) ∨
    fs (dst ++ r) = none ∧ fs' (dst ++ r) = fs (src ++ r)
  sourceKept : ∀ r, fs' (src ++ r) = fs (src ++ r)

/-- A set-up that succeeds changes nothing in the vault. -/
theorem aside_finishMigration {faults : MigrationFaults} {target : Path}
    {originalDataDir : Option Path} {st : State}
    (hok : (finishMigration faults target originalDataDir st).1 = .ok ()) :
    ChangesOnly (BesideVault target) st.fs
      (finishMigration faults target originalDataDir st).2.fs := by
  have hdatabase := aside_removeDatabase target faults.removeDatabase st.fs
  have hrepository := aside_prepareRepository faults target
    { st with fs := (removeDatabase target faults.removeDatabase st.fs).2 }
  simp only [finishMigration, setupGitRepository] at hok ⊢
  generalize prepareRepository faults target
    { st with fs := (removeDatabase target faults.removeDatabase st.fs).2 } = prepared at *
  cases hprepared : prepared.1 with
  | error e => simp [hprepared, abandon] at hok
  | ok u =>
    simp only [hprepared] at hok ⊢
    cases hset : (setDataDirectory faults.setDirectory prepared.2.config target).1 with
    | error e => simp [hset, abandon] at hok
    | ok u => exact hdatabase.trans hrepository.2

/-- A merge that succeeds keeps both vaults exactly when no file that only the source has
lies below a file of the target. -/
theorem merge_keeps_both_iff (faults : MigrationFaults) (target current : Path) (st : State)
    (hsep : Separate current target) (hne : target ≠ current)
    (hok : (strategyMergeBoth faults target current st).1 = .ok ()) :
    MergesBoth (vaultPath current) (vaultPath target) st.fs
        (strategyMergeBoth faults target current st).2.fs ↔
      ∀ r data, st.fs (vaultPath current ++ r) = some (.file data) →
        st.fs (vaultPath target ++ r) = none → ¬ Blocked st.fs (vaultPath target ++ r) := by
  have hbelow := not_strictlyBelow_vault hsep hne
  rw [strategyMergeBoth] at hok ⊢
  cases hmerged : (prefixed "merging vaults: "
      (mergeVaults faults st.fs (vaultPath current) (vaultPath target))).1 with
  | error e => simp [hmerged] at hok
  | ok u =>
    have hnone := (mergeVaults_ok_iff faults st.fs hbelow).mp (prefixed_fst_eq_ok.mp hmerged)
    simp only [hmerged, branch_ok] at hok ⊢
    have haside := aside_finishMigration hok
    generalize (finishMigration faults target (some current) _).2.fs = fs' at haside ⊢
    simp only [prefixed_snd, mergeVaults, hbelow, if_false, hnone] at haside
    have hvault := vault_of_beside haside
    simp only [place_append] at hvault
    have hsource : ∀ r, fs' (vaultPath current ++ r) = st.fs (vaultPath current ++ r) := by
      intro r
      have houtside := not_touched_source hsep hne r
      rw [haside _ fun h => houtside h.1, place_outside fun h => houtside (touched_vault h)]
    constructor
    · intro h r data hsrc hdst hblocked
      have hcopied := h.sourceCopied r data hsrc hdst
      rw [hvault, if_pos (.inr hblocked), hdst] at hcopied
      cases hcopied
    · intro hclear
      refine ⟨?_, ?_, ?_, hsource⟩
      · intro r data hdst
        rw [hvault, if_pos (.inl (by rw [hdst]; rfl)), hdst, none_or]
      · intro r data hsrc hdst
        rw [hvault, if_neg (by simp [hdst, hclear r data hsrc hdst]), hsrc, some_or]
      · intro r
        rw [hvault]
        split_ifs with h
        · exact .inl (none_or)
        · have hdst : st.fs (vaultPath target ++ r) = none := by
            simpa using fun h' => h (.inl h')
          exact .inr ⟨hdst, by rw [hdst, or_none]⟩

namespace SampleMerge

/-- The commit works. -/
def faults : MigrationFaults := { SampleMigration.faults with commit := ⟨none, fun _ => none⟩ }

/-- The source has a note in a directory `a`; in the target's vault `a` is a file. -/
def clash : State :=
  ⟨ofFiles [(["old", "vault", "a", "n"], [1]), (["new", "vault", "a"], [2])],
    SampleMigration.config⟩

end SampleMerge

open SampleMerge

theorem merge_keeps_both_sample :
    MergesBoth (vaultPath ["old"]) (vaultPath ["new"]) SampleMigration.disk.fs
        (strategyMergeBoth faults ["new"] ["old"]
          ⟨SampleMigration.disk.fs, SampleMigration.config⟩).2.fs ↔
      ∀ r data, SampleMigration.disk.fs (vaultPath ["old"] ++ r) = some (.file data) →
        SampleMigration.disk.fs (vaultPath ["new"] ++ r) = none →
          ¬ Blocked SampleMigration.disk.fs (vaultPath ["new"] ++ r) :=
  merge_keeps_both_iff faults ["new"] ["old"]
    ⟨SampleMigration.disk.fs, SampleMigration.config⟩ (by decide) (by decide)
    (by decide +kernel)

/-- The merge succeeds without the note. -/
theorem merge_drops_note :
    (strategyMergeBoth faults ["new"] ["old"] clash).1 = .ok () ∧
      ¬ MergesBoth (vaultPath ["old"]) (vaultPath ["new"]) clash.fs
        (strategyMergeBoth faults ["new"] ["old"] clash).2.fs := by
  refine ⟨by decide +kernel, fun h => ?_⟩
  have hcopied := h.sourceCopied ["a", "n"] [1] (by decide +kernel) (by decide +kernel)
  revert hcopied
  decide +kernel

end Yanta.Migration
