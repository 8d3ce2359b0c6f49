import Yanta.Go.Strings

/-!
# Pulling with a stash

`PullWithStash` of `internal/git/service.go`. That an entry was pushed is inferred from
the status, so a push with nothing to save is followed by a pop of an older entry; and
the error of a pull hides that the changes could not be restored. These are the ways in
which a pull disturbs the stash.
-/

namespace Yanta.Git

open Go

/-- The stash, newest entry first, and the local changes that `git stash` would save. -/
structure StashRepo (δ : Type) where
  stash : List (List δ)
  work : List δ
deriving DecidableEq, Repr

/-- How a `git stash` command fails. -/
inductive StashFault where
  | timedOut
  | failed (err output : String)
deriving DecidableEq, Repr

inductive PullResult where
  | pulled
  | timedOut
  | failed (status : Int) (output : String)
deriving DecidableEq, Repr

variable {boundOutput : String → String} {result : PullResult}

/-- The outcomes of the commands; `status` is `Clean` of `GetStatus`. -/
structure PullOutcomes where
  status : Except String Bool
  push : Option StashFault
  pull : PullResult
  pop : Option StashFault

section

variable {δ : Type}

/-- `Stash`: `git stash push` saves the changes if there are any. -/
def stashPush (r : StashRepo δ) : Option StashFault → Except String (StashRepo δ)
  | some .timedOut => .error "git stash timed out after 30s"
  | some (.failed err output) =>
    .error ("git stash failed: " ++ err ++ ": " ++ trimSpace output)
  | none => .ok (if r.work = [] then r else ⟨r.work :: r.stash, []⟩)

/-- `StashPop`: `git stash pop` restores the newest entry; a pop that fails keeps it. -/
def stashPop (r : StashRepo δ) : Option StashFault → Except String Unit × StashRepo δ
  | some .timedOut => (.error "git stash pop timed out after 30s", r)
  | some (.failed err output) =>
    if contains (trimSpace output) "No stash entries found" then (.ok (), r)
    else (.error ("git stash pop failed: " ++ err ++ ": " ++ trimSpace output), r)
  | none =>
    match r.stash with
    | [] => (.ok (), r)
    | entry :: stash => (.ok (), ⟨stash, r.work ++ entry⟩)

/-- `Pull`; it leaves the stash and the local changes alone. -/
def pullError (boundOutput : String → String) : PullResult → Option String
  | .pulled => none
  | .timedOut =>
    some ("git pull timed out after 30s\n\nThis usually means:\n- Network connectivity " ++
      "issues\n- Authentication required (SSH key or credentials)\n- Remote repository is " ++
      "unreachable\n\nCheck your git configuration and network connection")
  | .failed status output =>
    if contains output "CONFLICT" then
      some ("MERGE_CONFLICT:\nMerge conflicts detected. The merge was aborted and your " ++
        "files were left untouched.\n\n" ++ boundOutput output ++
        "\n\nResolve by pulling manually and reconciling the two versions.")
    else if contains output "divergent branches" || contains output "have diverged" then
      some ("DIVERGED_BRANCHES:\nLocal and remote branches have diverged.\n\n" ++
        boundOutput output ++ "\n\nYou need to:\n1. Review remote changes\n2. Either " ++
        "merge or rebase\n3. Then push your changes")
    else if contains output "refusing to merge unrelated histories" then
      some ("UNRELATED_HISTORIES:\nRepositories have unrelated commit histories.\n\n" ++
        boundOutput output ++ "\n\nUse 'git pull --allow-unrelated-histories' if you're " ++
        "sure you want to merge.")
    else
      some ("git pull failed (exit status " ++ decimalInt status ++ "):\n" ++
        boundOutput output)

/-- The end of `PullWithStash`: the error of a pop is returned if the pull has none. -/
def afterPop (pullErr : Option String) (popped : Except String Unit × StashRepo δ) :
    Option String × StashRepo δ :=
  match popped.1, pullErr with
  | .error e, none =>
    (some ("pull succeeded but failed to restore stashed changes: " ++ e), popped.2)
  | _, _ => (pullErr, popped.2)

/-- `PullWithStash`: the error, if any, and the repository. -/
def pullWithStash (boundOutput : String → String) (o : PullOutcomes) (r : StashRepo δ) :
    Option String × StashRepo δ :=
  match o.status with
  | .error e => (some ("checking status before pull: " ++ e), r)
  | .ok true => (pullError boundOutput o.pull, r)
  | .ok false =>
    match stashPush r o.push with
    | .error e => (some ("stashing changes before pull: " ++ e), r)
    | .ok pushed => afterPop (pullError boundOutput o.pull) (stashPop pushed o.pop)

/-- The earlier entries are there, and the changes are in the working tree or in an entry
that the error speaks of. -/
def Undisturbed (r : StashRepo δ) (result : Option String × StashRepo δ) : Prop :=
  r.stash <:+ result.2.stash ∧
    ((∀ change ∈ r.work, change ∈ result.2.work) ∨ r.work ∈ result.2.stash ∧
      ∃ e, result.1 = some e ∧
        hasPrefix e "pull succeeded but failed to restore stashed changes" = true)

/-- A pop that fails is reported: the pull has not failed, and the output of the pop is not
taken for that of an empty stash. -/
def PullOutcomes.Reports (o : PullOutcomes) (fault : StashFault) : Prop :=
  o.pull = .pulled ∧ ∀ err output, fault = .failed err output →
    contains (trimSpace output) "No stash entries found" = false

@[simp] theorem afterPop_snd (pullErr : Option String)
    (popped : Except String Unit × StashRepo δ) : (afterPop pullErr popped).2 = popped.2 := by
  unfold afterPop
  split <;> rfl

@[simp] theorem stashPop_fault_snd (r : StashRepo δ) (fault : StashFault) :
    (stashPop r (some fault)).2 = r := by
  cases fault with
  | timedOut => rfl
  | failed err output =>
    simp only [stashPop]
    split_ifs <;> rfl

end

theorem pullError_not_stashed {e : String} (h : pullError boundOutput result = some e) :
    hasPrefix e "pull succeeded but failed to restore stashed changes" ≠ true := by
  have hhead : e.toList.head? ≠ some 'p' := by
    unfold pullError at h
    split at h
    · cases h
    · rw [← Option.some.inj h]
      decide +kernel
    · split_ifs at h
      all_goals
        rw [← Option.some.inj h]
        simp
  intro hprefix
  obtain ⟨rest, hrest⟩ := List.isPrefixOf_iff_prefix.mp hprefix
  exact hhead (by rw [← hrest]; rfl)

theorem pullError_eq_none_iff : pullError boundOutput result = none ↔ result = .pulled := by
  cases result with
  | pulled | timedOut => simp [pullError]
  | failed status output =>
    simp only [pullError]
    split_ifs <;> simp

/-- Whether the error speaks of the stash. -/
theorem afterPop_says_iff {δ : Type} (boundOutput : String → String) (o : PullOutcomes)
    (r : StashRepo δ) (fault : StashFault) :
    (∃ e, (afterPop (pullError boundOutput o.pull) (stashPop r (some fault))).1 = some e ∧
      hasPrefix e "pull succeeded but failed to restore stashed changes" = true) ↔
        o.Reports fault := by
  unfold PullOutcomes.Reports
  rw [← @pullError_eq_none_iff boundOutput]
  cases hpull : pullError boundOutput o.pull with
  | some e =>
    have hsays := pullError_not_stashed hpull
    cases hpop : (stashPop r (some fault)).1 <;> simp [afterPop, hsays]
  | none =>
    cases fault with
    | timedOut => simp [afterPop, stashPop, hasPrefix]
    | failed err output =>
      cases hempty : contains (trimSpace output) "No stash entries found" <;>
        simp [afterPop, stashPop, hempty, hasPrefix]

/-- Pulling disturbs the stash if nothing was saved and an older entry is popped, or if the
changes were saved and a failing pop is not reported. -/
theorem pull_keeps_stash_iff {δ : Type} (boundOutput : String → String) (o : PullOutcomes)
    (r : StashRepo δ) :
    Undisturbed r (pullWithStash boundOutput o r) ↔
      (o.status = .ok false → o.push = none →
        (r.work = [] → o.pop = none → r.stash = []) ∧
          (r.work ≠ [] → ∀ fault, o.pop = some fault → o.Reports fault)) := by
  unfold pullWithStash Undisturbed
  cases hstatus : o.status with
  | error e => simp
  | ok clean =>
    cases clean with
    | true => simp
    | false =>
      cases hpush : o.push with
      | some fault => cases fault <;> simp [stashPush]
      | none =>
        simp only [stashPush]
        by_cases hwork : r.work = []
        · cases hpop : o.pop with
          | none =>
            cases hstash : r.stash with
            | nil => simp [hwork]
            | cons entry stash =>
              have hshort : ¬entry :: stash <:+ stash := by
                intro hsuffix
                have hlen := hsuffix.length_le
                simp at hlen
              simp [stashPop, hstash, hwork, hshort]
          | some fault => simp [hwork]
        · cases hpop : o.pop with
          | none => simp [stashPop, hwork]
          | some fault =>
            simp [afterPop_says_iff, hwork, ← List.eq_nil_iff_forall_not_mem]

/-- The status shows a change that `git stash push` does not save, and an older entry is
popped. -/
theorem pull_pops_older_entry :
    ¬Undisturbed (⟨[["older"]], []⟩ : StashRepo String)
      (pullWithStash id ⟨.ok false, none, .pulled, none⟩ ⟨[["older"]], []⟩) := by
  rintro ⟨hentries, -⟩
  exact absurd hentries.length_le (by decide)

end Yanta.Git
