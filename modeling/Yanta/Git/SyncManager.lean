import Yanta.Go.Strings
import Yanta.Support.Program

/-!
# The sync manager

`SyncManager` of `internal/git/sync_manager.go` with the operation lock of
`internal/git/oplock.go`. The functions are programs that call git, the
configuration, the lock and the manager's own state; each of these calls is one
atomic step, since the manager's fields are only touched under its mutex and a git
command is one process.

Of the repository the model keeps, for each local branch, how many of its commits the
remote does not have and whether an upstream is configured. Errors that the manager
only logs (fetch, backup, self-heal, the saved time of the last commit) have no effect
on what it does and give no answer.
-/

namespace Yanta.Git

open Go Support

structure GitSyncConfig where
  enabled : Bool
  autoCommit : Bool
  autoPush : Bool
  commitInterval : Int
  branch : String
deriving DecidableEq, Repr

inductive CommitOutcome where
  | committed
  | nothingToCommit
  | failed
deriving DecidableEq, Repr

inductive PushOutcome where
  | pushed
  | nonFastForward
  | failed
deriving DecidableEq, Repr

inductive RebaseOutcome where
  | rebased
  | conflict
  | failed
deriving DecidableEq, Repr

structure RepoStatus where
  clean : Bool
  filesChanged : Nat
deriving DecidableEq, Repr

inductive SyncStatus where
  | noChanges
  | committed
  | synced
  | pushFailed
  | conflict
  | error
deriving DecidableEq, Repr

structure SyncResult where
  status : SyncStatus
  filesChanged : Nat
  message : String
  commitHash : String
deriving DecidableEq, Repr

def SyncResult.of (status : SyncStatus) : SyncResult := ⟨status, 0, "", ""⟩

def SyncResult.withMessage (status : SyncStatus) (message : String) : SyncResult :=
  ⟨status, 0, message, ""⟩

/-- What a cycle reads of the manager under its mutex. -/
structure Snapshot where
  hasPending : Bool
  needsPush : Bool
  sinceLastCommit : Int
  reasons : List String
deriving DecidableEq, Repr

/-! ## Calls -/

inductive Call where
  | tryAcquire (label : String)
  | release
  | getGitSyncConfig
  | snapshot
  | isRepository
  | inProgressOperation
  | getCurrentBranch
  | hasRemote
  | fetch
  | createBackup
  | selfHeal
  | add
  | getStatus
  | commit (message : String)
  | getLastCommitHash
  | getAheadBehind (branch : String)
  /-- The second push of a cycle is the one after a rebase. -/
  | push (branch : String) (again : Bool)
  | pullRebase (branch : String)
  | reindex (before after : String)
  | clearPendingState (consumed : Nat) (updateCommitTime : Bool)
  | setNeedsPush (v : Bool)
  | notify (result : SyncResult)
deriving DecidableEq, Repr

/-- What a call returns; an answer that is missing or `false` is an error. -/
@[reducible] def Call.Response : Call → Type
  | .tryAcquire _ => Bool
  | .getGitSyncConfig => GitSyncConfig
  | .snapshot => Snapshot
  | .isRepository => Bool
  | .inProgressOperation => String
  | .getCurrentBranch => Option String
  | .hasRemote => Bool
  | .add => Bool
  | .getStatus => Option RepoStatus
  | .commit _ => CommitOutcome
  | .getLastCommitHash => String
  | .getAheadBehind _ => Option Nat
  | .push _ _ => PushOutcome
  | .pullRebase _ => RebaseOutcome
  | .release | .fetch | .createBackup | .selfHeal | .reindex _ _ | .clearPendingState _ _
  | .setNeedsPush _ | .notify _ => Unit

abbrev Sync := Program Call Call.Response

/-- The program of one call. -/
abbrev invoke (c : Call) : Sync c.Response := Program.perform c

/-! ## Programs -/

def commitFailureMessage : String :=
  "Auto-sync couldn't save your changes to Git (see logs). Your notes are safe on disk."

def notRepositoryMessage : String :=
  "Auto-sync is enabled, but your notes directory isn't a Git repository. " ++
    "Set it up in Settings → Git Sync."

/-- The configured branch, or the one that is checked out. -/
def resolveBranch (cfg : GitSyncConfig) : Sync String :=
  if cfg.branch ≠ "" then pure cfg.branch
  else do
    let branch : Option String ← invoke .getCurrentBranch
    pure (branch.getD "master")

/-- `hasUnpushedCommits`. -/
def hasUnpushedCommits (branch : String) : Sync Bool := do
  let ahead : Option Nat ← invoke (.getAheadBehind branch)
  pure (decide (0 < ahead.getD 0))

/-- `pushWithRebaseRetry`; the deferred reindex runs after the last push. -/
def pushWithRebaseRetry (branch : String) : Sync SyncStatus := do
  let first : PushOutcome ← invoke (.push branch false)
  match first with
  | .pushed => pure .synced
  | .failed => pure .pushFailed
  | .nonFastForward => do
      let before : String ← invoke .getLastCommitHash
      let rebase : RebaseOutcome ← invoke (.pullRebase branch)
      match rebase with
      | .conflict => pure .conflict
      | .failed => pure .pushFailed
      | .rebased => do
          let after : String ← invoke .getLastCommitHash
          let second : PushOutcome ← invoke (.push branch true)
          let _ ← invoke (.reindex before after)
          pure (if second = .pushed then .synced else .pushFailed)

/-- The push with the flag it leaves. -/
def publish (branch : String) : Sync SyncStatus := do
  let status ← pushWithRebaseRetry branch
  let _ ← invoke (.setNeedsPush (status == .pushFailed))
  pure status

/-- `buildCommitMessage`. -/
def buildCommitMessage (reasons : List String) : String :=
  match reasons with
  | [reason] => "auto: " ++ reason
  | _ => "auto: " ++ decimal reasons.length ++ " changes"

/-- Unpushed commits are looked for only where they could be pushed. -/
def findUnpushed (cfg : GitSyncConfig) (hasRemote : Bool) (branch : String) : Sync Bool :=
  if cfg.autoPush && hasRemote then hasUnpushedCommits branch else pure false

/-- The end of a cycle that found nothing to commit: a commit that an earlier one
could not push is published now. -/
def publishEarlier (cfg : GitSyncConfig) (hasRemote : Bool) (branch : String) :
    Sync SyncResult := do
  let unpushed ← findUnpushed cfg hasRemote branch
  if unpushed then do
    let status ← publish branch
    pure (.of status)
  else do
    let _ ← invoke (.setNeedsPush false)
    pure (.of .noChanges)

/-- The push of a new commit. -/
def publishNew (cfg : GitSyncConfig) (hasRemote : Bool) (branch : String) :
    Sync SyncStatus :=
  if cfg.autoPush && hasRemote then publish branch else pure .committed

/-- The commit of a cycle and its push. -/
def commitAndPush (cfg : GitSyncConfig) (hasRemote : Bool) (branch : String)
    (reasons : List String) (filesChanged : Nat) : Sync SyncResult := do
  let outcome : CommitOutcome ← invoke (.commit (buildCommitMessage reasons))
  match outcome with
  | .nothingToCommit => do
      let _ ← invoke (.clearPendingState reasons.length false)
      pure (.of .noChanges)
  | .failed => pure (.withMessage .error commitFailureMessage)
  | .committed => do
      let _ ← invoke (.clearPendingState reasons.length true)
      let hash : String ← invoke .getLastCommitHash
      let status ← publishNew cfg hasRemote branch
      pure ⟨status, filesChanged, "", hash⟩

def fetchRemote (hasRemote : Bool) : Sync Unit :=
  if hasRemote then invoke .fetch else pure ()

/-- The cycle after its checks: fetch, backup, self-heal, stage and look at what is
staged. -/
def stageAndCommit (reasons : List String) : Sync SyncResult := do
  let cfg : GitSyncConfig ← invoke .getGitSyncConfig
  let branch ← resolveBranch cfg
  let hasRemote : Bool ← invoke .hasRemote
  fetchRemote hasRemote
  let _ ← invoke .createBackup
  let _ ← invoke .selfHeal
  let staged : Bool ← invoke .add
  if staged then do
    let status : Option RepoStatus ← invoke .getStatus
    match status with
    | none => pure (.withMessage .error commitFailureMessage)
    | some status =>
      if status.clean then do
        let _ ← invoke (.clearPendingState reasons.length false)
        publishEarlier cfg hasRemote branch
      else commitAndPush cfg hasRemote branch reasons status.filesChanged
  else pure (.withMessage .error commitFailureMessage)

/-- `performSync`. -/
def performSync (reasons : List String) : Sync SyncResult :=
  if reasons = [] then pure (.of .noChanges)
  else do
    let isRepo : Bool ← invoke .isRepository
    if isRepo then do
      let op : String ← invoke .inProgressOperation
      if op ≠ "" then
        pure (.withMessage .conflict ("Auto-sync paused: an unresolved " ++ op ++
          " is in progress in your notes repository. Resolve it (run Sync Now, or use " ++
          "your git tool), then editing will sync again."))
      else stageAndCommit reasons
    else pure (.withMessage .error notRepositoryMessage)

/-- `retryPush`. -/
def retryPush : Sync SyncResult := do
  let isRepo : Bool ← invoke .isRepository
  if isRepo then do
    let op : String ← invoke .inProgressOperation
    if op ≠ "" then
      pure (.withMessage .conflict ("Auto-sync paused: an unresolved " ++ op ++
        " is in progress. Resolve it, then editing will sync again."))
    else do
      let cfg : GitSyncConfig ← invoke .getGitSyncConfig
      let branch ← resolveBranch cfg
      let hasRemote : Bool ← invoke .hasRemote
      publishEarlier cfg hasRemote branch
  else do
    let _ ← invoke (.setNeedsPush false)
    pure (.of .noChanges)

def minute : Int := 60000000000

/-- The configuration has scheduled cycles. -/
def GitSyncConfig.schedules (cfg : GitSyncConfig) : Bool :=
  cfg.enabled && cfg.autoCommit && decide (0 < cfg.commitInterval)

/-- There is something to do and the interval has passed. -/
def Snapshot.isDue (snap : Snapshot) (cfg : GitSyncConfig) : Bool :=
  (snap.hasPending || snap.needsPush) &&
    decide (cfg.commitInterval * minute ≤ snap.sinceLastCommit)

/-- What `checkAndSync` does while it holds the lock. -/
def checkLocked : Sync Unit := do
  let cfg : GitSyncConfig ← invoke .getGitSyncConfig
  if cfg.schedules then do
    let snap : Snapshot ← invoke .snapshot
    if snap.isDue cfg then
      if snap.hasPending then do
        let result ← performSync snap.reasons
        invoke (.notify result)
      else do
        let result ← retryPush
        invoke (.notify result)
    else pure ()
  else pure ()

/-- What `ForceSync` does while it holds the lock. -/
def forceLocked : Sync Unit := do
  let snap : Snapshot ← invoke .snapshot
  if snap.reasons = [] then pure ()
  else do
    let result ← performSync snap.reasons
    invoke (.notify result)

/-- The lock is tried once and given back at the end. -/
def underLock (label : String) (body : Sync Unit) : Sync Unit := do
  let acquired : Bool ← invoke (.tryAcquire label)
  if acquired then do
    let _ ← body
    invoke .release
  else pure ()

/-- `checkAndSync`. -/
def checkAndSync : Sync Unit := underLock "auto-sync" checkLocked

/-- `ForceSync`. -/
def forceSync : Sync Unit := underLock "force-sync" forceLocked

/-! ## Protocols of the programs

What a cycle calls, stated for any protocol: most of its calls are plain ones, and the
others come in one order. -/

/-- The calls that neither stage nor commit, and leave the pending changes, the lock
and the reports alone. -/
def Call.isPlain : Call → Bool
  | .getGitSyncConfig | .isRepository | .inProgressOperation | .getCurrentBranch
  | .hasRemote | .fetch | .createBackup | .selfHeal | .getLastCommitHash
  | .getAheadBehind _ | .push _ _ | .pullRebase _ | .reindex _ _ | .setNeedsPush _ => true
  | _ => false

section

open Program

variable {φ : Type} {P : Protocol Call Call.Response φ} {p : φ}

/-- The plain calls are allowed in the phase and do not change it. -/
def Idles (P : Protocol Call Call.Response φ) (p : φ) : Prop :=
  ∀ c, c.isPlain = true → P.allowed p c ∧ ∀ r, P.next p c r = p

/-- A plain call and what comes after it. -/
theorem Idles.obeys {α : Type} {Q : φ → α → Prop} (h : Idles P p) {c : Call}
    (hc : c.isPlain = true) {f : c.Response → Sync α} (hf : ∀ r, Obeys P Q p (f r)) :
    Obeys P Q p (invoke c >>= f) := by
  refine obeys_perform_bind.mpr ⟨(h c hc).1, fun r => ?_⟩
  rw [(h c hc).2 r]
  exact hf r

/-- The phase is the one it was. -/
def Stays (p : φ) {α : Type} : φ → α → Prop := fun p' _ => p' = p

theorem Idles.resolveBranch (h : Idles P p) (cfg : GitSyncConfig) :
    Obeys P (Stays p) p (resolveBranch cfg) :=
  obeys_ite (fun _ => obeys_pure.mpr rfl) fun _ => h.obeys rfl fun _ => obeys_pure.mpr rfl

theorem Idles.pushWithRebaseRetry (h : Idles P p) (branch : String) :
    Obeys P (Stays p) p (pushWithRebaseRetry branch) := by
  refine h.obeys rfl fun (first : PushOutcome) => ?_
  cases first with
  | pushed | failed => exact obeys_pure.mpr rfl
  | nonFastForward =>
    refine h.obeys rfl fun before => h.obeys rfl fun (rebase : RebaseOutcome) => ?_
    cases rebase with
    | conflict | failed => exact obeys_pure.mpr rfl
    | rebased =>
      refine h.obeys rfl fun after => h.obeys rfl fun second => h.obeys rfl fun _ => ?_
      exact obeys_pure.mpr rfl

theorem Idles.publish (h : Idles P p) (branch : String) :
    Obeys P (Stays p) p (publish branch) := by
  refine (h.pushWithRebaseRetry branch).bind ?_
  rintro p' status rfl
  exact h.obeys rfl fun _ => obeys_pure.mpr rfl

section

variable (h : Idles P p) (cfg : GitSyncConfig) (hasRemote : Bool) (branch : String)

include h

theorem Idles.findUnpushed : Obeys P (Stays p) p (findUnpushed cfg hasRemote branch) :=
  obeys_ite (fun _ => h.obeys rfl fun _ => obeys_pure.mpr rfl) fun _ => obeys_pure.mpr rfl

theorem Idles.publishEarlier :
    Obeys P (Stays p) p (publishEarlier cfg hasRemote branch) := by
  refine (h.findUnpushed cfg hasRemote branch).bind ?_
  rintro p' unpushed rfl
  refine obeys_ite (fun _ => ?_) fun _ => h.obeys rfl fun _ => obeys_pure.mpr rfl
  refine (h.publish branch).bind ?_
  rintro p' status rfl
  exact obeys_pure.mpr rfl

theorem Idles.publishNew : Obeys P (Stays p) p (publishNew cfg hasRemote branch) :=
  obeys_ite (fun _ => h.publish branch) fun _ => obeys_pure.mpr rfl

end

theorem Idles.retryPush (h : Idles P p) : Obeys P (Stays p) p retryPush := by
  refine h.obeys rfl fun (isRepo : Bool) => ?_
  refine obeys_ite (fun _ => ?_) fun _ => h.obeys rfl fun _ => obeys_pure.mpr rfl
  refine h.obeys rfl fun (op : String) => ?_
  refine obeys_ite (fun _ => obeys_pure.mpr rfl) fun _ => ?_
  refine h.obeys rfl fun (cfg : GitSyncConfig) => (h.resolveBranch cfg).bind ?_
  rintro p' branch rfl
  exact h.obeys rfl fun hasRemote => h.publishEarlier cfg hasRemote branch

/-- The phases of a cycle that works on `n` reasons: it stages, it settles what is
staged by a commit or by finding nothing to commit, and only then it clears the `n`
reasons. -/
structure CyclePhases (P : Protocol Call Call.Response φ) (n : Nat)
    (taken staged settled cleared : φ) : Prop where
  idle_taken : Idles P taken
  idle_cleared : Idles P cleared
  add : P.allowed taken .add ∧
    ∀ ok : Bool, P.next taken .add ok = if ok then staged else taken
  getStatus : P.allowed staged .getStatus ∧ ∀ status : Option RepoStatus,
    P.next staged .getStatus status =
      if status.any (·.clean) then settled else staged
  commit : ∀ message, P.allowed staged (.commit message) ∧ ∀ outcome : CommitOutcome,
    P.next staged (.commit message) outcome =
      if outcome = .failed then staged else settled
  clear : ∀ update, P.allowed settled (.clearPendingState n update) ∧
    ∀ r, P.next settled (.clearPendingState n update) r = cleared

variable {reasons : List String} {taken staged settled cleared : φ}

/-- A cycle ends before it staged, before it settled, or with its reasons cleared. -/
def CycleEnd (taken staged cleared : φ) {α : Type} : φ → α → Prop := fun p _ =>
  p = taken ∨ p = staged ∨ p = cleared

section

variable (h : CyclePhases P reasons.length taken staged settled cleared)

include h

theorem CyclePhases.clearing {α : Type} {Q : φ → α → Prop} {f : Unit → Sync α}
    {update : Bool} (hf : ∀ r, Obeys P Q cleared (f r)) :
    Obeys P Q settled (invoke (.clearPendingState reasons.length update) >>= f) := by
  refine obeys_perform_bind.mpr ⟨(h.clear update).1, fun r => ?_⟩
  rw [(h.clear update).2 r]
  exact hf r

theorem CyclePhases.commitAndPush (cfg : GitSyncConfig) (hasRemote : Bool) (branch : String)
    (filesChanged : Nat) :
    Obeys P (CycleEnd taken staged cleared) staged
      (commitAndPush cfg hasRemote branch reasons filesChanged) := by
  refine obeys_perform_bind.mpr ⟨(h.commit _).1, fun (outcome : CommitOutcome) => ?_⟩
  rw [(h.commit _).2 outcome]
  cases outcome with
  | failed => exact obeys_pure.mpr (.inr (.inl rfl))
  | nothingToCommit => exact h.clearing fun _ => obeys_pure.mpr (.inr (.inr rfl))
  | committed =>
    refine h.clearing fun _ => h.idle_cleared.obeys rfl fun hash => ?_
    refine (h.idle_cleared.publishNew cfg hasRemote branch).bind ?_
    rintro p' status rfl
    exact obeys_pure.mpr (.inr (.inr rfl))

theorem CyclePhases.stageAndCommit :
    Obeys P (CycleEnd taken staged cleared) taken (stageAndCommit reasons) := by
  have hidle := h.idle_taken
  refine hidle.obeys rfl fun (cfg : GitSyncConfig) => (hidle.resolveBranch cfg).bind ?_
  rintro p' branch rfl
  refine hidle.obeys rfl fun (hasRemote : Bool) => ?_
  have hfetch : Obeys P (Stays p') p' (fetchRemote hasRemote) :=
    obeys_ite (fun _ => hidle .fetch rfl) fun _ => obeys_pure.mpr rfl
  refine hfetch.bind ?_
  rintro p'' - rfl
  refine hidle.obeys rfl fun _ => hidle.obeys rfl fun _ => ?_
  refine obeys_perform_bind.mpr ⟨h.add.1, fun (ok : Bool) => ?_⟩
  rw [h.add.2 ok]
  cases ok with
  | false => exact obeys_pure.mpr (.inl rfl)
  | true =>
    rw [if_pos rfl]
    refine obeys_perform_bind.mpr ⟨h.getStatus.1, fun (status : Option RepoStatus) => ?_⟩
    rw [h.getStatus.2 status]
    cases status with
    | none => exact obeys_pure.mpr (.inr (.inl rfl))
    | some status =>
      refine obeys_ite (fun hclean => ?_) fun hdirty => ?_
      · simp only [Option.any_some, hclean]
        refine h.clearing fun _ => ?_
        exact (h.idle_cleared.publishEarlier cfg hasRemote branch).mono
          fun _ _ hstays => .inr (.inr hstays)
      · simp only [Option.any_some, hdirty]
        exact h.commitAndPush cfg hasRemote branch status.filesChanged

theorem CyclePhases.performSync :
    Obeys P (CycleEnd taken staged cleared) taken (performSync reasons) := by
  refine obeys_ite (fun _ => obeys_pure.mpr (.inl rfl)) fun _ => ?_
  refine h.idle_taken.obeys rfl fun (isRepo : Bool) => ?_
  refine obeys_ite (fun _ => ?_) fun _ => obeys_pure.mpr (.inl rfl)
  refine h.idle_taken.obeys rfl fun (op : String) => ?_
  exact obeys_ite (fun _ => obeys_pure.mpr (.inl rfl)) fun _ => h.stageAndCommit

end

end

/-! ## The manager and its surroundings -/

inductive Toast where
  | recovered
  | conflict
  | pushFailed
  | error (message : String)
deriving DecidableEq, Repr

/-- The manager's fields, the lock with its holder, and the repository. The toasts
are kept with the number of unpushed commits when they were shown. -/
structure World where
  reasons : List String
  hasPending : Bool
  needsPush : Bool
  lastCommitTime : Int
  lastFailureKey : String
  lock : Option String
  branch : String
  unpushed : String → Nat
  upstream : String → Bool
  toasts : List (Toast × Nat)

/-- The manager after its start, with nothing left to push. -/
def newSyncManager (lastCommitTime : Int) (branch : String) (upstream : String → Bool) :
    World where
  reasons := []
  hasPending := false
  needsPush := false
  lastCommitTime := lastCommitTime
  lastFailureKey := ""
  lock := none
  branch := branch
  unpushed _ := 0
  upstream := upstream
  toasts := []

/-- The answers of git, the configuration and the clock. -/
structure Outcomes where
  now : Int
  config : GitSyncConfig
  isRepository : Bool
  inProgress : String
  branchKnown : Bool
  hasRemote : Bool
  add : Bool
  status : Option RepoStatus
  commit : CommitOutcome
  hash : String
  push : PushOutcome
  pushAgain : PushOutcome
  /-- A push that reports a failure may have reached the remote. -/
  landed : Bool
  pullRebase : RebaseOutcome
  /-- A rebase drops the commits that the remote already has. -/
  rebased : Nat

/-- Answers of a cycle in which every git command succeeds. -/
def Outcomes.good (now : Int) : Outcomes where
  now := now
  config := ⟨true, true, true, 10, "main"⟩
  isRepository := true
  inProgress := ""
  branchKnown := true
  hasRemote := true
  add := true
  status := some ⟨false, 1⟩
  commit := .committed
  hash := "0d1e"
  push := .pushed
  pushAgain := .pushed
  landed := false
  pullRebase := .rebased
  rebased := 0

/-- `failureKey`. -/
def failureKey (result : SyncResult) : String :=
  match result.status with
  | .conflict => "conflict"
  | .pushFailed => "push_failed"
  | .error => "error:" ++ result.message
  | .noChanges | .committed | .synced => ""

/-- The toast for an outcome that differs from the last one. -/
def toastFor (result : SyncResult) : Toast :=
  if failureKey result = "" then .recovered
  else
    match result.status with
    | .conflict => .conflict
    | .pushFailed => .pushFailed
    | _ =>
      .error (if result.message = "" then "Auto-sync failed. See logs for details."
        else result.message)

/-- The commits of the checked-out branch that the remote does not have. -/
def World.stranded (w : World) : Nat := w.unpushed w.branch

/-- `notify`. -/
def World.notify (w : World) (result : SyncResult) : World :=
  { w with
    lastFailureKey := failureKey result
    toasts :=
      if failureKey result = w.lastFailureKey then w.toasts
      else w.toasts ++ [(toastFor result, w.stranded)] }

/-- `clearPendingState`: the consumed reasons go, from the front. -/
def World.clearPendingState (w : World) (consumed : Nat) (updateCommitTime : Bool)
    (now : Int) : World :=
  { w with
    reasons := w.reasons.drop consumed
    hasPending := decide (w.reasons.drop consumed ≠ [])
    lastCommitTime := if updateCommitTime then now else w.lastCommitTime }

/-- The recording part of `NotifyChange`. -/
def World.record (w : World) (reason : String) : World :=
  { w with reasons := w.reasons ++ [reason], hasPending := true }

/-- The checks of `NotifyChange`. -/
def records (closed : Bool) (cfg : GitSyncConfig) : Bool :=
  !closed && (cfg.enabled && cfg.autoCommit)

/-- `NotifyChange`. -/
def World.notifyChange (w : World) (closed : Bool) (cfg : GitSyncConfig)
    (reason : String) : World :=
  if records closed cfg then w.record reason else w

def World.setUnpushed (w : World) (branch : String) (n : Nat) : World :=
  { w with unpushed := Function.update w.unpushed branch n }

def World.afterPush (w : World) (branch : String) (outcome : PushOutcome)
    (landed : Bool) : World :=
  if outcome = .pushed || landed then w.setUnpushed branch 0 else w

/-- What a cycle sees of the manager's fields. -/
def World.snapshot (w : World) (now : Int) : Snapshot :=
  ⟨w.hasPending, w.needsPush, now - w.lastCommitTime, w.reasons⟩

@[simp] theorem snapshot_hasPending (w : World) (now : Int) :
    (w.snapshot now).hasPending = w.hasPending := rfl

@[simp] theorem snapshot_reasons (w : World) (now : Int) :
    (w.snapshot now).reasons = w.reasons := rfl

/-- What a call does and returns. -/
def handle (o : Outcomes) : (c : Call) → World → c.Response × World
  | .tryAcquire label, w =>
    match w.lock with
    | some _ => (false, w)
    | none => (true, { w with lock := some label })
  | .release, w => ((), { w with lock := none })
  | .getGitSyncConfig, w => (o.config, w)
  | .snapshot, w => (w.snapshot o.now, w)
  | .isRepository, w => (o.isRepository, w)
  | .inProgressOperation, w => (o.inProgress, w)
  | .getCurrentBranch, w => (if o.branchKnown then some w.branch else none, w)
  | .hasRemote, w => (o.hasRemote, w)
  | .fetch, w => ((), w)
  | .createBackup, w => ((), w)
  | .selfHeal, w => ((), w)
  | .add, w => (o.add, w)
  | .getStatus, w => (o.status, w)
  | .commit _, w =>
    (o.commit,
      if o.commit = .committed then w.setUnpushed w.branch (w.stranded + 1) else w)
  | .getLastCommitHash, w => (o.hash, w)
  -- Without an upstream `git rev-list` fails and the counts are taken to be zero.
  | .getAheadBehind branch, w =>
    (some (if w.upstream branch then w.unpushed branch else 0), w)
  | .push branch again, w =>
    let outcome := if again then o.pushAgain else o.push
    (outcome, w.afterPush branch outcome o.landed)
  | .pullRebase branch, w =>
    (o.pullRebase,
      if o.pullRebase = .rebased then
        w.setUnpushed branch (min o.rebased (w.unpushed branch))
      else w)
  | .reindex _ _, w => ((), w)
  | .clearPendingState consumed update, w =>
    ((), w.clearPendingState consumed update o.now)
  | .setNeedsPush v, w => ((), { w with needsPush := v })
  | .notify result, w => ((), w.notify result)

end Yanta.Git
