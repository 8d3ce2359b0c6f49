import Yanta.Git.SyncManager
import Yanta.Support.Runs

/-!
# Committed work and the manager's memory

A commit that the remote does not have is to be remembered: by a pending change, by
the flag for a push, or by a conflict as the last outcome. The manager forgets it where
a cycle takes a missing answer for "nothing to push": without an upstream the ahead
count is zero, and a failing look-up of the remote, the repository or the branch is
read as their absence. The main result is that it remembers in every run in which
these answers are there while a commit is unpushed.
-/

namespace Yanta.Git

open Support Program SyncResult

/-- A commit that the remote does not have is remembered, and recovery was never
announced while there was one. -/
structure Remembered (w : World) : Prop where
  kept : 0 < w.stranded →
    w.hasPending = true ∨ w.needsPush = true ∨ w.lastFailureKey = "conflict"
  honest : ∀ shown ∈ w.toasts, shown.1 = .recovered → shown.2 = 0

/-- Between steps the lock is free and the flag agrees with the list. -/
structure Settled (w : World) : Prop where
  remembered : Remembered w
  free : w.lock = none
  flag : w.hasPending = true ↔ w.reasons ≠ []

/-! ## What a cycle leaves alone -/

/-- The calls of a cycle between its snapshot and its report. -/
def quiet : Protocol Call Call.Response Unit where
  allowed _ c :=
    match c with
    | .tryAcquire _ | .release | .notify _ => False
    | _ => True
  next _ _ _ := ()

/-- What such calls leave alone. -/
structure Frame (w w' : World) : Prop where
  lock : w'.lock = w.lock
  toasts : w'.toasts = w.toasts
  branch : w'.branch = w.branch
  upstream : w'.upstream = w.upstream
  flag : (w.hasPending = true ↔ w.reasons ≠ []) → (w'.hasPending = true ↔ w'.reasons ≠ [])

theorem Frame.refl (w : World) : Frame w w := ⟨rfl, rfl, rfl, rfl, id⟩

theorem Frame.trans (w w' w'' : World) (h : Frame w w') (h' : Frame w' w'') :
    Frame w w'' where
  lock := h'.lock.trans h.lock
  toasts := h'.toasts.trans h.toasts
  branch := h'.branch.trans h.branch
  upstream := h'.upstream.trans h.upstream
  flag hflag := h'.flag (h.flag hflag)

theorem frame_setUnpushed (w : World) (branch : String) (n : Nat) :
    Frame w (w.setUnpushed branch n) := ⟨rfl, rfl, rfl, rfl, id⟩

open World

theorem frame_afterPush (w : World) (branch : String) (outcome : PushOutcome)
    (landed : Bool) : Frame w (w.afterPush branch outcome landed) := by
  unfold afterPush
  split
  · exact frame_setUnpushed w branch 0
  · exact .refl w

theorem frame_handle (o : Outcomes) (u : Unit) (c : Call) (w : World)
    (h : quiet.allowed u c) : Frame w (handle o c w).2 := by
  cases c with
  | tryAcquire | release | notify => exact h.elim
  | commit | pullRebase =>
    simp only [handle]
    split
    · exact frame_setUnpushed ..
    · exact .refl w
  | push branch again =>
    exact frame_afterPush w branch _ o.landed
  | clearPendingState consumed update =>
    exact ⟨rfl, rfl, rfl, rfl, fun _ => by simp [handle, clearPendingState]⟩
  | setNeedsPush v => exact ⟨rfl, rfl, rfl, rfl, id⟩
  -- The other calls only read.
  | _ => exact .refl w

theorem Frame.exec {α : Type} {Q : Unit → α → Prop} {x : Sync α} (h : Obeys quiet Q () x)
    (o : Outcomes) (w : World) : Frame w (exec (handle o) x w).2 :=
  Obeys.exec_related .refl .trans (fun u c w => frame_handle o u c w) h w

theorem idles_quiet : Idles quiet () := by
  intro c hc
  refine ⟨?_, fun r => rfl⟩
  cases c <;> trivial

theorem cyclePhases_quiet (n : Nat) : CyclePhases quiet n () () () () where
  idle_taken := idles_quiet
  idle_cleared := idles_quiet
  add := ⟨trivial, fun _ => rfl⟩
  getStatus := ⟨trivial, fun _ => rfl⟩
  commit _ := ⟨trivial, fun _ => rfl⟩
  clear _ := ⟨trivial, fun _ => rfl⟩

theorem frame_performSync (reasons : List String) (o : Outcomes) (w : World) :
    Frame w (exec (handle o) (performSync reasons) w).2 :=
  .exec (cyclePhases_quiet reasons.length).performSync o w

theorem frame_retryPush (o : Outcomes) (w : World) :
    Frame w (exec (handle o) retryPush w).2 :=
  .exec idles_quiet.retryPush o w

/-! ## Accounting for unpushed commits -/

/-- The result of a cycle and the state it leaves account for the unpushed commits. -/
structure Accounted (result : SyncResult) (w : World) : Prop where
  healthy : failureKey result = "" → w.stranded = 0
  kept : 0 < w.stranded →
    w.hasPending = true ∨ w.needsPush = true ∨ failureKey result = "conflict"

variable {w : World} {result : SyncResult}

theorem accounted_of_stranded_eq_zero (h : w.stranded = 0) : Accounted result w where
  healthy _ := h
  kept hpos := by omega

theorem accounted_of_hasPending (hkey : failureKey result ≠ "") (h : w.hasPending = true) :
    Accounted result w where
  healthy hempty := absurd hempty hkey
  kept _ := .inl h

theorem accounted_of_conflict (h : result.status = .conflict) : Accounted result w where
  healthy hempty := by simp [failureKey, h] at hempty
  kept _ := .inr (.inr (by simp [failureKey, h]))

theorem failureKey_error (message : String) :
    failureKey (.withMessage .error message) ≠ "" := by
  simp [failureKey, withMessage]

/-- Reporting a result that accounts for the commits. -/
theorem Accounted.notify (h : Accounted result w)
    (hhonest : ∀ shown ∈ w.toasts, shown.1 = .recovered → shown.2 = 0) :
    Remembered (w.notify result) where
  kept := h.kept
  honest := by
    intro shown hshown hrecovered
    by_cases hsame : failureKey result = w.lastFailureKey
    · exact hhonest shown (by simpa [World.notify, hsame] using hshown) hrecovered
    · have hcases : shown ∈ w.toasts ∨ shown = (toastFor result, w.stranded) := by
        simpa [World.notify, hsame] using hshown
      rcases hcases with hold | rfl
      · exact hhonest shown hold hrecovered
      · apply h.healthy
        by_contra hfailed
        revert hrecovered
        cases hstatus : result.status <;> simp [toastFor, hfailed, hstatus]

/-! ## The cycle -/

@[simp] theorem stranded_setUnpushed_self (w : World) (n : Nat) :
    (w.setUnpushed w.branch n).stranded = n := by
  simp [stranded, setUnpushed]

variable {branch : String}

theorem stranded_setUnpushed_le {n : Nat} (h : n ≤ w.unpushed branch) :
    (w.setUnpushed branch n).stranded ≤ w.stranded := by
  by_cases hb : w.branch = branch
  · simpa [stranded, setUnpushed, hb] using h
  · simp [stranded, setUnpushed, hb]

@[simp] theorem unpushed_setUnpushed (w : World) (branch : String) (n : Nat) :
    (w.setUnpushed branch n).unpushed branch = n := by
  simp [setUnpushed]

@[simp] theorem setUnpushed_setUnpushed (w : World) (branch : String) (n m : Nat) :
    (w.setUnpushed branch n).setUnpushed branch m = w.setUnpushed branch m := by
  simp [setUnpushed]

/-- A push leaves a count that is no larger, and zero where it says that it pushed. -/
theorem afterPush_eq (w : World) (branch : String) (outcome : PushOutcome)
    (landed : Bool) : ∃ n, n ≤ w.unpushed branch ∧ (outcome = .pushed → n = 0) ∧
      w.afterPush branch outcome landed = w.setUnpushed branch n := by
  unfold afterPush
  split
  · exact ⟨0, Nat.zero_le _, fun _ => rfl, rfl⟩
  case isFalse h =>
    refine ⟨w.unpushed branch, Nat.le_refl _, ?_, ?_⟩
    · rintro rfl
      simp at h
    · simp [setUnpushed]

/-- The outcome of a push with its retry, and what is left to push after it. -/
def Pushed (w : World) (branch : String) (r : SyncStatus × World) : Prop :=
  ∃ n, n ≤ w.unpushed branch ∧ r.2 = w.setUnpushed branch n ∧
    (r.1 = .synced ∧ n = 0 ∨ r.1 = .pushFailed ∨ r.1 = .conflict)

theorem pushed_pushWithRebaseRetry (o : Outcomes) (branch : String) (w : World) :
    Pushed w branch (exec (handle o) (pushWithRebaseRetry branch) w) := by
  obtain ⟨n, hle, hpushed, hafter⟩ := afterPush_eq w branch o.push o.landed
  cases hp : o.push with
  | pushed =>
    refine ⟨n, hle, ?_, .inl ⟨?_, hpushed hp⟩⟩
    · simpa [pushWithRebaseRetry, handle, hp] using hafter
    · simp [pushWithRebaseRetry, handle, hp]
  | failed =>
    refine ⟨n, hle, ?_, .inr (.inl ?_)⟩
    · simpa [pushWithRebaseRetry, handle, hp] using hafter
    · simp [pushWithRebaseRetry, handle, hp]
  | nonFastForward =>
    rw [hp] at hafter
    cases hr : o.pullRebase with
    | conflict =>
      refine ⟨n, hle, ?_, .inr (.inr ?_)⟩
      · simpa [pushWithRebaseRetry, handle, hp, hr] using hafter
      · simp [pushWithRebaseRetry, handle, hp, hr]
    | failed =>
      refine ⟨n, hle, ?_, .inr (.inl ?_)⟩
      · simpa [pushWithRebaseRetry, handle, hp, hr] using hafter
      · simp [pushWithRebaseRetry, handle, hp, hr]
    | rebased =>
      obtain ⟨m, hm, hlast, hagain⟩ := afterPush_eq
        (w.setUnpushed branch (min o.rebased n)) branch o.pushAgain o.landed
      have hmn : m ≤ w.unpushed branch := by
        rw [unpushed_setUnpushed] at hm
        omega
      refine ⟨m, hmn, ?_, ?_⟩
      · simpa [pushWithRebaseRetry, handle, hp, hr, hafter] using hagain
      · by_cases hs : o.pushAgain = .pushed
        · exact .inl ⟨by simp [pushWithRebaseRetry, handle, hp, hr, hs], hlast hs⟩
        · exact .inr (.inl (by simp [pushWithRebaseRetry, handle, hp, hr, hs]))

/-- A push accounts for the commits if it is of the branch that has them. -/
theorem accounted_publish (o : Outcomes) (hbranch : 0 < w.stranded → branch = w.branch)
    (hresult : result.status = (exec (handle o) (publish branch) w).1) :
    Accounted result (exec (handle o) (publish branch) w).2 := by
  obtain ⟨n, hle, hworld, houtcome⟩ := pushed_pushWithRebaseRetry o branch w
  have hstatus : result.status = (exec (handle o) (pushWithRebaseRetry branch) w).1 := by
    simpa [publish] using hresult
  have hstranded : (exec (handle o) (publish branch) w).2.stranded =
      (w.setUnpushed branch n).stranded := by
    simp [publish, handle, hworld, stranded]
  rcases houtcome with ⟨hsynced, rfl⟩ | hfailed | hconflict
  · apply accounted_of_stranded_eq_zero
    rw [hstranded]
    by_cases hpos : 0 < w.stranded
    · rw [hbranch hpos, stranded_setUnpushed_self]
    · have := stranded_setUnpushed_le (w := w) hle
      omega
  · refine ⟨fun hempty => ?_, fun _ => .inr (.inl ?_)⟩
    · simp [failureKey, hstatus.trans hfailed] at hempty
    · simp [publish, handle, hfailed]
  · exact accounted_of_conflict (hstatus.trans hconflict)

/-! ## The condition -/

/-- The branch that `resolveBranch` finds. -/
def Outcomes.resolved (o : Outcomes) (w : World) : String :=
  if o.config.branch ≠ "" then o.config.branch
  else if o.branchKnown then w.branch else "master"

/-- The cycle pushes the branch that is checked out. -/
def Outcomes.Reaches (o : Outcomes) (w : World) : Prop :=
  o.hasRemote = true ∧ o.resolved w = w.branch

instance (o : Outcomes) (w : World) : Decidable (o.Reaches w) :=
  inferInstanceAs (Decidable (_ ∧ _))

/-- The cycle sees the unpushed commits of the branch that is checked out. -/
def Outcomes.Finds (o : Outcomes) (w : World) : Prop :=
  o.Reaches w ∧ w.upstream w.branch = true

instance (o : Outcomes) (w : World) : Decidable (o.Finds w) :=
  inferInstanceAs (Decidable (_ ∧ _))

/-- The condition on a cycle with pending changes that has staged them: if the tree is
clean the unpushed commits are found, a commit has none before it if it turns out
empty, and a commit that is made is pushed. -/
def Outcomes.SettlesSafely (o : Outcomes) (w : World) (status : RepoStatus) : Prop :=
  (status.clean = true → 0 < w.stranded → o.Finds w) ∧
    (status.clean = false →
      (o.commit = .nothingToCommit → w.stranded = 0) ∧
        (o.commit = .committed → o.Reaches w))

instance (o : Outcomes) (w : World) (status : RepoStatus) :
    Decidable (o.SettlesSafely w status) :=
  inferInstanceAs (Decidable (_ ∧ _))

/-- The condition on a cycle with pending changes. -/
def Outcomes.CommitsSafely (o : Outcomes) (w : World) : Prop :=
  o.isRepository = true → o.inProgress = "" → o.add = true →
    ∀ status ∈ o.status, o.SettlesSafely w status

instance (o : Outcomes) (w : World) : Decidable (o.CommitsSafely w) :=
  inferInstanceAs (Decidable (_ → _ → _ → _))

/-- The condition on a cycle that only retries a push. -/
def Outcomes.RetriesSafely (o : Outcomes) (w : World) : Prop :=
  0 < w.stranded → o.isRepository = true ∧ (o.inProgress = "" → o.Finds w)

instance (o : Outcomes) (w : World) : Decidable (o.RetriesSafely w) :=
  inferInstanceAs (Decidable (_ → _))

open Outcomes

theorem exec_resolveBranch (o : Outcomes) (w : World) :
    exec (handle o) (resolveBranch o.config) w = (o.resolved w, w) := by
  by_cases hb : o.config.branch = ""
  · cases hknown : o.branchKnown <;>
      simp [resolveBranch, resolved, handle, hb, hknown]
  · simp [resolveBranch, resolved, hb]

variable {o : Outcomes}

section

variable (hpush : o.config.autoPush = true)

include hpush

theorem exec_findUnpushed (branch : String) (w : World) :
    exec (handle o) (findUnpushed o.config o.hasRemote branch) w =
      (decide (o.hasRemote = true ∧ w.upstream branch = true ∧ 0 < w.unpushed branch),
        w) := by
  cases hremote : o.hasRemote <;> cases hupstream : w.upstream branch <;>
    simp [findUnpushed, hasUnpushedCommits, handle, hpush, hupstream]

theorem exec_publishEarlier_of_not
    (hnot : ¬(o.hasRemote = true ∧ w.upstream branch = true ∧ 0 < w.unpushed branch)) :
    exec (handle o) (publishEarlier o.config o.hasRemote branch) w =
      (.of .noChanges, { w with needsPush := false }) := by
  rw [publishEarlier, exec_bind, exec_findUnpushed hpush, decide_eq_false hnot]
  rfl

theorem exec_publishEarlier_of
    (hahead : o.hasRemote = true ∧ w.upstream branch = true ∧ 0 < w.unpushed branch) :
    exec (handle o) (publishEarlier o.config o.hasRemote branch) w =
      (.of (exec (handle o) (publish branch) w).1, (exec (handle o) (publish branch) w).2) := by
  rw [publishEarlier, exec_bind, exec_findUnpushed hpush, decide_eq_true hahead]
  exact exec_bind ..

theorem accounted_publishEarlier
    (hfinds : 0 < w.stranded →
      (o.hasRemote = true ∧ branch = w.branch) ∧ w.upstream w.branch = true) :
    Accounted (exec (handle o) (publishEarlier o.config o.hasRemote branch) w).1
      (exec (handle o) (publishEarlier o.config o.hasRemote branch) w).2 := by
  by_cases hahead : o.hasRemote = true ∧ w.upstream branch = true ∧ 0 < w.unpushed branch
  · rw [exec_publishEarlier_of hpush hahead]
    exact accounted_publish o (fun hstranded => (hfinds hstranded).1.2) rfl
  · rw [exec_publishEarlier_of_not hpush hahead]
    apply accounted_of_stranded_eq_zero
    by_contra hstranded
    have hpos : 0 < w.stranded := Nat.pos_of_ne_zero hstranded
    obtain ⟨⟨hremote, rfl⟩, hupstream⟩ := hfinds hpos
    exact hahead ⟨hremote, hupstream, hpos⟩

theorem accounted_commitAndPush {reasons : List String} {filesChanged : Nat}
    (hpending : w.hasPending = true)
    (hnothing : o.commit = .nothingToCommit → w.stranded = 0)
    (hcommitted : o.commit = .committed → o.hasRemote = true ∧ branch = w.branch) :
    Accounted
      (exec (handle o) (commitAndPush o.config o.hasRemote branch reasons filesChanged) w).1
      (exec (handle o)
        (commitAndPush o.config o.hasRemote branch reasons filesChanged) w).2 := by
  cases hc : o.commit with
  | failed =>
    simp only [commitAndPush, exec_bind, exec_perform, handle, hc]
    exact accounted_of_hasPending (failureKey_error _) hpending
  | nothingToCommit =>
    simp only [commitAndPush, exec_bind, exec_perform, handle, hc]
    exact accounted_of_stranded_eq_zero (hnothing hc)
  | committed =>
    obtain ⟨hremote, rfl⟩ := hcommitted hc
    simp only [commitAndPush, publishNew, exec_bind, exec_perform, handle, hc,
      hpush, hremote]
    exact accounted_publish o (fun _ => rfl) rfl

theorem accounted_stageAndCommit {reasons : List String} (hpending : w.hasPending = true)
    (hrepo : o.isRepository = true) (hop : o.inProgress = "") (hsafe : o.CommitsSafely w) :
    Accounted (exec (handle o) (stageAndCommit reasons) w).1
      (exec (handle o) (stageAndCommit reasons) w).2 := by
  have hfetch : exec (handle o) (fetchRemote o.hasRemote) w = ((), w) := by
    cases o.hasRemote <;> rfl
  have hsafe := hsafe hrepo hop
  cases hadd : o.add with
  | false =>
    simp only [stageAndCommit, exec_bind, exec_perform, exec_resolveBranch,
      handle, hfetch, hadd]
    exact accounted_of_hasPending (failureKey_error _) hpending
  | true =>
    have hsafe := hsafe hadd
    cases hstatus : o.status with
    | none =>
      simp only [stageAndCommit, exec_bind, exec_perform, exec_resolveBranch,
        handle, hfetch, hadd, hstatus, if_true]
      exact accounted_of_hasPending (failureKey_error _) hpending
    | some status =>
      obtain ⟨hwhenClean, hwhenDirty⟩ := hsafe status hstatus
      simp only [stageAndCommit, exec_bind, exec_perform, exec_resolveBranch,
        handle, hfetch, hadd, hstatus, if_true]
      cases hclean : status.clean with
      | true =>
        exact accounted_publishEarlier hpush (hwhenClean hclean)
      | false =>
        obtain ⟨hnothing, hcommitted⟩ := hwhenDirty hclean
        exact accounted_commitAndPush hpush hpending hnothing hcommitted

theorem accounted_performSync (hpending : w.hasPending = true) (hreasons : w.reasons ≠ [])
    (hsafe : o.CommitsSafely w) :
    Accounted (exec (handle o) (performSync w.reasons) w).1
      (exec (handle o) (performSync w.reasons) w).2 := by
  cases hrepo : o.isRepository with
  | false =>
    simp only [performSync, if_neg hreasons, exec_bind, exec_perform, handle, hrepo]
    exact accounted_of_hasPending (failureKey_error _) hpending
  | true =>
    by_cases hop : o.inProgress = ""
    · have hexec : exec (handle o) (performSync w.reasons) w =
          exec (handle o) (stageAndCommit w.reasons) w := by
        simp [performSync, handle, hreasons, hrepo, hop]
      rw [hexec]
      exact accounted_stageAndCommit hpush hpending hrepo hop hsafe
    · apply accounted_of_conflict
      simp [performSync, handle, hreasons, hrepo, hop, withMessage]

end

theorem exec_retryPush_of_not_isRepository (hrepo : o.isRepository = false) (w : World) :
    exec (handle o) retryPush w = (.of .noChanges, { w with needsPush := false }) := by
  simp [retryPush, handle, hrepo]

theorem exec_retryPush (hrepo : o.isRepository = true) (hop : o.inProgress = "") (w : World) :
    exec (handle o) retryPush w =
      exec (handle o) (publishEarlier o.config o.hasRemote (o.resolved w)) w := by
  simp [retryPush, handle, hrepo, hop, exec_resolveBranch]

theorem accounted_retryPush (hpush : o.config.autoPush = true) (hsafe : o.RetriesSafely w) :
    Accounted (exec (handle o) retryPush w).1 (exec (handle o) retryPush w).2 := by
  cases hrepo : o.isRepository with
  | false =>
    rw [exec_retryPush_of_not_isRepository hrepo]
    apply accounted_of_stranded_eq_zero
    by_contra hstranded
    have hisRepo := (hsafe (Nat.pos_of_ne_zero hstranded)).1
    rw [hrepo] at hisRepo
    contradiction
  | true =>
    by_cases hop : o.inProgress = ""
    · rw [exec_retryPush hrepo hop]
      exact accounted_publishEarlier hpush fun hpos => (hsafe hpos).2 hop
    · apply accounted_of_conflict
      simp [retryPush, handle, hrepo, hop, withMessage]

/-! ## Runs -/

inductive Event where
  | notifyChange (closed : Bool) (cfg : GitSyncConfig) (reason : String)
  | checkAndSync (o : Outcomes)
  | forceSync (o : Outcomes)

/-- The manager takes a step; a cycle runs to its end. -/
def step (w : World) : Event → Option World
  | .notifyChange closed cfg reason => some (w.notifyChange closed cfg reason)
  | .checkAndSync o => some (exec (handle o) checkAndSync w).2
  | .forceSync o => some (exec (handle o) forceSync w).2

/-- A scheduled cycle now has something to do. -/
def Outcomes.due (o : Outcomes) (w : World) : Bool :=
  o.config.schedules && (w.snapshot o.now).isDue o.config

/-- The condition on a step. -/
def Safe (w : World) : Event → Prop
  | .notifyChange _ _ _ => True
  | .checkAndSync o =>
    o.config.autoPush = true ∧
      (o.due w = true →
        if w.hasPending then o.CommitsSafely w else o.RetriesSafely w)
  | .forceSync o =>
    o.config.autoPush = true ∧ (w.reasons ≠ [] → o.CommitsSafely w)

instance (w : World) (e : Event) : Decidable (Safe w e) :=
  match e with
  | .notifyChange _ _ _ => isTrue trivial
  | .checkAndSync _ => inferInstanceAs (Decidable (_ ∧ _))
  | .forceSync _ => inferInstanceAs (Decidable (_ ∧ _))

def World.locked (w : World) (label : String) : World := { w with lock := some label }

def World.unlocked (w : World) : World := { w with lock := none }

/-- The state after the report of a result. -/
def reported (r : SyncResult × World) : World := r.2.notify r.1

theorem exec_underLock {label : String} {body : Sync Unit} (hfree : w.lock = none) :
    (exec (handle o) (underLock label body) w).2 =
      (exec (handle o) body (w.locked label)).2.unlocked := by
  simp [underLock, handle, hfree, locked, unlocked]

theorem exec_checkLocked (o : Outcomes) (w : World) :
    (exec (handle o) checkLocked w).2 =
      if o.due w then
        if w.hasPending then reported (exec (handle o) (performSync w.reasons) w)
        else reported (exec (handle o) retryPush w)
      else w := by
  cases hschedules : o.config.schedules with
  | false => simp [checkLocked, handle, due, hschedules]
  | true =>
    cases hdue : (w.snapshot o.now).isDue o.config with
    | false => simp [checkLocked, handle, due, hschedules, hdue]
    | true =>
      cases hpending : w.hasPending <;>
        simp [checkLocked, handle, due, hschedules, hdue, reported, hpending]

theorem exec_forceLocked (o : Outcomes) (w : World) :
    (exec (handle o) forceLocked w).2 =
      if w.reasons = [] then w
      else reported (exec (handle o) (performSync w.reasons) w) := by
  by_cases hreasons : w.reasons = [] <;>
    simp [forceLocked, handle, reported, hreasons]

section

variable (hw : Settled w)

include hw

/-- The report of a cycle that accounts for the commits leaves a settled state. -/
theorem Settled.reported (label : String) {r : SyncResult × World}
    (hframe : Frame (w.locked label) r.2) (haccounted : Accounted r.1 r.2) :
    Settled (Git.reported r).unlocked where
  remembered := by
    have hhonest := hw.remembered.honest
    have htoasts : r.2.toasts = w.toasts := hframe.toasts
    rw [← htoasts] at hhonest
    have h := haccounted.notify hhonest
    exact ⟨h.kept, h.honest⟩
  free := rfl
  flag := hframe.flag hw.flag

theorem Settled.unlocked_locked (label : String) :
    Settled (w.locked label).unlocked where
  remembered := ⟨hw.remembered.kept, hw.remembered.honest⟩
  free := rfl
  flag := hw.flag

theorem Settled.notifyChange (closed : Bool) (cfg : GitSyncConfig) (reason : String) :
    Settled (w.notifyChange closed cfg reason) := by
  have hrecord : Settled (w.record reason) :=
    ⟨⟨fun _ => .inl rfl, hw.remembered.honest⟩, hw.free, by simp [World.record]⟩
  unfold World.notifyChange
  split
  · exact hrecord
  · exact hw

theorem Settled.performSync (label : String) (hpush : o.config.autoPush = true)
    (hreasons : w.reasons ≠ []) (hsafe : o.CommitsSafely w) :
    Settled (Git.reported
      (exec (handle o) (Git.performSync w.reasons) (w.locked label))).unlocked := by
  refine hw.reported label (frame_performSync w.reasons o (w.locked label)) ?_
  exact accounted_performSync (w := w.locked label) hpush (hw.flag.mpr hreasons) hreasons
    hsafe

theorem Settled.retryPush (label : String) (hpush : o.config.autoPush = true)
    (hsafe : o.RetriesSafely w) :
    Settled (Git.reported
      (exec (handle o) Git.retryPush (w.locked label))).unlocked := by
  refine hw.reported label (frame_retryPush o (w.locked label)) ?_
  exact accounted_retryPush (w := w.locked label) hpush hsafe

theorem Settled.checkAndSync (hsafe : Safe w (.checkAndSync o)) :
    Settled (exec (handle o) Git.checkAndSync w).2 := by
  obtain ⟨hpush, hsafe⟩ := hsafe
  rw [Git.checkAndSync, exec_underLock hw.free, exec_checkLocked]
  by_cases hdue : o.due w = true
  · have hsafe := hsafe hdue
    have hdue' : o.due (w.locked "auto-sync") = true := hdue
    rw [if_pos hdue']
    by_cases hpending : w.hasPending = true
    · have hpending' : (w.locked "auto-sync").hasPending = true := hpending
      rw [if_pos hpending] at hsafe
      rw [if_pos hpending']
      exact hw.performSync "auto-sync" hpush (hw.flag.mp hpending) hsafe
    · have hpending' : ¬(w.locked "auto-sync").hasPending = true := hpending
      rw [if_neg hpending] at hsafe
      rw [if_neg hpending']
      exact hw.retryPush "auto-sync" hpush hsafe
  · have hdue' : ¬o.due (w.locked "auto-sync") = true := hdue
    rw [if_neg hdue']
    exact hw.unlocked_locked "auto-sync"

theorem Settled.forceSync (hsafe : Safe w (.forceSync o)) :
    Settled (exec (handle o) Git.forceSync w).2 := by
  obtain ⟨hpush, hsafe⟩ := hsafe
  rw [Git.forceSync, exec_underLock hw.free, exec_forceLocked]
  by_cases hreasons : w.reasons = []
  · have hreasons' : (w.locked "force-sync").reasons = [] := hreasons
    rw [if_pos hreasons']
    exact hw.unlocked_locked "force-sync"
  · have hreasons' : ¬(w.locked "force-sync").reasons = [] := hreasons
    rw [if_neg hreasons']
    exact hw.performSync "force-sync" hpush hreasons (hsafe hreasons)

theorem Settled.step {w' : World} {e : Event} (hsafe : Safe w e)
    (hstep : Git.step w e = some w') : Settled w' := by
  cases e with
  | notifyChange closed cfg reason =>
    cases hstep
    exact hw.notifyChange closed cfg reason
  | checkAndSync o =>
    cases hstep
    exact hw.checkAndSync hsafe
  | forceSync o =>
    cases hstep
    exact hw.forceSync hsafe

end

/-- In every run whose steps are safe, committed work is remembered in every state. -/
theorem committed_work_remembered {w w' : World} {es : List Event} (hw : Settled w)
    (hsafe : Guarded step Safe w es) (hrun : run step w es = some w') :
    Remembered w' :=
  (run_invariant_of_guarded (fun _ _ _ hw => hw.step) hw hsafe hrun).remembered

/-! ## Where it is forgotten -/

theorem settled_newSyncManager (lastCommitTime : Int) (branch : String)
    (upstream : String → Bool) :
    Settled (newSyncManager lastCommitTime branch upstream) where
  remembered := ⟨by simp [newSyncManager, World.stranded], by simp [newSyncManager]⟩
  free := rfl
  flag := by simp [newSyncManager]

/-- A retry that does not find the commit forgets it: the repository or the remote is
not seen, or the branch has no upstream. -/
theorem not_remembered_of_retry (hfree : w.lock = none) (hpush : o.config.autoPush = true)
    (hdue : o.due w = true) (hpending : w.hasPending = false) (hstranded : 0 < w.stranded)
    (hlost : o.isRepository = false ∨ o.isRepository = true ∧ o.inProgress = "" ∧
      ¬(o.hasRemote = true ∧ w.upstream (o.resolved w) = true)) :
    ¬Remembered (exec (handle o) checkAndSync w).2 := by
  have hretry : exec (handle o) retryPush (w.locked "auto-sync") =
      (.of .noChanges, { w.locked "auto-sync" with needsPush := false }) := by
    rcases hlost with hrepo | ⟨hrepo, hop, hlost⟩
    · exact exec_retryPush_of_not_isRepository hrepo _
    · rw [exec_retryPush hrepo hop]
      apply exec_publishEarlier_of_not hpush
      intro hahead
      exact hlost ⟨hahead.1, hahead.2.1⟩
  have hdue' : o.due (w.locked "auto-sync") = true := hdue
  have hpending' : ¬(w.locked "auto-sync").hasPending = true := by
    simp [locked, hpending]
  intro hremembered
  rw [checkAndSync, exec_underLock hfree, exec_checkLocked, if_pos hdue',
    if_neg hpending', hretry] at hremembered
  rcases hremembered.kept hstranded with hp | hn | hc
  · exact hpending' hp
  · simp [reported, notify, unlocked] at hn
  · simp [reported, notify, unlocked, failureKey, of] at hc

/-- A change whose push fails, and a retry that fails too. -/
def failedPushes : List Event :=
  [.notifyChange false (Outcomes.good 0).config "saved",
    .checkAndSync { Outcomes.good (10 * minute) with push := .failed },
    .checkAndSync { Outcomes.good (20 * minute) with push := .failed }]

theorem committed_work_remembered_sample :
    ∃ w', run step (newSyncManager 0 "main" fun _ => true) failedPushes = some w' ∧
      0 < w'.stranded ∧ Remembered w' := by
  have hsafe : Guarded step Safe (newSyncManager 0 "main" fun _ => true) failedPushes := by
    decide +kernel
  have hstart := settled_newSyncManager 0 "main" fun _ => true
  exact ⟨_, rfl, by decide +kernel, committed_work_remembered hstart hsafe rfl⟩

/-- Without an upstream a push that failed is retried once and then forgotten, and
recovery is announced. -/
theorem unpushed_commit_forgotten :
    ∃ w', run step (newSyncManager 0 "main" fun _ => false) failedPushes = some w' ∧
      w'.stranded = 1 ∧ w'.hasPending = false ∧ w'.needsPush = false ∧
      w'.lastFailureKey = "" ∧ (.recovered, 1) ∈ w'.toasts := by
  refine ⟨_, rfl, ?_⟩
  decide +kernel

end Yanta.Git
