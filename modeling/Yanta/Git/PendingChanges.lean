import Yanta.Git.History
import Yanta.Git.SyncManager
import Yanta.Support.Runs
import Yanta.Support.Threads

/-!
# Notified changes and the cycles that consume them

Any number of goroutines record changes, run cycles and force syncs, call by call in any
order. A history keeps what was recorded, staged, settled and removed. The main
result is that in every run the pending list is what was recorded less what was
removed, and that every removal was staged and settled, in the same cycle and after
the removed reasons were recorded.
-/

namespace Yanta.Git

open Support Program List Function

/-! ## The phases of a cycle -/

inductive Phase where
  | outside
  | inside
  | taken (n : Nat)
  | staged (n : Nat)
  | settled (n : Nat)
  | cleared
deriving DecidableEq, Repr

def Phase.stage : Phase → Phase
  | .taken n => .staged n
  | p => p

def Phase.settle : Phase → Phase
  | .staged n => .settled n
  | p => p

/-- The order of the calls under the lock: the number of reasons that are cleared is
the number that was taken, and they are cleared after they were staged and settled. -/
def cycle : Protocol Call Call.Response Phase where
  allowed p c :=
    match c with
    | .tryAcquire _ => p = .outside
    | .snapshot => p = .inside
    | .add => ∃ n, p = .taken n
    | .getStatus | .commit _ => ∃ n, p = .staged n
    | .clearPendingState m _ => p = .settled m
    | _ => p ≠ .outside
  next p c r :=
    match c, r with
    | .tryAcquire _, acquired => if acquired then .inside else .outside
    | .release, _ => .outside
    | .snapshot, snap => .taken snap.reasons.length
    | .add, ok => if ok then p.stage else p
    | .getStatus, status => if status.any (·.clean) then p.settle else p
    | .commit _, outcome => if outcome = .failed then p else p.settle
    | .clearPendingState _ _, _ => .cleared
    | _, _ => p

variable {p : Phase}

theorem idles_cycle (hp : p ≠ .outside) : Idles cycle p := by
  intro c hc
  cases c <;> first | exact ⟨hp, fun _ => rfl⟩ | simp [Call.isPlain] at hc

theorem cyclePhases_cycle (n : Nat) :
    CyclePhases cycle n (.taken n) (.staged n) (.settled n) .cleared where
  idle_taken := idles_cycle (by simp)
  idle_cleared := idles_cycle (by simp)
  add := ⟨⟨n, rfl⟩, fun _ => rfl⟩
  getStatus := ⟨⟨n, rfl⟩, fun _ => rfl⟩
  commit _ := ⟨⟨n, rfl⟩, fun _ => rfl⟩
  clear _ := ⟨rfl, fun _ => rfl⟩

/-- The lock is held. -/
def Holding {α : Type} : Phase → α → Prop := fun p _ => p ≠ .outside

/-- A report at the end of a program. -/
theorem obeys_report (hp : p ≠ .outside) (result : SyncResult) :
    Obeys cycle Holding p (invoke (.notify result)) :=
  obeys_perform.mpr ⟨hp, fun _ => hp⟩

theorem obeys_performSync (reasons : List String) :
    Obeys cycle Holding (.taken reasons.length) (performSync reasons) := by
  refine (cyclePhases_cycle reasons.length).performSync.mono ?_
  rintro p _ (rfl | rfl | rfl) <;> simp [Holding]

theorem obeys_checkLocked : Obeys cycle Holding .inside checkLocked := by
  have hinside : Phase.inside ≠ .outside := by simp
  refine (idles_cycle hinside).obeys rfl fun (cfg : GitSyncConfig) => ?_
  refine obeys_ite (fun _ => ?_) fun _ => obeys_pure.mpr hinside
  refine obeys_perform_bind.mpr ⟨rfl, fun (snap : Snapshot) => ?_⟩
  have htaken : Phase.taken snap.reasons.length ≠ .outside := by simp
  refine obeys_ite (fun _ => obeys_ite (fun _ => ?_) fun _ => ?_) fun _ =>
    obeys_pure.mpr htaken
  · exact (obeys_performSync snap.reasons).bind fun p result hp => obeys_report hp result
  · refine (idles_cycle htaken).retryPush.bind ?_
    rintro p result rfl
    exact obeys_report htaken result

theorem obeys_forceLocked : Obeys cycle Holding .inside forceLocked := by
  refine obeys_perform_bind.mpr ⟨rfl, fun (snap : Snapshot) => ?_⟩
  have htaken : Phase.taken snap.reasons.length ≠ .outside := by simp
  refine obeys_ite (fun _ => obeys_pure.mpr htaken) fun _ => ?_
  exact (obeys_performSync snap.reasons).bind fun p result hp => obeys_report hp result

/-- The lock is given back at the end. -/
theorem obeys_underLock {label : String} {body : Sync Unit}
    (hbody : Obeys cycle Holding .inside body) :
    Obeys cycle (fun p _ => p = .outside) .outside (underLock label body) := by
  refine obeys_perform_bind.mpr ⟨rfl, fun (acquired : Bool) => ?_⟩
  cases acquired with
  | false => exact obeys_pure.mpr rfl
  | true =>
    refine hbody.bind fun p _ hp => ?_
    exact obeys_perform.mpr ⟨hp, fun _ => rfl⟩

/-! ## The goroutines -/

/-- What a goroutine may start: a scheduled cycle, a forced sync, or another operation
that takes the lock. -/
inductive Task where
  | checkAndSync
  | forceSync
  | other (label : String)
deriving DecidableEq, Repr

def Task.program : Task → Sync Unit
  | .checkAndSync => Git.checkAndSync
  | .forceSync => Git.forceSync
  | .other label => underLock label (pure ())

/-- A goroutine: the rest of its program, which obeys the order of the calls. -/
structure Thread where
  phase : Phase
  program : Sync Unit
  obeys : Obeys cycle (fun p _ => p = .outside) phase program

def Thread.idle : Thread := ⟨.outside, pure (), rfl⟩

def Task.thread (task : Task) : Thread where
  phase := .outside
  program := task.program
  obeys := by
    cases task with
    | checkAndSync => exact obeys_underLock obeys_checkLocked
    | forceSync => exact obeys_underLock obeys_forceLocked
    | other label => exact obeys_underLock (obeys_pure.mpr (by simp [Holding]))

/-- The goroutine is under the lock. -/
def Thread.Critical (thread : Thread) : Prop := thread.phase ≠ .outside

structure Shared where
  world : World
  log : History

variable {p' : Phase} {w : World} {m : Move Thread Shared}

/-- What a call adds to the history. -/
def entryOf (t : ThreadId) (w : World) : (c : Call) → c.Response → Option Entry
  | .snapshot, _ => some (.snapshot t)
  | .add, ok => if ok then some (.staged t) else none
  | .getStatus, status => if status.any (·.clean) then some (.settled t) else none
  | .commit _, outcome => if outcome = .failed then none else some (.settled t)
  | .clearPendingState n _, _ => some (.removed t (min n w.reasons.length))
  | .release, _ => some (.ended t)
  | _, _ => none

def mutexOpOf : (c : Call) → c.Response → MutexOp
  | .tryAcquire _, acquired => if acquired then .acquire else .keep
  | .release, _ => .release
  | _, _ => .keep

/-- Answer the next call of a goroutine. -/
def Thread.advance (t : ThreadId) (o : Outcomes) (s : Shared) :
    Thread → Option (Move Thread Shared)
  | ⟨_, .done _, _⟩ => none
  | ⟨p, .call c next, h⟩ =>
    let r := (handle o c s.world).1
    some
      { phase := ⟨cycle.next p c r, next r, h.2 r⟩
        shared := ⟨(handle o c s.world).2, s.log ++ (entryOf t s.world c r).toList⟩
        mutex := mutexOpOf c r }

inductive Action where
  | notifyChange (closed : Bool) (cfg : GitSyncConfig) (reason : String)
  | start (task : Task)
  | advance (o : Outcomes)

/-- What a goroutine does; an idle one may start a task, and changes are notified at
any time. -/
def act (t : ThreadId) (thread : Thread) (action : Action) (s : Shared) :
    Option (Move Thread Shared) :=
  match action with
  | .notifyChange closed cfg reason =>
    let log := if records closed cfg then s.log ++ [.recorded reason] else s.log
    some ⟨thread, ⟨s.world.notifyChange closed cfg reason, log⟩, .keep⟩
  | .start task =>
    match thread.program with
    | .done _ => some ⟨task.thread, s, .keep⟩
    | .call _ _ => none
  | .advance o => thread.advance t o s

abbrev System := Threads ThreadId Thread Shared

abbrev System.step : System → ThreadId × Action → Option System := Threads.step act

/-- A new manager and no goroutine at work. -/
def System.initial (lastCommitTime : Int) (branch : String) (upstream : String → Bool) :
    System where
  shared := ⟨newSyncManager lastCommitTime branch upstream, []⟩
  lock := none
  phase _ := .idle

/-- No notified change is lost. -/
structure NothingLost (s : Shared) : Prop where
  pending : s.world.reasons = pendingAfter s.log
  flag : s.world.hasPending = true ↔ s.world.reasons ≠ []
  removals : RemovalsSettled s.log
  late : LateKept s.log

/-! ## The invariant -/

/-- What a phase says about the reasons recorded before a snapshot that is still open,
given how many were removed so far. -/
def Phase.Covers (removed recorded : Nat) : Phase → Prop
  | .outside | .inside => False
  | .taken n | .staged n | .settled n => removed + n ≤ recorded
  | .cleared => removed ≤ recorded

/-- What a phase says about the history. -/
def Phase.Shown (t : ThreadId) (log : History) : Phase → Prop
  | .outside | .inside | .cleared => True
  | .taken n => removedIn log + n ≤ (recordedIn log).length
  | .staged n =>
    ∃ a b, log = a ++ .staged t :: b ∧ .ended t ∉ b ∧
      removedIn log + n ≤ (recordedIn a).length
  | .settled n => SettledAt t n log

structure Phase.Fits (p : Phase) (t : ThreadId) (log : History) : Prop where
  covers : ∀ pre mid, OpenAt t log pre mid →
    p.Covers (removedIn log) (recordedIn pre).length
  shown : p.Shown t log

theorem Phase.Covers.removed_le {removed recorded : Nat} (h : p.Covers removed recorded) :
    removed ≤ recorded := by
  cases p with
  | outside => exact h.elim
  | inside => exact h.elim
  | taken | staged | settled => exact Nat.le_of_add_right_le h
  | cleared => exact h

/-- An entry that removes nothing and neither opens nor ends a cycle of the thread. -/
structure Entry.Neutral (e : Entry) (t : ThreadId) : Prop where
  count : e.count = 0
  not_snapshot : e ≠ .snapshot t
  not_ended : e ≠ .ended t

variable {t : ThreadId}

theorem Phase.Fits.append {log : History} {e : Entry} (h : p.Fits t log) (he : e.Neutral t) :
    p.Fits t (log ++ [e]) := by
  have hremoved : removedIn (log ++ [e]) = removedIn log := by simp [he.count]
  constructor
  · intro pre mid hopen
    rw [hremoved]
    rcases openAt_append hopen with ⟨-, hsnapshot⟩ | ⟨mid', hopen', -⟩
    · exact absurd hsnapshot he.not_snapshot
    · exact h.covers pre mid' hopen'
  · have hnot : ∀ {c : History}, .ended t ∉ c → .ended t ∉ c ++ [e] := by
      intro c hc hmem
      rcases mem_append.mp hmem with hin | hlast
      · exact hc hin
      · exact he.not_ended (mem_singleton.mp hlast).symm
    have hshown := h.shown
    cases p with
    | outside | inside | cleared => trivial
    | taken n =>
      simp only [Shown] at hshown ⊢
      rw [recordedIn_append, length_append]
      omega
    | staged n =>
      obtain ⟨a, b, hlog, hb, hle⟩ := hshown
      refine ⟨a, b ++ [e], ?_, hnot hb, ?_⟩
      · simp [hlog]
      · rw [hremoved]
        exact hle
    | settled n =>
      obtain ⟨a, b, c, hlog, hb, hc, hle⟩ := hshown
      refine ⟨a, b, c ++ [e], ?_, hb, hnot hc, ?_⟩
      · simp [hlog]
      · rw [hremoved]
        exact hle

/-- A goroutine outside the lock has no open snapshot, whatever the others add. -/
theorem Phase.Fits.outside_append {log : History} {e : Entry} (h : Phase.outside.Fits t log)
    (he : e ≠ .snapshot t) : Phase.outside.Fits t (log ++ [e]) := by
  refine ⟨fun pre mid hopen => ?_, trivial⟩
  rcases openAt_append hopen with ⟨-, hsnapshot⟩ | ⟨mid', hopen', -⟩
  · exact he hsnapshot
  · exact h.covers pre mid' hopen'

/-! ## What a call does -/

/-- The pending changes are as they were. -/
structure Keeps (w w' : World) : Prop where
  reasons : w'.reasons = w.reasons
  hasPending : w'.hasPending = w.hasPending

/-- The lock is as it was, too. -/
structure Leaves (w w' : World) : Prop extends Keeps w w' where
  lock : w'.lock = w.lock

/-- What an allowed call does to the phase of its goroutine, the history, the lock and
the manager. -/
inductive Effect (t : ThreadId) (w : World) :
    Phase → Phase → Option Entry → MutexOp → World → Prop
  | quiet {p : Phase} {w' : World} (h : Leaves w w') : Effect t w p p none .keep w'
  | acquired {w' : World} (h : Keeps w w') (hlock : w'.lock ≠ none) :
      Effect t w .outside .inside none .acquire w'
  | snapshot {w' : World} (h : Leaves w w') :
      Effect t w .inside (.taken w.reasons.length) (some (.snapshot t)) .keep w'
  | staged {n : Nat} {w' : World} (h : Leaves w w') :
      Effect t w (.taken n) (.staged n) (some (.staged t)) .keep w'
  | settled {n : Nat} {w' : World} (h : Leaves w w') :
      Effect t w (.staged n) (.settled n) (some (.settled t)) .keep w'
  | cleared {n : Nat} (update : Bool) (now : Int) :
      Effect t w (.settled n) .cleared (some (.removed t (min n w.reasons.length))) .keep
        (w.clearPendingState n update now)
  | ended {p : Phase} {w' : World} (hp : p ≠ .outside) (h : Keeps w w')
      (hlock : w'.lock = none) :
      Effect t w p .outside (some (.ended t)) .release w'

variable {w' : World}

/-- What most calls leave alone. -/
theorem leaves_of_eq (h : w' = w) : Leaves w w' := by
  subst h
  exact ⟨⟨rfl, rfl⟩, rfl⟩

theorem leaves_setUnpushed (w : World) (branch : String) (n : Nat) :
    Leaves w (w.setUnpushed branch n) := ⟨⟨rfl, rfl⟩, rfl⟩

theorem leaves_afterPush (w : World) (branch : String) (outcome : PushOutcome)
    (landed : Bool) : Leaves w (w.afterPush branch outcome landed) := by
  unfold World.afterPush
  split
  · exact leaves_setUnpushed w branch 0
  · exact leaves_of_eq rfl

/-- Every allowed call has one of these effects. -/
theorem effect_handle (t : ThreadId) (o : Outcomes) (w : World) {c : Call}
    (h : cycle.allowed p c) :
    Effect t w p (cycle.next p c (handle o c w).1) (entryOf t w c (handle o c w).1)
      (mutexOpOf c (handle o c w).1) (handle o c w).2 := by
  cases c with
  | tryAcquire label =>
    obtain rfl : p = .outside := h
    cases hlock : w.lock with
    | none =>
      simp only [handle, hlock]
      exact .acquired ⟨rfl, rfl⟩ (by simp)
    | some holder =>
      simp only [handle, hlock]
      exact .quiet (leaves_of_eq rfl)
  | release => exact .ended h ⟨rfl, rfl⟩ rfl
  | snapshot =>
    obtain rfl : p = .inside := h
    exact .snapshot (leaves_of_eq rfl)
  | add =>
    obtain ⟨n, rfl⟩ := h
    cases hadd : o.add with
    | false =>
      simp only [handle, hadd]
      exact .quiet (leaves_of_eq rfl)
    | true =>
      simp only [handle, hadd]
      exact .staged (leaves_of_eq rfl)
  | getStatus =>
    obtain ⟨n, rfl⟩ := h
    cases hclean : o.status.any (·.clean) with
    | false =>
      simp only [handle, cycle, entryOf, hclean]
      exact .quiet (leaves_of_eq rfl)
    | true =>
      simp only [handle, cycle, entryOf, hclean]
      exact .settled (leaves_of_eq rfl)
  | commit message =>
    obtain ⟨n, rfl⟩ := h
    cases hcommit : o.commit with
    | failed =>
      simp only [handle, hcommit]
      exact .quiet (leaves_of_eq rfl)
    | nothingToCommit =>
      simp only [handle, hcommit]
      exact .settled (leaves_of_eq rfl)
    | committed =>
      simp only [handle, hcommit]
      exact .settled (leaves_setUnpushed w w.branch _)
  | clearPendingState n update =>
    obtain rfl : p = .settled n := h
    exact .cleared update o.now
  | push branch again => exact .quiet (leaves_afterPush w branch _ o.landed)
  | pullRebase branch =>
    refine .quiet ?_
    simp only [handle]
    split
    · exact leaves_setUnpushed w branch _
    · exact leaves_of_eq rfl
  | setNeedsPush | notify => exact .quiet ⟨⟨rfl, rfl⟩, rfl⟩
  -- The other calls only read.
  | _ => exact .quiet (leaves_of_eq rfl)

/-- Nothing is lost and no more was removed than was recorded. -/
structure Sound (s : Shared) : Prop where
  nothingLost : NothingLost s
  bound : removedIn s.log ≤ (recordedIn s.log).length

variable {s : Shared}

theorem Sound.keeps (hs : Sound s) (h : Keeps s.world w) :
    Sound ⟨w, s.log⟩ where
  nothingLost :=
    { pending := h.reasons.trans hs.nothingLost.pending
      flag := by
        rw [h.reasons, h.hasPending]
        exact hs.nothingLost.flag
      removals := hs.nothingLost.removals
      late := hs.nothingLost.late }
  bound := hs.bound

/-- An entry that records and removes nothing. -/
theorem Sound.append (hs : Sound s) {e : Entry} (hcount : e.count = 0)
    (hreason : e.reason? = none) (hremoved : ∀ t n, e ≠ .removed t n)
    (hended : ∀ t pre mid, e = .ended t → OpenAt t s.log pre mid →
      removedIn s.log ≤ (recordedIn pre).length) :
    Sound ⟨s.world, s.log ++ [e]⟩ where
  nothingLost :=
    { pending := by simpa [pendingAfter, hcount, hreason] using hs.nothingLost.pending
      flag := hs.nothingLost.flag
      removals := hs.nothingLost.removals.append fun t n he => absurd he (hremoved t n)
      late := hs.nothingLost.late.append hended }
  bound := by simpa [hcount, hreason] using hs.bound

theorem Sound.record (hs : Sound s) (reason : String) :
    Sound ⟨s.world.record reason, s.log ++ [.recorded reason]⟩ where
  nothingLost :=
    { pending := by
        simp only [World.record, pendingAfter, recordedIn_append, removedIn_append,
          removedIn_cons, Entry.count]
        rw [hs.nothingLost.pending, removedIn_nil, Nat.add_zero,
          drop_append_of_le_length hs.bound]
        rfl
      flag := by simp [World.record]
      removals := hs.nothingLost.removals.append fun t n he => by simp at he
      late := hs.nothingLost.late.append fun t pre mid he => by simp at he }
  bound := by
    have := hs.bound
    simp only [recordedIn_append, removedIn_append, removedIn_cons, Entry.count,
      removedIn_nil, length_append]
    omega

/-- What is settled may be removed. -/
theorem Sound.clear (hs : Sound s) {n : Nat} (hsettled : SettledAt t n s.log) (update : Bool)
    (now : Int) :
    Sound ⟨s.world.clearPendingState n update now,
      s.log ++ [.removed t (min n s.world.reasons.length)]⟩ where
  nothingLost :=
    { pending := by
        simp only [World.clearPendingState]
        rw [drop_eq_drop_min]
        simp [pendingAfter, Entry.count, Entry.reason?, hs.nothingLost.pending]
      flag := by simp [World.clearPendingState]
      removals := by
        refine hs.nothingLost.removals.append ?_
        rintro t' n' ⟨⟩
        obtain ⟨a, b, c, hlog, hb, hc, hle⟩ := hsettled
        exact ⟨a, b, c, hlog, hb, hc, by omega⟩
      late := hs.nothingLost.late.append fun t pre mid he => by simp at he }
  bound := by
    have hlength : s.world.reasons.length =
        (recordedIn s.log).length - removedIn s.log := by
      rw [hs.nothingLost.pending, pendingAfter, length_drop]
    have hbound := hs.bound
    simp [Entry.count]
    omega

variable {e : Option Entry} {op : MutexOp}

/-- A call leaves a sound state. -/
theorem Effect.sound (h : Effect t s.world p p' e op w') (hs : Sound s)
    (hfits : p.Fits t s.log) : Sound ⟨w', s.log ++ e.toList⟩ := by
  cases h with
  | quiet h => simpa using hs.keeps h.toKeeps
  | acquired h hlock => simpa using hs.keeps h
  | snapshot h | staged h | settled h =>
    exact (hs.keeps h.toKeeps).append rfl rfl (by simp) (by simp)
  | cleared update now => exact hs.clear hfits.shown update now
  | ended hp h hlock =>
    refine (hs.keeps h).append rfl rfl (by simp) ?_
    rintro t' pre mid ⟨⟩ hopen
    exact (hfits.covers pre mid hopen).removed_le

/-- A call leaves its goroutine in a phase that fits the history. -/
theorem Effect.fits (h : Effect t s.world p p' e op w') (hs : Sound s)
    (hfits : p.Fits t s.log) : p'.Fits t (s.log ++ e.toList) := by
  cases h with
  | quiet h => simpa using hfits
  | acquired h hlock =>
    refine ⟨fun pre mid hopen => ?_, trivial⟩
    exact (hfits.covers pre mid (by simpa using hopen)).elim
  | snapshot h =>
    have hlength : removedIn s.log + s.world.reasons.length =
        (recordedIn s.log).length := by
      rw [hs.nothingLost.pending, pendingAfter, length_drop]
      have := hs.bound
      omega
    refine ⟨fun pre mid hopen => ?_, ?_⟩
    · rcases openAt_append hopen with ⟨rfl, -⟩ | ⟨mid', hopen', -⟩
      · simp [Phase.Covers, Entry.count, hlength]
      · exact (hfits.covers pre mid' hopen').elim
    · simp [Phase.Shown, Entry.count, hlength]
  | @staged n _ h =>
    have hfits' := hfits.append (e := .staged t) ⟨rfl, by simp, by simp⟩
    refine ⟨hfits'.covers, s.log, [], rfl, by simp, ?_⟩
    simpa [Entry.count, Phase.Shown] using hfits.shown
  | @settled n _ h =>
    have hfits' := hfits.append (e := .settled t) ⟨rfl, by simp, by simp⟩
    refine ⟨hfits'.covers, ?_⟩
    obtain ⟨a, b, hlog, hb, hle⟩ := hfits.shown
    refine ⟨a, b, [], ?_, hb, by simp, ?_⟩
    · simp [hlog]
    · simpa [Entry.count] using hle
  | @cleared n update now =>
    refine ⟨fun pre mid hopen => ?_, trivial⟩
    rcases openAt_append hopen with ⟨-, he⟩ | ⟨mid', hopen', -⟩
    · simp at he
    · have hcovers : removedIn s.log + n ≤ _ := hfits.covers pre mid' hopen'
      simp only [Phase.Covers, Option.toList_some, removedIn_append, removedIn_cons,
        removedIn_nil, Entry.count]
      omega
  | ended hp h hlock =>
    refine ⟨fun pre mid hopen => ?_, trivial⟩
    rcases openAt_append hopen with ⟨-, he⟩ | ⟨mid', -, he⟩
    · simp at he
    · exact he rfl

/-- The history changes only under the lock, and never by a snapshot of another
goroutine. -/
theorem Effect.others {u : ThreadId} (h : Effect t s.world p p' e op w') (hu : u ≠ t)
    {q : Phase} (hq : p ≠ .outside → q = .outside) (hfits : q.Fits u s.log) :
    q.Fits u (s.log ++ e.toList) := by
  cases h with
  | quiet | acquired => simpa using hfits
  | snapshot h =>
    obtain rfl := hq (by simp)
    exact hfits.outside_append (by simp [hu.symm])
  | staged | settled | cleared =>
    obtain rfl := hq (by simp)
    exact hfits.outside_append (by simp)
  | ended hp h hlock =>
    obtain rfl := hq hp
    exact hfits.outside_append (by simp)

/-! ## Runs -/

/-- The invariant of the system. -/
structure Invariant (s : System) : Prop where
  sound : Sound s.shared
  exclusive : Exclusive Thread.Critical s
  lock_iff : s.shared.world.lock = none ↔ s.lock = none
  fits : ∀ t, (s.phase t).phase.Fits t s.shared.log

theorem invariant_initial (lastCommitTime : Int) (branch : String)
    (upstream : String → Bool) :
    Invariant (System.initial lastCommitTime branch upstream) where
  sound :=
    { nothingLost :=
        { pending := rfl
          flag := by simp [System.initial, newSyncManager]
          removals := by simp [RemovalsSettled, System.initial]
          late := by simp [LateKept, System.initial] }
      bound := Nat.le_refl 0 }
  exclusive t := by simp [Thread.Critical, System.initial, Thread.idle]
  lock_iff := ⟨fun _ => rfl, fun _ => rfl⟩
  fits t := ⟨by simp [OpenAt, System.initial], trivial⟩

/-- The lock is taken and given back with the phases. -/
theorem Effect.disciplined (h : Effect t w p p' e op w') :
    op.Disciplined (p ≠ .outside) (p' ≠ .outside) := by
  cases h with
  | quiet h => exact Iff.rfl
  | acquired h hlock => exact ⟨by simp, by simp⟩
  | snapshot | staged | settled | cleared => exact iff_of_true (by simp) (by simp)
  | ended hp h hlock => exact ⟨hp, by simp⟩

/-- The manager's lock changes as the mutex does. -/
theorem Effect.lock_iff (h : Effect t w p p' e op w') {before after : Option ThreadId}
    (hop : op.Effect t before after) (hlock : w.lock = none ↔ before = none) :
    w'.lock = none ↔ after = none := by
  cases h with
  | quiet h | snapshot h | staged h | settled h => rw [h.lock, hlock, (hop : after = before)]
  | cleared update now =>
    rw [(hop : after = before)]
    exact hlock
  | acquired h htaken => exact iff_of_false htaken (by simp [hop.2])
  | ended hp h hfree => exact iff_of_true hfree hop

/-- Everything an answered call does. -/
theorem Thread.advance_eq_some {o : Outcomes} {thread : Thread}
    (h : thread.advance t o s = some m) :
    ∃ e, Effect t s.world thread.phase m.phase.phase e m.mutex m.shared.world ∧
      m.shared.log = s.log ++ e.toList := by
  obtain ⟨p, program, hobeys⟩ := thread
  cases program with
  | done a => cases h
  | call c next =>
    cases h
    exact ⟨_, effect_handle t o s.world hobeys.1, rfl⟩

theorem Thread.phase_of_done {thread : Thread} {u : Unit} (h : thread.program = .done u) :
    thread.phase = .outside := by
  have hobeys := thread.obeys
  rw [h] at hobeys
  exact hobeys

theorem act_disciplined {thread : Thread} {action : Action}
    (h : act t thread action s = some m) :
    m.mutex.Disciplined thread.Critical m.phase.Critical := by
  cases action with
  | notifyChange closed cfg reason =>
    cases h
    exact Iff.rfl
  | start task =>
    cases hprogram : thread.program with
    | done u =>
      simp only [act, hprogram, Option.some.injEq] at h
      subst h
      refine iff_of_false (fun hcritical => hcritical rfl) fun hcritical => ?_
      exact hcritical (Thread.phase_of_done hprogram)
    | call c next => simp [act, hprogram] at h
  | advance o =>
    obtain ⟨e, heffect, -⟩ := Thread.advance_eq_some h
    exact heffect.disciplined

theorem Invariant.notifyChange {s : System} (hs : Invariant s) (closed : Bool)
    (cfg : GitSyncConfig) (reason : String) :
    let log := if records closed cfg then s.shared.log ++ [.recorded reason] else s.shared.log
    Sound ⟨s.shared.world.notifyChange closed cfg reason, log⟩ ∧
      (s.shared.world.notifyChange closed cfg reason).lock = s.shared.world.lock ∧
      ∀ t, (s.phase t).phase.Fits t log := by
  cases hrecords : records closed cfg with
  | false => simpa [World.notifyChange, hrecords] using ⟨hs.sound, hs.fits⟩
  | true =>
    refine ⟨?_, ?_, fun t => ?_⟩
    · simpa [World.notifyChange, hrecords] using hs.sound.record reason
    · simp [World.notifyChange, hrecords, World.record]
    · simpa using (hs.fits t).append (e := .recorded reason) ⟨rfl, by simp, by simp⟩

/-- One step of the system keeps the invariant. -/
theorem Invariant.step {s s' : System} {e : ThreadId × Action} (hs : Invariant s)
    (hstep : System.step s e = some s') : Invariant s' := by
  have hexclusive : Exclusive Thread.Critical s' :=
    hs.exclusive.step (fun _ _ _ _ _ => act_disciplined) hstep
  obtain ⟨t, action⟩ := e
  obtain ⟨m, hm, hshared, hphase, hlock⟩ := Threads.step_eq_some.mp hstep
  cases action with
  | notifyChange closed cfg reason =>
    cases hm
    obtain ⟨hsound, hsame, hfits⟩ := hs.notifyChange closed cfg reason
    refine ⟨?_, hexclusive, ?_, fun u => ?_⟩
    · rw [hshared]
      exact hsound
    · rw [hshared, hlock]
      exact hsame ▸ hs.lock_iff
    · rw [hphase, update_eq_self, hshared]
      exact hfits u
  | start task =>
    cases hprogram : (s.phase t).program with
    | call c next => simp [act, hprogram] at hm
    | done u =>
      simp only [act, hprogram, Option.some.injEq] at hm
      subst hm
      refine ⟨hshared ▸ hs.sound, hexclusive, ?_, fun t' => ?_⟩
      · rw [hshared, hlock]
        exact hs.lock_iff
      · rw [hphase, hshared]
        by_cases ht : t' = t
        · subst ht
          rw [update_self]
          have hfits := hs.fits t'
          rw [Thread.phase_of_done hprogram] at hfits
          exact hfits
        · rw [update_of_ne ht]
          exact hs.fits t'
  | advance o =>
    obtain ⟨e, heffect, hlog⟩ := Thread.advance_eq_some hm
    have hshared : s'.shared = ⟨m.shared.world, s.shared.log ++ e.toList⟩ := by
      rw [hshared, ← hlog]
    refine ⟨?_, hexclusive, ?_, fun u => ?_⟩
    · rw [hshared]
      exact heffect.sound hs.sound (hs.fits t)
    · rw [hshared]
      exact heffect.lock_iff hlock hs.lock_iff
    · rw [hphase, hshared]
      by_cases hu : u = t
      · subst hu
        rw [update_self]
        exact heffect.fits hs.sound (hs.fits u)
      · rw [update_of_ne hu]
        refine heffect.others hu (fun hp => ?_) (hs.fits u)
        by_contra hq
        exact hu (hs.exclusive.unique hq hp)

/-- In every run, no notified change is lost. -/
theorem no_notified_change_lost {lastCommitTime : Int} {branch : String}
    {upstream : String → Bool} {es : List (ThreadId × Action)} {s : System}
    (hrun : run System.step (System.initial lastCommitTime branch upstream) es = some s) :
    NothingLost s.shared :=
  (run_invariant (fun _ _ _ => Invariant.step)
    (invariant_initial lastCommitTime branch upstream) hrun).sound.nothingLost

/-- A scheduled cycle with a change that is notified after its snapshot. -/
def lateChange : List (ThreadId × Action) :=
  let advance : ThreadId × Action := (1, .advance (.good (10 * minute)))
  [(0, .notifyChange false (Outcomes.good 0).config "early"), (1, .start .checkAndSync)] ++
    List.replicate 11 advance ++
    [(2, .notifyChange false (Outcomes.good 0).config "late")] ++ List.replicate 8 advance

theorem no_notified_change_lost_sample :
    ∃ s, run System.step (System.initial 0 "main" fun _ => true) lateChange = some s ∧
      s.lock = none ∧ s.shared.world.reasons = ["late"] ∧ NothingLost s.shared := by
  have hrun : run System.step (System.initial 0 "main" fun _ => true) lateChange =
      some (_ : System) := rfl
  exact ⟨_, hrun, rfl, rfl, no_notified_change_lost hrun⟩

/-- In every run at most one cycle holds the operation lock, which is free when none does. -/
theorem cycles_exclude {lastCommitTime : Int} {branch : String} {upstream : String → Bool}
    {es : List (ThreadId × Action)} {s : System}
    (hrun : run System.step (System.initial lastCommitTime branch upstream) es = some s) :
    (∀ t u, (s.phase t).Critical → (s.phase u).Critical → t = u) ∧
      (s.shared.world.lock = none ↔ ∀ t, ¬(s.phase t).Critical) := by
  have hs := run_invariant (fun _ _ _ => Invariant.step) (invariant_initial _ _ _) hrun
  refine ⟨fun t u => hs.exclusive.unique, hs.lock_iff.trans ?_⟩
  rw [Option.eq_none_iff_forall_ne_some]
  exact forall_congr' fun t => not_congr (hs.exclusive t).symm

theorem cycles_exclude_sample :
    ∃ s, run System.step (System.initial 0 "main" fun _ => true) lateChange = some s ∧
      ∀ t, ¬(s.phase t).Critical := by
  have hrun : run System.step (System.initial 0 "main" fun _ => true) lateChange =
      some (_ : System) := rfl
  exact ⟨_, hrun, (cycles_exclude hrun).2.mp rfl⟩

end Yanta.Git
