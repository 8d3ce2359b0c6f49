import Yanta.Document.TagRace
import Yanta.Watcher.Callbacks

/-!
# Which changes the watcher reports

The services of the app, the watcher and other programs, interleaved. The
document and tag services are the threads of `Yanta.Document.Concurrent`; a
`Save` additionally notes the hash of what it wrote before it indexes the file.
The journal service writes its files without a note. An event of the file
system may be delivered any number of times and after any delay, but only for a
path that was written.

The watcher recognises a write of the app by the noted hash alone, so a write
that is not noted, or not yet, is reported as a change made by another program.
The main result is that nothing else goes wrong: as long as a callback looks at
a path only when the last write of the app is noted, and keeps clear of the
app's next write and of other callbacks, what it reports was written by another
program.
-/

namespace Yanta.FileWatcher

open Go Vault Document Index Support

variable {docPath : String} {call : Call}

/-! ## The files a call writes -/

/-- The document whose file the next move of a call may replace or remove. -/
def documentOf (call : Call) : Phase → Option String
  | .ready docPath _ | .failing docPath _ => some docPath
  | .edited _ _ => some call.docPath
  | _ => none

/-- The file of that document. -/
def fileOf (call : Call) (phase : Phase) : Option String :=
  (documentOf call phase).bind fun docPath => (documentPath docPath).toOption

section

variable {ι β : Type} {rt : Runtime β}

/-- What a move of a call does to the files of the vault. -/
def FilesMove (call : Call) (phase : Phase) (s t : Shared ι β) : Prop :=
  t.vault = s.vault ∧ t.log = s.log ∨
    t.log.length ≠ s.log.length ∧
      ∃ path, fileOf call phase = some path ∧
        ∀ p, p ≠ path → t.vault.lookup p = s.vault.lookup p

theorem filesMove_write {phase : Phase} {s : Shared ι β} {i : ι} {d : DocumentFile}
    {now : Time} {mtime : Int} {faults : WriteFaults} {v : Vault β}
    (hdoc : documentOf call phase = some docPath)
    (h : writeFile rt now mtime faults s.vault docPath d = .ok v) :
    FilesMove call phase s (s.record i false v) := by
  obtain ⟨-, target, hdata, rfl⟩ := writeFile_eq_ok.mp h
  have hpath := (writeData_eq_ok.mp hdata).1
  refine .inr ⟨by simp [Shared.record], target.1, ?_, ?_⟩
  · simp [fileOf, hdoc, hpath, Except.toOption]
  · intro p hp
    exact AList.lookup_insert_ne hp

theorem filesMove_delete {phase : Phase} {s : Shared ι β} {i : ι} {fault : Option String}
    {v : Vault β} (hdoc : documentOf call phase = some docPath)
    (h : deleteFile fault s.vault docPath = .ok v) :
    FilesMove call phase s (s.record i true v) := by
  cases hpath : documentPath docPath with
  | error e =>
    simp only [deleteFile, hpath, wrapIOError_eq_ok, bind_eq_ok, Sentinel.of_eq_ok,
      reduceCtorEq, false_and, exists_false] at h
  | ok absPath =>
    cases hfile : s.vault.lookup absPath with
    | none =>
      have hmissing : ∃ e, deleteFile fault s.vault docPath = .error e ∧
          e.cause = some .notFound := deleteFile_of_missing hpath hfile
      obtain ⟨e, he, -⟩ := hmissing
      rw [he] at h
      cases h
    | some file =>
      obtain ⟨-, rfl⟩ := (deleteFile_eq_ok hpath hfile).mp h
      refine .inr ⟨by simp [Shared.record], absPath, ?_, ?_⟩
      · simp [fileOf, hdoc, hpath, Except.toOption]
      · intro p hp
        exact AList.lookup_erase_ne hp

section

variable {i : ι} {env : StepEnv} {s : Shared ι β} {phase : Phase}

/-- Every move of a step does to the files what a move of the call may do. -/
def MovesFiles (call : Call) (phase : Phase) (s : Shared ι β) (step : Step ι β) : Prop :=
  EachMove (fun m => FilesMove call phase s m.shared) step

theorem movesFiles_keep {m : Move Phase (Shared ι β)} (hvault : m.shared.vault = s.vault)
    (hlog : m.shared.log = s.log) :
    MovesFiles call phase s (some m) :=
  eachMove_some (.inl ⟨hvault, hlog⟩)

theorem actSave_files {req : SaveRequest} :
    MovesFiles (.save req) phase s (actSave rt i req env s phase) := by
  cases phase with
  | idle => exact movesFiles_keep rfl rfl
  | ready docPath docFile =>
    refine eachMove_branch (fun _ => movesFiles_keep rfl rfl) fun v hwrite => ?_
    exact eachMove_some (filesMove_write rfl (label_eq_ok.mp hwrite))
  | failing docPath e =>
    refine eachMove_branch (fun _ => movesFiles_keep rfl rfl) fun v hdelete => ?_
    exact eachMove_some (filesMove_delete rfl hdelete)
  | locked | written | indexing =>
    rw [actSave]
    exact eachMove_branch (fun _ => movesFiles_keep rfl rfl) fun _ _ => movesFiles_keep rfl rfl
  | _ => exact eachMove_none

theorem actMove_files {targetAlias : String} :
    MovesFiles (.move docPath targetAlias) phase s
      (actMove rt i docPath targetAlias env s phase) := by
  cases phase with
  | waiting => exact movesFiles_keep rfl rfl
  | ready path docFile =>
    refine eachMove_branch (fun _ => movesFiles_keep rfl rfl) fun v hwrite => ?_
    exact eachMove_some (filesMove_write rfl (label_eq_ok.mp hwrite))
  | idle | locked | fetched | written | indexing =>
    rw [actMove]
    exact eachMove_branch (fun _ => movesFiles_keep rfl rfl) fun _ _ => movesFiles_keep rfl rfl
  | _ => exact eachMove_none

theorem actTags_files {edit : TagEdit} :
    MovesFiles (.tags docPath edit) phase s (actTags rt i docPath edit env s phase) := by
  cases phase with
  | edited docFile seen =>
    refine eachMove_branch (fun _ => movesFiles_keep rfl rfl) fun v hwrite => ?_
    exact eachMove_some (filesMove_write rfl (label_eq_ok.mp hwrite))
  | idle | tagged =>
    exact eachMove_branch (fun _ => movesFiles_keep rfl rfl) fun _ _ => movesFiles_keep rfl rfl
  | _ => exact eachMove_none

theorem act_files {calls : ι → Call} {m : Move Phase (Shared ι β)}
    (h : act rt calls i phase env s = some m) : FilesMove (calls i) phase s m.shared := by
  have hmoves : MovesFiles (calls i) phase s (act rt calls i phase env s) :=
    eachMove_act (fun _ hcall => hcall ▸ actSave_files) (fun _ _ hcall => hcall ▸ actMove_files)
      fun _ _ hcall => hcall ▸ actTags_files
  exact hmoves m h

end

end

/-! ## The system -/

/-- A callback of a timer that has fired. `seen` counts the writes of other
programs when it read the file; no code reads it. -/
structure Callback where
  relPath : String
  op : Op
  stage : Stage
  seen : Nat

/-- The callback has read the file and has not reported the change yet. -/
def Callback.midway (c : Callback) : Bool :=
  match c.stage with
  | .changed _ | .indexed _ => true
  | _ => false

/-- A reported change, and whether another program had written the file since
the last version that the app wrote or reconciled. -/
structure Report where
  path : String
  external : Bool
deriving DecidableEq, Repr

/-- What happened to each path: whether it was written at all, whether the app
wrote it without a note since, how often other programs wrote it, and how often
they had when the app last wrote or reconciled it. -/
structure History where
  touched : String → Bool
  unnoted : String → Bool
  writes : String → Nat
  known : String → Nat
  reports : List Report

namespace History

/-- The app replaces or removes a file. -/
def appWrote (h : History) (path : String) : History :=
  { h with
    touched := Function.update h.touched path true
    unnoted := Function.update h.unnoted path true
    known := Function.update h.known path (h.writes path) }

/-- Another program replaces or removes a file. -/
def otherWrote (h : History) (path : String) : History :=
  { h with
    touched := Function.update h.touched path true
    writes := Function.update h.writes path (h.writes path + 1) }

/-- The hash of the app's last write is recorded under this path. -/
def appNoted (h : History) (path : String) : History :=
  { h with unnoted := Function.update h.unnoted path false }

/-- A change is reported; the version that was read is reconciled if its hash
is known. -/
def reported (h : History) (path : String) (reconciled : Bool) (seen : Nat) :
    History :=
  { h with
    reports := h.reports ++ [⟨path, decide (h.known path < h.writes path)⟩]
    known := if reconciled then Function.update h.known path seen else h.known }

end History

structure System (ι β : Type) where
  calls : Threads ι Phase (Shared ι β)
  noted : ι → Bool
  watcher : Watcher
  running : List Callback
  clock : Time
  history : History

/-- Who moves, and what its environment answers. -/
inductive Event (ι β : Type) where
  /-- A call of the document or tag service. -/
  | call (e : ι × StepEnv)
  /-- A `Save` that has written reads its hash back and notes it. -/
  | note (i : ι) (now : Time) (fault : Option String)
  /-- The journal service replaces or removes a file. -/
  | edit (path : String) (file : Option (VaultFile β))
  /-- Another program replaces or removes a file. -/
  | other (path : String) (file : Option (VaultFile β))
  /-- The file system delivers an event. -/
  | notify (path : String) (op : Op)
  /-- A timer fires. -/
  | fire (k : Nat)
  /-- A callback moves. -/
  | advance (k : Nat) (env : CallbackEnv)

section

variable {ι β : Type} [DecidableEq ι] (rt : Runtime β) (root : String) (calls : ι → Call)

def System.vault (s : System ι β) : Vault β := s.calls.shared.vault

def System.withVault (s : System ι β) (v : Vault β) : System ι β :=
  { s with calls := { s.calls with shared := { s.calls.shared with vault := v } } }

/-- The document a `Save` has written and is about to note. -/
def noteTarget (s : System ι β) (i : ι) : Option String :=
  match s.calls.phase i with
  | .written docPath =>
    if (calls i).isSave && !s.noted i then some docPath else none
  | _ => none

/-- The history after a move of call `i`. -/
def historyAfter (s : System ι β) (i : ι) (t : Threads ι Phase (Shared ι β)) :
    History :=
  if t.shared.log.length = s.calls.shared.log.length then s.history
  else
    match fileOf (calls i) (s.calls.phase i) with
    | some path => s.history.appWrote path
    | none => s.history

def stepCall (s : System ι β) (e : ι × StepEnv) : Option (System ι β) :=
  if (noteTarget calls s e.1).isSome then none
  else
    (s.calls.step (act rt calls) e).map fun t =>
      { s with calls := t, history := historyAfter calls s e.1 t }

/-- The hash that was read back is noted. -/
def afterNote (s : System ι β) (i : ι) (now : Time) (docPath : String) :
    Option String → System ι β
  | some hash =>
    { s with
      noted := Function.update s.noted i true
      watcher := noteAppWrite s.watcher docPath hash
      clock := now
      history := if hash = "" then s.history else s.history.appNoted docPath }
  | none => { s with noted := Function.update s.noted i true, clock := now }

def stepNote (s : System ι β) (i : ι) (now : Time) (fault : Option String) :
    Option (System ι β) :=
  if now < s.clock then none
  else
    (noteTarget calls s i).map fun docPath =>
      afterNote s i now docPath (diskContentHash rt now fault s.vault docPath)

def stepFire (s : System ι β) (k : Nat) : Option (System ι β) :=
  s.watcher.timers[k]?.map fun t =>
    { s with
      watcher := { s.watcher with timers := s.watcher.timers.eraseIdx k }
      running := s.running ++ [⟨t.relPath, t.op, .started, 0⟩] }

/-- The callback at its next stage. -/
def Callback.at (c : Callback) (h : History) (stage : Stage) : Callback :=
  { c with
    stage := stage
    seen := if c.stage = .started then h.writes c.relPath else c.seen }

/-- The version that a report reconciles, if it has a hash. -/
def Stage.hash : Stage → Option String
  | .changed hash | .indexed hash => hash
  | _ => none

/-- The system after a move of the callback `c`. -/
def afterAdvance (s : System ι β) (k : Nat) (now : Time) (c : Callback) (a : Advance) :
    System ι β :=
  { s with
    calls := { s.calls with shared := { s.calls.shared with db := a.db } }
    watcher := a.watcher
    running := s.running.eraseIdx k ++ (a.next.map (c.at s.history)).toList
    clock := now
    history :=
      if a.reports then s.history.reported c.relPath c.stage.hash.isSome c.seen
      else s.history }

def stepAdvance (s : System ι β) (k : Nat) (env : CallbackEnv) :
    Option (System ι β) :=
  if env.now < s.clock then none
  else
    s.running[k]?.map fun c =>
      afterAdvance s k env.now c
        (executeIndexing rt env s.vault s.calls.shared.db s.watcher c.relPath c.op c.stage)

def step (s : System ι β) : Event ι β → Option (System ι β)
  | .call e => stepCall rt calls s e
  | .note i now fault => stepNote rt calls s i now fault
  | .edit path file =>
    some { s.withVault (putFile s.vault path file) with
      history := s.history.appWrote path }
  | .other path file =>
    some { s.withVault (putFile s.vault path file) with
      history := s.history.otherWrote path }
  | .notify path op =>
    if s.history.touched path then
      some { s with watcher := handleEvent root s.watcher path op }
    else none
  | .fire k => stepFire s k
  | .advance k env => stepAdvance rt s k env

/-- Nothing has happened yet. -/
def begin (clock : Time) (v : Vault β) (db : Db) : System ι β where
  calls := start v db
  noted _ := false
  watcher := newWatcher
  running := []
  clock := clock
  history :=
    { touched := fun _ => false
      unnoted := fun _ => false
      writes := fun _ => 0
      known := fun _ => 0
      reports := [] }

end

end Yanta.FileWatcher
