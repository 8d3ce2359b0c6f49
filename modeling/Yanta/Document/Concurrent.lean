import Yanta.Document.Save
import Yanta.Support.Runs
import Yanta.Support.Threads

/-!
# Concurrent commands on documents

`Save` and `MoveToProject` of the document service and the tag commands of the
tag service, as threads that interleave at the level of single file reads, file
writes and transactions. `Save` and `MoveToProject` hold `saveMu` from their
first access to a file to their return; the tag commands go through
`FileWriter.UpdateFile`, which takes no lock.

The shared state keeps a history of the file operations: which call made it and
the vault before and after it. No call reads the history.
-/

namespace Yanta.Document

open Go Yanta.Vault Index Support

/-! ## Tag commands -/

/-- `AddTagsToDocument`, `RemoveTagsFromDocument` and `RemoveAllDocumentTags`. -/
inductive TagEdit where
  | add (names : List String)
  | remove (names : List String)
  | removeAll
deriving DecidableEq, Repr

/-- The checks on the arguments. -/
def TagEdit.check (docPath : String) : TagEdit → Except String Unit
  | .removeAll => if docPath = "" then .error "document path is required" else .ok ()
  | .add names | .remove names =>
    if docPath = "" then .error "document path is required"
    else if names = [] then .error "at least one tag name is required"
    else .ok ()

/-- The function passed to `UpdateFile`. -/
def TagEdit.apply (d : DocumentFile) (edit : TagEdit) : DocumentFile :=
  { d with
    docMeta := { d.docMeta with
      tags :=
        match edit with
        | .add names => d.docMeta.tags ++ names
        | .remove names => d.docMeta.tags.filter fun t => !names.contains t
        | .removeAll => [] } }

/-- `Store.RemoveTagsFromDocument`. -/
def removeTagsFromDocument (lower : Char → Char) (db : Db) (path : String)
    (names : List String) : Except String Db :=
  if path = "" then .error "document path is required"
  else
    let names := normalizeTags lower names
    .ok { db with
      docTag := Function.update db.docTag path
        ((db.docTag path).filter fun t => !names.contains t) }

/-- The transaction that follows the update of the file. -/
def TagEdit.index (lower : Char → Char) (db : Db) (path : String) :
    TagEdit → Except String Db
  | .add names => addTagsToDocument lower db path names
  | .remove names => removeTagsFromDocument lower db path names
  | .removeAll =>
    if path = "" then .error "document path is required"
    else .ok (db.removeAllDocTags path)

/-! ## Threads -/

inductive Call where
  | save (req : SaveRequest)
  | move (docPath targetAlias : String)
  | tags (docPath : String) (edit : TagEdit)

/-- Where a call is in its code. -/
inductive Phase where
  /-- The call has not done anything yet. -/
  | idle
  /-- `MoveToProject` waits for the mutex. -/
  | waiting
  /-- The mutex was taken and nothing was read. -/
  | locked
  /-- `MoveToProject` has read the file. -/
  | fetched (docFile : DocumentFile)
  /-- The file is about to be written. -/
  | ready (docPath : String) (docFile : DocumentFile)
  /-- The file was written and is about to be indexed. -/
  | written (docPath : String)
  /-- The indexer has read the file. -/
  | indexing (docPath : String) (docFile : DocumentFile)
  /-- Indexing failed and the file is about to be removed. -/
  | failing (docPath : String) (e : DocError)
  /-- A tag command has read the file, after `seen` file operations. -/
  | edited (docFile : DocumentFile) (seen : Nat)
  /-- A tag command has written the file. -/
  | tagged
  | done (result : Except DocError String)

/-- The phases between `saveMu.Lock()` and `saveMu.Unlock()`. -/
def Phase.critical : Phase → Bool
  | .locked | .fetched _ | .ready _ _ | .written _ | .indexing _ _ | .failing _ _ => true
  | .idle | .waiting | .edited _ _ | .tagged | .done _ => false

/-- A replacement or removal of a document file. -/
structure FileRecord (ι β : Type) where
  caller : ι
  removal : Bool
  before : Vault β
  after : Vault β

/-- What the calls share. `log` is the history of the file operations and
`saved` lists the `Save` calls that have succeeded, in order. -/
structure Shared (ι β : Type) where
  vault : Vault β
  db : Db
  log : List (FileRecord ι β)
  saved : List ι

/-- The vault changes, and the history tells how. -/
def Shared.record {ι β : Type} (s : Shared ι β) (caller : ι) (removal : Bool)
    (after : Vault β) : Shared ι β :=
  { s with
    vault := after
    log := s.log ++ [⟨caller, removal, s.vault, after⟩] }

/-- What the environment of a call answers in one step. -/
structure StepEnv extends SaveEnv where
  lookupFault : Option String
  txFault : Option String

abbrev Step (ι β : Type) := Option (Move Phase (Shared ι β))

section

variable {ι β : Type} (rt : Runtime β)

/-- The call returns while it holds the mutex. -/
def returnLocked (s : Shared ι β) (result : Except DocError String) : Step ι β :=
  some ⟨.done result, s, .release⟩

/-- The call returns; it does not hold the mutex. -/
def returnFree (s : Shared ι β) (result : Except DocError String) : Step ι β :=
  some ⟨.done result, s, .keep⟩

def goto (s : Shared ι β) (phase : Phase) : Step ι β := some ⟨phase, s, .keep⟩

/-- `Service.Save`. -/
def actSave (i : ι) (req : SaveRequest) (env : StepEnv) (s : Shared ι β) :
    Phase → Step ι β
  | .idle => some ⟨.locked, s, .acquire⟩
  | .locked =>
    branch (saveDocument rt env.toSaveEnv s.vault req)
      (fun e => returnLocked s (.error e))
      (fun docFile => goto s (.ready (savePath env.toSaveEnv req) docFile))
  | .ready docPath docFile =>
    branch (label "writing document file"
        (writeFile rt env.writeTime env.mtime env.writeFaults s.vault docPath docFile))
      (fun e => returnLocked s (.error e))
      (fun v => goto (s.record i false v) (.written docPath))
  | .written docPath =>
    branch (label "indexing document" (label "reading document file"
        (readFile rt env.indexTime (env.indexFaults .read) s.vault docPath)))
      (fun e => goto s (.failing docPath e))
      (fun docFile => goto s (.indexing docPath docFile))
  | .indexing docPath docFile =>
    branch (label "indexing document"
        (indexParsed rt env.indexFaults s.vault s.db docPath docFile))
      (fun e => goto s (.failing docPath e))
      (fun db => returnLocked { s with db := db, saved := s.saved ++ [i] }
        (.ok docPath))
  | .failing docPath e =>
    branch (deleteFile env.removeFault s.vault docPath)
      (fun _ => returnLocked s (.error e))
      (fun v => returnLocked (s.record i true v) (.error e))
  | _ => none

/-- The row of an active document and whether it is in another project. -/
def moveTarget (fault : Option String) (db : Db) (docPath targetAlias : String) :
    Except DocError Unit := do
  labelText "getting document" (attempt fault)
  match db.doc.lookup docPath with
  | none => labelText "getting document" (.error "sql: no rows in result set")
  | some row =>
    if row.deleted then
      labelText "getting document" (.error "sql: no rows in result set")
    else if row.projectAlias = targetAlias then
      .error (.plain "document is already in the target project")
    else .ok ()

/-- `MoveToProject` changes the project and the time of the update. -/
def movedFile (now : Time) (targetAlias : String) (d : DocumentFile) : DocumentFile :=
  { d with docMeta := { d.docMeta with project := targetAlias, updated := now } }

/-- The checks of `MoveToProject` before it takes the mutex. -/
def moveCheck (fault : Option String) (docPath targetAlias : String) :
    Except DocError Unit := do
  if trimSpace docPath = "" then .error (.plain "path is required")
  else
    labelText "invalid target alias" (validateAlias (trimSpace targetAlias))
    labelText "target project not found" (attempt fault)

/-- `Service.MoveToProject`. -/
def actMove (i : ι) (docPath targetAlias : String) (env : StepEnv)
    (s : Shared ι β) : Phase → Step ι β
  | .idle =>
    branch (moveCheck env.lookupFault docPath targetAlias)
      (fun e => returnFree s (.error e))
      (fun _ => goto s .waiting)
  | .waiting => some ⟨.locked, s, .acquire⟩
  | .locked =>
    branch (label "reading document"
        (readFile rt env.readTime env.readFault s.vault (trimSpace docPath)))
      (fun e => returnLocked s (.error e))
      (fun docFile => goto s (.fetched docFile))
  | .fetched docFile =>
    branch (moveTarget env.lookupFault s.db (trimSpace docPath) (trimSpace targetAlias))
      (fun e => returnLocked s (.error e))
      (fun _ => goto s (.ready (trimSpace docPath)
        (movedFile env.buildTime (trimSpace targetAlias) docFile)))
  | .ready docPath docFile =>
    branch (label "writing document"
        (writeFile rt env.writeTime env.mtime env.writeFaults s.vault docPath docFile))
      (fun e => returnLocked s (.error e))
      (fun v => goto (s.record i false v) (.written docPath))
  | .written docPath =>
    branch (label "indexing document" (label "reading document file"
        (readFile rt env.indexTime (env.indexFaults .read) s.vault docPath)))
      (fun e => returnLocked s (.error e))
      (fun docFile => goto s (.indexing docPath docFile))
  | .indexing docPath docFile =>
    branch (label "indexing document"
        (indexParsed rt env.indexFaults s.vault s.db docPath docFile))
      (fun e => returnLocked s (.error e))
      (fun db => returnLocked { s with db := db } (.ok docPath))
  | _ => none

/-- The tag commands: `FileWriter.UpdateFile`, then the transaction. -/
def actTags (i : ι) (docPath : String) (edit : TagEdit) (env : StepEnv)
    (s : Shared ι β) : Phase → Step ι β
  | .idle =>
    branch (do
        passOn (edit.check docPath)
        label "updating document file"
          (readFile rt env.readTime env.readFault s.vault docPath))
      (fun e => returnFree s (.error e))
      (fun docFile => goto s (.edited (edit.apply docFile) s.log.length))
  | .edited docFile _ =>
    branch (label "updating document file"
        (writeFile rt env.writeTime env.mtime env.writeFaults s.vault docPath
          (docFile.updateTimestamp env.buildTime)))
      (fun e => returnFree s (.error e))
      (fun v => goto (s.record i false v) .tagged)
  | .tagged =>
    branch (labelText "updating tag index" (do
        attempt env.txFault
        edit.index rt.lower s.db docPath))
      (fun e => returnFree s (.error e))
      (fun db => returnFree { s with db := db } (.ok docPath))
  | _ => none

/-- The code of each call. -/
def act (calls : ι → Call) (i : ι) (phase : Phase) (env : StepEnv)
    (s : Shared ι β) : Step ι β :=
  match calls i with
  | .save req => actSave rt i req env s phase
  | .move docPath targetAlias => actMove rt i docPath targetAlias env s phase
  | .tags docPath edit => actTags rt i docPath edit env s phase

/-- Nothing has started. -/
def start (v : Vault β) (db : Db) : Threads ι Phase (Shared ι β) where
  shared := ⟨v, db, [], []⟩
  lock := none
  phase _ := .idle

variable {rt}

/-! ## What every move does -/

/-- What the other calls and the mutex see of a move: either the vault and its
history stay as they are, or the history records the change; and the mutex is
taken and given back with the critical phases. -/
structure MoveShape (i : ι) (phase : Phase) (s : Shared ι β)
    (m : Move Phase (Shared ι β)) : Prop where
  files : m.shared.vault = s.vault ∧ m.shared.log = s.log ∨
    ∃ removal, m.shared.log = s.log ++ [⟨i, removal, s.vault, m.shared.vault⟩]
  mutex : m.mutex.Disciplined (phase.critical = true) (m.phase.critical = true)

/-- Every move that a step may make has the property. -/
def EachMove (P : Move Phase (Shared ι β) → Prop) (step : Step ι β) : Prop :=
  ∀ m, step = some m → P m

variable {m : Move Phase (Shared ι β)} {calls : ι → Call}

section

variable {P : Move Phase (Shared ι β) → Prop}

theorem eachMove_none : EachMove P none := fun _ h => by cases h

theorem eachMove_some (h : P m) : EachMove P (some m) :=
  fun _ heq => Option.some.inj heq ▸ h

theorem eachMove_branch
    {ε α : Type} {x : Except ε α} {onError : ε → Step ι β} {onOk : α → Step ι β}
    (herror : ∀ e, EachMove P (onError e)) (hok : ∀ a, x = .ok a → EachMove P (onOk a)) :
    EachMove P (branch x onError onOk) := by
  cases x with
  | error e => exact herror e
  | ok a => exact hok a rfl

theorem eachMove_act {i : ι} {env : StepEnv} {s : Shared ι β} {phase : Phase}
    (hsave : ∀ req, calls i = .save req → EachMove P (actSave rt i req env s phase))
    (hmove : ∀ docPath targetAlias, calls i = .move docPath targetAlias →
      EachMove P (actMove rt i docPath targetAlias env s phase))
    (htags : ∀ docPath edit, calls i = .tags docPath edit →
      EachMove P (actTags rt i docPath edit env s phase)) :
    EachMove P (act rt calls i phase env s) := by
  unfold act
  cases hcall : calls i with
  | save req => exact hsave req hcall
  | move docPath targetAlias => exact hmove docPath targetAlias hcall
  | tags docPath edit => exact htags docPath edit hcall

/-- Every state in which the call is after the move has the property. -/
def LeadsTo (I : Threads ι Phase (Shared ι β) → Prop) (s : Threads ι Phase (Shared ι β)) (i : ι)
    [DecidableEq ι] (m : Move Phase (Shared ι β)) : Prop :=
  ∀ s' : Threads ι Phase (Shared ι β), s'.shared = m.shared →
    s'.phase = Function.update s.phase i m.phase → I s'

theorem EachMove.step [DecidableEq ι] {I : Threads ι Phase (Shared ι β) → Prop}
    {s s' : Threads ι Phase (Shared ι β)} {i : ι} {env : StepEnv}
    (h : EachMove (LeadsTo I s i) (act rt calls i (s.phase i) env s.shared))
    (hstep : s.step (act rt calls) (i, env) = some s') : I s' := by
  obtain ⟨m, hm, hshared, hphase, -⟩ := Threads.step_eq_some.mp hstep
  exact h m hm s' hshared hphase

end

section

variable {i : ι} {env : StepEnv} {s : Shared ι β} {phase : Phase}

theorem shape_keep {next : Phase} {t : Shared ι β} (hvault : t.vault = s.vault)
    (hlog : t.log = s.log) (hcritical : next.critical = phase.critical) :
    EachMove (MoveShape i phase s) (goto t next) :=
  eachMove_some ⟨.inl ⟨hvault, hlog⟩, by simp [MutexOp.Disciplined, hcritical]⟩

theorem shape_record {next : Phase} {removal : Bool} {v : Vault β}
    (hcritical : next.critical = phase.critical) :
    EachMove (MoveShape i phase s) (goto (s.record i removal v) next) :=
  eachMove_some ⟨.inr ⟨removal, rfl⟩, by simp [MutexOp.Disciplined, hcritical]⟩

theorem shape_returnLocked {t : Shared ι β} {result : Except DocError String}
    (hfiles : t.vault = s.vault ∧ t.log = s.log ∨
      ∃ removal, t.log = s.log ++ [⟨i, removal, s.vault, t.vault⟩])
    (hcritical : phase.critical = true) :
    EachMove (MoveShape i phase s) (returnLocked t result) :=
  eachMove_some ⟨hfiles, hcritical, by simp [Phase.critical]⟩

theorem shape_acquire (hcritical : phase.critical = false) :
    EachMove (MoveShape i phase s) (some ⟨.locked, s, .acquire⟩) :=
  eachMove_some ⟨.inl ⟨rfl, rfl⟩, by simp [hcritical], rfl⟩

theorem actSave_shape {req : SaveRequest} :
    EachMove (MoveShape i phase s) (actSave rt i req env s phase) := by
  have hsame : s.vault = s.vault ∧ s.log = s.log := ⟨rfl, rfl⟩
  cases phase with
  | idle => exact shape_acquire rfl
  | locked =>
    exact eachMove_branch (fun _ => shape_returnLocked (.inl hsame) rfl)
      fun _ _ => shape_keep rfl rfl rfl
  | ready docPath docFile =>
    exact eachMove_branch (fun _ => shape_returnLocked (.inl hsame) rfl)
      fun _ _ => shape_record rfl
  | written docPath =>
    exact eachMove_branch (fun _ => shape_keep rfl rfl rfl) fun _ _ => shape_keep rfl rfl rfl
  | indexing docPath docFile =>
    exact eachMove_branch (fun _ => shape_keep rfl rfl rfl)
      fun _ _ => shape_returnLocked (.inl hsame) rfl
  | failing docPath e =>
    exact eachMove_branch (fun _ => shape_returnLocked (.inl hsame) rfl)
      fun _ _ => shape_returnLocked (.inr ⟨true, rfl⟩) rfl
  | _ => exact eachMove_none

theorem actMove_shape {docPath targetAlias : String} :
    EachMove (MoveShape i phase s) (actMove rt i docPath targetAlias env s phase) := by
  have hsame : s.vault = s.vault ∧ s.log = s.log := ⟨rfl, rfl⟩
  cases phase with
  | idle =>
    exact eachMove_branch (fun _ => shape_keep rfl rfl rfl) fun _ _ => shape_keep rfl rfl rfl
  | waiting => exact shape_acquire rfl
  | ready path docFile =>
    exact eachMove_branch (fun _ => shape_returnLocked (.inl hsame) rfl)
      fun _ _ => shape_record rfl
  | indexing path docFile =>
    exact eachMove_branch (fun _ => shape_returnLocked (.inl hsame) rfl)
      fun _ _ => shape_returnLocked (.inl hsame) rfl
  | locked | fetched | written =>
    rw [actMove]
    exact eachMove_branch (fun _ => shape_returnLocked (.inl hsame) rfl)
      fun _ _ => shape_keep rfl rfl rfl
  | _ => exact eachMove_none

theorem actTags_shape {docPath : String} {edit : TagEdit} :
    EachMove (MoveShape i phase s) (actTags rt i docPath edit env s phase) := by
  cases phase with
  | idle | tagged =>
    exact eachMove_branch (fun _ => shape_keep rfl rfl rfl) fun _ _ => shape_keep rfl rfl rfl
  | edited docFile seen =>
    exact eachMove_branch (fun _ => shape_keep rfl rfl rfl) fun _ _ => shape_record rfl
  | _ => exact eachMove_none

theorem act_shape (h : act rt calls i phase env s = some m) : MoveShape i phase s m :=
  eachMove_act (fun _ _ => actSave_shape) (fun _ _ _ => actMove_shape)
    (fun _ _ _ => actTags_shape) m h

/-- Apart from the tag commands, files change inside the critical phases only. -/
theorem act_critical (hcall : ∀ docPath edit, calls i ≠ .tags docPath edit)
    (h : act rt calls i phase env s = some m) (hlog : m.shared.log ≠ s.log) :
    phase.critical = true := by
  have hmoves : EachMove (fun m => m.shared.log ≠ s.log → phase.critical = true)
      (act rt calls i phase env s) := by
    refine eachMove_act ?_ ?_ (fun docPath edit hc => absurd hc (hcall docPath edit))
    · intro req _
      cases phase with
      | idle => exact eachMove_some fun hlog => absurd rfl hlog
      | waiting | edited | tagged | done => exact eachMove_none
      | _ => exact fun _ _ _ => rfl
    · intro docPath targetAlias _
      cases phase with
      | idle =>
        exact eachMove_branch (fun _ => eachMove_some fun hlog => absurd rfl hlog)
          fun _ _ => eachMove_some fun hlog => absurd rfl hlog
      | waiting => exact eachMove_some fun hlog => absurd rfl hlog
      | edited | tagged | done => exact eachMove_none
      | _ => exact fun _ _ _ => rfl
  exact hmoves m h hlog

end

/-! ## The mutex and the history over whole runs -/

/-- The history leads from one vault to another. -/
def Chain : Vault β → List (FileRecord ι β) → Vault β → Prop
  | v, [], v' => v' = v
  | v, r :: rs, v' => r.before = v ∧ Chain r.after rs v'

theorem chain_append {v v' : Vault β} {log log' : List (FileRecord ι β)} :
    Chain v (log ++ log') v' ↔ ∃ u, Chain v log u ∧ Chain u log' v' := by
  induction log generalizing v with
  | nil => simp [Chain]
  | cons r rs ih => simp [Chain, ih, and_assoc]

/-- What holds in every state of every run. -/
structure Consistent (v : Vault β) (s : Threads ι Phase (Shared ι β)) : Prop where
  exclusive : Exclusive (fun p : Phase => p.critical = true) s
  chain : Chain v s.shared.log s.shared.vault

theorem consistent_start (v : Vault β) (db : Db) :
    Consistent v (start v db : Threads ι Phase (Shared ι β)) where
  exclusive i := by simp [start, Phase.critical]
  chain := rfl

theorem consistent_step [DecidableEq ι] {v : Vault β} {s s' : Threads ι Phase (Shared ι β)}
    {e : ι × StepEnv} (hs : Consistent v s) (hstep : s.step (act rt calls) e = some s') :
    Consistent v s' where
  exclusive := hs.exclusive.step (fun _ _ _ _ _ h => (act_shape h).mutex) hstep
  chain := by
    obtain ⟨m, hm, hshared, -, -⟩ := Threads.step_eq_some.mp hstep
    rw [hshared]
    rcases (act_shape hm).files with ⟨hvault, hlog⟩ | ⟨removal, hlog⟩
    · rw [hvault, hlog]
      exact hs.chain
    · rw [hlog, chain_append]
      exact ⟨s.shared.vault, hs.chain, rfl, rfl⟩

theorem consistent_run [DecidableEq ι] {v : Vault β} {db : Db}
    {s : Threads ι Phase (Shared ι β)} {es : List (ι × StepEnv)}
    (hrun : run (Threads.step (act rt calls)) (start v db) es = some s) : Consistent v s :=
  run_invariant (fun _ _ _ hs hstep => consistent_step hs hstep)
    (consistent_start v db) hrun

end

end Yanta.Document
