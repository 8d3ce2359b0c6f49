import Yanta.Index.Indexer
import Yanta.Vault.Inside

/-!
# The file watcher

`internal/indexer/watcher.go` and `Indexer.RemoveDocumentCompletely`. An event
of the file system arms a timer for its path and stops the timer the path had;
when the timer fires, `executeIndexing` runs in a goroutine of its own. A
callback is therefore cut here into the moves between which other goroutines
and other programs can act: the comparison of the file's hash with the recorded
one, the transaction, and the update of the recorded hash with the report.
-/

namespace Yanta.FileWatcher

open Go Vault Document Index

variable {path : String} {now : Time}

/-! ## Events -/

/-- `fsnotify.Op`, a set of bits. -/
structure Op where
  create : Bool
  write : Bool
  remove : Bool
  rename : Bool
  chmod : Bool
deriving DecidableEq, Repr

/-- The first case of `executeIndexing`. -/
def Op.stores (op : Op) : Bool := op.create || op.write

/-- The cases of `executeIndexing` that remove the document. -/
def Op.removes (op : Op) : Bool := !op.stores && (op.remove || op.rename)

/-- Some case of `executeIndexing` applies. -/
def Op.acts (op : Op) : Bool := op.stores || op.removes

/-- `filepath.Ext`. -/
def filepathExt (path : String) : String :=
  let tail := path.toList.reverse.takeWhile fun c => !(c == '.' || c == '/')
  if (path.toList.reverse.drop tail.length).head? = some '.' then
    String.ofList ('.' :: tail.reverse)
  else ""

def isDocumentFile (path : String) : Bool :=
  filepathExt path == ".json" && contains path "projects/" &&
    !contains path "/assets/"

/-! ## The state of the watcher -/

/-- A timer that was started and has neither fired nor been stopped. -/
structure Timer where
  id : Nat
  relPath : String
  op : Op
deriving DecidableEq, Repr

/-- `Watcher`: the map of timers, the timers that are armed, and the recorded
hashes. A missing key of the last map reads as the empty string. -/
structure Watcher where
  debounce : String → Option Nat
  timers : List Timer
  nextTimer : Nat
  reconciledHashes : String → String

/-- `NewWatcher`. -/
def newWatcher : Watcher where
  debounce _ := none
  timers := []
  nextTimer := 0
  reconciledHashes _ := ""

def setReconciled (w : Watcher) (relPath contentHash : String) : Watcher :=
  { w with
    reconciledHashes := Function.update w.reconciledHashes relPath contentHash }

@[simp] theorem setReconciled_self (w : Watcher) (relPath contentHash : String) :
    (setReconciled w relPath contentHash).reconciledHashes relPath = contentHash := by
  simp [setReconciled]

def forgetReconciled (w : Watcher) (relPath : String) : Watcher :=
  { w with reconciledHashes := Function.update w.reconciledHashes relPath "" }

def isReconciled (w : Watcher) (relPath diskHash : String) : Bool :=
  w.reconciledHashes relPath == diskHash

def noteAppWrite (w : Watcher) (relPath contentHash : String) : Watcher :=
  if contentHash = "" then w else setReconciled w relPath contentHash

/-- `timer.Stop()` on the timer the map has for the path. -/
def stopTimer (w : Watcher) (relPath : String) : List Timer :=
  match w.debounce relPath with
  | some id => w.timers.filter fun t => t.id != id
  | none => w.timers

theorem stopTimer_eq (w : Watcher) (relPath : String) :
    stopTimer w relPath = w.timers.filter fun t => w.debounce relPath != some t.id := by
  unfold stopTimer
  cases w.debounce relPath with
  | none => exact (List.filter_eq_self.mpr fun _ _ => rfl).symm
  | some id => exact List.filter_congr fun t _ => bne_comm

def scheduleIndexing (w : Watcher) (relPath : String) (op : Op) : Watcher :=
  { w with
    debounce := Function.update w.debounce relPath (some w.nextTimer)
    timers := stopTimer w relPath ++ [⟨w.nextTimer, relPath, op⟩]
    nextTimer := w.nextTimer + 1 }

/-- `handleEvent` for a file of the vault at `root`. -/
def handleEvent (root : String) (w : Watcher) (relPath : String) (op : Op) :
    Watcher :=
  if isDocumentFile (filepathJoin root relPath) then scheduleIndexing w relPath op
  else w

theorem reconciledHashes_handleEvent (root : String) (w : Watcher) (path : String) (op : Op) :
    (handleEvent root w path op).reconciledHashes = w.reconciledHashes := by
  unfold handleEvent
  split_ifs <;> rfl

/-! ## Callbacks -/

/-- The statements of `RemoveDocumentCompletely`. -/
inductive RemovePoint where
  | beginTx
  | fts
  | doc
  | commit
deriving DecidableEq, Repr

/-- An error whose text contains "not found" is ignored. -/
def unlessNotFound (db : Db) : Except String Db → Except String Db
  | .ok db' => .ok db'
  | .error e => if contains e "not found" then .ok db else .error e

/-- `DeleteDocumentTx` of the search store. -/
def deleteFtsRow (fault : Option String) (db : Db) (path : String) :
    Except String Db :=
  if path = "" then .error "path cannot be empty"
  else do
    wrapError "deleting document from fts_doc" (attempt fault)
    if db.ftsDoc path = [] then .error ("document not found in fts_doc: " ++ path)
    else .ok (db.deleteFts path)

/-- `HardDeleteTx` of the document store. -/
def hardDelete (fault : Option String) (db : Db) (path : String) :
    Except String Db := do
  wrapError "failed to hard delete document" (attempt fault)
  if (db.doc.lookup path).isNone then .error ("document not found: " ++ path)
  else .ok (db.deleteDoc path)

/-- `Indexer.RemoveDocumentCompletely`. -/
def removeDocumentCompletely (faults : RemovePoint → Option String) (db : Db)
    (docPath : String) : Except String Db := do
  wrapError "beginning transaction" (attempt (faults .beginTx))
  let db ← wrapError "removing from fts_doc"
    (unlessNotFound db (deleteFtsRow (faults .fts) db docPath))
  let db ← wrapError "removing from doc table"
    (unlessNotFound db (hardDelete (faults .doc) db docPath))
  wrapError "committing transaction" (attempt (faults .commit))
  return db

/-- Where a callback is in its code. -/
inductive Stage where
  /-- The timer has fired. -/
  | started
  /-- The hash of the file, if it could be read, is not the recorded one. -/
  | changed (hash : Option String)
  /-- `IndexDocument` has returned. -/
  | indexed (hash : Option String)
  /-- The recorded hash is forgotten. -/
  | forgotten
  /-- `executeIndexing` has returned. -/
  | finishing
deriving DecidableEq, Repr

/-- What the environment of a callback answers in one move. -/
structure CallbackEnv where
  now : Time
  readFault : Option String
  indexFaults : IndexFaults
  removeFaults : RemovePoint → Option String

/-- One move of a callback: what it leaves, where it continues, whether it
reports an external change, and whether a call of the indexer returned an
error. -/
structure Advance where
  watcher : Watcher
  db : Db
  next : Option Stage
  reports : Bool
  failed : Option Bool

section

variable {β : Type} (rt : Runtime β)

def diskContentHash (now : Time) (fault : Option String) (v : Vault β)
    (relPath : String) : Option String :=
  match readFile rt now fault v relPath with
  | .ok df => some (computeFileHash rt df)
  | .error _ => none

/-- The callback goes on without an effect. -/
def goOn (w : Watcher) (db : Db) (next : Stage) : Advance :=
  ⟨w, db, some next, false, none⟩

/-- The comparison with the recorded hash. -/
def compareHash (env : CallbackEnv) (v : Vault β) (db : Db) (w : Watcher)
    (relPath : String) : Advance :=
  match diskContentHash rt env.now env.readFault v relPath with
  | some diskHash =>
    if isReconciled w relPath diskHash then goOn w db .finishing
    else goOn w db (.changed (some diskHash))
  | none => goOn w db (.changed none)

/-- A call of the indexer: a failed one leaves the database as it was. -/
def callIndexer {ε : Type} (w : Watcher) (db : Db) (next : Stage) :
    Except ε Db → Advance
  | .ok db' => ⟨w, db', some next, false, some false⟩
  | .error _ => ⟨w, db, some next, false, some true⟩

/-- The hash that was read is recorded and the change is reported. -/
def report (db : Db) (w : Watcher) (relPath : String) : Option String → Advance
  | some diskHash => ⟨setReconciled w relPath diskHash, db, some .finishing, true, none⟩
  | none => ⟨w, db, some .finishing, true, none⟩

/-- The function given to `time.AfterFunc`: `executeIndexing`, and the removal
of the path from the map. -/
def executeIndexing (env : CallbackEnv) (v : Vault β) (db : Db) (w : Watcher)
    (relPath : String) (op : Op) : Stage → Advance
  | .started =>
    if op.stores then compareHash rt env v db w relPath
    else if op.removes then goOn (forgetReconciled w relPath) db .forgotten
    else goOn w db .finishing
  | .changed hash =>
    callIndexer w db (.indexed hash)
      (indexDocument rt env.now env.indexFaults v db relPath)
  | .indexed hash => report db w relPath hash
  | .forgotten =>
    callIndexer w db .finishing (removeDocumentCompletely env.removeFaults db relPath)
  | .finishing =>
    ⟨{ w with debounce := Function.update w.debounce relPath none }, db, none,
      false, none⟩

variable {rt}

/-! ## Reading a document at a later time -/

theorem diskContentHash_eq_some {fault : Option String} {v : Vault β} {relPath hash : String} :
    diskContentHash rt now fault v relPath = some hash ↔
      ∃ d, readFile rt now fault v relPath = .ok d ∧ computeFileHash rt d = hash := by
  unfold diskContentHash
  cases readFile rt now fault v relPath with
  | error e => simp
  | ok d => simp

/-- A file that can be read stays readable: the checks of the timestamps only
ask that they are not in the future. -/
theorem readFile_later {later : Time} {v : Vault β} {d : DocumentFile}
    (h : readFile rt now none v path = .ok d) (hle : now ≤ later) :
    readFile rt later none v path = .ok d := by
  obtain ⟨absPath, file, hpath, hfile, hsize, hfault, hjson⟩ := readFile_eq_ok.mp h
  obtain ⟨stored, hstored, hd, hvalid⟩ := fromJSON_eq_ok.mp hjson
  exact readFile_eq_ok.mpr ⟨absPath, file, hpath, hfile, hsize, hfault,
    fromJSON_eq_ok.mpr ⟨stored, hstored, hd, DocumentFile.validate_later hvalid hle⟩⟩

/-- Reading depends on one file. -/
theorem readFile_congr {fault : Option String} {v v' : Vault β}
    (h : ∀ absPath, documentPath path = .ok absPath → v'.lookup absPath = v.lookup absPath) :
    readFile rt now fault v' path = readFile rt now fault v path := by
  unfold readFile
  cases hpath : documentPath path with
  | error e => rfl
  | ok absPath =>
    simp [Sentinel.of, classify, bind, Except.bind, h absPath hpath]

/-! ## Files that change -/

/-- The vault after a file is replaced or removed. -/
def putFile (v : Vault β) (path : String) : Option (VaultFile β) → Vault β
  | some file => v.insert path file
  | none => v.erase path

theorem lookup_putFile_self {v : Vault β} {file : Option (VaultFile β)} :
    (putFile v path file).lookup path = file := by
  cases file with
  | none => exact AList.lookup_erase _ _
  | some file => exact AList.lookup_insert _

theorem lookup_putFile {v : Vault β} {q : String} {file : Option (VaultFile β)}
    (h : q ≠ path) : (putFile v path file).lookup q = v.lookup q := by
  cases file with
  | none => exact AList.lookup_erase_ne h
  | some file => exact AList.lookup_insert_ne h

end

end Yanta.FileWatcher
