import Yanta.Index.Rebuild

/-!
# The journal service

The operations of `internal/journal/service.go` on the entries of a day, with the
files of `internal/journal/store.go` and the journal rows of
`internal/search/store.go`. Each operation writes the day's file and then the
index, and a failure of the index is only logged.

A day's file is found by its cleaned path, the index by the alias and the date as
they are given. The operations exclude each other by a lock, so a run of the
service is a list of operations. The indexing of a promoted document does not touch
journals and is left out.
-/

namespace Yanta.Journal

open Go Index

/-- The content of a journal file; one that is not valid JSON gives the error. -/
inductive StoredFile where
  | journal (file : JournalFile)
  | unreadable (error : String)

structure PromotedDocument where
  path : String
  project : String
  title : String
  tags : List String
  text : String
deriving DecidableEq, Repr

structure State where
  files : String → Option StoredFile
  rows : String → String → List JournalRow
  documents : List PromotedDocument

/-- The failing calls of one operation; deletions from the index are counted. -/
structure ServiceFaults where
  read : Option String
  write : Option String
  ftsInsert : Option String
  ftsDelete : List (Nat × String)
  writeDocument : Option String

def ServiceFaults.none : ServiceFaults := ⟨.none, .none, .none, [], .none⟩

/-! ## Files -/

def dayPath (projectAlias date : String) : String := journalPath projectAlias (date ++ ".json")

def readFile (fault : Option String) (s : State) (projectAlias date : String) :
    Except String JournalFile :=
  branch (attempt fault) (fun e => .error ("reading journal file: " ++ e)) fun _ =>
    match s.files (dayPath projectAlias date) with
    | none => .ok ⟨[]⟩
    | some (.journal file) => .ok file
    | some (.unreadable e) => .error ("unmarshal journal file: " ++ e)

def State.setFile (s : State) (projectAlias date : String) (file : JournalFile) : State :=
  { s with files := Function.update s.files (dayPath projectAlias date) (some (.journal file)) }

/-- `GetEntry`: the place of the first entry with the id. -/
def JournalFile.entryIndex (file : JournalFile) (id : String) : Option Nat :=
  file.entries.findIdx? (·.id == id)

/-- A change of the entry that `GetEntry` points to. -/
def JournalFile.modify (file : JournalFile) (i : Nat)
    (f : JournalEntry → JournalEntry) : JournalFile :=
  ⟨file.entries.modify i f⟩

def JournalEntry.markDeleted (entry : JournalEntry) : JournalEntry :=
  { entry with deleted := true }

/-! ## The index -/

def State.setRows (s : State) (projectAlias date : String) (rows : List JournalRow) : State :=
  { s with
    rows := Function.update s.rows projectAlias
      (Function.update (s.rows projectAlias) date rows) }

def rowOf (entry : JournalEntry) : JournalRow :=
  ⟨entry.id, entry.content, journalTags entry.tags⟩

/-- `InsertJournalEntry` on the rows of a day. -/
def insertJournalEntry (fault : Option String) (rows : List JournalRow)
    (entry : JournalEntry) : Except String Unit × List JournalRow :=
  if entry.id = "" then (.error "entryID cannot be empty", rows)
  else
    match fault with
    | some e => (.error ("inserting journal entry into fts_journal: " ++ e), rows)
    | none => (.ok (), rows ++ [rowOf entry])

/-- `DeleteJournalEntry` on the rows of a day. -/
def deleteJournalEntry (fault : Option String) (rows : List JournalRow) (id : String) :
    Except String Unit × List JournalRow :=
  if id = "" then (.error "entryID cannot be empty", rows)
  else
    match fault with
    | some e => (.error ("deleting journal entry from fts_journal: " ++ e), rows)
    | none =>
      if rows.any (·.entryId == id) then
        (.ok (), rows.filter fun row => row.entryId ≠ id)
      else (.error ("journal entry not found in fts_journal: " ++ id), rows)

/-- `UpdateJournalEntry`: the error of the deletion is ignored. -/
def updateJournalEntry (faults : ServiceFaults) (rows : List JournalRow)
    (entry : JournalEntry) : Except String Unit × List JournalRow :=
  insertJournalEntry faults.ftsInsert
    (deleteJournalEntry (faults.ftsDelete.lookup 0) rows entry.id).2 entry

/-! ## Operations -/

def maxEntryContentLength : Nat := 10000

/-- A date in the format the service accepts. -/
abbrev Day := { date : String // validateDate date = .ok () }

structure AppendRequest where
  projectAlias : String
  content : String
  tags : List String
  date : String
deriving DecidableEq, Repr

/-- The date of a new entry; without one it is today. -/
def appendDate (today : Day) (date : String) : Except String String :=
  if date = "" then .ok today.1 else branch (validateDate date) .error fun _ => .ok date

/-- `AppendEntryToDate`; `id` is the random id of the new entry. -/
def appendEntryToDate (faults : ServiceFaults) (id : String) (today : Day)
    (req : AppendRequest) (s : State) : Except String JournalEntry × State :=
  if trimSpace req.content = "" then (.error "content cannot be empty", s)
  else if maxEntryContentLength < len req.content then
    (.error ("content exceeds maximum length of " ++ decimal maxEntryContentLength ++
      " characters"), s)
  else
    branch (appendDate today req.date) (fun e => (.error e, s)) fun date =>
      let projectAlias := trimSpace req.projectAlias
      if projectAlias = "" then (.error "projectAlias is required", s)
      else
        let entry : JournalEntry := ⟨id, req.content, req.tags, false⟩
        branch (readFile faults.read s projectAlias date)
          (fun e => (.error ("reading journal file: " ++ e), s)) fun file =>
        branch (attempt faults.write)
          (fun e => (.error ("writing journal file: " ++ e), s)) fun _ =>
          (.ok entry,
            (s.setFile projectAlias date ⟨file.entries ++ [entry]⟩).setRows projectAlias date
              (insertJournalEntry faults.ftsInsert (s.rows projectAlias date) entry).2)

/-- The operations on one entry: the day's file is read, the entry changed in it, the
file written, and the index of the day changed for the entry as it is then. -/
def changeEntry (faults : ServiceFaults) (projectAlias date id : String)
    (change : JournalEntry → JournalEntry)
    (index : List JournalRow → JournalEntry → Except String Unit × List JournalRow)
    (s : State) : Except String JournalEntry × State :=
  branch (readFile faults.read s projectAlias date)
    (fun e => (.error ("reading journal: " ++ e), s)) fun file =>
    match file.entryIndex id with
    | none => (.error ("entry not found: " ++ id), s)
    | some i =>
      match file.entries[i]? with
      | none => (.error ("entry not found: " ++ id), s)
      | some entry =>
        branch (attempt faults.write)
          (fun e => (.error ("writing journal: " ++ e), s)) fun _ =>
          (.ok (change entry),
            (s.setFile projectAlias date (file.modify i change)).setRows projectAlias
              date (index (s.rows projectAlias date) (change entry)).2)

/-- `DeleteEntry`. -/
def deleteEntry (faults : ServiceFaults) (projectAlias date id : String) (s : State) :
    Except String JournalEntry × State :=
  branch (validateDate date) (fun e => (.error ("invalid date: " ++ e), s)) fun _ =>
    changeEntry faults projectAlias date id .markDeleted
      (fun rows entry => deleteJournalEntry (faults.ftsDelete.lookup 0) rows entry.id) s

structure UpdateRequest where
  projectAlias : String
  date : String
  entryId : String
  content : String
  /-- Without tags the entry keeps the ones it has. -/
  tags : Option (List String)
deriving DecidableEq, Repr

def UpdateRequest.apply (req : UpdateRequest) (entry : JournalEntry) : JournalEntry :=
  { entry with content := req.content, tags := req.tags.getD entry.tags }

/-- `UpdateEntry`. -/
def updateEntry (faults : ServiceFaults) (req : UpdateRequest) (s : State) :
    Except String JournalEntry × State :=
  branch (validateDate req.date) (fun e => (.error ("invalid date: " ++ e), s)) fun _ =>
    if trimSpace req.content = "" then (.error "content cannot be empty", s)
    else
      changeEntry faults req.projectAlias req.date req.entryId req.apply
        (updateJournalEntry faults) s

/-- `RestoreEntry`. -/
def restoreEntry (faults : ServiceFaults) (projectAlias date id : String) (s : State) :
    Except String JournalEntry × State :=
  branch (validateDate date) (fun e => (.error ("invalid date: " ++ e), s)) fun _ =>
    changeEntry faults projectAlias date id (fun entry => { entry with deleted := false })
      (insertJournalEntry faults.ftsInsert) s

structure PromoteRequest where
  sourceProject : String
  date : String
  entryIds : List String
  targetProject : String
  title : String
  keepOriginal : Bool
deriving DecidableEq, Repr

/-- The places of the entries to promote: those named, or all that are not deleted. -/
def entriesToPromote (file : JournalFile) : List String → Except String (List Nat)
  | [] => .ok ((List.range file.entries.length).filter fun i =>
    (file.entries[i]?).any fun entry => !entry.deleted)
  | ids => ids.mapM fun id =>
    match file.entryIndex id with
    | none => .error ("entry not found: " ++ id)
    | some i => .ok i

/-- The document that the entries make together. -/
def promotedDocument (req : PromoteRequest) (docId : String)
    (entries : List JournalEntry) : PromotedDocument where
  path := pathClean ("projects/" ++ req.targetProject ++ "/doc-" ++
    trimPrefix req.targetProject "@" ++ "-" ++ docId ++ ".json")
  project := req.targetProject
  title := req.title
  tags := (entries.flatMap (·.tags)).eraseDups
  text := join (entries.map (·.content)) "\n\n"

/-- Promoted entries are deleted in the file and in the index, one after the
other. -/
def moveEntries (faults : ServiceFaults) (n : Nat) (file : JournalFile)
    (rows : List JournalRow) : List Nat → JournalFile × List JournalRow
  | [] => (file, rows)
  | i :: is =>
    match file.entries[i]? with
    | none => moveEntries faults n file rows is
    | some entry =>
      moveEntries faults (n + 1) (file.modify i .markDeleted)
        (deleteJournalEntry (faults.ftsDelete.lookup n) rows entry.id).2 is

/-- `PromoteToDocument`; `docId` is the random id of the new document. -/
def promoteToDocument (faults : ServiceFaults) (docId : String) (req : PromoteRequest)
    (s : State) : Except String PromotedDocument × State :=
  branch (validateDate req.date) (fun e => (.error ("invalid date: " ++ e), s)) fun _ =>
    if req.title = "" then (.error "title is required", s)
    else
      branch (readFile faults.read s req.sourceProject req.date)
        (fun e => (.error ("reading journal: " ++ e), s)) fun file =>
      branch (entriesToPromote file req.entryIds) (fun e => (.error e, s)) fun places =>
        if places = [] then (.error "no entries to promote", s)
        else
          branch (attempt faults.writeDocument) (fun e => (.error e, s)) fun _ =>
            let document := promotedDocument req docId
              (places.filterMap fun i => file.entries[i]?)
            let created := { s with documents := s.documents ++ [document] }
            if req.keepOriginal then (.ok document, created)
            else
              let moved := moveEntries faults 0 file (s.rows req.sourceProject req.date) places
              -- The rows are gone before the file is written.
              let unindexed := created.setRows req.sourceProject req.date moved.2
              branch (attempt faults.write)
                (fun e => (.error ("updating journal after promote: " ++ e), unindexed))
                fun _ => (.ok document, unindexed.setFile req.sourceProject req.date moved.1)

inductive Operation where
  | append (faults : ServiceFaults) (id : String) (today : Day) (req : AppendRequest)
  | update (faults : ServiceFaults) (req : UpdateRequest)
  | delete (faults : ServiceFaults) (projectAlias date id : String)
  | restore (faults : ServiceFaults) (projectAlias date id : String)
  | promote (faults : ServiceFaults) (docId : String) (req : PromoteRequest)

/-- One operation: whether it succeeds, and the state it leaves. -/
def perform (s : State) : Operation → Bool × State
  | .append faults id today req =>
    let result := appendEntryToDate faults id today req s
    (result.1.isOk, result.2)
  | .update faults req =>
    let result := updateEntry faults req s
    (result.1.isOk, result.2)
  | .delete faults projectAlias date id =>
    let result := deleteEntry faults projectAlias date id s
    (result.1.isOk, result.2)
  | .restore faults projectAlias date id =>
    let result := restoreEntry faults projectAlias date id s
    (result.1.isOk, result.2)
  | .promote faults docId req =>
    let result := promoteToDocument faults docId req s
    (result.1.isOk, result.2)

def step (s : State) (op : Operation) : Option State := some (perform s op).2

end Yanta.Journal
