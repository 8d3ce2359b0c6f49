import Yanta.Journal.Service
import Yanta.Support.Mirror
import Yanta.Support.Runs

/-!
# The journal rows of the index mirror the journal

A day is mirrored when the index has one row for each entry of its file that is not
deleted, with the entry's content and tags. The operations check the deleted state of
an entry differently: updating a deleted entry gives it a row, and restoring an entry
that is not deleted gives it a second one. The main result is that every run without
such operations, and in which the index accepts what it is told, keeps every day of
every project mirrored.
-/

namespace Yanta.Journal

open Go Index Support List Function

variable {change : JournalEntry → JournalEntry}

/-! ## Days -/

/-- What the index shows of an entry. -/
def entryIndexing : Indexing JournalEntry String JournalRow where
  key := (·.id)
  live entry := !entry.deleted
  row := rowOf
  rowKey := (·.entryId)
  rowKey_row _ := rfl

/-- The rows of a day are those of the entries that are not deleted. -/
structure DayMirrors (file : JournalFile) (rows : List JournalRow) : Prop where
  mirrors : entryIndexing.Mirrors file.entries rows
  named : ∀ entry ∈ file.entries, entry.id ≠ ""

variable {id : String}

theorem deleteJournalEntry_snd {rows : List JournalRow} (hid : id ≠ "") :
    (deleteJournalEntry none rows id).2 = entryIndexing.dropKey id rows := by
  simp only [deleteJournalEntry, hid, if_false]
  split
  · rfl
  next hany =>
    refine (filter_eq_self.mpr fun row hrow => ?_).symm
    simp only [any_eq_true, beq_iff_eq, not_exists, not_and] at hany
    exact decide_eq_true (hany row hrow)

theorem insertJournalEntry_snd {rows : List JournalRow} {entry : JournalEntry}
    (hid : entry.id ≠ "") : (insertJournalEntry none rows entry).2 = rows ++ [rowOf entry] := by
  simp [insertJournalEntry, hid]

namespace DayMirrors

variable {file : JournalFile} {rows : List JournalRow} {entry : JournalEntry} {i : Nat}

theorem empty : DayMirrors ⟨[]⟩ [] :=
  ⟨⟨nodup_nil, List.Perm.refl _⟩, by simp⟩

section

variable (h : DayMirrors file rows)

include h

theorem append (hid : entry.id ≠ "") (hnew : entry.id ∉ file.entries.map (·.id))
    (hactive : entry.deleted = false) :
    DayMirrors ⟨file.entries ++ [entry]⟩ (insertJournalEntry none rows entry).2 where
  mirrors := by
    rw [insertJournalEntry_snd hid]
    exact h.mirrors.snoc hnew (by simp [entryIndexing, hactive])
  named := by
    intro e he
    rcases mem_append.mp he with hold | hnewEntry
    · exact h.named e hold
    · rw [mem_singleton.mp hnewEntry]
      exact hid

section

variable (hentry : file.entries[i]? = some entry)

include hentry

/-- A change of an entry that keeps its id keeps every entry named. -/
theorem named_modify {f : JournalEntry → JournalEntry} (hid : (f entry).id = entry.id) :
    ∀ e ∈ (file.modify i f).entries, e.id ≠ "" := by
  intro e he
  have hids : (file.modify i f).entries.map entryIndexing.key =
      file.entries.map entryIndexing.key := Indexing.map_key_modify hentry hid
  have hmem : entryIndexing.key e ∈ file.entries.map entryIndexing.key := by
    rw [← hids]
    exact mem_map_of_mem he
  obtain ⟨e', he', heq⟩ := mem_map.mp hmem
  have hid' : e'.id = e.id := heq
  rw [← hid']
  exact h.named e' he'

theorem delete :
    DayMirrors (file.modify i .markDeleted) (deleteJournalEntry none rows entry.id).2 where
  mirrors := by
    rw [deleteJournalEntry_snd (h.named _ (mem_of_getElem? hentry))]
    exact h.mirrors.kill hentry rfl rfl
  named := h.named_modify hentry rfl

variable {faults : ServiceFaults}

theorem update (hactive : entry.deleted = false) (req : UpdateRequest)
    (hdelete : faults.ftsDelete.lookup 0 = none) (hinsert : faults.ftsInsert = none) :
    DayMirrors (file.modify i req.apply)
      (updateJournalEntry faults rows (req.apply entry)).2 where
  mirrors := by
    have hid : entry.id ≠ "" := h.named _ (mem_of_getElem? hentry)
    have hlive : entryIndexing.live (req.apply entry) = true := by
      simp [entryIndexing, UpdateRequest.apply, hactive]
    have hrows : (updateJournalEntry faults rows (req.apply entry)).2 =
        entryIndexing.dropKey entry.id rows ++ [rowOf (req.apply entry)] := by
      have hid' : (req.apply entry).id ≠ "" := hid
      rw [updateJournalEntry, hdelete, hinsert, insertJournalEntry_snd hid',
        deleteJournalEntry_snd hid']
      rfl
    rw [hrows]
    exact h.mirrors.replace hentry rfl hlive
  named := h.named_modify hentry rfl

theorem restore (hdeleted : entry.deleted = true) :
    DayMirrors (file.modify i fun e => { e with deleted := false })
      (insertJournalEntry none rows { entry with deleted := false }).2 where
  mirrors := by
    have hid : entry.id ≠ "" := h.named _ (mem_of_getElem? hentry)
    have hdead : entryIndexing.live entry = false := by simp [entryIndexing, hdeleted]
    have hrows := h.mirrors.dropKey_eq_self hentry hdead
    have hinserted : (insertJournalEntry none rows { entry with deleted := false }).2 =
        entryIndexing.dropKey (entryIndexing.key entry) rows ++
          [rowOf { entry with deleted := false }] := by
      rw [hrows]
      exact insertJournalEntry_snd hid
    rw [hinserted]
    exact h.mirrors.replace hentry rfl rfl
  named := h.named_modify hentry rfl

end

/-- Promoted entries that are deleted one after the other. -/
theorem moveEntries (hdelete : faults.ftsDelete = []) (n : Nat) (places : List Nat) :
    DayMirrors (moveEntries faults n file rows places).1
      (moveEntries faults n file rows places).2 := by
  induction places generalizing n file rows with
  | nil => exact h
  | cons i places ih =>
    unfold Journal.moveEntries
    split
    next => exact ih h n
    next entry hentry =>
      have hfault : faults.ftsDelete.lookup n = none := by rw [hdelete, lookup_nil]
      rw [hfault]
      exact ih (h.delete hentry) (n + 1)

end

end DayMirrors

/-! ## The journal of a project -/

/-- The alias is the name of a directory. -/
def IsProjectDir (projectAlias : String) : Prop :=
  '/' ∉ projectAlias.toList ∧ projectAlias ≠ "" ∧ projectAlias ≠ "." ∧ projectAlias ≠ ".."

instance (projectAlias : String) : Decidable (IsProjectDir projectAlias) :=
  inferInstanceAs (Decidable (_ ∧ _))

variable {date : String}

/-- A valid date contains no slash. -/
theorem slash_notMem_of_validateDate (h : validateDate date = .ok ()) : '/' ∉ date.toList := by
  have hparses : parsesDate date = true := by
    unfold validateDate at h
    split at h
    · cases h
    · split at h
      next hp => exact hp
      next => cases h
  unfold parsesDate at hparses
  split at hparses
  next y1 y2 y3 y4 m1 m2 d1 d2 hdate =>
    simp only [Bool.and_eq_true, all_eq_true] at hparses
    have hdigit := hparses.1.1.1.1
    have hslash : isDigit '/' = false := by decide
    rw [hdate]
    intro hmem
    have hcases : '/' ∈ [y1, y2, y3, y4, m1, m2, d1, d2] := by
      simpa using hmem
    rw [hdigit _ hcases] at hslash
    cases hslash
  next => cases hparses

variable {projectAlias : String}

/-- The elements of the path of a day's file. -/
theorem split_dayPath (ha : IsProjectDir projectAlias) (hd : validateDate date = .ok ()) :
    split (dayPath projectAlias date) '/' =
      ["projects", projectAlias, "journal", date ++ ".json"] := by
  have hjoin : "projects/" ++ projectAlias ++ "/journal/" ++ (date ++ ".json") =
      join ["projects", projectAlias, "journal", date ++ ".json"] (String.singleton '/') := by
    apply String.toList_inj.mp
    simp [join]
  have hname : '/' ∉ (date ++ ".json").toList := by
    rw [String.toList_append, mem_append, not_or]
    exact ⟨slash_notMem_of_validateDate hd, by decide⟩
  have hsplit : split ("projects/" ++ projectAlias ++ "/journal/" ++ (date ++ ".json")) '/' =
      ["projects", projectAlias, "journal", date ++ ".json"] := by
    rw [hjoin]
    apply split_join (by simp)
    simp only [forall_mem_cons]
    exact ⟨by decide, ha.1, by decide, hname, by simp⟩
  have hclean : ∀ e ∈ ("projects/" ++ projectAlias ++ "/journal/" ++
      (date ++ ".json")).toList.splitOn '/', IsCleanElem e := by
    rw [splitOn_toList, hsplit]
    simp only [map_cons, forall_mem_cons]
    refine ⟨⟨by decide, by decide, by decide⟩, ⟨?_, ?_, ?_⟩,
      ⟨by decide, by decide, by decide⟩, ⟨?_, ?_, ?_⟩, by simp⟩
    · exact fun h => ha.2.1 (String.toList_inj.mp h)
    · exact fun h => ha.2.2.1 (String.toList_inj.mp h)
    · exact fun h => ha.2.2.2 (String.toList_inj.mp h)
    all_goals
      intro h
      have hlength := congrArg List.length h
      simp at hlength
  rw [dayPath, journalPath, pathClean_eq_self hclean, hsplit]

theorem dayPath_inj {a a' d d' : String} (ha : IsProjectDir a) (ha' : IsProjectDir a')
    (hd : validateDate d = .ok ()) (hd' : validateDate d' = .ok ())
    (h : dayPath a d = dayPath a' d') : a = a' ∧ d = d' := by
  have hsplit := split_dayPath ha hd
  rw [h, split_dayPath ha' hd'] at hsplit
  simp only [List.cons.injEq, true_and, and_true] at hsplit
  refine ⟨hsplit.1.symm, ?_⟩
  have hlist := congrArg String.toList hsplit.2
  rw [String.toList_append, String.toList_append] at hlist
  exact String.toList_inj.mp (append_cancel_right hlist).symm

/-- The journal of a day; a day without a file has no entries. -/
def dayFile (s : State) (projectAlias date : String) : Option JournalFile :=
  match s.files (dayPath projectAlias date) with
  | none => some ⟨[]⟩
  | some (.journal file) => some file
  | some (.unreadable _) => none

variable {s : State}

theorem readFile_eq_ok {fault : Option String}
    (h : readFile fault s projectAlias date = .ok file) :
    dayFile s projectAlias date = some file := by
  unfold readFile at h
  cases fault with
  | some e => cases h
  | none =>
    unfold dayFile
    cases hfile : s.files (dayPath projectAlias date) with
    | none =>
      rw [hfile] at h
      rw [← Except.ok.inj h]
    | some stored =>
      rw [hfile] at h
      cases stored with
      | journal found => rw [← Except.ok.inj h]
      | unreadable e => cases h

/-- Every day of every project that can be read is mirrored. -/
def Mirrors (s : State) : Prop :=
  ∀ projectAlias date file, IsProjectDir projectAlias → validateDate date = .ok () →
    dayFile s projectAlias date = some file → DayMirrors file (s.rows projectAlias date)

/-- A mirrored day takes the place of another. -/
theorem Mirrors.setDay {s' : State} (h : Mirrors s) (file : JournalFile)
    (rows : List JournalRow) (ha : IsProjectDir projectAlias) (hd : validateDate date = .ok ())
    (hfiles : s'.files = (s.setFile projectAlias date file).files)
    (hrows : s'.rows = (s.setRows projectAlias date rows).rows) (hday : DayMirrors file rows) :
    Mirrors s' := by
  intro a d f ha' hd' hf
  simp only [dayFile, hfiles, State.setFile] at hf
  simp only [hrows, State.setRows]
  by_cases hsame : dayPath a d = dayPath projectAlias date
  · obtain ⟨rfl, rfl⟩ := dayPath_inj ha' ha hd' hd hsame
    rw [update_self] at hf
    rw [update_self, update_self, ← Option.some.inj hf]
    exact hday
  · rw [update_of_ne hsame] at hf
    have hold := h a d f ha' hd' hf
    by_cases halias : a = projectAlias
    · subst halias
      have hdate : d ≠ date := fun hdate => hsame (by rw [hdate])
      rw [update_self, update_of_ne hdate]
      exact hold
    · rw [update_of_ne halias]
      exact hold

theorem Mirrors.setFile_setRows (h : Mirrors s) (ha : IsProjectDir projectAlias)
    (hd : validateDate date = .ok ()) (hday : DayMirrors file rows) :
    Mirrors ((s.setFile projectAlias date file).setRows projectAlias date rows) := by
  apply h.setDay file rows ha hd
  · simp only [State.setRows]
  · simp only [State.setRows, State.setFile]
  · exact hday

/-! ## Operations -/

theorem appendDate_eq_ok {today : Day} {date' : String} (h : appendDate today date = .ok date') :
    validateDate date' = .ok () := by
  unfold appendDate at h
  split at h
  · rw [← Except.ok.inj h]
    exact today.2
  · cases hvalid : validateDate date with
    | error e => simp [hvalid] at h
    | ok u =>
      simp only [hvalid, branch_ok, Except.ok.injEq] at h
      rw [← h]
      exact hvalid

/-- The entry that an operation finds. -/
def foundEntry (s : State) (projectAlias date id : String) : Option JournalEntry :=
  (dayFile s projectAlias date).bind fun file =>
    (file.entryIndex id).bind fun i => file.entries[i]?

/-- The operations that keep a mirrored state mirrored: the alias names a directory,
the index accepts its changes, a new entry has an id of its own, an entry that is
updated is not deleted, one that is restored is, and a promotion that moves entries
writes the day's file. -/
def Harmless (s : State) : Operation → Prop
  | .append faults id today req =>
    IsProjectDir (trimSpace req.projectAlias) ∧ faults.ftsInsert = none ∧ id ≠ "" ∧
      branch (appendDate today req.date) (fun _ => True) fun date =>
        ∀ file ∈ dayFile s (trimSpace req.projectAlias) date,
          id ∉ file.entries.map (·.id)
  | .update faults req =>
    IsProjectDir req.projectAlias ∧ faults.ftsInsert = none ∧
      faults.ftsDelete.lookup 0 = none ∧
      ∀ entry ∈ foundEntry s req.projectAlias req.date req.entryId,
        entry.deleted = false
  | .delete faults projectAlias _ _ =>
    IsProjectDir projectAlias ∧ faults.ftsDelete.lookup 0 = none
  | .restore faults projectAlias date id =>
    IsProjectDir projectAlias ∧ faults.ftsInsert = none ∧
      ∀ entry ∈ foundEntry s projectAlias date id, entry.deleted = true
  | .promote faults _ req =>
    IsProjectDir req.sourceProject ∧
      (req.keepOriginal = true ∨ faults.write = none ∧ faults.ftsDelete = [])

instance (s : State) : (op : Operation) → Decidable (Harmless s op)
  | .append _ id today req =>
    have : Decidable (branch (appendDate today req.date) (fun _ => True) fun date =>
        ∀ file ∈ dayFile s (trimSpace req.projectAlias) date,
          id ∉ file.entries.map (·.id)) :=
      match appendDate today req.date with
      | .error _ => isTrue trivial
      | .ok date => inferInstanceAs (Decidable
          (∀ file ∈ dayFile s (trimSpace req.projectAlias) date,
            id ∉ file.entries.map (·.id)))
    inferInstanceAs (Decidable (_ ∧ _ ∧ _ ∧ _))
  | .update _ _ => inferInstanceAs (Decidable (_ ∧ _ ∧ _ ∧ _))
  | .delete _ _ _ _ => inferInstanceAs (Decidable (_ ∧ _))
  | .restore _ _ _ _ => inferInstanceAs (Decidable (_ ∧ _ ∧ _))
  | .promote _ _ _ => inferInstanceAs (Decidable (_ ∧ _))

/-- A call that changes nothing when it fails. -/
theorem Mirrors.of_branch {ε α β : Type} (h : Mirrors s) {x : Except ε α} {onError : ε → String}
    {onOk : α → Except String β × State} (hok : ∀ a, x = .ok a → Mirrors (onOk a).2) :
    Mirrors (branch x (fun e => (.error (onError e), s)) onOk).2 := by
  cases x with
  | error e => exact h
  | ok a => exact hok a rfl

theorem Mirrors.appendEntryToDate (h : Mirrors s) {today : Day} {req : AppendRequest}
    (hharmless : Harmless s (.append faults id today req)) :
    Mirrors (appendEntryToDate faults id today req s).2 := by
  obtain ⟨ha, hinsert, hid, hnew⟩ := hharmless
  unfold Journal.appendEntryToDate
  split
  · exact h
  split
  · exact h
  refine h.of_branch fun date hdate => ?_
  have hd := appendDate_eq_ok hdate
  rw [hdate] at hnew
  simp only
  split
  · exact h
  refine h.of_branch fun file hread => h.of_branch fun _ _ => ?_
  have hfile := readFile_eq_ok hread
  have hday := h _ date file ha hd hfile
  rw [hinsert]
  apply h.setFile_setRows ha hd
  apply hday.append
  · exact hid
  · exact hnew file hfile
  · rfl

/-- An operation on one entry fails and changes nothing, or changes the entry it
finds. -/
theorem changeEntry_cases (faults : ServiceFaults) (projectAlias date id : String)
    (change : JournalEntry → JournalEntry)
    (index : List JournalRow → JournalEntry → Except String Unit × List JournalRow)
    (s : State) :
    (∃ e, changeEntry faults projectAlias date id change index s = (.error e, s)) ∨
      ∃ file i entry, dayFile s projectAlias date = some file ∧
        foundEntry s projectAlias date id = some entry ∧ file.entries[i]? = some entry ∧
        changeEntry faults projectAlias date id change index s =
          (.ok (change entry),
            (s.setFile projectAlias date (file.modify i change)).setRows projectAlias date
              (index (s.rows projectAlias date) (change entry)).2) := by
  unfold changeEntry
  cases hread : readFile faults.read s projectAlias date with
  | error e => exact .inl ⟨_, rfl⟩
  | ok file =>
    have hfile := readFile_eq_ok hread
    rw [branch_ok]
    split
    · exact .inl ⟨_, rfl⟩
    next i hi =>
      split
      · exact .inl ⟨_, rfl⟩
      next entry hentry =>
        cases faults.write with
        | some e => exact .inl ⟨_, rfl⟩
        | none =>
          have hfound : foundEntry s projectAlias date id = some entry := by
            simp [foundEntry, hfile, hi, hentry]
          exact .inr ⟨file, i, entry, hfile, hfound, hentry, rfl⟩

variable {index : List JournalRow → JournalEntry → Except String Unit × List JournalRow}

section

variable (h : Mirrors s)

include h

/-- An operation on one entry keeps the state mirrored if it keeps the day
mirrored. -/
theorem Mirrors.changeEntry (ha : IsProjectDir projectAlias)
    (hd : validateDate date = .ok ())
    (hday : ∀ file i entry, foundEntry s projectAlias date id = some entry →
      file.entries[i]? = some entry → DayMirrors file (s.rows projectAlias date) →
      DayMirrors (file.modify i change)
        (index (s.rows projectAlias date) (change entry)).2) :
    Mirrors (changeEntry faults projectAlias date id change index s).2 := by
  rcases changeEntry_cases faults projectAlias date id change index s with
    ⟨e, he⟩ | ⟨file, i, entry, hfile, hfound, hentry, hresult⟩
  · rw [he]
    exact h
  · rw [hresult]
    apply h.setFile_setRows ha hd
    exact hday file i entry hfound hentry (h _ _ _ ha hd hfile)

/-- An operation that gives an entry a row without making it live leaves the day
with one row too many. -/
theorem Mirrors.not_changeEntry (ha : IsProjectDir projectAlias)
    (hd : validateDate date = .ok ())
    (hok : (Journal.changeEntry faults projectAlias date id change index s).1.isOk = true)
    (hfound : foundEntry s projectAlias date id = some entry)
    (hsame : (change entry).deleted = entry.deleted)
    (hindex : ∀ (file : JournalFile) (i : Nat), file.entries[i]? = some entry →
      DayMirrors file (s.rows projectAlias date) →
      (index (s.rows projectAlias date) (change entry)).2 =
        s.rows projectAlias date ++ [rowOf (change entry)]) :
    ¬ Mirrors (Journal.changeEntry faults projectAlias date id change index s).2 := by
  rcases changeEntry_cases faults projectAlias date id change index s with
    ⟨e, he⟩ | ⟨file, i, entry', hfile, hfound', hentry, hresult⟩
  · rw [he] at hok
    cases hok
  · obtain rfl : entry' = entry := Option.some.inj (hfound'.symm.trans hfound)
    have hday := h _ _ _ ha hd hfile
    rw [hresult, hindex file i hentry hday]
    intro hmirrors
    have hbad := (hmirrors _ _ (file.modify i change) ha hd (by
      simp [dayFile, State.setRows, State.setFile])).mirrors
    simp only [State.setRows, update_self] at hbad
    refine hday.mirrors.not_snoc ?_ hbad
    apply Indexing.length_liveRows_modify hentry
    simp [entryIndexing, hsame]

theorem Mirrors.promoteToDocument {docId : String} {req : PromoteRequest}
    (hharmless : Harmless s (.promote faults docId req)) :
    Mirrors (promoteToDocument faults docId req s).2 := by
  obtain ⟨ha, hmove⟩ := hharmless
  refine h.of_branch fun _ hd => ?_
  split
  · exact h
  refine h.of_branch fun file hread => h.of_branch fun places _ => ?_
  split
  · exact h
  refine h.of_branch fun _ _ => ?_
  split
  · exact h
  next hkeep =>
    obtain ⟨hwrite, hdelete⟩ := hmove.resolve_left hkeep
    have hday := (h _ _ _ ha hd (readFile_eq_ok hread)).moveEntries hdelete 0 places
    rw [hwrite]
    exact h.setDay _ _ ha hd rfl rfl hday

/-- A harmless operation keeps the state mirrored. -/
theorem Mirrors.perform {op : Operation} (hharmless : Harmless s op) :
    Mirrors (perform s op).2 := by
  cases op with
  | append faults id today req =>
    simp only [Journal.perform]
    exact h.appendEntryToDate hharmless
  | update faults req =>
    obtain ⟨ha, hinsert, hdelete, hactive⟩ := hharmless
    refine h.of_branch fun _ hd => ?_
    split
    · exact h
    · refine h.changeEntry ha hd fun file i entry hfound hentry hday => ?_
      exact hday.update hentry (hactive entry hfound) req hdelete hinsert
  | delete faults projectAlias date id =>
    obtain ⟨ha, hdelete⟩ := hharmless
    refine h.of_branch fun _ hd => ?_
    refine h.changeEntry ha hd fun file i entry hfound hentry hday => ?_
    have hdeleted := hday.delete hentry
    rw [hdelete]
    exact hdeleted
  | restore faults projectAlias date id =>
    obtain ⟨ha, hinsert, hdeleted⟩ := hharmless
    refine h.of_branch fun _ hd => ?_
    refine h.changeEntry ha hd fun file i entry hfound hentry hday => ?_
    rw [hinsert]
    exact hday.restore hentry (hdeleted entry hfound)
  | promote faults docId req =>
    exact h.promoteToDocument hharmless

/-! ## Harmful operations -/

end

/-! ## Main result -/

/-- In a run of harmless operations every day stays mirrored. -/
theorem mirrors_run {s s' : State} {ops : List Operation} (hs : Mirrors s)
    (hguard : Guarded step Harmless s ops) (hrun : run step s ops = some s') :
    Mirrors s' := by
  refine run_invariant_of_guarded ?_ hs hguard hrun
  intro s op s' hs hharmless hstep
  rw [← Option.some.inj hstep]
  exact hs.perform hharmless

namespace SampleJournal

def empty : State := ⟨fun _ => none, fun _ _ => [], []⟩

theorem mirrors_empty : Mirrors empty := by
  intro projectAlias date file _ _ hfile
  rw [← Option.some.inj hfile]
  exact .empty

def today : Day := ⟨"2024-02-29", by decide⟩

def append (id : String) : Operation :=
  .append .none id today ⟨" @work ", "buy milk", ["home"], ""⟩

def update : Operation :=
  .update .none ⟨"@work", "2024-02-29", "e1", "buy bread", none⟩

def delete : Operation := .delete .none "@work" "2024-02-29" "e1"

def restore : Operation := .restore .none "@work" "2024-02-29" "e1"

/-- Entries are added, changed, deleted, restored and promoted. -/
def harmless : List Operation :=
  [append "e1", update, delete, restore, append "e2",
    .promote .none "d1" ⟨"@work", "2024-02-29", ["e2"], "@work", "Milk", false⟩]

end SampleJournal

open SampleJournal

theorem mirrors_run_sample :
    Mirrors empty ∧
      Guarded step Harmless empty harmless ∧
      Mirrors ((run step empty harmless).get
        (by decide +kernel)) := by
  have hguard : Guarded step Harmless empty harmless := by
    decide +kernel
  exact ⟨mirrors_empty, hguard,
    mirrors_run mirrors_empty hguard (Option.some_get _).symm⟩

/-- A deleted entry that is updated gets a row, and an entry restored twice gets two;
all the operations succeed. -/
theorem update_and_restore_leave_extra_rows :
    let deleted := (perform (perform empty (append "e1")).2
      delete).2
    let updated := perform deleted update
    let restored := perform (perform deleted restore).2 restore
    updated.1 = true ∧
      (dayFile updated.2 "@work" "2024-02-29").map (·.entries) =
        some [⟨"e1", "buy bread", ["home"], true⟩] ∧
      updated.2.rows "@work" "2024-02-29" = [⟨"e1", "buy bread", " home "⟩] ∧
      restored.1 = true ∧
      (dayFile restored.2 "@work" "2024-02-29").map (·.entries) =
        some [⟨"e1", "buy milk", ["home"], false⟩] ∧
      restored.2.rows "@work" "2024-02-29" =
        [⟨"e1", "buy milk", " home "⟩, ⟨"e1", "buy milk", " home "⟩] := by
  decide +kernel

end Yanta.Journal
