import Yanta.Document.Concurrent

/-!
# Tag commands and saves of one document

A tag command reads the file, edits the tags and writes the whole file back
without taking `saveMu`. A `Save` that writes in between is overwritten by the
old title and blocks. The main result is that this, and a `Save` that removes
the file after an index failure, are the only ways in which a save is lost: in
every run without such steps the file shows the last `Save` that succeeded.
-/

namespace Yanta.Document

open Go Yanta.Vault Index Support List Function Option

variable {p : Phase} {d docFile : DocumentFile}

/-- The document a call is about. -/
def Call.docPath : Call → String
  | .save req => req.path
  | .move docPath _ => docPath
  | .tags docPath _ => docPath

def Call.isSave : Call → Bool
  | .save _ => true
  | _ => false

def Call.isMove : Call → Bool
  | .move _ _ => true
  | _ => false

/-- The title and the blocks a `Save` stores. -/
def savedContents (req : SaveRequest) : String × List BlockNoteBlock :=
  (trimSpace req.title,
    if kindOf req.kind = documentKindCanvas then [] else req.blocks)

section

variable {ι β : Type} {rt : Runtime β}
variable {absPath : String} {v : Vault β} {req : SaveRequest} {calls : ι → Call} {i : ι}
  {x : Shared ι β} {s s' : Threads ι Phase (Shared ι β)}

variable (rt) in
/-- The title and the blocks in a file. -/
def contents (v : Vault β) (absPath : String) :
    Option (String × List BlockNoteBlock) :=
  (v.lookup absPath).bind fun file =>
    match rt.unmarshalDocument file.data with
    | .ok stored => some (stored.docMeta.title, stored.blocks)
    | .error _ => none

theorem contents_of_readFile {now : Time} {fault : Option String} {path : String}
    (hpath : documentPath path = .ok absPath) (h : readFile rt now fault v path = .ok d) :
    contents rt v absPath = some (d.docMeta.title, d.blocks) := by
  obtain ⟨absPath', file, hpath', hfile, -, -, hjson⟩ := readFile_eq_ok.mp h
  rw [hpath] at hpath'
  cases hpath'
  obtain ⟨stored, hstored, rfl, -⟩ := fromJSON_eq_ok.mp hjson
  simp [contents, hfile, hstored, DocumentFile.normalize]

theorem contents_of_writeFile (hrt : rt.Faithful) {now : Time} {mtime : Int}
    {faults : WriteFaults} {v' : Vault β} {path : String}
    (hpath : documentPath path = .ok absPath)
    (h : writeFile rt now mtime faults v path d = .ok v') :
    contents rt v' absPath = some (d.docMeta.title, d.blocks) := by
  obtain ⟨-, target, hdata, rfl⟩ := writeFile_eq_ok.mp h
  obtain ⟨hpath', -, hjson, -, -⟩ := writeData_eq_ok.mp hdata
  rw [hpath] at hpath'
  cases hpath'
  have hdecode := hrt.decode_encode _ _ (toJSON_eq_ok.mp hjson).2
  simp [contents, hdecode, DocumentFile.normalize]

/-- The title and blocks a `Save` is about to write are those of its request. -/
theorem contents_of_saveDocument {env : SaveEnv} (hne : req.path ≠ "")
    (h : saveDocument rt env v req = .ok d) :
    (d.docMeta.title, d.blocks) = savedContents req := by
  obtain ⟨existing, -, rfl⟩ := saveDocument_update_eq_ok hne h
  unfold savedContents mergedFile requestedFile
  by_cases hkind : kindOf req.kind = documentKindCanvas
  · simp [hkind, newCanvasFile]
  · simp [hkind, newDocumentFile]

/-! ## The claim about a state -/

/-- What the last of the given calls stored, or what was there before. -/
def lastContents (calls : ι → Call)
    (initial : Option (String × List BlockNoteBlock)) (saved : List ι) :
    Option (String × List BlockNoteBlock) :=
  match saved.getLast? with
  | none => initial
  | some i =>
    match calls i with
    | .save req => some (savedContents req)
    | _ => initial

variable (rt) in
/-- When no `Save` is running, the file shows the last one that succeeded. -/
def ShowsLastSave (calls : ι → Call) (absPath : String) (v : Vault β)
    (s : Threads ι Phase (Shared ι β)) : Prop :=
  s.lock = none →
    contents rt s.shared.vault absPath =
      lastContents calls (contents rt v absPath) s.shared.saved

variable (rt) in
/-- The condition on a step: a tag command writes only if no `Save` wrote the
file since the command read it, and a `Save` that has written does not fail. -/
def stepIsSafe (calls : ι → Call) (s : Threads ι Phase (Shared ι β))
    (e : ι × StepEnv) : Bool :=
  match s.phase e.1 with
  | .edited _ seen =>
    (s.shared.log.drop seen).all fun r => !(calls r.caller).isSave
  | .written docPath =>
    (readFile rt e.2.indexTime (e.2.indexFaults .read) s.shared.vault docPath).isOk
  | .indexing docPath docFile =>
    (indexParsed rt e.2.indexFaults s.shared.vault s.shared.db docPath docFile).isOk
  | _ => true

/-! ## The invariant -/

/-- A `Save` has written the file and has not returned. -/
def Phase.pending : Phase → Bool
  | .written _ | .indexing _ _ => true
  | _ => false

theorem critical_of_pending (h : p.pending = true) : p.critical = true := by
  cases p <;> simp_all [Phase.pending, Phase.critical]

variable (rt) in
/-- What the phase of call `i` says about the file. A tag command that has read
the file holds its title and blocks, unless a `Save` has written since. -/
structure PhaseInv (calls : ι → Call) (absPath : String) (x : Shared ι β)
    (i : ι) (p : Phase) : Prop where
  pending : p.pending = true → ∃ req, calls i = .save req ∧
    contents rt x.vault absPath = some (savedContents req)
  edited : ∀ docFile seen, p = .edited docFile seen → seen ≤ x.log.length ∧
    ((∀ r ∈ x.log.drop seen, (calls r.caller).isSave = false) →
      contents rt x.vault absPath = some (docFile.docMeta.title, docFile.blocks))
  ready : ∀ docPath docFile, p = .ready docPath docFile → ∃ req,
    calls i = .save req ∧ docPath = req.path ∧
      (docFile.docMeta.title, docFile.blocks) = savedContents req
  notFailing : ∀ docPath e, p ≠ .failing docPath e

variable (rt) in
structure TagInv (calls : ι → Call) (absPath : String) (v : Vault β)
    (s : Threads ι Phase (Shared ι β)) : Prop where
  phases : ∀ i, PhaseInv rt calls absPath s.shared i (s.phase i)
  settled : (∀ i, (s.phase i).pending = false) →
    contents rt s.shared.vault absPath =
      lastContents calls (contents rt v absPath) s.shared.saved

/-- The phases whose invariant says something about the file. -/
def Phase.tracked : Phase → Bool
  | .ready _ _ | .written _ | .indexing _ _ | .failing _ _ | .edited _ _ => true
  | _ => false

theorem phaseInv_untracked (h : p.tracked = false) : PhaseInv rt calls absPath x i p := by
  constructor
  · intro hpending
    cases p <;> cases hpending <;> cases h
  · intro d seen hp
    rw [hp] at h
    cases h
  · intro docPath d hp
    rw [hp] at h
    cases h
  · intro docPath e hp
    rw [hp] at h
    cases h

theorem phaseInv_edited {seen : Nat} (hseen : seen ≤ x.log.length)
    (h : contents rt x.vault absPath = some (docFile.docMeta.title, docFile.blocks)) :
    PhaseInv rt calls absPath x i (.edited docFile seen) where
  pending hp := by cases hp
  edited d n hp := by
    cases hp
    exact ⟨hseen, fun _ => h⟩
  ready _ _ hp := by cases hp
  notFailing _ _ hp := by cases hp

theorem phaseInv_ready (hcall : calls i = .save req)
    (h : (docFile.docMeta.title, docFile.blocks) = savedContents req) :
    PhaseInv rt calls absPath x i (.ready req.path docFile) where
  pending hp := by cases hp
  edited _ _ hp := by cases hp
  ready docPath d hp := by
    cases hp
    exact ⟨req, hcall, rfl, h⟩
  notFailing _ _ hp := by cases hp

theorem phaseInv_pending (hp : p.pending = true) (hcall : calls i = .save req)
    (h : contents rt x.vault absPath = some (savedContents req)) :
    PhaseInv rt calls absPath x i p := by
  refine ⟨fun _ => ⟨req, hcall, h⟩, ?_, ?_, ?_⟩
  · intro d seen hd
    rw [hd] at hp
    cases hp
  · intro docPath d hd
    rw [hd] at hp
    cases hp
  · intro docPath e hd
    rw [hd] at hp
    cases hp

theorem tagInv_start (calls : ι → Call) (absPath : String) (v : Vault β) (db : Db) :
    TagInv rt calls absPath v (start v db) where
  phases _ := phaseInv_untracked rfl
  settled _ := rfl

/-- The invariant of a phase survives changes that keep the title and blocks and
record no `Save`. -/
theorem phaseInv_of_same_contents {y : Shared ι β} (h : PhaseInv rt calls absPath x i p)
    (hcontents : contents rt y.vault absPath = contents rt x.vault absPath)
    (hlog : ∃ rs, y.log = x.log ++ rs) :
    PhaseInv rt calls absPath y i p where
  pending hp := by
    rw [hcontents]
    exact h.pending hp
  edited d seen hp := by
    obtain ⟨hseen, hsame⟩ := h.edited d seen hp
    obtain ⟨rs, hrs⟩ := hlog
    refine ⟨?_, fun hno => ?_⟩
    · rw [hrs, length_append]
      omega
    · rw [hcontents]
      refine hsame fun r hr => hno r ?_
      rw [hrs, drop_append_of_le_length hseen]
      exact mem_append_left _ hr
  ready := h.ready
  notFailing := h.notFailing

section

variable [DecidableEq ι] (hs : TagInv rt calls absPath v s)

include hs

/-- A step of call `i` that keeps the title and blocks of the file. -/
theorem tagInv_of_same_contents
    (hphase : s'.phase = Function.update s.phase i p)
    (hcontents : contents rt s'.shared.vault absPath = contents rt s.shared.vault absPath)
    (hlog : ∃ rs, s'.shared.log = s.shared.log ++ rs)
    (hsaved : s'.shared.saved = s.shared.saved)
    (hp : PhaseInv rt calls absPath s'.shared i p)
    (hpending : p.pending = (s.phase i).pending) :
    TagInv rt calls absPath v s' where
  phases j := by
    rw [hphase]
    by_cases hj : j = i
    · subst hj
      rw [update_self]
      exact hp
    · rw [update_of_ne hj]
      exact phaseInv_of_same_contents (hs.phases j) hcontents hlog
  settled h := by
    rw [hcontents, hsaved]
    refine hs.settled fun j => ?_
    have hj := h j
    rw [hphase] at hj
    by_cases heq : j = i
    · subst heq
      rw [update_self, hpending] at hj
      exact hj
    · rwa [update_of_ne heq] at hj

section

variable {m : Move Phase (Shared ι β)} (hvault : m.shared.vault = s.shared.vault)
  (hlog : m.shared.log = s.shared.log) (hsaved : m.shared.saved = s.shared.saved)
  (hpending : m.phase.pending = (s.phase i).pending)

include hvault hlog hsaved hpending

/-- A move that leaves the files and the saves alone. -/
theorem leadsTo_of_quiet (hp : PhaseInv rt calls absPath m.shared i m.phase) :
    LeadsTo (TagInv rt calls absPath v) s i m := by
  intro s' hshared hphase
  rw [← hshared] at hvault hlog hsaved hp
  exact tagInv_of_same_contents hs hphase (by rw [hvault]) ⟨[], by simp [hlog]⟩ hsaved
    hp hpending

/-- Such a move to a phase that says nothing about the file. -/
theorem eachMove_of_untracked (hp : m.phase.tracked = false) :
    EachMove (LeadsTo (TagInv rt calls absPath v) s i) (some m) :=
  eachMove_some (leadsTo_of_quiet hs hvault hlog hsaved hpending (phaseInv_untracked hp))

end

/-- The moves of a tag command. -/
theorem tagInv_tags (hrt : rt.Faithful) {env : StepEnv} {docPath : String}
    {edit : TagEdit} (hpath : documentPath docPath = .ok absPath)
    (hsafe : stepIsSafe rt calls s (i, env) = true) :
    EachMove (LeadsTo (TagInv rt calls absPath v) s i)
      (actTags rt i docPath edit env s.shared (s.phase i)) := by
  have quiet := fun m => eachMove_of_untracked (i := i) (m := m) hs
  cases hp : s.phase i with
  | idle =>
    rw [hp] at quiet
    refine eachMove_branch (fun e => quiet _ rfl rfl rfl rfl rfl) fun docFile hread => ?_
    simp only [bind_eq_ok, exists_unit, label_eq_ok] at hread
    -- The edit changes the tags only.
    have hcontents := contents_of_readFile hpath hread.2
    exact eachMove_some (leadsTo_of_quiet hs rfl rfl rfl (by rw [hp]; rfl)
      (phaseInv_edited (le_refl _) hcontents))
  | edited docFile seen =>
    rw [hp] at quiet
    refine eachMove_branch (fun e => quiet _ rfl rfl rfl rfl rfl) fun written hwrite => ?_
    refine eachMove_some fun s' hshared hphase => ?_
    have hfresh : ∀ r ∈ s.shared.log.drop seen, (calls r.caller).isSave = false := by
      simpa [stepIsSafe, hp] using hsafe
    have hbefore := ((hs.phases i).edited docFile seen hp).2 hfresh
    have hafter := contents_of_writeFile hrt hpath (label_eq_ok.mp hwrite)
    refine tagInv_of_same_contents hs hphase ?_ ⟨_, by rw [hshared]; rfl⟩
      (by rw [hshared]; rfl) (phaseInv_untracked rfl) (by rw [hp]; rfl)
    rw [hshared, hbefore]
    exact hafter
  | tagged =>
    rw [hp] at quiet
    exact eachMove_branch (fun e => quiet _ rfl rfl rfl rfl rfl)
      fun db _ => quiet _ rfl rfl rfl rfl rfl
  | _ => exact eachMove_none

/-- The write of a `Save`: its title and blocks are now in the file, no other
`Save` is running, and every tag command that has read the file is outdated. -/
theorem tagInv_of_save_write {written : Vault β} {docPath : String}
    (hcall : calls i = .save req) (hexcl : Exclusive (fun p : Phase => p.critical = true) s)
    (hcritical : (s.phase i).critical = true)
    (hshared : s'.shared = s.shared.record i false written)
    (hphase : s'.phase = Function.update s.phase i (.written docPath))
    (hcontents : contents rt written absPath = some (savedContents req)) :
    TagInv rt calls absPath v s' where
  phases j := by
    rw [hphase, hshared]
    by_cases hj : j = i
    · subst hj
      rw [update_self]
      exact phaseInv_pending rfl hcall hcontents
    · rw [update_of_ne hj]
      have hold := hs.phases j
      refine ⟨?_, ?_, hold.ready, hold.notFailing⟩
      · intro hpending
        exact absurd (hexcl.unique (critical_of_pending hpending) hcritical) hj
      · intro d seen hd
        obtain ⟨hseen, -⟩ := hold.edited d seen hd
        refine ⟨?_, fun hno => ?_⟩
        · simp only [Shared.record, length_append]
          omega
        · have hmem : (⟨i, false, s.shared.vault, written⟩ : FileRecord ι β) ∈
              (s.shared.record i false written).log.drop seen := by
            simp only [Shared.record]
            rw [drop_append_of_le_length hseen]
            exact mem_append_right _ (mem_singleton_self _)
          have := hno _ hmem
          rw [hcall] at this
          cases this
  settled h := by
    have := h i
    rw [hphase, update_self] at this
    cases this

/-- A `Save` returns successfully: it is the last one now. -/
theorem tagInv_of_save_return {docPath : String} (hpending : (s.phase i).pending = true)
    (hvault : s'.shared.vault = s.shared.vault) (hlog : s'.shared.log = s.shared.log)
    (hsaved : s'.shared.saved = s.shared.saved ++ [i])
    (hphase : s'.phase = Function.update s.phase i (.done (.ok docPath))) :
    TagInv rt calls absPath v s' where
  phases j := by
    rw [hphase]
    by_cases hj : j = i
    · subst hj
      rw [update_self]
      exact phaseInv_untracked rfl
    · rw [update_of_ne hj]
      exact phaseInv_of_same_contents (hs.phases j) (by rw [hvault])
        ⟨[], by simp [hlog]⟩
  settled _ := by
    obtain ⟨req, hcall, hcontents⟩ := (hs.phases i).pending hpending
    rw [hvault, hcontents, hsaved]
    simp [lastContents, hcall]

/-- The moves of a `Save`. -/
theorem tagInv_save (hrt : rt.Faithful) {env : StepEnv}
    (hcall : calls i = .save req) (hpath : documentPath req.path = .ok absPath)
    (hexcl : Exclusive (fun p : Phase => p.critical = true) s)
    (hsafe : stepIsSafe rt calls s (i, env) = true) :
    EachMove (LeadsTo (TagInv rt calls absPath v) s i)
      (actSave rt i req env s.shared (s.phase i)) := by
  have hne := ne_empty_of_documentPath hpath
  have quiet := fun m => eachMove_of_untracked (i := i) (m := m) hs
  cases hp : s.phase i with
  | idle =>
    rw [hp] at quiet
    exact quiet _ rfl rfl rfl rfl rfl
  | locked =>
    rw [hp] at quiet
    refine eachMove_branch (fun e => quiet _ rfl rfl rfl rfl rfl) fun docFile hdoc => ?_
    refine eachMove_some (leadsTo_of_quiet hs rfl rfl rfl (by rw [hp]; rfl) ?_)
    rw [savePath, if_neg hne]
    exact phaseInv_ready hcall (contents_of_saveDocument hne hdoc)
  | ready docPath docFile =>
    rw [hp] at quiet
    refine eachMove_branch (fun e => quiet _ rfl rfl rfl rfl rfl) fun written hwrite => ?_
    refine eachMove_some fun s' hshared hphase => ?_
    obtain ⟨req', hcall', rfl, hcontents⟩ := (hs.phases i).ready docPath docFile hp
    rw [hcall] at hcall'
    cases hcall'
    refine tagInv_of_save_write hs hcall hexcl (by rw [hp]; rfl) hshared hphase ?_
    rw [contents_of_writeFile hrt hpath (label_eq_ok.mp hwrite), hcontents]
  | written docPath =>
    have hok : (readFile rt env.indexTime (env.indexFaults .read) s.shared.vault
        docPath).isOk = true := by
      simpa [stepIsSafe, hp] using hsafe
    obtain ⟨docFile, hread⟩ := isOk_iff.mp hok
    rw [actSave, hread]
    refine eachMove_some (leadsTo_of_quiet hs rfl rfl rfl (by rw [hp]; rfl) ?_)
    obtain ⟨req, hcall, hcontents⟩ := (hs.phases i).pending (by rw [hp]; rfl)
    exact phaseInv_pending rfl hcall hcontents
  | indexing docPath docFile =>
    have hok : (indexParsed rt env.indexFaults s.shared.vault s.shared.db docPath
        docFile).isOk = true := by
      simpa [stepIsSafe, hp] using hsafe
    obtain ⟨db, hindex⟩ := isOk_iff.mp hok
    rw [actSave, hindex]
    refine eachMove_some fun s' hshared hphase => ?_
    exact tagInv_of_save_return hs (by rw [hp]; rfl) (by rw [hshared])
      (by rw [hshared]) (by rw [hshared]) hphase
  | failing docPath e => exact absurd hp ((hs.phases i).notFailing docPath e)
  | _ => exact eachMove_none

end

/-- In every run of `Save` and tag commands on one document whose steps are all
safe, the file shows the last `Save` that succeeded. -/
theorem tag_commands_keep_last_save [DecidableEq ι]
    (rt : Runtime β) (hrt : rt.Faithful) (calls : ι → Call) (absPath : String)
    (hcalls : ∀ i, (calls i).isMove = false ∧
      documentPath (calls i).docPath = .ok absPath)
    (v : Vault β) (db : Db) (es : List (ι × StepEnv))
    (s : Threads ι Phase (Shared ι β))
    (hsafe : Guarded (Threads.step (act rt calls))
      (fun t e => stepIsSafe rt calls t e = true) (start v db) es)
    (hrun : run (Threads.step (act rt calls)) (start v db) es = some s) :
    ShowsLastSave rt calls absPath v s := by
  have hstep : ∀ t e t', Consistent v t ∧ TagInv rt calls absPath v t →
      stepIsSafe rt calls t e = true →
      Threads.step (act rt calls) t e = some t' →
        Consistent v t' ∧ TagInv rt calls absPath v t' := by
    rintro t ⟨i, env⟩ t' ⟨hcon, hinv⟩ hsafe hstep
    refine ⟨consistent_step hcon hstep, EachMove.step (eachMove_act ?_ ?_ ?_) hstep⟩
    · intro req hcall
      have hpath := (hcalls i).2
      rw [hcall] at hpath
      exact tagInv_save hinv hrt hcall hpath hcon.exclusive hsafe
    · intro docPath targetAlias hcall
      have hmove := (hcalls i).1
      rw [hcall] at hmove
      cases hmove
    · intro docPath edit hcall
      have hpath := (hcalls i).2
      rw [hcall] at hpath
      exact tagInv_tags hinv hrt hpath hsafe
  obtain ⟨hcon, hinv⟩ := run_invariant_of_guarded hstep
    ⟨consistent_start v db, tagInv_start calls absPath v db⟩ hsafe hrun
  intro hlock
  refine hinv.settled fun i => ?_
  by_contra hpending
  have hheld := (hcon.exclusive i).mp (critical_of_pending (by simpa using hpending))
  rw [hlock] at hheld
  cases hheld

end

/-! ## A save that is undone -/

namespace SampleTagRace

def document (title : String) : DocumentFile where
  docMeta :=
    { project := "@ab", title := title, tags := [], aliases := [], created := 0
      updated := 0 }
  kind := documentKindDocument
  scene := none
  blocks := []
  assets := []

def path : String := "projects/@ab/a.json"

def vault : Vault DocumentFile :=
  (∅ : Vault DocumentFile).insert path ⟨document "A", 0⟩

def db : Db :=
  { Db.empty with
    project :=
      [{ id := "1", projectAlias := "@ab", name := "", startDate := ""
         endDate := "", deleted := false }] }

/-- A command that adds a tag, and a save that changes the title. -/
def calls : Bool → Call
  | false => .tags path (.add ["x"])
  | true => .save
      { path := path, projectAlias := "@ab", title := "B", kind := "", blocks := []
        scene := none, assets := [], tags := [], expectedHash := "" }

def env : StepEnv where
  docId := ""
  buildTime := 0
  readTime := 0
  writeTime := 0
  indexTime := 0
  mtime := 0
  readFault := none
  writeFaults := .none
  indexFaults := .none
  removeFault := none
  lookupFault := none
  txFault := none

def final (schedule : List Bool) :
    Option (Threads Bool Phase (Shared Bool DocumentFile)) :=
  run (Threads.step (act plainRuntime calls)) (start vault db)
    (schedule.map fun i => (i, env))

/-- The save runs first, then the tag command. -/
def inTurn : List Bool := [true, true, true, true, true, false, false, false]

/-- The whole save runs between the read and the write of the tag command. -/
def crossed : List Bool := [false, true, true, true, true, true, false, false]

/-- The mutex is free, the save succeeded, and this is the title in the file. -/
def summary (s : Threads Bool Phase (Shared Bool DocumentFile)) :
    Bool × List Bool × Option String :=
  (s.lock.isNone, s.shared.saved,
    (contents plainRuntime s.shared.vault path).map Prod.fst)

end SampleTagRace

open SampleTagRace

theorem tag_commands_keep_last_save_sample :
    ∃ s, final inTurn = some s ∧
      ShowsLastSave plainRuntime calls path
        vault s := by
  have hsome : (final inTurn).isSome = true := by
    decide +kernel
  obtain ⟨s, hs⟩ := isSome_iff_exists.mp hsome
  have hpath : documentPath path = .ok path := by
    decide +kernel
  have hcalls : ∀ i, (calls i).isMove = false ∧
      documentPath (calls i).docPath = .ok path := by
    intro i
    cases i <;> exact ⟨rfl, hpath⟩
  exact ⟨s, hs, tag_commands_keep_last_save plainRuntime plainRuntime_faithful
    calls path hcalls vault
    db _ s (by decide +kernel) hs⟩

/-- The tag command read the file before the save and writes it back after it:
the save succeeded, and its title is gone. -/
theorem tag_command_undoes_save :
    ∃ s, final crossed = some s ∧
      ¬ ShowsLastSave plainRuntime calls path
        vault s := by
  have hsummary : (final crossed).map
      summary = some (true, [true], some "A") := by
    decide +kernel
  obtain ⟨s, hs, hread⟩ := map_eq_some_iff.mp hsummary
  simp only [summary, Prod.mk.injEq] at hread
  obtain ⟨hlock, hsaved, htitle⟩ := hread
  refine ⟨s, hs, fun hshows => ?_⟩
  rw [hshows (isNone_iff_eq_none.mp hlock), hsaved] at htitle
  exact absurd htitle (by decide +kernel)

end Yanta.Document
