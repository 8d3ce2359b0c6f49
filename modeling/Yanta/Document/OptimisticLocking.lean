import Yanta.Document.Concurrent

/-!
# Optimistic locking

A `Save` with an expected hash overwrites only a file that has this content
hash. The mutex is what makes the comparison and the write one action: while a
`Save` is between the two, no other `Save` or `MoveToProject` can change a file.
-/

namespace Yanta.Document

open Go Yanta.Vault Index Support List Function

section

variable {ι β : Type} {rt : Runtime β}
variable {req : SaveRequest} {s s' : Threads ι Phase (Shared ι β)}

variable (rt) in
/-- The content hash of a file: `ComputeFileHash` of the document it holds. -/
def contentHash (v : Vault β) (absPath : String) : Option String :=
  (v.lookup absPath).bind fun file =>
    match rt.unmarshalDocument file.data with
    | .ok stored => some (computeFileHash rt (stored.normalize rt))
    | .error _ => none

theorem contentHash_of_readFile
    {now : Time} {fault : Option String} {v : Vault β} {path : String}
    {d : DocumentFile} (h : readFile rt now fault v path = .ok d) :
    ∃ absPath, documentPath path = .ok absPath ∧
      contentHash rt v absPath = some (computeFileHash rt d) := by
  obtain ⟨absPath, file, hpath, hfile, -, -, hjson⟩ := readFile_eq_ok.mp h
  obtain ⟨stored, hstored, hd, -⟩ := fromJSON_eq_ok.mp hjson
  refine ⟨absPath, hpath, ?_⟩
  simp [contentHash, hfile, hstored, hd]

variable (rt) in
/-- The file named by `path` has this content hash. -/
def HasHash (v : Vault β) (path hash : String) : Prop :=
  ∃ absPath, documentPath path = .ok absPath ∧
    contentHash rt v absPath = some hash

variable (rt) in
/-- The operation replaced the file named by `path`, which had this content
hash. -/
def Overwrote (path hash : String) (r : FileRecord ι β) : Prop :=
  ∃ absPath file, documentPath path = .ok absPath ∧
    contentHash rt r.before absPath = some hash ∧
    r.after = r.before.insert absPath file

/-- The phases of a `Save` after its write, as long as it has not failed. -/
def Phase.hasWritten : Phase → Bool
  | .written _ | .indexing _ _ | .failing _ _ | .done (.ok _) => true
  | _ => false

variable (rt) in
/-- The invariant of a `Save` with an expected hash: between its comparison and
its write the file still has that hash, and whatever it wrote, it wrote over
such a file. -/
structure SaveInv (i : ι) (req : SaveRequest)
    (s : Threads ι Phase (Shared ι β)) : Prop where
  ready : ∀ docPath docFile, s.phase i = .ready docPath docFile →
    docPath = req.path ∧ HasHash rt s.shared.vault req.path req.expectedHash
  overwrote : ∀ r ∈ s.shared.log, r.caller = i → r.removal = false →
    Overwrote rt req.path req.expectedHash r
  wrote : (s.phase i).hasWritten = true →
    ∃ r ∈ s.shared.log, r.caller = i ∧ r.removal = false

theorem saveInv_start (i : ι) (req : SaveRequest) (v : Vault β) (db : Db) :
    SaveInv rt i req (start v db) where
  ready _ _ h := by cases h
  overwrote _ h := by cases h
  wrote h := by cases h

/-- The comparison: a `Save` that is ready to write found the expected hash. -/
theorem hasHash_of_saveDocument {env : SaveEnv} {v : Vault β} {d : DocumentFile}
    (hpath : req.path ≠ "") (hhash : req.expectedHash ≠ "")
    (h : saveDocument rt env v req = .ok d) : HasHash rt v req.path req.expectedHash := by
  simp only [saveDocument, bind_eq_ok, if_neg hpath, label_eq_ok] at h
  obtain ⟨docFile, -, existing, hread, hmerge⟩ := h
  obtain ⟨-, hcompare, -⟩ := saveMerge_eq_ok.mp hmerge
  obtain ⟨absPath, habs, hcontent⟩ := contentHash_of_readFile hread
  exact ⟨absPath, habs, by rw [hcontent, hcompare.resolve_left hhash]⟩

def Phase.isReady : Phase → Bool
  | .ready _ _ => true
  | _ => false

section

variable [DecidableEq ι] {i : ι} {m : Move Phase (Shared ι β)} (hs : SaveInv rt i req s)

include hs

/-- A move that leaves the files alone keeps the invariant if the call does not get ready
and does not claim a write it has not made. -/
theorem saveInv_unready (hlog : m.shared.log = s.shared.log) (hready : m.phase.isReady = false)
    (hwritten : m.phase.hasWritten = false ∨ (s.phase i).hasWritten = true) :
    EachMove (LeadsTo (SaveInv rt i req) s i) (some m) := by
  refine eachMove_some fun s' hshared hphase => ?_
  have hnext : s'.phase i = m.phase := by rw [hphase, update_self]
  refine ⟨?_, ?_, ?_⟩
  · intro docPath docFile h
    rw [← hnext, h] at hready
    cases hready
  · rw [hshared, hlog]
    exact hs.overwrote
  · intro h
    rw [hnext] at h
    rw [hshared, hlog]
    exact hs.wrote (hwritten.resolve_left (by simp [h]))

/-- A move that changes a file keeps it if a write is over the expected content. -/
theorem saveInv_record {r : FileRecord ι β} (hlog : m.shared.log = s.shared.log ++ [r])
    (hcaller : r.caller = i) (hready : m.phase.isReady = false)
    (hwritten : m.phase.hasWritten = true → r.removal = false)
    (hover : r.removal = false → Overwrote rt req.path req.expectedHash r) :
    EachMove (LeadsTo (SaveInv rt i req) s i) (some m) := by
  refine eachMove_some fun s' hshared hphase => ?_
  have hnext : s'.phase i = m.phase := by rw [hphase, update_self]
  refine ⟨?_, ?_, ?_⟩
  · intro docPath docFile h
    rw [← hnext, h] at hready
    cases hready
  · intro r' hr' hcaller' hremoval
    rw [hshared, hlog, mem_append, mem_singleton] at hr'
    rcases hr' with hr' | rfl
    · exact hs.overwrote r' hr' hcaller' hremoval
    · exact hover hremoval
  · intro h
    rw [hnext] at h
    rw [hshared, hlog]
    exact ⟨r, mem_append_right _ (mem_singleton_self r), hcaller, hwritten h⟩

/-- The call's own moves keep the invariant. -/
theorem saveInv_step_self {calls : ι → Call} (hcall : calls i = .save req) (hpath : req.path ≠ "")
    (hhash : req.expectedHash ≠ "") {env : StepEnv}
    (hstep : s.step (act rt calls) (i, env) = some s') : SaveInv rt i req s' := by
  refine EachMove.step ?_ hstep
  simp only [act, hcall]
  cases hp : s.phase i with
  | idle => exact saveInv_unready hs rfl rfl (.inl rfl)
  | locked =>
    refine eachMove_branch (fun _ => saveInv_unready hs rfl rfl (.inl rfl)) ?_
    intro docFile hdoc
    refine eachMove_some fun s' hshared hphase => ?_
    refine ⟨?_, by rw [hshared]; exact hs.overwrote, ?_⟩
    · intro docPath d h
      rw [hphase, update_self] at h
      cases h
      rw [hshared]
      exact ⟨if_neg hpath, hasHash_of_saveDocument hpath hhash hdoc⟩
    · intro h
      rw [hphase, update_self] at h
      cases h
  | ready docPath docFile =>
    refine eachMove_branch (fun _ => saveInv_unready hs rfl rfl (.inl rfl)) ?_
    intro v hwrite
    obtain ⟨rfl, absPath, habs, hcontent⟩ := hs.ready docPath docFile hp
    obtain ⟨-, target, hdata, rfl⟩ := writeFile_eq_ok.mp (label_eq_ok.mp hwrite)
    have htarget : absPath = target.1 := by
      have htarget := (writeData_eq_ok.mp hdata).1
      rw [habs] at htarget
      exact Except.ok.inj htarget
    refine saveInv_record hs rfl rfl rfl (fun _ => rfl) fun _ => ?_
    exact ⟨absPath, _, habs, hcontent, by rw [htarget]⟩
  | failing docPath e =>
    refine eachMove_branch
      (fun _ => saveInv_unready hs rfl rfl (.inr (by rw [hp]; rfl))) fun v _ => ?_
    refine saveInv_record hs rfl rfl rfl ?_ ?_
    · intro h
      cases h
    · intro h
      cases h
  | written | indexing =>
    exact eachMove_branch (fun _ => saveInv_unready hs rfl rfl (.inr (by rw [hp]; rfl)))
      fun _ _ => saveInv_unready hs rfl rfl (.inr (by rw [hp]; rfl))
  | _ => exact eachMove_none

end

section

variable {calls : ι → Call} (hcalls : ∀ j docPath edit, calls j ≠ .tags docPath edit)

include hcalls

/-- A move of another call keeps the invariant: it cannot change a file while
this one is between its comparison and its write. -/
theorem saveInv_step_other [DecidableEq ι] {i : ι} {e : ι × StepEnv}
    (hexcl : Exclusive (fun p : Phase => p.critical = true) s) (hs : SaveInv rt i req s)
    (hother : i ≠ e.1) (hstep : s.step (act rt calls) e = some s') :
    SaveInv rt i req s' := by
  obtain ⟨m, hm, hshared, hphase, -⟩ := Threads.step_eq_some.mp hstep
  have hsame : s'.phase i = s.phase i := by
    rw [hphase, update_of_ne hother]
  rcases (act_shape hm).files with ⟨hvault, hlog⟩ | ⟨removal, hlog⟩
  · refine ⟨?_, ?_, ?_⟩
    · intro docPath docFile h
      rw [hshared, hvault]
      exact hs.ready docPath docFile (hsame ▸ h)
    · rw [hshared, hlog]
      exact hs.overwrote
    · rw [hshared, hlog, hsame]
      exact hs.wrote
  · have hcritical : (s.phase e.1).critical = true :=
      act_critical (hcalls e.1) hm (by simp [hlog])
    refine ⟨?_, ?_, ?_⟩
    · intro docPath docFile h
      rw [hsame] at h
      have hi : (s.phase i).critical = true := by rw [h]; rfl
      exact absurd (hexcl.unique hi hcritical) hother
    · intro r hr hcaller hremoval
      rw [hshared, hlog, mem_append, mem_singleton] at hr
      rcases hr with hr | rfl
      · exact hs.overwrote r hr hcaller hremoval
      · exact absurd hcaller.symm hother
    · intro hwritten
      rw [hsame] at hwritten
      obtain ⟨r, hr, hcaller, hremoval⟩ := hs.wrote hwritten
      exact ⟨r, by rw [hshared, hlog]; exact mem_append_left _ hr, hcaller, hremoval⟩

theorem saveInv_run [DecidableEq ι] {i : ι} (hcall : calls i = .save req)
    (hpath : req.path ≠ "") (hhash : req.expectedHash ≠ "") {v : Vault β} {db : Db}
    {es : List (ι × StepEnv)}
    (hrun : run (Threads.step (act rt calls)) (start v db) es = some s) :
    SaveInv rt i req s := by
  have hstep : ∀ t e t', Consistent v t ∧ SaveInv rt i req t →
      Threads.step (act rt calls) t e = some t' →
        Consistent v t' ∧ SaveInv rt i req t' := by
    rintro t ⟨j, env⟩ t' ⟨hcon, hinv⟩ hstep
    refine ⟨consistent_step hcon hstep, ?_⟩
    by_cases hj : i = j
    · subst hj
      exact saveInv_step_self hinv hcall hpath hhash hstep
    · exact saveInv_step_other hcalls hcon.exclusive hinv hj hstep
  exact (run_invariant hstep ⟨consistent_start v db, saveInv_start i req v db⟩ hrun).2

end

/-! ## The content hash along the history -/

/-- The last operation of a history decides the content hash at its end. -/
theorem chain_hash
    {u w : Vault β} {log : List (FileRecord ι β)} (h : Chain u log w)
    (absPath : String) {hash : Option String}
    (hend : contentHash rt w absPath = hash) :
    contentHash rt u absPath = hash ∨
      ∃ r ∈ log, contentHash rt r.before absPath ≠ hash ∧
        contentHash rt r.after absPath = hash := by
  induction log generalizing u with
  | nil =>
    cases h
    exact .inl hend
  | cons r rs ih =>
    obtain ⟨rfl, htail⟩ := h
    by_cases hbefore : contentHash rt r.before absPath = hash
    · exact .inl hbefore
    · rcases ih htail with hafter | ⟨r', hr', hturn⟩
      · exact .inr ⟨r, by simp, hbefore, hafter⟩
      · exact .inr ⟨r', by simp [hr'], hturn⟩

variable (rt) in
/-- What optimistic locking promises of a run: a `Save` that carries an expected
hash for an existing path and succeeds overwrote a file with that content hash;
and if another call changed files before that write, then it left the file with
that hash, or a later operation gave the file that hash again. -/
def NoLostUpdate (calls : ι → Call) (s : Threads ι Phase (Shared ι β)) : Prop :=
  ∀ i req, calls i = .save req → req.path ≠ "" → req.expectedHash ≠ "" →
    ∀ docPath, s.phase i = .done (.ok docPath) →
      ∃ earlier r later, s.shared.log = earlier ++ r :: later ∧ r.caller = i ∧
        Overwrote rt req.path req.expectedHash r ∧
        ∀ before r' between, earlier = before ++ r' :: between →
          HasHash rt r'.after req.path req.expectedHash ∨
            ∃ q ∈ between, ¬ HasHash rt q.before req.path req.expectedHash ∧
              HasHash rt q.after req.path req.expectedHash

/-- Optimistic locking holds in every state of every interleaving of `Save` and
`MoveToProject` calls. -/
theorem save_overwrites_expected_hash [DecidableEq ι]
    (rt : Runtime β) (calls : ι → Call)
    (hcalls : ∀ j docPath edit, calls j ≠ .tags docPath edit)
    (v : Vault β) (db : Db) (es : List (ι × StepEnv))
    (s : Threads ι Phase (Shared ι β))
    (hrun : run (Threads.step (act rt calls)) (start v db) es = some s) :
    NoLostUpdate rt calls s := by
  intro i req hcall hpath hhash docPath hdone
  have hinv := saveInv_run hcalls hcall hpath hhash hrun
  obtain ⟨r, hr, hcaller, hremoval⟩ := hinv.wrote (by rw [hdone]; rfl)
  have hover := hinv.overwrote r hr hcaller hremoval
  obtain ⟨earlier, later, hlog⟩ := append_of_mem hr
  refine ⟨earlier, r, later, hlog, hcaller, hover, ?_⟩
  intro before r' between hsplit
  obtain ⟨absPath, file, habs, hcontent, -⟩ := hover
  have hchain := (consistent_run hrun).chain
  rw [hlog, hsplit, chain_append] at hchain
  obtain ⟨u, hfirst, hrest⟩ := hchain
  rw [chain_append] at hfirst
  obtain ⟨t, -, -, hbetween⟩ := hfirst
  obtain ⟨rfl, -⟩ := hrest
  rcases chain_hash hbetween absPath hcontent with hleft | ⟨q, hq, hbefore, hafter⟩
  · exact .inl ⟨absPath, habs, hleft⟩
  · refine .inr ⟨q, hq, ?_, absPath, habs, hafter⟩
    rintro ⟨absPath', habs', h⟩
    rw [habs] at habs'
    cases habs'
    exact hbefore h

variable (rt) in
/-- The stronger reading: of two `Save`s of one document with the same expected
hash, the one that writes second succeeds only if the first left that hash. -/
def SecondSaveNeedsFirstUnchanged
    (calls : ι → Call) (s : Threads ι Phase (Shared ι β)) : Prop :=
  ∀ i j req req', calls i = .save req → calls j = .save req' →
    req'.path = req.path → req'.expectedHash = req.expectedHash →
    req.path ≠ "" → req.expectedHash ≠ "" →
    ∀ docPath, s.phase j = .done (.ok docPath) →
      ∀ before r between r' later,
        s.shared.log = before ++ r :: between ++ r' :: later →
        r.caller = i → r'.caller = j →
        HasHash rt r.after req.path req.expectedHash

end

/-! ## Two saves with one expected hash, and a third between them -/

namespace SampleLocking

def document (title : String) : DocumentFile where
  docMeta :=
    { project := "@ab", title := title, tags := [], aliases := [], created := 0
      updated := 0 }
  kind := documentKindDocument
  scene := none
  blocks := []
  assets := []

def path : String := "projects/@ab/a.json"

def vault : Vault DocumentFile :=
  (∅ : Vault DocumentFile).insert path ⟨document "A", 0⟩

def db : Db :=
  { Db.empty with
    project :=
      [{ id := "1", projectAlias := "@ab", name := "", startDate := ""
         endDate := "", deleted := false }] }

def request (title expectedHash : String) : SaveRequest where
  path := path
  projectAlias := "@ab"
  title := title
  kind := ""
  blocks := []
  scene := none
  assets := []
  tags := []
  expectedHash := expectedHash

/-- The first and the last save expect the file as it is; the one in between
writes the original document again. -/
def calls : Fin 3 → Call
  | 0 => .save (request "B" "A")
  | 1 => .save (request "A" "")
  | 2 => .save (request "C" "A")

/-- The clock stands still and nothing outside the model fails. -/
def env : StepEnv where
  docId := ""
  buildTime := 0
  readTime := 0
  writeTime := 0
  indexTime := 0
  mtime := 0
  readFault := none
  writeFaults := .none
  indexFaults := .none
  removeFault := none
  lookupFault := none
  txFault := none

/-- The calls run one after the other. -/
def schedule : List (Fin 3 × StepEnv) :=
  [0, 0, 0, 0, 0, 1, 1, 1, 1, 1, 2, 2, 2, 2, 2].map fun i => (i, env)

def final : Option (Threads (Fin 3) Phase (Shared (Fin 3) DocumentFile)) :=
  run (Threads.step (act plainRuntime calls)) (start vault db) schedule

/-- What is read off the final state: who wrote, the hashes that were left, and
whether the last save succeeded. -/
def summary (s : Threads (Fin 3) Phase (Shared (Fin 3) DocumentFile)) :
    List (Fin 3) × List (Option String) × Bool :=
  (s.shared.log.map FileRecord.caller,
    s.shared.log.map fun r => contentHash plainRuntime r.after path,
    match s.phase 2 with
    | .done (.ok _) => true
    | _ => false)

end SampleLocking

open SampleLocking

theorem sampleLocking_summary :
    final.map summary =
      some ([0, 1, 2], [some "B", some "A", some "C"], true) := by
  decide +kernel

theorem save_overwrites_expected_hash_sample :
    ∃ s, final = some s ∧
      NoLostUpdate plainRuntime calls s := by
  obtain ⟨s, hfinal, -⟩ := Option.map_eq_some_iff.mp sampleLocking_summary
  have hcalls : ∀ j docPath edit, calls j ≠ .tags docPath edit := by
    intro j docPath edit h
    unfold calls at h
    split at h <;> cases h
  exact ⟨s, hfinal, save_overwrites_expected_hash plainRuntime calls
    hcalls vault db schedule s hfinal⟩

/-- Both saves that expect the hash of the original succeed although the first
of them changed it: the save in between wrote the original again. -/
theorem expected_hash_may_come_back :
    ∃ s, final = some s ∧
      ¬ SecondSaveNeedsFirstUnchanged plainRuntime calls s := by
  obtain ⟨s, hfinal, hsummary⟩ := Option.map_eq_some_iff.mp sampleLocking_summary
  refine ⟨s, hfinal, fun hneeds => ?_⟩
  simp only [summary, Prod.mk.injEq] at hsummary
  obtain ⟨hcallers, hhashes, hdone⟩ := hsummary
  -- The history consists of the three writes.
  obtain ⟨r, r', r'', hlog⟩ : ∃ r r' r'', s.shared.log = [r, r', r''] := by
    have hlength : s.shared.log.length = 3 := by
      simpa using congrArg List.length hcallers
    exact length_eq_three.mp hlength
  rw [hlog] at hcallers hhashes
  simp only [map_cons, map_nil, List.cons.injEq, and_true] at hcallers hhashes
  obtain ⟨docPath, hphase⟩ : ∃ docPath, s.phase 2 = .done (.ok docPath) := by
    split at hdone
    · exact ⟨_, by assumption⟩
    · cases hdone
  obtain ⟨absPath, habs, hleft⟩ :=
    hneeds 0 2 _ _ rfl rfl rfl rfl (by decide) (by decide) docPath hphase
      [] r [r'] r'' [] hlog hcallers.1 hcallers.2.2
  have hpath : documentPath path = .ok path := by
    decide +kernel
  change documentPath path = .ok absPath at habs
  rw [hpath] at habs
  cases habs
  rw [hhashes.1] at hleft
  exact absurd hleft (by decide)

end Yanta.Document
