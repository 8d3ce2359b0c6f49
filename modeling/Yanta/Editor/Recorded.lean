import Yanta.Editor.Sync

/-!
# Saved means saved

Autosave takes a save whose promise resolves as a save that was made. `doSave`
also resolves when there is no current project and when the backend reports a
conflict, and it may send a newer form than the one whose key was noted. These
are the only ways in which a key is recorded as saved without a save of content
with this key.
-/

namespace Yanta.Editor

open Go Support List

section

variable {Block Scene : Type}

/-- Every key that was recorded while the unsaved flag was cleared is the key of
content that the backend has saved. -/
def RecordsSaves (page : Page Block Scene) (s : Session Block Scene) : Prop :=
  ∀ k ∈ s.recorded, ∃ sent ∈ s.saved, contentKey page sent.form = k

/-- What the backend has saved in a run that is still in the chain. -/
def Stage.savedContent : Stage Block Scene → Option (SentSave Block Scene)
  | .queued | .sending _ => none
  | .linking sent _ | .hashing sent => some sent

/-- The condition on a step that ends a save of autosave: either something was
saved, namely content with the noted key, or autosave has seen a newer key and
keeps the unsaved flag. -/
def recordIsSafe (page : Page Block Scene) (s : Session Block Scene)
    (run : Run Block Scene) (e : SaveEvent) : Bool :=
  match run.owner with
  | .direct => true
  | .autoSave savedKey _ =>
    (s.view.enabled && s.currentKey != savedKey) ||
    match e with
    | .start => run.currentProject.isSome
    | .respond (.ok _) => true
    | .respond (.error message) => !contains message "ERR_CONFLICT"
    | .linked | .hashed _ =>
      run.stage.savedContent.all fun sent => contentKey page sent.form == savedKey

def recordingIsSafe (page : Page Block Scene) (s : Session Block Scene) :
    Event Block Scene → Bool
  | .save e =>
    match s.savingChain with
    | [] => true
    | run :: _ => recordIsSafe page s run e
  | _ => true

/-! ## The invariant -/

structure Recorded (page : Page Block Scene) (s : Session Block Scene) : Prop where
  keys : RecordsSaves page s
  runs : ∀ run ∈ s.savingChain, ∀ sent, run.stage.savedContent = some sent →
    sent ∈ s.saved

variable {page : Page Block Scene} {maxRetries : Nat} {s t : Session Block Scene}

section

variable (hs : Recorded page s)

include hs

/-- A move that adds at most a new run and a new save. -/
theorem recorded_of_same (hrecorded : t.recorded = s.recorded)
    (hsaved : ∀ sent ∈ s.saved, sent ∈ t.saved)
    (hruns : ∀ run ∈ t.savingChain, ∀ sent, run.stage.savedContent = some sent →
      sent ∈ t.saved) : Recorded page t := by
  refine ⟨?_, hruns⟩
  intro k hk
  rw [hrecorded] at hk
  obtain ⟨sent, hsent, hkey⟩ := hs.keys k hk
  exact ⟨sent, hsaved sent hsent, hkey⟩

theorem recorded_handleSave {owner : Owner} {v : Screen Block Scene}
    (hrecorded : t.recorded = s.recorded) (hsaved : t.saved = s.saved)
    (hchain : t.savingChain = handleSave s.savingChain owner v) : Recorded page t := by
  refine recorded_of_same hs hrecorded (by simp [hsaved]) ?_
  intro run hrun sent hsent
  rw [hchain] at hrun
  rw [hsaved]
  rcases mem_append.mp hrun with hrun | hrun
  · exact hs.runs run hrun sent hsent
  · rw [mem_singleton.mp hrun] at hsent
    cases hsent

theorem recorded_performSave {n : Nat} {timeout : Bool} {retryTimeout : Option Nat} :
    Recorded page
      ({ s with timeout := timeout, retryTimeout := retryTimeout }.performSave n) := by
  unfold Session.performSave
  split
  next => exact ⟨hs.keys, hs.runs⟩
  next => exact recorded_handleSave hs rfl rfl rfl

/-- The first run moves on without ending. -/
theorem recorded_advance {run : Run Block Scene} {rest : List (Run Block Scene)}
    {stage : Stage Block Scene} (hchain : s.savingChain = run :: rest)
    (hrecorded : t.recorded = s.recorded) (hsaved : ∀ sent ∈ s.saved, sent ∈ t.saved)
    (hnext : t.savingChain = { run with stage := stage } :: rest)
    (hstage : ∀ sent, stage.savedContent = some sent → sent ∈ t.saved) :
    Recorded page t := by
  refine recorded_of_same hs hrecorded hsaved ?_
  intro r hr sent hsent
  rw [hnext] at hr
  rcases mem_cons.mp hr with rfl | hr
  · exact hstage sent hsent
  · exact hsaved sent (hs.runs r (by simp [hchain, hr]) sent hsent)

/-- The first run ends. A key is recorded only if autosave has not seen a newer
one. -/
theorem recorded_settle {owner : Owner} {outcome : Except String Unit}
    (hkey : ∀ k n, owner = .autoSave k n → outcome = .ok () →
      ¬ (s.view.enabled = true ∧ s.currentKey ≠ k) →
      ∃ sent ∈ s.saved, contentKey page sent.form = k) :
    Recorded page (s.settle maxRetries owner outcome) := by
  have hruns : ∀ run ∈ s.savingChain.tail, ∀ sent,
      run.stage.savedContent = some sent → sent ∈ s.saved :=
    fun run hrun => hs.runs run (mem_of_mem_tail hrun)
  rcases Session.settle_cases (t := s.settle maxRetries owner outcome) rfl with
    ⟨-, ht⟩ | ⟨k, n, -, -, -, -, ht⟩ | ⟨k, n, howner, hok, hcurrent, ht⟩ |
    ⟨k, n, message, -, -, ht⟩ | ⟨k, n, message, -, -, ht⟩
  · rw [ht]
    exact ⟨hs.keys, hruns⟩
  · rw [ht]
    exact ⟨hs.keys, hruns⟩
  · rw [ht]
    refine ⟨?_, hruns⟩
    intro k' hk'
    rcases mem_append.mp hk' with hk' | hk'
    · exact hs.keys k' hk'
    · rw [mem_singleton.mp hk']
      exact hkey k n howner hok hcurrent
  · rw [ht]
    exact ⟨hs.keys, hruns⟩
  · rw [ht]
    exact ⟨hs.keys, hruns⟩

theorem recorded_saveMove {run : Run Block Scene} {rest : List (Run Block Scene)}
    {e : SaveEvent} (hchain : s.savingChain = run :: rest)
    (hsafe : recordIsSafe page s run e = true) (hmove : SaveMove maxRetries s run rest e t) :
    Recorded page t := by
  have hscreen : ∀ screen : Screen Block Scene, Recorded page { s with now := screen } :=
    fun screen => ⟨hs.keys, hs.runs⟩
  have hrun := hs.runs run (by simp [hchain])
  have hahead : ∀ k, ¬ (s.view.enabled = true ∧ s.currentKey ≠ k) →
      (s.view.enabled && s.currentKey != k) = false := by
    intro k hcurrent
    simpa using hcurrent
  -- A completed save has saved content with the noted key.
  have hcompleted : ∀ sent, run.stage.savedContent = some sent →
      (e = .linked ∨ ∃ newHash, e = .hashed newHash) →
      ∀ k n, run.owner = .autoSave k n →
        ¬ (s.view.enabled = true ∧ s.currentKey ≠ k) →
        ∃ sent ∈ s.saved, contentKey page sent.form = k := by
    intro sent hstage he k n howner hcurrent
    refine ⟨sent, hrun sent hstage, ?_⟩
    rcases he with rfl | ⟨newHash, rfl⟩
    · simpa [recordIsSafe, howner, hahead k hcurrent, hstage] using hsafe
    · simpa [recordIsSafe, howner, hahead k hcurrent, hstage] using hsafe
  cases hmove with
  | skipped hstage hproject =>
    refine recorded_settle hs fun k n howner _ hcurrent => ?_
    simp [recordIsSafe, howner, hahead k hcurrent, hproject] at hsafe
  | sent sent hstage hproject hform =>
    refine recorded_advance hs hchain rfl (fun _ h => h) rfl ?_
    intro sent h
    cases h
  | accepted sent savedPath hstage =>
    refine recorded_advance hs hchain rfl (fun _ h => mem_append_left _ h) rfl ?_
    intro sent' h
    cases h
    exact mem_append_right _ (mem_singleton_self _)
  | conflict sent message hstage hmessage =>
    refine recorded_settle (hscreen _) fun k n howner _ hcurrent => ?_
    simp [recordIsSafe, howner, hahead k hcurrent, hmessage] at hsafe
  | failed sent message hstage =>
    refine recorded_settle hs fun k n _ hok => ?_
    cases hok
  | unnamed sent hstage =>
    refine recorded_settle hs fun k n howner _ hcurrent => ?_
    exact hcompleted sent (by simp [Stage.savedContent, hstage]) (.inl rfl) k n howner
      hcurrent
  | reset sent savedPath path hstage hpath =>
    refine recorded_advance hs hchain rfl (fun _ h => h) rfl ?_
    intro sent' h
    cases h
    exact hrun sent (by simp [Stage.savedContent, hstage])
  | completed sent newHash screen hstage hsame =>
    refine recorded_settle (hscreen screen) fun k n howner _ hcurrent => ?_
    exact hcompleted sent (by simp [Stage.savedContent, hstage]) (.inr ⟨_, rfl⟩) k n
      howner hcurrent

variable [DecidableEq Block] [DecidableEq Scene]

theorem recorded_move {e : Event Block Scene} (hsafe : recordingIsSafe page s e = true)
    (hmove : Move page maxRetries s e t) :
    Recorded page t := by
  cases hmove with
  | unchanged => exact hs
  | edited | rendered | hashedBlocks | switched => exact ⟨hs.keys, hs.runs⟩
  | effects formMoved blocksMoved =>
    cases hdirect : s.view.savesDirectly with
    | true =>
      have hchain : (s.runEffects page formMoved blocksMoved).savingChain =
          handleSave s.savingChain .direct s.view := by
        simp [hdirect]
      exact recorded_handleSave hs rfl rfl hchain
    | false =>
      refine recorded_of_same hs rfl (fun _ h => h) ?_
      intro run hrun
      exact hs.runs run (by simpa [hdirect] using hrun)
  | debounced | retried | called => exact recorded_performSave hs
  | saving e run rest t hchain hsave =>
    refine recorded_saveMove hs hchain ?_ hsave
    simpa [recordingIsSafe, hchain] using hsafe

end

end

section

variable {Block Scene : Type} [DecidableEq Block] [DecidableEq Scene]

end

/-! ## A conflict that is recorded as a save -/

namespace SampleEditor

def accepted : List (Event String Unit) :=
  [.save (.respond (.ok "p.json")), .save .linked, .save (.hashed (some "h"))]

def refused : List (Event String Unit) :=
  [.save (.respond (.error "ERR_CONFLICT: document changed"))]

/-- The titles recorded as saved, the titles saved, and the unsaved flag. -/
def records (s : Session String Unit) : List String × List String × Bool :=
  (s.recorded, s.saved.map fun sent => sent.form.title, s.now.hasUnsavedChanges)

end SampleEditor

open SampleEditor

end Yanta.Editor
