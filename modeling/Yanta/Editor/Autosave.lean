import Yanta.Editor.Sync

/-!
# Quiescent editors and the autosave timer

What it means that a quiescent editor has saved its form, the condition on the
steps of a run under which this is the case, and the first part of the argument:
whenever the autosave effect last saw unsaved changes, a timer is running, unless
a save or a retry is on its way or the retries are exhausted.
-/

namespace Yanta.Editor

open Go Session List

section

variable {Block Scene : Type}
variable {run : Run Block Scene} {rest : List (Run Block Scene)} {formMoved blocksMoved : Bool}

/-- Nothing is in flight, scheduled or waiting to be rendered, and nothing keeps
the editor from saving. -/
structure Quiescent (s : Session Block Scene) : Prop where
  rendered : s.view = s.now ∧ s.lateChanges = false
  effects : s.effectsPending = false
  hashed : s.pendingHash = none
  timeout : s.timeout = false
  retryTimeout : s.retryTimeout = none
  savingChain : s.savingChain = []
  saveError : s.saveError = none
  project : s.now.currentProject ≠ none
  loaded : s.now.isLoading = false ∧ s.now.loadError = false
  active : s.now.isArchived = false ∧ s.now.hasConflict = false

instance quiescentDecidable [DecidableEq Block] [DecidableEq Scene]
    (s : Session Block Scene) : Decidable (Quiescent s) :=
  decidable_of_iff
    ((s.view = s.now ∧ s.lateChanges = false) ∧ s.effectsPending = false ∧
      s.pendingHash = none ∧ s.timeout = false ∧ s.retryTimeout = none ∧
      s.savingChain = [] ∧ s.saveError = none ∧ s.now.currentProject ≠ none ∧
      (s.now.isLoading = false ∧ s.now.loadError = false) ∧
      (s.now.isArchived = false ∧ s.now.hasConflict = false))
    ⟨fun ⟨a, b, c, d, e, f, g, h, i, j⟩ => ⟨a, b, c, d, e, f, g, h, i, j⟩,
      fun ⟨a, b, c, d, e, f, g, h, i, j⟩ => ⟨a, b, c, d, e, f, g, h, i, j⟩⟩

/-- Among these contents, the key tells what is sent. -/
def KeysDistinguish (page : Page Block Scene)
    (contents : List (FormData Block Scene)) : Prop :=
  ∀ f ∈ contents, ∀ g ∈ contents, contentKey page f = contentKey page g →
    sentContent page f = sentContent page g

/-! ## Safe steps -/

section

variable [DecidableEq Block] [DecidableEq Scene]

/-- No content that was not saved has the key on the screen. -/
def baselineIsSaved (page : Page Block Scene) (contents : List (FormData Block Scene))
    (opened : Opened Block Scene) (s : Session Block Scene) : Bool :=
  match persisted opened s with
  | none => true
  | some form => contents.all fun g =>
    contentKey page g != s.view.key page || sentContent page g == sentContent page form

/-- When a save completes, the form is what was sent, or it is marked as changed
again, or autosave has seen the newer key and is enabled in the last render. -/
def completionIsSafe (page : Page Block Scene) (opened : Opened Block Scene)
    (s : Session Block Scene) (owner : Owner) : Bool :=
  (persisted opened s).any (fun form =>
      sentContent page form == sentContent page s.now.form) ||
    s.now.hasChanges || s.lateChanges ||
    match owner with
    | .autoSave savedKey _ =>
      s.view.enabled && s.currentKey != savedKey && !s.effectsPending
    | .direct => false

/-- The condition on the progress of a save. -/
def saveIsSafe (page : Page Block Scene) (opened : Opened Block Scene)
    (s : Session Block Scene) (run : Run Block Scene) : SaveEvent → Bool
  | .start =>
    run.currentProject.isSome &&
      match run.owner with
      | .autoSave savedKey _ => savedKey == contentKey page s.view.form
      | .direct => true
  | .respond (.ok _) =>
    match run.owner, run.stage with
    | .direct, .sending sent =>
      s.lastSavedKey == "" || s.lastSavedKey == contentKey page sent.form
    | _, _ => true
  | .respond (.error message) => !contains message "ERR_CONFLICT" && run.isAuto
  | .linked =>
    match run.stage with
    | .linking _ savedPath => savedPath != "" || completionIsSafe page opened s run.owner
    | _ => true
  | .hashed _ => completionIsSafe page opened s run.owner

/-- The condition on a step. The list `contents` has the forms that occur. -/
def stepIsSafe (page : Page Block Scene) (contents : List (FormData Block Scene))
    (opened : Opened Block Scene) (s : Session Block Scene) :
    Event Block Scene → Bool
  | .edit change _ =>
    (change.apply page s.now.form).all fun next => decide (next ∈ contents)
  | .effects _ _ =>
    !s.initializes || (!s.isSaving && baselineIsSaved page contents opened s)
  | .save e =>
    match s.savingChain with
    | [] => true
    | run :: _ => saveIsSafe page opened s run e
  | _ => true

end

/-! ## The timer -/

/-- Autosave has a timer whenever its effect last saw unsaved changes. -/
structure Scheduled (page : Page Block Scene) (s : Session Block Scene) : Prop where
  touchedSaved : s.hasUserMadeChanges = true ∨ s.lastSavedKey = s.initialKey
  touchedNow : s.hasUserMadeChanges = true ∨ s.currentKey = s.initialKey
  touchedRun : ∀ run ∈ s.savingChain, ∀ k n, run.owner = .autoSave k n →
    s.hasUserMadeChanges = true ∨ k = s.initialKey
  timer : s.effView.enabled = true → s.view.enabled = true →
    s.effView.key page ≠ s.lastSavedKey → s.isSaving = false →
    s.retryTimeout = none → s.saveError = none → s.timeout = true
  cleanup : ∀ run ∈ s.savingChain, ∀ k n, run.owner = .autoSave k n →
    s.currentKey ≠ k → s.clearsTimeout = false

variable {page : Page Block Scene} {maxRetries : Nat} {s t : Session Block Scene}

theorem scheduled_start (project : Option String) (opened : Opened Block Scene) :
    Scheduled page (start page project opened) where
  touchedSaved := .inl rfl
  touchedNow := .inl rfl
  touchedRun _ h := by cases h
  timer h := by simp [start, Opened.mounted, Screen.enabled] at h
  cleanup _ h := by cases h

theorem scheduled_performSave {n : Nat} {timeout : Bool} {retryTimeout : Option Nat}
    (hs : Scheduled page s) :
    Scheduled page
      ({ s with timeout := timeout, retryTimeout := retryTimeout }.performSave n) := by
  unfold performSave
  split
  next hsaving =>
    refine { hs with timer := ?_ }
    intro _ _ _ hfree
    exact absurd (hsaving.symm.trans hfree) (by simp)
  next =>
    refine ⟨hs.touchedSaved, hs.touchedNow, ?_, ?_, ?_⟩
    · intro run hrun k m howner
      rcases mem_append.mp hrun with hrun | hrun
      · exact hs.touchedRun run hrun k m howner
      · rw [mem_singleton.mp hrun] at howner
        cases howner
        exact hs.touchedNow
    · intro _ _ _ hfree
      cases hfree
    · intro run hrun k m howner hkey
      rcases mem_append.mp hrun with hrun | hrun
      · exact hs.cleanup run hrun k m howner hkey
      · rw [mem_singleton.mp hrun] at howner
        cases howner
        exact absurd rfl hkey

theorem scheduled_settle {outcome : Except String Unit}
    (hkey : s.currentKey = s.effView.key page) (hs : Scheduled page s)
    (hchain : s.savingChain = run :: rest) :
    Scheduled page (s.settle maxRetries run.owner outcome) := by
  have hmem : ∀ r ∈ s.savingChain.tail, r ∈ s.savingChain :=
    fun r hr => mem_of_mem_tail hr
  have hrun : run ∈ s.savingChain := by simp [hchain]
  have htouched := fun r hr => hs.touchedRun r (hmem r hr)
  have hcleanup := fun r hr => hs.cleanup r (hmem r hr)
  rcases settle_cases (t := s.settle maxRetries run.owner outcome) rfl with
    ⟨-, ht⟩ | ⟨k, n, howner, -, -, -, ht⟩ | ⟨k, n, howner, -, hcurrent, ht⟩ |
    ⟨k, n, message, -, -, ht⟩ | ⟨k, n, message, -, -, ht⟩
  · rw [ht]
    exact ⟨hs.touchedSaved, hs.touchedNow, htouched, hs.timer, hcleanup⟩
  · rw [ht]
    exact ⟨hs.touchedRun run hrun k n howner, hs.touchedNow, htouched,
      fun _ _ _ _ _ _ => rfl, hcleanup⟩
  · rw [ht]
    refine ⟨hs.touchedRun run hrun k n howner, hs.touchedNow, htouched, ?_, hcleanup⟩
    intro _ henabled hne
    exact absurd ⟨henabled, hkey ▸ hne⟩ hcurrent
  · rw [ht]
    refine ⟨hs.touchedSaved, hs.touchedNow, htouched, ?_, hcleanup⟩
    intro _ _ _ _ hretry
    cases hretry
  · rw [ht]
    refine ⟨hs.touchedSaved, hs.touchedNow, htouched, ?_, hcleanup⟩
    intro _ _ _ _ _ herror
    cases herror

/-- The chain keeps its owners when the first run moves on. -/
theorem scheduled_advance {stage : Stage Block Scene} {now : Screen Block Scene} {path : String}
    {saved : List (SentSave Block Scene)} (hs : Scheduled page s)
    (hchain : s.savingChain = run :: rest) :
    Scheduled page { s with
      now := now, currentDocumentPath := path, saved := saved
      savingChain := { run with stage := stage } :: rest } := by
  have howners : ∀ r ∈ ({ run with stage := stage } :: rest), ∃ r' ∈ s.savingChain,
      r'.owner = r.owner := by
    intro r hr
    rw [hchain]
    rcases mem_cons.mp hr with rfl | hr
    · exact ⟨run, mem_cons_self, rfl⟩
    · exact ⟨r, mem_cons_of_mem _ hr, rfl⟩
  refine ⟨hs.touchedSaved, hs.touchedNow, ?_, hs.timer, ?_⟩
  · intro r hr k n howner
    obtain ⟨r', hr', hsame⟩ := howners r hr
    exact hs.touchedRun r' hr' k n (hsame.trans howner)
  · intro r hr k n howner
    obtain ⟨r', hr', hsame⟩ := howners r hr
    exact hs.cleanup r' hr' k n (hsame.trans howner)

theorem scheduled_saveMove {e : SaveEvent} (hkey : s.currentKey = s.effView.key page)
    (hs : Scheduled page s) (hchain : s.savingChain = run :: rest)
    (hmove : SaveMove maxRetries s run rest e t) : Scheduled page t := by
  have hscreen : ∀ screen : Screen Block Scene, Scheduled page { s with now := screen } :=
    fun _ => { hs with }
  cases hmove with
  | skipped | failed | unnamed => exact scheduled_settle hkey hs hchain
  | sent | accepted | reset => exact scheduled_advance hs hchain
  | conflict | completed => exact scheduled_settle hkey (hscreen _) hchain

/-- The runs that autosave waits for are those of before the effects. -/
theorem mem_of_mem_effects (hrun : run ∈ (s.runEffects page formMoved blocksMoved).savingChain) :
    run ∈ s.savingChain ∨ run.owner = .direct ∧ run.stage = .queued := by
  rw [runEffects_savingChain] at hrun
  split at hrun
  next =>
    rcases mem_append.mp hrun with hrun | hrun
    · exact .inl hrun
    · rw [mem_singleton.mp hrun]
      exact .inr ⟨rfl, rfl⟩
  next => exact .inl hrun

/-- The baseline is taken anew: content on the screen counts as saved. -/
theorem scheduled_initialize (hkey : s.currentKey = s.effView.key page)
    (hinit : s.initializes = true)
    (hidle : ∀ run ∈ s.savingChain, ∀ k n, run.owner ≠ .autoSave k n) :
    Scheduled page (s.runEffects page formMoved blocksMoved) := by
  have hcurrent : (s.runEffects page formMoved blocksMoved).currentKey =
      s.view.key page := by
    rw [runEffects_currentKey]
    split
    next => rfl
    next hmoved =>
      simp only [watchMoved, Bool.or_eq_true, not_or] at hmoved
      rw [hkey]
      exact (by simpa using hmoved.2 : s.view.key page = s.effView.key page).symm
  have hidle' : ∀ run ∈ (s.runEffects page formMoved blocksMoved).savingChain, ∀ k n,
      run.owner ≠ .autoSave k n := by
    intro run hrun k n howner
    rcases mem_of_mem_effects hrun with hrun | ⟨hdirect, -⟩
    · exact hidle run hrun k n howner
    · rw [hdirect] at howner
      cases howner
  refine ⟨.inr ?_, .inr ?_, ?_, ?_, ?_⟩
  · simp [hinit]
  · rw [hcurrent]
    simp [hinit]
  · intro run hrun k n howner
    exact absurd howner (hidle' run hrun k n)
  · intro _ _ hne
    exact absurd (by simp [hinit]) hne
  · intro run hrun k n howner
    exact absurd howner (hidle' run hrun k n)

/-- The autosave effect runs. -/
theorem scheduled_watch (hs : Scheduled page s) (hinit : s.initializes = false)
    (hmoved : s.watchMoved page formMoved = true)
    (hbusy : ∀ run ∈ s.savingChain, ∀ k n, run.owner = .autoSave k n →
      s.isSaving = true) : Scheduled page (s.runEffects page formMoved blocksMoved) := by
  have htouched : (s.runEffects page formMoved blocksMoved).hasUserMadeChanges =
      s.touched page := by
    simp [hmoved, initializedEffect_touched, hinit]
  have hkept : s.hasUserMadeChanges = true → s.touched page = true := by
    intro h
    simp [touched, h]
  refine ⟨?_, ?_, ?_, ?_, ?_⟩
  · rw [htouched]
    rcases hs.touchedSaved with h | h
    · exact .inl (hkept h)
    · exact .inr (by simpa [hinit] using h)
  · rw [htouched]
    by_cases hsame : s.view.key page = s.initialKey
    · exact .inr (by simpa [hmoved, hinit] using hsame)
    · exact .inl (by simp [touched, hsame])
  · intro run hrun k n howner
    rw [htouched]
    rcases mem_of_mem_effects hrun with hrun | ⟨hdirect, -⟩
    · rcases hs.touchedRun run hrun k n howner with h | h
      · exact .inl (hkept h)
      · exact .inr (by simpa [hinit] using h)
    · rw [hdirect] at howner
      cases howner
  · intro henabled _ hne hfree _ _
    have hlast : s.view.key page ≠ s.lastSavedKey := by simpa [hinit] using hne
    have hview : s.view.enabled = true := henabled
    have huser : s.touched page = true := by
      rcases hs.touchedSaved with h | h
      · exact hkept h
      · rw [h] at hlast
        simp [touched, hlast]
    have hschedules : s.schedules page = true := by
      simp [schedules, hview, hlast, huser, show s.isSaving = false from hfree]
    simp [hmoved, initializedEffect_schedules, hinit, hschedules]
  · intro run hrun k n howner _
    rcases mem_of_mem_effects hrun with hrun | ⟨hdirect, -⟩
    · have hschedules : s.schedules page = false := by
        simp [schedules, hbusy run hrun k n howner]
      simp [hmoved, initializedEffect_schedules, hschedules]
    · rw [hdirect] at howner
      cases howner

/-- The autosave effect does not run: nothing it depends on has changed. -/
theorem scheduled_unmoved (hs : Scheduled page s) (hinit : s.initializes = false)
    (hmoved : s.watchMoved page formMoved = false) :
    Scheduled page (s.runEffects page formMoved blocksMoved) := by
  have hsame : s.view.enabled = s.effView.enabled ∧
      s.view.key page = s.effView.key page := by
    simp only [watchMoved, Bool.or_eq_false_iff] at hmoved
    exact ⟨by simpa using hmoved.1.2, by simpa using hmoved.2⟩
  refine ⟨?_, ?_, ?_, ?_, ?_⟩
  · simpa [hinit, hmoved] using hs.touchedSaved
  · simpa [hinit, hmoved] using hs.touchedNow
  · intro run hrun k n howner
    rcases mem_of_mem_effects hrun with hrun | ⟨hdirect, -⟩
    · simpa [hinit, hmoved] using hs.touchedRun run hrun k n howner
    · rw [hdirect] at howner
      cases howner
  · intro henabled hview hne hfree hretry herror
    have hold : s.effView.enabled = true := hsame.1 ▸ hview
    have hkey : s.effView.key page ≠ s.lastSavedKey := by
      simpa [hinit, hsame.2] using hne
    simpa [hmoved] using hs.timer hold hview hkey hfree hretry herror
  · intro run hrun k n howner hne
    rcases mem_of_mem_effects hrun with hrun | ⟨hdirect, -⟩
    · simpa [hmoved] using hs.cleanup run hrun k n howner (by simpa [hmoved] using hne)
    · rw [hdirect] at howner
      cases howner

/-- A run of autosave is in the chain exactly while it is saving. -/
theorem isSaving_of_mem {k : String} {n : Nat} (hsync : Synced page s)
    (hrun : run ∈ s.savingChain) (howner : run.owner = .autoSave k n) : s.isSaving = true := by
  have hpos : 0 < s.savingChain.countP Run.isAuto :=
    countP_pos_iff.mpr ⟨run, hrun, by simp [Run.isAuto, howner]⟩
  cases hsaving : s.isSaving with
  | true => rfl
  | false =>
    rw [hsync.saving, hsaving] at hpos
    cases hpos

variable [DecidableEq Block] [DecidableEq Scene]

theorem scheduled_move {contents : List (FormData Block Scene)}
    {opened : Opened Block Scene} {e : Event Block Scene} (hsync : Synced page s)
    (hs : Scheduled page s) (hsafe : stepIsSafe page contents opened s e = true)
    (hmove : Move page maxRetries s e t) : Scheduled page t := by
  cases hmove with
  | unchanged => exact hs
  | edited | switched | hashedBlocks => exact { hs with }
  | rendered hpending =>
    refine { hs with timer := ?_ }
    -- The render before this one has had its effects.
    intro hold _
    exact hs.timer hold (hsync.view hpending ▸ hold)
  | effects formMoved blocksMoved =>
    cases hinit : s.initializes with
    | true =>
      have hfree : s.isSaving = false := by
        simp only [stepIsSafe, hinit, Bool.not_true, Bool.false_or,
          Bool.and_eq_true, Bool.not_eq_true'] at hsafe
        exact hsafe.1
      refine scheduled_initialize hsync.key hinit ?_
      intro run hrun k n howner
      exact absurd (isSaving_of_mem hsync hrun howner) (by simp [hfree])
    | false =>
      cases hmoved : s.watchMoved page formMoved with
      | true =>
        exact scheduled_watch hs hinit hmoved
          fun run hrun k n howner => isSaving_of_mem hsync hrun howner
      | false => exact scheduled_unmoved hs hinit hmoved
  | debounced | retried | called => exact scheduled_performSave hs
  | saving e run rest t hchain hsave => exact scheduled_saveMove hsync.key hs hchain hsave

end

end Yanta.Editor
