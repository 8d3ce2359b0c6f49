import Yanta.Editor.Machine

/-!
# What one step of the editor can do

The step function of the editor, inverted once: every way in which a step can
change the session, with the condition under which it happens. The invariants
are proved from these cases and never unfold the step function.
-/

namespace Yanta.Editor

open Go Session Option

section

variable {Block Scene : Type}
variable {s : Session Block Scene} {maxRetries : Nat} {t : Session Block Scene}

/-! ## The end of a run -/

/-- The five ways in which a run ends. -/
theorem Session.settle_cases {owner : Owner} {outcome : Except String Unit}
    (h : s.settle maxRetries owner outcome = t) :
    (owner = .direct ∧ t = { s with savingChain := s.savingChain.tail }) ∨
    (∃ k n, owner = .autoSave k n ∧ outcome = .ok () ∧ s.view.enabled = true ∧
      s.currentKey ≠ k ∧ t = { s with
        savingChain := s.savingChain.tail, lastSavedKey := k, isSaving := false
        performed := s.performed + 1
        now := { s.now with hasUnsavedChanges := true }, timeout := true }) ∨
    (∃ k n, owner = .autoSave k n ∧ outcome = .ok () ∧
      ¬ (s.view.enabled = true ∧ s.currentKey ≠ k) ∧ t = { s with
        savingChain := s.savingChain.tail, lastSavedKey := k, isSaving := false
        performed := s.performed + 1
        now := { s.now with hasUnsavedChanges := false }
        recorded := s.recorded ++ [k] }) ∨
    (∃ k n message, owner = .autoSave k n ∧ outcome = .error message ∧ t = { s with
        savingChain := s.savingChain.tail, isSaving := false
        performed := s.performed + 1, retryTimeout := some (n + 1) }) ∨
    (∃ k n message, owner = .autoSave k n ∧ outcome = .error message ∧ t = { s with
        savingChain := s.savingChain.tail, isSaving := false
        performed := s.performed + 1, saveError := some message }) := by
  subst h
  cases owner with
  | direct => exact .inl ⟨rfl, rfl⟩
  | autoSave k n =>
    refine .inr ?_
    cases outcome with
    | ok u =>
      by_cases hahead : s.view.enabled = true ∧ s.currentKey ≠ k
      · refine .inl ⟨k, n, rfl, rfl, hahead.1, hahead.2, ?_⟩
        simp [settle, noteSaved, hahead.1, hahead.2]
      · refine .inr (.inl ⟨k, n, rfl, rfl, hahead, ?_⟩)
        have hcond : (s.view.enabled && s.currentKey != k) = false := by
          simpa using hahead
        simp [settle, noteSaved, hcond]
    | error message =>
      refine .inr (.inr ?_)
      by_cases hretry : n < maxRetries
      · exact .inl ⟨k, n, message, rfl, rfl, by simp [settle, noteFailure, hretry]⟩
      · exact .inr ⟨k, n, message, rfl, rfl, by simp [settle, noteFailure, hretry]⟩

/-! ## The moves of a save -/

/-- Two screens agree on everything that edits, hashing and new documents set. -/
structure SameForm (v w : Screen Block Scene) : Prop where
  form : v.form = w.form
  hasChanges : v.hasChanges = w.hasChanges
  blocksHash : v.blocksHash = w.blocksHash
  shouldAutoSave : v.shouldAutoSave = w.shouldAutoSave

/-- The moves of the first run of the chain `run :: rest`. -/
inductive SaveMove (maxRetries : Nat) (s : Session Block Scene)
    (run : Run Block Scene) (rest : List (Run Block Scene)) :
    SaveEvent → Session Block Scene → Prop
  /-- Without a project `doSave` returns at once. -/
  | skipped (hstage : run.stage = .queued) (hproject : run.currentProject = none) :
      SaveMove maxRetries s run rest .start (s.settle maxRetries run.owner (.ok ()))
  | sent (sent : SentSave Block Scene) (hstage : run.stage = .queued)
      (hproject : run.currentProject ≠ none) (hform : sent.form = s.view.form) :
      SaveMove maxRetries s run rest .start
        { s with savingChain := { run with stage := .sending sent } :: rest }
  | accepted (sent : SentSave Block Scene) (savedPath : String)
      (hstage : run.stage = .sending sent) :
      SaveMove maxRetries s run rest (.respond (.ok savedPath))
        { s with
          saved := s.saved ++ [sent]
          savingChain := { run with stage := .linking sent savedPath } :: rest }
  | conflict (sent : SentSave Block Scene) (message : String)
      (hstage : run.stage = .sending sent)
      (hmessage : contains message "ERR_CONFLICT" = true) :
      SaveMove maxRetries s run rest (.respond (.error message))
        ({ s with now := { s.now with hasConflict := true } }.settle maxRetries
          run.owner (.ok ()))
  | failed (sent : SentSave Block Scene) (message : String)
      (hstage : run.stage = .sending sent) :
      SaveMove maxRetries s run rest (.respond (.error message))
        (s.settle maxRetries run.owner (.error message))
  | unnamed (sent : SentSave Block Scene) (hstage : run.stage = .linking sent "") :
      SaveMove maxRetries s run rest .linked (s.settle maxRetries run.owner (.ok ()))
  | reset (sent : SentSave Block Scene) (savedPath path : String)
      (hstage : run.stage = .linking sent savedPath) (hpath : savedPath ≠ "") :
      SaveMove maxRetries s run rest .linked
        { s with
          now := { s.now with hasChanges := false }, currentDocumentPath := path
          savingChain := { run with stage := .hashing sent } :: rest }
  | completed (sent : SentSave Block Scene) (newHash : Option String)
      (screen : Screen Block Scene) (hstage : run.stage = .hashing sent)
      (hscreen : SameForm screen s.now) :
      SaveMove maxRetries s run rest (.hashed newHash)
        ({ s with now := screen }.settle maxRetries run.owner (.ok ()))

section

variable {run : Run Block Scene} {rest : List (Run Block Scene)}
  (hchain : s.savingChain = run :: rest)

include hchain

theorem advance_eq (stage : Stage Block Scene) :
    s.advance stage = { s with savingChain := { run with stage := stage } :: rest } := by
  simp [advance, hchain]

theorem saveMove_of_stepSave {e : SaveEvent} (h : s.stepSave maxRetries run e = some t) :
    SaveMove maxRetries s run rest e t := by
  cases e with
  | start =>
    cases hstage : run.stage with
    | queued =>
      simp only [stepSave, hstage, Option.some.injEq] at h
      subst h
      cases hproject : run.currentProject with
      | none =>
        simp only [doSave, hproject]
        exact .skipped hstage hproject
      | some projectAlias =>
        have hsend : s.doSave maxRetries run =
            s.advance (.sending (s.readForm run projectAlias)) := by
          simp [doSave, hproject]
        rw [hsend, advance_eq hchain]
        exact .sent _ hstage (by simp [hproject]) rfl
    | _ => simp [stepSave, hstage] at h
  | respond answer =>
    cases hstage : run.stage with
    | sending sent =>
      simp only [stepSave, hstage, Option.some.injEq] at h
      subst h
      cases answer with
      | ok savedPath =>
        rw [receive, advance_eq]
        · exact .accepted sent savedPath hstage
        · exact hchain
      | error message =>
        rw [receive]
        split
        next hmessage => exact .conflict sent message hstage hmessage
        next => exact .failed sent message hstage
    | _ => simp [stepSave, hstage] at h
  | linked =>
    cases hstage : run.stage with
    | linking sent savedPath =>
      simp only [stepSave, hstage, Option.some.injEq] at h
      subst h
      by_cases hpath : savedPath = ""
      · rw [resetChanges, if_pos hpath]
        exact .unnamed sent (hpath ▸ hstage)
      · rw [resetChanges, if_neg hpath, advance_eq]
        · exact .reset sent savedPath _ hstage hpath
        · exact hchain
    | _ => simp [stepSave, hstage] at h
  | hashed newHash =>
    cases hstage : run.stage with
    | hashing sent =>
      simp only [stepSave, hstage, Option.some.injEq] at h
      subst h
      cases newHash with
      | none => exact .completed sent none s.now hstage ⟨rfl, rfl, rfl, rfl⟩
      | some hash => exact .completed sent (some hash) _ hstage ⟨rfl, rfl, rfl, rfl⟩
    | _ => simp [stepSave, hstage] at h

end

/-! ## All moves -/

/-- The moves of the machine. -/
inductive Move [DecidableEq Block] [DecidableEq Scene] (page : Page Block Scene)
    (maxRetries : Nat) (s : Session Block Scene) :
    Event Block Scene → Session Block Scene → Prop
  | unchanged (change : FormEdit Block Scene) (late : Bool) :
      Move page maxRetries s (.edit change late) s
  | edited (change : FormEdit Block Scene) (late : Bool) (next : FormData Block Scene)
      (hnext : change.apply page s.now.form = some next) :
      Move page maxRetries s (.edit change late)
        { s with
          now := { s.now with form := next, hasChanges := s.now.hasChanges || !late }
          lateChanges := s.lateChanges || late }
  | rendered (hpending : s.effectsPending = false) :
      Move page maxRetries s .render s.render
  | effects (formMoved blocksMoved : Bool) (hpending : s.effectsPending = true)
      (hfit : s.movesFit formMoved blocksMoved = true) :
      Move page maxRetries s (.effects formMoved blocksMoved)
        (s.runEffects page formMoved blocksMoved)
  | hashedBlocks (blocks : List Block) (hpending : s.pendingHash = some blocks) :
      Move page maxRetries s .frame
        { s with
          pendingHash := none
          now := { s.now with blocksHash := page.computeContentHash blocks } }
  | debounced (htimeout : s.timeout = true) :
      Move page maxRetries s .debounce ({ s with timeout := false }.performSave 0)
  | retried (retryCount : Nat) (hretry : s.retryTimeout = some retryCount) :
      Move page maxRetries s .retry
        ({ s with retryTimeout := none }.performSave retryCount)
  | called (cause : SaveCause) (hmay : s.mayCall cause = true) :
      Move page maxRetries s (.saveNow cause) s.saveNow
  /-- The environment changes the rest of the screen. -/
  | switched (e : Event Block Scene) (screen : Screen Block Scene)
      (hscreen : SameForm screen s.now) (htask : ∀ e', e ≠ .save e') :
      Move page maxRetries s e { s with now := screen }
  | saving (e : SaveEvent) (run : Run Block Scene) (rest : List (Run Block Scene))
      (t : Session Block Scene) (hchain : s.savingChain = run :: rest)
      (hmove : SaveMove maxRetries s run rest e t) :
      Move page maxRetries s (.save e) t

theorem move_of_stepTask [DecidableEq Block] [DecidableEq Scene] {page : Page Block Scene}
    {e : Event Block Scene} (h : s.stepTask page e = some t) : Move page maxRetries s e t := by
  cases e with
  | edit change late =>
    simp only [stepTask, updateFormData, Option.some.injEq] at h
    subst h
    cases hnext : change.apply page s.now.form with
    | none => exact .unchanged change late
    | some next => exact .edited change late next hnext
  | render =>
    cases hpending : s.effectsPending with
    | true => simp [stepTask, hpending] at h
    | false =>
      simp only [stepTask, hpending, Bool.false_eq_true, if_false,
        Option.some.injEq] at h
      subst h
      exact .rendered hpending
  | effects formMoved blocksMoved =>
    simp only [stepTask, ite_none_right_eq_some, Option.some.injEq,
      Bool.and_eq_true] at h
    obtain ⟨⟨hpending, hfit⟩, rfl⟩ := h
    exact .effects formMoved blocksMoved hpending hfit
  | frame =>
    obtain ⟨blocks, hpending, rfl⟩ := map_eq_some_iff.mp h
    exact .hashedBlocks blocks hpending
  | debounce =>
    simp only [stepTask, ite_none_right_eq_some, Option.some.injEq] at h
    obtain ⟨htimeout, rfl⟩ := h
    exact .debounced htimeout
  | retry =>
    obtain ⟨retryCount, hretry, rfl⟩ := map_eq_some_iff.mp h
    exact .retried retryCount hretry
  | saveNow cause =>
    simp only [stepTask, ite_none_right_eq_some, Option.some.injEq] at h
    obtain ⟨hmay, rfl⟩ := h
    exact .called cause hmay
  | save e => cases h
  | _ =>
    cases h
    refine .switched _ _ ⟨rfl, rfl, rfl, rfl⟩ ?_
    intro e' he
    cases he

theorem move_of_step [DecidableEq Block] [DecidableEq Scene] {page : Page Block Scene}
    {e : Event Block Scene} (h : s.step page maxRetries e = some t) :
    Move page maxRetries s e t := by
  by_cases hsave : ∃ e', e = .save e'
  · obtain ⟨e', rfl⟩ := hsave
    cases hchain : s.savingChain with
    | nil => simp [step, hchain] at h
    | cons run rest =>
      simp only [step, hchain] at h
      exact .saving e' run rest t hchain (saveMove_of_stepSave hchain h)
  · have htask : s.stepTask page e = some t := by
      unfold step at h
      split at h
      next e' => exact absurd ⟨e', rfl⟩ hsave
      next => exact (ite_none_left_eq_some.mp h).2
    exact move_of_stepTask htask

end

end Yanta.Editor
