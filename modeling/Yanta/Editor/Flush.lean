import Yanta.Editor.Sync

/-!
# Flushing on quit

`flushAllDirty` asks every editor that shows unsaved changes to save now and
waits for the promises. An editor whose save is already running returns at
once, so the flush does not wait for the content typed since, and an editor
whose flag has not been rendered yet is not asked. The main result says which
editors are flushed: those with nothing to save, and those that show their
unsaved changes, are not saving, and start or have started a save of exactly the
content they have.
-/

namespace Yanta.Editor

open Support Session List Option

section

variable {ι Block Scene : Type}

/-- The editors after the calls of `saveNow`. -/
def flushAllDirty (editors : ι → Session Block Scene) : ι → Session Block Scene :=
  fun i =>
    if (editors i).view.hasUnsavedChanges then (editors i).saveNow else editors i

/-- The promises have resolved. `performSave` returns at once while a save is
running; otherwise its promise resolves when its save has ended. -/
def FlushResolved (before after : ι → Session Block Scene) : Prop :=
  ∀ i, (before i).view.hasUnsavedChanges = true → (before i).isSaving = false →
    (before i).performed < (after i).performed

def Event.isFailure : Event Block Scene → Bool
  | .save (.respond (.error _)) => true
  | _ => false

/-- The content that the editor had at the call was stored already, or a save of
it has completed since. -/
def Flushed (page : Page Block Scene) (opened : Opened Block Scene)
    (before after : Session Block Scene) : Prop :=
  ShowsSaved page opened before ∨
    ∃ new, after.saved = before.saved ++ new ∧
      ∃ sent ∈ new, sentContent page sent.form = sentContent page before.now.form

/-- The first run sends this content, or will as soon as it starts. -/
def Sends (page : Page Block Scene) (s : Session Block Scene)
    (content : FormData Block Scene) (run : Run Block Scene) : Prop :=
  match run.stage with
  | .queued => run.currentProject ≠ none ∧ sentContent page s.view.form = content
  | .sending sent => sentContent page sent.form = content
  | _ => False

/-- The condition on an editor at the time of the call. -/
def FlushReady (page : Page Block Scene) (opened : Opened Block Scene)
    (s : Session Block Scene) : Prop :=
  ShowsSaved page opened s ∨
    (s.view.hasUnsavedChanges = true ∧ s.isSaving = false ∧
      match s.savingChain with
      | [] => s.effView.currentProject ≠ none ∧
          sentContent page s.view.form = sentContent page s.now.form
      | run :: _ => Sends page s (sentContent page s.now.form) run)

/-! ## What other tasks leave alone -/

variable {page : Page Block Scene} {maxRetries : Nat} {before s t : Session Block Scene}
  {e : Event Block Scene}

/-- The saves completed and ended, and the chain except for new runs. -/
structure SavesKept (s t : Session Block Scene) : Prop where
  saved : t.saved = s.saved
  performed : t.performed = s.performed
  chain : ∃ new, t.savingChain = s.savingChain ++ new

theorem savesKept_performSave (n : Nat) : SavesKept s (s.performSave n) := by
  unfold performSave
  split
  next => exact ⟨rfl, rfl, [], (append_nil _).symm⟩
  next => exact ⟨rfl, rfl, _, rfl⟩

theorem savesKept_of_move [DecidableEq Block] [DecidableEq Scene]
    (hmove : Move page maxRetries s e t) (htask : ∀ e', e ≠ .save e') : SavesKept s t := by
  have hnone : s.savingChain = s.savingChain ++ [] := (append_nil _).symm
  cases hmove with
  | unchanged | edited | rendered | hashedBlocks | switched => exact ⟨rfl, rfl, [], hnone⟩
  | effects formMoved blocksMoved =>
    refine ⟨rfl, rfl, ?_⟩
    rw [runEffects_savingChain]
    split
    next => exact ⟨_, rfl⟩
    next => exact ⟨[], hnone⟩
  | debounced | called =>
    obtain ⟨hsaved, hperformed, hchain⟩ :=
      savesKept_performSave (s := { s with timeout := false }) 0
    exact ⟨hsaved, hperformed, hchain⟩
  | retried n =>
    obtain ⟨hsaved, hperformed, hchain⟩ :=
      savesKept_performSave (s := { s with retryTimeout := none }) n
    exact ⟨hsaved, hperformed, hchain⟩
  | saving e => exact absurd rfl (htask e)

/-- No other task runs while the first run has still to start. -/
theorem isStarting_of_task [DecidableEq Block] [DecidableEq Scene]
    (htask : ∀ e', e ≠ .save e') (hstep : s.step page maxRetries e = some t) :
    s.isStarting = false := by
  unfold step at hstep
  split at hstep
  next e' => exact absurd rfl (htask e')
  next =>
    have hidle := (ite_none_left_eq_some.mp hstep).1
    exact Bool.eq_false_of_not_eq_true hidle

theorem saved_settle (owner : Owner) (outcome : Except String Unit) :
    (s.settle maxRetries owner outcome).saved = s.saved := by
  rcases settle_cases (t := s.settle maxRetries owner outcome) rfl with
    ⟨-, ht⟩ | ⟨k, n, -, -, -, -, ht⟩ | ⟨k, n, -, -, -, ht⟩ |
    ⟨k, n, message, -, -, ht⟩ | ⟨k, n, message, -, -, ht⟩
  all_goals rw [ht]

/-- The list of completed saves only grows. -/
theorem saved_of_saveMove {run : Run Block Scene} {rest : List (Run Block Scene)}
    {e : SaveEvent} (hmove : SaveMove maxRetries s run rest e t) :
    ∃ new, t.saved = s.saved ++ new := by
  have hnone : s.saved = s.saved ++ [] := (append_nil _).symm
  cases hmove with
  | accepted sent => exact ⟨[sent], rfl⟩
  | sent | reset => exact ⟨[], hnone⟩
  | _ => exact ⟨[], (saved_settle _ _).trans hnone⟩

/-! ## The save of the flush -/

/-- Since the call, the content was saved or is about to be saved by the first
run, and no call of `performSave` has resolved. -/
def Flushing (page : Page Block Scene) (before s : Session Block Scene) : Prop :=
  ∃ new, s.saved = before.saved ++ new ∧
    ((∃ sent ∈ new, sentContent page sent.form = sentContent page before.now.form) ∨
      (s.performed = before.performed ∧ ∃ run rest, s.savingChain = run :: rest ∧
        Sends page s (sentContent page before.now.form) run))

theorem flushing_saveNow (hidle : before.isSaving = false)
    (hready : match before.savingChain with
      | [] => before.effView.currentProject ≠ none ∧
          sentContent page before.view.form = sentContent page before.now.form
      | run :: _ => Sends page before (sentContent page before.now.form) run) :
    Flushing page before before.saveNow := by
  have hperform : before.saveNow = { before with
      timeout := false, isSaving := true, saveError := none
      savingChain := handleSave before.savingChain (.autoSave before.currentKey 0)
        before.effView } := by
    simp [saveNow, performSave, hidle]
  rw [hperform]
  refine ⟨[], (append_nil _).symm, .inr ⟨rfl, ?_⟩⟩
  cases hchain : before.savingChain with
  | nil =>
    rw [hchain] at hready
    exact ⟨_, [], rfl, hready⟩
  | cons run rest =>
    rw [hchain] at hready
    exact ⟨run, _, rfl, hready⟩

theorem flushing_saveMove {run : Run Block Scene} {rest : List (Run Block Scene)}
    {e : SaveEvent} (hs : Flushing page before s) (hchain : s.savingChain = run :: rest)
    (hanswer : ∀ message, e ≠ .respond (.error message))
    (hmove : SaveMove maxRetries s run rest e t) : Flushing page before t := by
  obtain ⟨new, hsaved, hnew | ⟨hperformed, run', rest', hchain', hsends⟩⟩ := hs
  · obtain ⟨more, hmore⟩ := saved_of_saveMove hmove
    obtain ⟨sent, hsent, hcontent⟩ := hnew
    refine ⟨new ++ more, by rw [hmore, hsaved, append_assoc], .inl ?_⟩
    exact ⟨sent, mem_append_left _ hsent, hcontent⟩
  · rw [hchain] at hchain'
    cases hchain'
    unfold Sends at hsends
    cases hmove with
    | skipped hstage hproject =>
      rw [hstage] at hsends
      exact absurd hproject hsends.1
    | sent sent hstage hproject hform =>
      rw [hstage] at hsends
      refine ⟨new, hsaved, .inr ⟨hperformed, _, rest, rfl, ?_⟩⟩
      show sentContent page sent.form = _
      rw [hform]
      exact hsends.2
    | accepted sent savedPath hstage =>
      rw [hstage] at hsends
      refine ⟨new ++ [sent], ?_, .inl ⟨sent, ?_, hsends⟩⟩
      · show s.saved ++ [sent] = _
        rw [hsaved, append_assoc]
      · exact mem_append_right _ (mem_singleton_self _)
    | conflict sent message | failed sent message => exact absurd rfl (hanswer message)
    | unnamed sent hstage | reset sent savedPath path hstage
    | completed sent newHash screen hstage =>
      rw [hstage] at hsends
      exact hsends.elim

theorem flushing_step [DecidableEq Block] [DecidableEq Scene] (hs : Flushing page before s)
    (hanswer : e.isFailure = false) (hstep : s.step page maxRetries e = some t) :
    Flushing page before t := by
  have hmove := move_of_step hstep
  by_cases htask : ∀ e', e ≠ .save e'
  · obtain ⟨hsaved, hperformed, more, hmore⟩ := savesKept_of_move hmove htask
    obtain ⟨new, hnew, hdone | ⟨hsame, run, rest, hchain, hsends⟩⟩ := hs
    · exact ⟨new, hsaved.trans hnew, .inl hdone⟩
    · refine ⟨new, hsaved.trans hnew, .inr ⟨hperformed.trans hsame, run, rest ++ more, ?_, ?_⟩⟩
      · rw [hmore, hchain, cons_append]
      · -- A run that has still to start would have gone first.
        have hidle := isStarting_of_task htask hstep
        simp only [isStarting, hchain] at hidle
        unfold Sends at hsends ⊢
        cases hstage : run.stage with
        | queued =>
          rw [hstage] at hidle
          cases hidle
        | sending sent =>
          rw [hstage] at hsends
          exact hsends
        | linking | hashing =>
          rw [hstage] at hsends
          exact hsends.elim
  · simp only [not_forall, not_not] at htask
    obtain ⟨e', rfl⟩ := htask
    cases hmove with
    | switched e screen hsame hother => exact absurd rfl (hother e')
    | saving e run rest t hchain hsave =>
      refine flushing_saveMove hs hchain ?_ hsave
      intro message h
      rw [h] at hanswer
      cases hanswer

end

/-- If no backend save fails, a flush of ready editors saves the content that
every one of them had at the call. -/
theorem flush_saves_ready_editors
    {ι Block Scene : Type} [DecidableEq ι] [DecidableEq Block] [DecidableEq Scene]
    (page : Page Block Scene) (maxRetries : Nat) (opened : ι → Opened Block Scene)
    (before after : ι → Session Block Scene) (events : List (ι × Event Block Scene))
    (hready : ∀ i, FlushReady page (opened i) (before i))
    (hanswers : ∀ e ∈ events, e.2.isFailure = false)
    (hrun : run (stepAt (step page maxRetries)) (flushAllDirty before) events =
      some after)
    (hresolved : FlushResolved before after) :
    ∀ i, Flushed page (opened i) (before i) (after i) := by
  have hflushing : ∀ i, ShowsSaved page (opened i) (before i) ∨
      Flushing page (before i) (after i) := by
    refine stepAt_invariant (P := fun e => e.isFailure = false)
      (I := fun i s => ShowsSaved page (opened i) (before i) ∨ Flushing page (before i) s)
      ?_ ?_ hanswers hrun
    · intro i s e t hs hanswer hstep
      exact hs.imp_right fun hflushing => flushing_step hflushing hanswer hstep
    · intro i
      refine (hready i).imp_right fun hsaves => ?_
      obtain ⟨hunsaved, hidle, hsends⟩ := hsaves
      rw [flushAllDirty, if_pos hunsaved]
      exact flushing_saveNow hidle hsends
  intro i
  rcases hready i with hsaved | ⟨hunsaved, hidle, -⟩
  · exact .inl hsaved
  · refine (hflushing i).imp_right fun hflushing => ?_
    obtain ⟨new, hnew, hdone | ⟨hperformed, -⟩⟩ := hflushing
    · exact ⟨new, hnew, hdone⟩
    · have hmore := hresolved i hunsaved hidle
      omega

/-! ## A flush that returns too early -/

namespace SampleEditor

/-- The editor shows its unsaved changes; the timer has not fired. -/
def typing : List (Event String Unit) :=
  opening ++ [setTitle "b", .render, .effects true false, .render, .effects false false]

/-- More is typed while the backend saves. -/
def busy : List (Event String Unit) :=
  typing ++ [.debounce, .save .start, setTitle "c", .render, .effects true false,
    .render, .effects false false]

/-- The save that the flush has started runs to its end. -/
def flushing : List (Unit × Event String Unit) :=
  [.save .start, .save (.respond (.ok "p.json")), .save .linked, .save (.hashed none)].map
    fun e => ((), e)

/-- The editor after these events, as the only one in the window. -/
def window (s : Session String Unit) : Unit → Session String Unit := fun _ => s

/-- The editor before and after a flush. -/
def flushed (events : List (Event String Unit)) :
    Option (Session String Unit × Session String Unit) :=
  (final events).bind fun s =>
    (run (stepAt (step page 3)) (flushAllDirty (window s)) flushing).map
      fun after => (s, after ())

/-- The editor shows unsaved changes, is not saving, and its save would send what
it shows to a project. -/
def wouldSave (s : Session String Unit) : Bool :=
  s.view.hasUnsavedChanges && !s.isSaving && s.savingChain.isEmpty &&
    s.effView.currentProject.isSome && s.view.form == s.now.form

/-- The flags of an editor, the title it shows and the titles it has saved. -/
def status (s : Session String Unit) : (Bool × Bool) × String × List String :=
  ((s.view.hasUnsavedChanges, s.isSaving), (sentContent page s.now.form).title,
    s.saved.map fun sent => (sentContent page sent.form).title)

end SampleEditor

open SampleEditor

theorem flush_saves_ready_editors_sample :
    ∃ s after, final typing = some s ∧
      run (stepAt (step page 3))
        (flushAllDirty (window s)) flushing = some after ∧
      FlushResolved (window s) after ∧
      ∀ i, Flushed page opened (window s i)
        (after i) := by
  have hread : (flushed typing).map (fun p =>
      (wouldSave p.1, decide (p.1.performed < p.2.performed))) =
        some (true, true) := by
    decide +kernel
  obtain ⟨⟨s, t⟩, hflushed, hread⟩ := map_eq_some_iff.mp hread
  obtain ⟨s', hs, hmap⟩ := bind_eq_some_iff.mp hflushed
  obtain ⟨after, hrun, hpair⟩ := map_eq_some_iff.mp hmap
  cases hpair
  simp only [wouldSave, Prod.mk.injEq, Bool.and_eq_true,
    Bool.not_eq_true', List.isEmpty_iff, beq_iff_eq, decide_eq_true_eq] at hread
  obtain ⟨⟨⟨⟨⟨hunsaved, hidle⟩, hchain⟩, hproject⟩, hform⟩, hperformed⟩ := hread
  have hresolved : FlushResolved (window s) after :=
    fun _ _ _ => hperformed
  refine ⟨s, after, hs, hrun, hresolved, ?_⟩
  refine flush_saves_ready_editors page 3 (fun _ => opened)
    (window s) after flushing ?_ (by decide) hrun hresolved
  intro i
  refine .inr ⟨hunsaved, hidle, ?_⟩
  simp only [window, hchain, hform, and_true]
  exact isSome_iff_ne_none.mp hproject

/-- The title "c" was typed while the backend saves "b". The flush has nothing
to wait for, and "c" has not been sent. -/
theorem flush_skips_editor_that_is_saving :
    ∃ s, final busy = some s ∧
      FlushResolved (window s) (flushAllDirty (window s)) ∧
      ¬ ∀ i, Flushed page opened (window s i)
        (flushAllDirty (window s) i) := by
  have hread : (final busy).map status =
      some ((true, true), "c", []) := by
    decide +kernel
  obtain ⟨s, hs, hread⟩ := map_eq_some_iff.mp hread
  simp only [status, Prod.mk.injEq, map_eq_nil_iff] at hread
  obtain ⟨⟨hunsaved, hsaving⟩, htitle, hsaved⟩ := hread
  refine ⟨s, hs, ?_, fun hflushed => ?_⟩
  · intro i _ hidle
    exact absurd (hsaving.symm.trans hidle) (by simp)
  · rcases hflushed () with ⟨stored, hform, hsame⟩ | ⟨new, hnew, sent, hsent, -⟩
    · -- The stored document still has the title "a".
      have hstored : stored = form "a" := by
        simpa [persisted, window, hsaved, opened, Opened.stored] using hform.symm
      have htitles := congrArg FormData.title hsame
      rw [hstored] at htitles
      exact absurd (htitles.trans htitle) (by decide)
    · have hkept : (flushAllDirty (window s) ()).saved = s.saved := by
        simp [flushAllDirty, window, hunsaved, saveNow, performSave, hsaving]
      rw [hkept] at hnew
      have hnil : new = [] := by simpa [window] using hnew
      rw [hnil] at hsent
      cases hsent

end Yanta.Editor
