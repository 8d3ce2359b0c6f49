import Yanta.Editor.Moves

/-!
# Screens, refs and the chain of saves

The invariant that needs no assumption on the run: how the refs and the hash of
the blocks follow the screens, and that at most one run of the chain belongs to
autosave, namely while `isSaving` is set.
-/

namespace Yanta.Editor

open List

section

variable {Block Scene : Type}

def Run.isAuto (run : Run Block Scene) : Bool :=
  match run.owner with
  | .autoSave _ _ => true
  | .direct => false

/-! ## Screens, refs and effects -/

/-- What the refs and effects have in common with the screens, and the shape of
the chain. -/
structure Synced (page : Page Block Scene) (s : Session Block Scene) : Prop where
  view : s.effectsPending = false → s.effView = s.view
  key : s.currentKey = s.effView.key page
  hashed : s.pendingHash = none →
    s.now.blocksHash = page.computeContentHash s.effView.form.blocks
  hashing : ∀ blocks, s.pendingHash = some blocks → blocks = s.effView.form.blocks
  direct : s.effView.savesDirectly = true → s.now.shouldAutoSave = false
  waiting : ∀ run ∈ s.savingChain.tail, run.stage = .queued
  saving : s.savingChain.countP Run.isAuto = s.isSaving.toNat

namespace Session

variable {page : Page Block Scene} {maxRetries : Nat} {s t : Session Block Scene}

/-- A new run waits behind the others. -/
theorem waiting_handleSave
    {chain : List (Run Block Scene)} {owner : Owner} {v : Screen Block Scene}
    (h : ∀ run ∈ chain.tail, run.stage = .queued) :
    ∀ run ∈ (handleSave chain owner v).tail, run.stage = .queued := by
  intro run hrun
  cases chain with
  | nil => cases hrun
  | cons first rest =>
    rcases mem_append.mp hrun with hrun | hrun
    · exact h run hrun
    · rw [mem_singleton.mp hrun]

theorem synced_performSave {n : Nat} (hs : Synced page s) :
    Synced page (s.performSave n) := by
  unfold performSave
  split
  next => exact hs
  next hsaving =>
    have hcount := hs.saving
    rw [Bool.eq_false_of_not_eq_true hsaving] at hcount
    refine { hs with waiting := waiting_handleSave hs.waiting, saving := ?_ }
    simpa [handleSave, Run.isAuto] using hcount

theorem synced_settle {run : Run Block Scene} {rest : List (Run Block Scene)}
    {outcome : Except String Unit} (hs : Synced page s)
    (hchain : s.savingChain = run :: rest) :
    Synced page (s.settle maxRetries run.owner outcome) := by
  have hwaiting : ∀ r ∈ s.savingChain.tail.tail, r.stage = .queued :=
    fun r hr => hs.waiting r (mem_of_mem_tail hr)
  have hcount := hs.saving
  rw [hchain, countP_cons] at hcount
  have hdone : ∀ k n, run.owner = .autoSave k n →
      s.savingChain.tail.countP Run.isAuto = 0 := by
    intro k n howner
    have hauto : run.isAuto = true := by simp [Run.isAuto, howner]
    rw [hchain, tail_cons]
    rw [if_pos hauto] at hcount
    have hone := Bool.toNat_le s.isSaving
    omega
  rcases settle_cases (t := s.settle maxRetries run.owner outcome) rfl with
    ⟨howner, ht⟩ | ⟨k, n, howner, -, -, -, ht⟩ | ⟨k, n, howner, -, -, ht⟩ |
    ⟨k, n, message, howner, -, ht⟩ | ⟨k, n, message, howner, -, ht⟩
  · have hauto : run.isAuto = false := by simp [Run.isAuto, howner]
    rw [ht]
    refine { hs with waiting := hwaiting, saving := ?_ }
    simpa [hchain, hauto] using hcount
  all_goals
    rw [ht]
    exact { hs with waiting := hwaiting, saving := hdone k n howner }

theorem synced_screen {screen : Screen Block Scene} (hs : Synced page s)
    (hsame : SameForm screen s.now) : Synced page { s with now := screen } := by
  refine ⟨hs.view, hs.key, ?_, hs.hashing, ?_, hs.waiting, hs.saving⟩
  · rw [hsame.blocksHash]
    exact hs.hashed
  · rw [hsame.shouldAutoSave]
    exact hs.direct

theorem synced_saveMove
    {run : Run Block Scene} {rest : List (Run Block Scene)} {e : SaveEvent}
    (hs : Synced page s) (hchain : s.savingChain = run :: rest)
    (hmove : SaveMove maxRetries s run rest e t) : Synced page t := by
  have hwaiting := hs.waiting
  have hcount := hs.saving
  rw [hchain] at hwaiting hcount
  cases hmove with
  | skipped | failed | unnamed => exact synced_settle hs hchain
  | sent | accepted | reset => exact { hs with waiting := hwaiting, saving := hcount }
  | conflict => exact synced_settle (synced_screen hs ⟨rfl, rfl, rfl, rfl⟩) hchain
  | completed sent newHash screen hstage hsame =>
    exact synced_settle (synced_screen hs hsame) hchain

theorem synced_runEffects [DecidableEq Block] [DecidableEq Scene]
    {formMoved blocksMoved : Bool} (hs : Synced page s)
    (hfit : s.movesFit formMoved blocksMoved = true) :
    Synced page (s.runEffects page formMoved blocksMoved) := by
  simp only [movesFit, Bool.and_eq_true, Bool.or_eq_true, beq_iff_eq] at hfit
  obtain ⟨⟨-, hblocks⟩, -⟩ := hfit
  constructor
  · intro _
    rfl
  · -- The effect runs whenever the key has changed.
    by_cases hmoved : s.watchMoved page formMoved = true
    · simp [runEffects, watchEffect, hmoved, hashEffect, directSaveEffect,
        initializedEffect]
    · have hsame : s.view.key page = s.effView.key page := by
        simp only [watchMoved, Bool.or_eq_true, not_or] at hmoved
        simpa using hmoved.2
      simp [runEffects, watchEffect, hashEffect, directSaveEffect,
        initializedEffect, hsame, hs.key]
  · intro hnone
    cases blocksMoved with
    | true => cases hnone
    | false =>
      have hsame := hblocks.resolve_left (by simp)
      have hhash := hs.hashed hnone
      rw [← hsame] at hhash
      exact hhash
  · intro blocks hsome
    cases blocksMoved with
    | true =>
      cases hsome
      rfl
    | false =>
      have hsame := hblocks.resolve_left (by simp)
      rw [hs.hashing blocks hsome, ← hsame]
      rfl
  · intro hdirect
    have hview : s.view.savesDirectly = true := hdirect
    simp [runEffects, watchEffect, initializedEffect, directSaveEffect, hashEffect, hview]
  · show ∀ run ∈ (if s.view.savesDirectly then handleSave s.savingChain .direct s.view
      else s.savingChain).tail, run.stage = .queued
    split
    next => exact waiting_handleSave hs.waiting
    next => exact hs.waiting
  · show (if s.view.savesDirectly then handleSave s.savingChain .direct s.view
      else s.savingChain).countP Run.isAuto = s.isSaving.toNat
    split
    next => simpa [handleSave, Run.isAuto] using hs.saving
    next => exact hs.saving

theorem synced_move [DecidableEq Block] [DecidableEq Scene] {e : Event Block Scene}
    (hs : Synced page s) (hmove : Move page maxRetries s e t) : Synced page t := by
  cases hmove with
  | unchanged => exact hs
  | edited => exact { hs with }
  | rendered =>
    refine { hs with view := ?_ }
    intro h
    cases h
  | effects formMoved blocksMoved hpending hfit => exact synced_runEffects hs hfit
  | hashedBlocks blocks hpending =>
    refine { hs with hashed := ?_, hashing := ?_ }
    · intro _
      rw [hs.hashing blocks hpending]
    · intro blocks' h
      cases h
  | debounced | retried | called =>
    apply synced_performSave
    exact { hs with }
  | switched e screen hsame =>
    exact synced_screen hs hsame
  | saving e run rest t hchain hsave => exact synced_saveMove hs hchain hsave

theorem synced_start (project : Option String) (opened : Opened Block Scene) :
    Synced page (start page project opened) where
  view _ := rfl
  key := rfl
  hashed _ := rfl
  hashing _ h := by cases h
  direct h := by simp [start, Opened.mounted, Screen.savesDirectly] at h
  waiting _ h := by cases h
  saving := rfl

end Session

end

end Yanta.Editor
