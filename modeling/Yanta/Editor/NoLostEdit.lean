import Yanta.Editor.Autosave

/-!
# Edits reach the backend

A save that is running clears the change flag of the form when the backend has
answered. An edit made since the save read the form is then no longer marked,
and autosave gives it up. The main result is that this and a few more ways of
recording content as saved that was not sent are the only reasons for which an
edit is dropped: in every run without such steps the last content the backend
has saved is the content of the form, as soon as the editor is quiescent.
-/

namespace Yanta.Editor

open Support Session List

variable {formMoved blocksMoved : Bool}

section

variable {Block Scene : Type} {page : Page Block Scene} {maxRetries : Nat}
  {s t : Session Block Scene}
variable {run : Run Block Scene} {rest : List (Run Block Scene)} {sent : SentSave Block Scene}

/-! ## What stays marked -/

/-- The backend has saved what the run sent. -/
def Run.answered (run : Run Block Scene) : Bool :=
  match run.stage with
  | .queued | .sending _ => false
  | .linking _ _ | .hashing _ => true

/-- The key autosave noted is the key of what the run sent. -/
def NotesKey (page : Page Block Scene) (run : Run Block Scene)
    (sent : SentSave Block Scene) : Prop :=
  ∀ k n, run.owner = .autoSave k n → k = contentKey page sent.form

/-- What a run knows about the content. -/
def RunKept (page : Page Block Scene) (contents : List (FormData Block Scene))
    (s : Session Block Scene) (run : Run Block Scene) : Prop :=
  match run.stage with
  | .queued => True
  | .sending sent => sent.form ∈ contents ∧ NotesKey page run sent
  | .linking sent _ | .hashing sent =>
    s.saved.getLast? = some sent ∧ NotesKey page run sent

/-- Something will save the form or marks it as changed. A timer counts only if
the effects that are still to run will not clear it. -/
def Marked (s : Session Block Scene) : Prop :=
  s.savingChain ≠ [] ∨ s.now.hasChanges = true ∨ s.lateChanges = true ∨
    s.retryTimeout ≠ none ∨ s.saveError ≠ none ∨
    (s.timeout = true ∧ s.clearsTimeout = false ∧
      (s.effectsPending = true → s.view.enabled = false))

structure Kept (page : Page Block Scene) (contents : List (FormData Block Scene))
    (opened : Opened Block Scene) (s : Session Block Scene) : Prop where
  now : s.now.form ∈ contents
  view : s.view.form ∈ contents
  stored : ∀ form, persisted opened s = some form → form ∈ contents
  runs : ∀ run ∈ s.savingChain, RunKept page contents s run
  record : ∀ form, persisted opened s = some form →
    (∃ run ∈ s.savingChain, run.isAuto = true ∧ run.answered = true) ∨
    ∀ g ∈ contents, contentKey page g = s.lastSavedKey →
      sentContent page g = sentContent page form
  marked : ∀ form, persisted opened s = some form →
    sentContent page form ≠ sentContent page s.now.form → Marked s
  unsent : persisted opened s = none → s.now.shouldAutoSave = true ∨
    ∃ run ∈ s.savingChain, run.isAuto = false ∧ run.answered = false

/-- Content with the key is what was sent with the form. -/
abbrev KeyOf (page : Page Block Scene) (contents : List (FormData Block Scene))
    (key : String) (form : FormData Block Scene) : Prop :=
  ∀ g ∈ contents, contentKey page g = key → sentContent page g = sentContent page form

variable {contents : List (FormData Block Scene)} {opened : Opened Block Scene}

theorem kept_start {project : Option String} (hform : opened.form ∈ contents)
    (hmounted : (opened.mounted page project).form ∈ contents) :
    Kept page contents opened (start page project opened) where
  now := hform
  view := hmounted
  stored form h := by
    cases opened with
    | loaded path f =>
      cases h
      exact hform
    | fresh f => cases h
  runs _ h := by cases h
  record form h := by
    refine .inr fun g hg hkey => ?_
    exact absurd hkey (compareKey_ne_empty page _ g)
  marked form h hne := by
    cases opened with
    | loaded path f =>
      cases h
      exact absurd rfl hne
    | fresh f => cases h
  unsent h := by
    cases opened with
    | loaded path f => cases h
    | fresh f => exact .inl rfl

/-- A move that leaves the content, the chain and what was recorded alone. -/
theorem kept_of_same
    (hs : Kept page contents opened s) (hform : t.now.form = s.now.form)
    (hview : t.view.form ∈ contents) (hsaved : t.saved = s.saved)
    (hchain : t.savingChain = s.savingChain) (hlast : t.lastSavedKey = s.lastSavedKey)
    (hdirect : t.now.shouldAutoSave = s.now.shouldAutoSave)
    (hmarked : Marked s → Marked t) : Kept page contents opened t := by
  have hpersisted : persisted opened t = persisted opened s := by
    simp [persisted, hsaved]
  refine ⟨hform ▸ hs.now, hview, ?_, ?_, ?_, ?_, ?_⟩
  · rw [hpersisted]
    exact hs.stored
  · rw [hchain]
    intro run hrun
    have hrunKept := hs.runs run hrun
    unfold RunKept at hrunKept ⊢
    rw [hsaved]
    exact hrunKept
  · rw [hpersisted, hchain, hlast]
    exact hs.record
  · rw [hpersisted, hform]
    exact fun form hstored hne => hmarked (hs.marked form hstored hne)
  · rw [hpersisted, hchain, hdirect]
    exact hs.unsent

theorem kept_screen {screen : Screen Block Scene} (hs : Kept page contents opened s)
    (hsame : SameForm screen s.now) : Kept page contents opened { s with now := screen } := by
  refine kept_of_same hs hsame.form hs.view rfl rfl rfl hsame.shouldAutoSave ?_
  unfold Marked
  rw [hsame.hasChanges]
  exact id

/-- A new run at the end of the chain. -/
theorem kept_handleSave {owner : Owner} {v : Screen Block Scene}
    (hs : Kept page contents opened s) (hform : t.now.form = s.now.form)
    (hview : t.view = s.view) (hsaved : t.saved = s.saved)
    (hchain : t.savingChain = handleSave s.savingChain owner v)
    (hlast : ∀ form, persisted opened s = some form → t.lastSavedKey = s.lastSavedKey ∨
      KeyOf page contents t.lastSavedKey form)
    (hdirect : t.now.shouldAutoSave = s.now.shouldAutoSave ∨ owner = .direct) :
    Kept page contents opened t := by
  have hpersisted : persisted opened t = persisted opened s := by
    simp [persisted, hsaved]
  have hmem : ∀ run ∈ s.savingChain, run ∈ t.savingChain := by
    intro run hrun
    rw [hchain]
    exact mem_append_left _ hrun
  refine ⟨hform ▸ hs.now, hview ▸ hs.view, ?_, ?_, ?_, ?_, ?_⟩
  · rw [hpersisted]
    exact hs.stored
  · intro run hrun
    rw [hchain] at hrun
    rcases mem_append.mp hrun with hrun | hrun
    · have hrunKept := hs.runs run hrun
      unfold RunKept at hrunKept ⊢
      rw [hsaved]
      exact hrunKept
    · rw [mem_singleton.mp hrun]
      trivial
  · rw [hpersisted]
    intro form hform
    rcases hlast form hform with hsame | hright
    · rcases hs.record form hform with ⟨run, hrun, hrest⟩ | hright
      · exact .inl ⟨run, hmem run hrun, hrest⟩
      · exact .inr (hsame ▸ hright)
    · exact .inr hright
  · intro form _ _
    exact .inl (by simp [hchain, handleSave])
  · rw [hpersisted]
    intro hnone
    rcases hdirect with hsame | rfl
    · rcases hs.unsent hnone with h | ⟨run, hrun, hrest⟩
      · exact .inl (hsame.trans h)
      · exact .inr ⟨run, hmem run hrun, hrest⟩
    · refine .inr ⟨⟨.direct, v.currentProject, v.documentHash, .queued⟩, ?_, rfl, rfl⟩
      rw [hchain]
      exact mem_append_right _ (mem_singleton_self _)

/-! ### The first run -/

section

variable (hs : Kept page contents opened s) (hwaiting : ∀ r ∈ rest, r.stage = .queued)
  (hchain : s.savingChain = run :: rest)

include hs hwaiting hchain

/-- The first run moves on, or leaves the chain. -/
theorem kept_head (next : List (Run Block Scene))
    (hform : t.now.form = s.now.form) (hview : t.view = s.view)
    (hdirect : t.now.shouldAutoSave = s.now.shouldAutoSave) (hsaved : t.saved = s.saved)
    (hnext : t.savingChain = next ++ rest) (hrun : ∀ r ∈ next, RunKept page contents s r)
    (hrecord : ∀ form, persisted opened s = some form →
      (∃ r ∈ next, r.isAuto = true ∧ r.answered = true) ∨
        KeyOf page contents t.lastSavedKey form)
    (hmarked : ∀ form, persisted opened s = some form →
      sentContent page form ≠ sentContent page s.now.form → Marked t)
    (hunsent : run.isAuto = false → run.answered = false →
      ∃ r ∈ next, r.isAuto = false ∧ r.answered = false) :
    Kept page contents opened t := by
  have hpersisted : persisted opened t = persisted opened s := by
    simp [persisted, hsaved]
  refine ⟨hform ▸ hs.now, hview ▸ hs.view, ?_, ?_, ?_, ?_, ?_⟩
  · rw [hpersisted]
    exact hs.stored
  · intro r hr
    rw [hnext] at hr
    unfold RunKept
    rcases mem_append.mp hr with hr | hr
    · rw [hsaved]
      exact hrun r hr
    · rw [hwaiting r hr]
      trivial
  · rw [hpersisted, hnext]
    intro form hstored
    refine (hrecord form hstored).imp_left ?_
    rintro ⟨r, hr, hdone⟩
    exact ⟨r, mem_append_left _ hr, hdone⟩
  · rw [hpersisted, hform]
    exact hmarked
  · rw [hpersisted, hnext, hdirect]
    intro hnone
    rcases hs.unsent hnone with h | ⟨r, hr, hauto, hdone⟩
    · exact .inl h
    · rw [hchain] at hr
      rcases mem_cons.mp hr with rfl | hr
      · obtain ⟨r', hr', hdone'⟩ := hunsent hauto hdone
        exact .inr ⟨r', mem_append_left _ hr', hdone'⟩
      · exact .inr ⟨r, mem_append_right _ hr, hauto, hdone⟩

/-- The backend has saved what the first run sent. -/
theorem kept_accepted {savedPath : String} (hkeys : KeysDistinguish page contents)
    (hstage : run.stage = .sending sent)
    (hsafe : run.isAuto = false → s.lastSavedKey = "" ∨
      s.lastSavedKey = contentKey page sent.form) :
    Kept page contents opened { s with
      saved := s.saved ++ [sent]
      savingChain := { run with stage := .linking sent savedPath } :: rest } := by
  obtain ⟨hsent, hnotes⟩ : sent.form ∈ contents ∧ NotesKey page run sent := by
    have hrun := hs.runs run (by simp [hchain])
    unfold RunKept at hrun
    rw [hstage] at hrun
    exact hrun
  have hpersisted : ∀ form, persisted opened { s with
      saved := s.saved ++ [sent]
      savingChain := { run with stage := .linking sent savedPath } :: rest } = some form →
      form = sent.form := by
    intro form hform
    simpa [persisted] using hform.symm
  refine ⟨hs.now, hs.view, ?_, ?_, ?_, ?_, ?_⟩
  · intro form hform
    rw [hpersisted form hform]
    exact hsent
  · intro r hr
    rcases mem_cons.mp hr with rfl | hr
    · exact ⟨by simp, hnotes⟩
    · unfold RunKept
      rw [hwaiting r hr]
      trivial
  · intro form hform
    rw [hpersisted form hform]
    cases hauto : run.isAuto with
    | true => exact .inl ⟨_, mem_cons_self, hauto, rfl⟩
    | false =>
      refine .inr fun g hg hkey => ?_
      rcases hsafe hauto with hempty | hsame
      · exact absurd (hkey.trans hempty) (compareKey_ne_empty page _ g)
      · exact hkeys g hg sent.form hsent (hkey.trans hsame)
  · intro form _ _
    exact .inl (by simp)
  · intro hnone
    simp [persisted] at hnone

/-- Until the backend has answered autosave, what is recorded is about the older save. -/
theorem record_cases {form : FormData Block Scene}
    (hstored : persisted opened s = some form) :
    (run.isAuto = true ∧ run.answered = true) ∨ KeyOf page contents s.lastSavedKey form := by
  rcases hs.record form hstored with ⟨r, hr, hdone⟩ | hright
  · rw [hchain] at hr
    rcases mem_cons.mp hr with rfl | hr
    · exact .inl hdone
    · simp [Run.answered, hwaiting r hr] at hdone
  · exact .inr hright

theorem kept_failed {message : String} (hstage : run.stage = .sending sent)
    (hauto : run.isAuto = true) :
    Kept page contents opened (s.settle maxRetries run.owner (.error message)) := by
  have hrecord : ∀ form, persisted opened s = some form →
      KeyOf page contents s.lastSavedKey form :=
    fun form hstored => (record_cases hs hwaiting hchain hstored).resolve_left
      (by simp [Run.answered, hstage])
  rcases settle_cases (t := s.settle maxRetries run.owner (.error message)) rfl
    with ⟨howner, -⟩ | ⟨k, n, -, hok, -⟩ | ⟨k, n, -, hok, -⟩ |
    ⟨k, n, text, -, -, ht⟩ | ⟨k, n, text, -, -, ht⟩
  · simp [Run.isAuto, howner] at hauto
  · cases hok
  · cases hok
  · rw [ht]
    refine kept_head hs hwaiting hchain [] rfl rfl rfl rfl (by simp [hchain]) (by simp)
      (fun form h => .inr (hrecord form h)) ?_ (by simp [hauto])
    intro _ _ _
    exact .inr (.inr (.inr (.inl (by simp))))
  · rw [ht]
    refine kept_head hs hwaiting hchain [] rfl rfl rfl rfl (by simp [hchain]) (by simp)
      (fun form h => .inr (hrecord form h)) ?_ (by simp [hauto])
    intro _ _ _
    exact .inr (.inr (.inr (.inr (.inl (by simp)))))

/-- A save completes: the form is the content that was sent or stays marked. -/
theorem kept_completed (hkeys : KeysDistinguish page contents) (hsched : Scheduled page s)
    (hanswered : run.answered = true)
    (hsaved : s.saved.getLast? = some sent) (hnotes : NotesKey page run sent)
    (hsafe : (∃ form, persisted opened s = some form ∧
        sentContent page form = sentContent page s.now.form) ∨
      s.now.hasChanges = true ∨ s.lateChanges = true ∨
      (∃ k n, run.owner = .autoSave k n ∧ s.view.enabled = true ∧ s.currentKey ≠ k ∧
        s.effectsPending = false)) :
    Kept page contents opened (s.settle maxRetries run.owner (.ok ())) := by
  have hpersisted : persisted opened s = some sent.form := by
    simp [persisted, hsaved]
  have hsent : sent.form ∈ contents := hs.stored _ hpersisted
  have hmarked : ∀ form, persisted opened s = some form →
      sentContent page form ≠ sentContent page s.now.form →
      s.now.hasChanges = true ∨ s.lateChanges = true ∨
      ∃ k n, run.owner = .autoSave k n ∧ s.view.enabled = true ∧ s.currentKey ≠ k ∧
        s.effectsPending = false := by
    intro form hform hne
    refine hsafe.resolve_left ?_
    rintro ⟨form', hform', hsame⟩
    rw [hform] at hform'
    cases hform'
    exact hne hsame
  have hrecord : ∀ k n, run.owner = .autoSave k n →
      ∀ form, persisted opened s = some form → KeyOf page contents k form := by
    intro k n howner form hform g hg hkey
    rw [hpersisted] at hform
    cases hform
    exact hkeys g hg _ hsent (hkey.trans (hnotes k n howner))
  rcases settle_cases (t := s.settle maxRetries run.owner (.ok ())) rfl with
    ⟨howner, ht⟩ | ⟨k, n, howner, -, henabled, hkey, ht⟩ |
    ⟨k, n, howner, -, hcurrent, ht⟩ | ⟨k, n, message, -, herror, -⟩ |
    ⟨k, n, message, -, herror, -⟩
  · rw [ht]
    have hdirect : run.isAuto = false := by simp [Run.isAuto, howner]
    refine kept_head hs hwaiting hchain [] rfl rfl rfl rfl (by simp [hchain]) (by simp)
      (fun form h => .inr ((record_cases hs hwaiting hchain h).resolve_left
        (by simp [hdirect]))) ?_ (by simp [hanswered])
    intro form hform hne
    refine .inr ((hmarked form hform hne).imp_right (Or.imp_right ?_))
    rintro ⟨k, n, hauto, -⟩
    simp [howner] at hauto
  · rw [ht]
    refine kept_head hs hwaiting hchain [] rfl rfl rfl rfl (by simp [hchain]) (by simp)
      (fun form h => .inr (hrecord k n howner form h)) ?_ (by simp [hanswered])
    intro form hform hne
    refine .inr ((hmarked form hform hne).imp_right (Or.imp_right ?_))
    rintro ⟨k', n', -, -, -, hpending⟩
    have hcleanup := hsched.cleanup run (by simp [hchain]) k n howner hkey
    refine .inr (.inr ⟨rfl, hcleanup, ?_⟩)
    intro h
    exact absurd (hpending.symm.trans h) (by simp)
  · rw [ht]
    refine kept_head hs hwaiting hchain [] rfl rfl rfl rfl (by simp [hchain]) (by simp)
      (fun form h => .inr (hrecord k n howner form h)) ?_ (by simp [hanswered])
    intro form hform hne
    refine .inr ((hmarked form hform hne).imp_right (Or.imp_right ?_))
    rintro ⟨k', n', hauto, henabled, hkey, -⟩
    rw [howner] at hauto
    cases hauto
    exact absurd ⟨henabled, hkey⟩ hcurrent
  · cases herror
  · cases herror

end

/-- The effects keep a timer that no cleanup clears. -/
theorem marked_runEffects (hpending : s.effectsPending = true) (hs : Marked s)
    (hdirect : s.view.savesDirectly = false) :
    Marked (s.runEffects page formMoved blocksMoved) := by
  rcases hs with h | h | h | h | h | ⟨htimeout, hclears, hview⟩
  · exact .inl (by simpa [hdirect] using h)
  · exact .inr (.inl h)
  · exact .inr (.inr (.inl h))
  · exact .inr (.inr (.inr (.inl h)))
  · exact .inr (.inr (.inr (.inr (.inl h))))
  · have hschedules : s.schedules page = false := by
      simp [schedules, hview hpending]
    refine .inr (.inr (.inr (.inr (.inr ⟨?_, ?_, ?_⟩))))
    · simp [htimeout, hclears]
    · simp [initializedEffect_schedules, hschedules, hclears]
    · intro h
      cases h

theorem kept_runEffects (hpending : s.effectsPending = true)
    (hs : Kept page contents opened s)
    (hbaseline : s.initializes = true → ∀ form, persisted opened s = some form →
      KeyOf page contents (s.view.key page) form) :
    Kept page contents opened (s.runEffects page formMoved blocksMoved) := by
  have hlast : ∀ form, persisted opened s = some form →
      (s.runEffects page formMoved blocksMoved).lastSavedKey = s.lastSavedKey ∨
      KeyOf page contents (s.runEffects page formMoved blocksMoved).lastSavedKey form := by
    intro form hform
    cases hinit : s.initializes with
    | true =>
      refine .inr fun g hg hkey => hbaseline hinit form hform g hg ?_
      simpa [hinit] using hkey
    | false => exact .inl (by simp [hinit])
  cases hdirect : s.view.savesDirectly with
  | true =>
    have hchain : (s.runEffects page formMoved blocksMoved).savingChain =
        handleSave s.savingChain .direct s.view := by
      simp [hdirect]
    exact kept_handleSave hs rfl rfl rfl hchain hlast (.inr rfl)
  | false =>
    have hchain : (s.runEffects page formMoved blocksMoved).savingChain =
        s.savingChain := by
      simp [hdirect]
    have hnow : (s.runEffects page formMoved blocksMoved).now.shouldAutoSave =
        s.now.shouldAutoSave := by
      simp [runEffects, watchEffect, initializedEffect,
        directSaveEffect, hashEffect, hdirect]
    refine ⟨hs.now, hs.view, hs.stored, ?_, ?_, ?_, ?_⟩
    · rw [hchain]
      exact hs.runs
    · rw [hchain]
      intro form hform
      rcases hlast form hform with hsame | hright
      · rw [hsame]
        exact hs.record form hform
      · exact .inr hright
    · intro form hform hne
      exact marked_runEffects hpending (hs.marked form hform hne) hdirect
    · rw [hchain, hnow]
      exact hs.unsent

theorem kept_performSave {n : Nat} {timeout : Bool} {retryTimeout : Option Nat}
    (hsync : Synced page s) (hs : Kept page contents opened s) :
    Kept page contents opened
      ({ s with timeout := timeout, retryTimeout := retryTimeout }.performSave n) := by
  unfold performSave
  split
  next hsaving =>
    have hbusy : s.savingChain ≠ [] := by
      intro hnil
      have hcount := hsync.saving
      rw [hnil, show s.isSaving = true from hsaving] at hcount
      cases hcount
    exact kept_of_same hs rfl hs.view rfl rfl rfl rfl fun _ => .inl hbusy
  next => exact kept_handleSave hs rfl rfl rfl rfl (fun _ _ => .inl rfl) (.inl rfl)

/-- A render either shows that the form has changed or disables autosave. -/
theorem marked_render (hs : Marked s) : Marked s.render := by
  cases hflag : s.now.hasChanges || s.lateChanges with
  | true => exact .inr (.inl hflag)
  | false =>
    have hdisabled : s.render.view.enabled = false := by
      simp [render, Screen.enabled, hflag]
    simp only [Bool.or_eq_false_iff] at hflag
    rcases hs with h | h | h | h | h | ⟨htimeout, hclears, -⟩
    · exact .inl h
    · simp [hflag.1] at h
    · simp [hflag.2] at h
    · exact .inr (.inr (.inr (.inl h)))
    · exact .inr (.inr (.inr (.inr (.inl h))))
    · exact .inr (.inr (.inr (.inr (.inr ⟨htimeout, hclears, fun _ => hdisabled⟩))))

variable [DecidableEq Block] [DecidableEq Scene]

theorem completionIsSafe_iff :
    completionIsSafe page opened s run.owner = true ↔
      (∃ form, persisted opened s = some form ∧
        sentContent page form = sentContent page s.now.form) ∨
      s.now.hasChanges = true ∨ s.lateChanges = true ∨
      (∃ k n, run.owner = .autoSave k n ∧ s.view.enabled = true ∧ s.currentKey ≠ k ∧
        s.effectsPending = false) := by
  cases howner : run.owner <;>
    simp [completionIsSafe, Option.any_eq_true, or_assoc, and_assoc]

section

variable (hkeys : KeysDistinguish page contents) (hsync : Synced page s)
  (hsched : Scheduled page s) (hs : Kept page contents opened s)

include hkeys hsync hsched hs

theorem kept_saveMove {e : SaveEvent} (hchain : s.savingChain = run :: rest)
    (hsafe : saveIsSafe page opened s run e = true)
    (hmove : SaveMove maxRetries s run rest e t) : Kept page contents opened t := by
  have hwaiting : ∀ r ∈ rest, r.stage = .queued := by
    intro r hr
    exact hsync.waiting r (by simpa [hchain] using hr)
  have hrun := hs.runs run (by simp [hchain])
  unfold RunKept at hrun
  cases hmove with
  | skipped hstage hproject => simp [saveIsSafe, hproject] at hsafe
  | sent sent hstage hproject hform =>
    have hnotes : NotesKey page run sent := by
      intro k n howner
      simp only [saveIsSafe, howner, Bool.and_eq_true, beq_iff_eq] at hsafe
      rw [hsafe.2, hform]
    refine kept_head hs hwaiting hchain [_] rfl rfl rfl rfl rfl ?_ ?_
      (fun _ _ _ => .inl (cons_ne_nil _ _))
      (fun hauto _ => ⟨_, mem_singleton_self _, hauto, rfl⟩)
    · exact forall_mem_singleton.mpr ⟨hform ▸ hs.view, hnotes⟩
    · intro form h
      exact .inr ((record_cases hs hwaiting hchain h).resolve_left
        (by simp [Run.answered, hstage]))
  | accepted sent savedPath hstage =>
    refine kept_accepted hs hwaiting hchain hkeys hstage ?_
    intro hauto
    have howner : run.owner = .direct := by
      cases h : run.owner with
      | autoSave k n => simp [Run.isAuto, h] at hauto
      | direct => rfl
    simpa [saveIsSafe, howner, hstage] using hsafe
  | conflict sent message hstage hmessage => simp [saveIsSafe, hmessage] at hsafe
  | failed sent message hstage =>
    have hauto : run.isAuto = true := by
      simp only [saveIsSafe, Bool.and_eq_true] at hsafe
      exact hsafe.2
    exact kept_failed hs hwaiting hchain hstage hauto
  | unnamed sent hstage =>
    rw [hstage] at hrun
    have hcomplete : completionIsSafe page opened s run.owner = true := by
      simpa [saveIsSafe, hstage] using hsafe
    exact kept_completed hs hwaiting hchain hkeys hsched (by simp [Run.answered, hstage])
      hrun.1 hrun.2 (completionIsSafe_iff.mp hcomplete)
  | reset sent savedPath path hstage hpath =>
    rw [hstage] at hrun
    refine kept_head hs hwaiting hchain [_] rfl rfl rfl rfl rfl
      (forall_mem_singleton.mpr hrun) ?_ (fun _ _ _ => .inl (cons_ne_nil _ _))
      (by simp [Run.answered, hstage])
    intro form h
    refine (record_cases hs hwaiting hchain h).imp_left ?_
    exact fun hdone => ⟨_, mem_singleton_self _, hdone.1, rfl⟩
  | completed sent newHash screen hstage hsame =>
    rw [hstage] at hrun
    have hscreen : Scheduled page { s with now := screen } := { hsched with }
    have hcomplete := completionIsSafe_iff.mp hsafe
    rw [← hsame.form, ← hsame.hasChanges] at hcomplete
    exact kept_completed (kept_screen hs hsame) hwaiting hchain hkeys hscreen
      (by simp [Run.answered, hstage]) hrun.1 hrun.2 hcomplete

theorem kept_move {e : Event Block Scene}
    (hsafe : stepIsSafe page contents opened s e = true)
    (hmove : Move page maxRetries s e t) : Kept page contents opened t := by
  cases hmove with
  | unchanged => exact hs
  | edited change late next hnext =>
    have hmem : next ∈ contents := by simpa [stepIsSafe, hnext] using hsafe
    refine ⟨hmem, hs.view, hs.stored, hs.runs, hs.record, ?_, hs.unsent⟩
    intro form _ _
    cases late with
    | true => exact .inr (.inr (.inl (by simp)))
    | false => exact .inr (.inl (by simp))
  | rendered hpending =>
    exact kept_of_same hs rfl hs.now rfl rfl rfl rfl marked_render
  | effects formMoved blocksMoved hpending hfit =>
    refine kept_runEffects hpending hs ?_
    intro hinit form hform g hg hkey
    simp only [stepIsSafe, hinit, Bool.not_true, Bool.false_or, Bool.and_eq_true,
      baselineIsSaved, hform, all_eq_true] at hsafe
    simpa [hkey] using hsafe.2 g hg
  | hashedBlocks => exact kept_of_same hs rfl hs.view rfl rfl rfl rfl id
  | debounced | retried | called => exact kept_performSave hsync hs
  | switched e screen hsame => exact kept_screen hs hsame
  | saving e run rest t hchain hsave =>
    refine kept_saveMove hkeys hsync hsched hs hchain ?_ hsave
    simpa [stepIsSafe, hchain] using hsafe

end

/-! ## Quiescent states -/

theorem showsSaved_of_quiescent (hsync : Synced page s) (hsched : Scheduled page s)
    (hs : Kept page contents opened s) (hq : Quiescent s) : ShowsSaved page opened s := by
  obtain ⟨hview, hlate⟩ := hq.rendered
  have heff : s.effView = s.now := (hsync.view hq.effects).trans hview
  have hchain := hq.savingChain
  -- A new document has been sent.
  obtain ⟨form, hform⟩ : ∃ form, persisted opened s = some form := by
    cases hstored : persisted opened s with
    | some form => exact ⟨form, rfl⟩
    | none =>
      rcases hs.unsent hstored with hdirect | ⟨run, hrun, -⟩
      · have hready : s.effView.savesDirectly = true := by
          have hproject := Option.isSome_iff_ne_none.mpr hq.project
          simp [heff, Screen.savesDirectly, hdirect, hproject, hq.active.1,
            hq.loaded.1, hq.loaded.2]
        rw [hsync.direct hready] at hdirect
        cases hdirect
      · rw [hchain] at hrun
        cases hrun
  refine ⟨form, hform, ?_⟩
  by_contra hne
  -- The form is marked as changed, so autosave is enabled.
  have hchanges : s.now.hasChanges = true := by
    rcases hs.marked form hform hne with h | h | h | h | h | ⟨h, -⟩
    · exact absurd hchain h
    · exact h
    · exact absurd (hlate.symm.trans h) (by simp)
    · exact absurd hq.retryTimeout h
    · exact absurd hq.saveError h
    · exact absurd (hq.timeout.symm.trans h) (by simp)
  have henabled : s.now.enabled = true := by
    simp [Screen.enabled, hchanges, hq.active.1, hq.active.2, hq.loaded.1, hq.loaded.2]
  have hidle : s.isSaving = false := by
    have hcount := hsync.saving
    rw [hchain] at hcount
    cases hsaving : s.isSaving with
    | true =>
      rw [hsaving] at hcount
      cases hcount
    | false => rfl
  -- Its key is not the recorded one, so there is a timer.
  have hkey : s.effView.key page = contentKey page s.now.form := by
    have hhash := hsync.hashed hq.hashed
    rw [heff] at hhash ⊢
    rw [Screen.key, hhash, contentKey]
  have hrecord : s.effView.key page ≠ s.lastSavedKey := by
    intro hsame
    rcases hs.record form hform with ⟨run, hrun, -⟩ | hright
    · rw [hchain] at hrun
      cases hrun
    · exact hne (hright s.now.form hs.now (hkey.symm.trans hsame)).symm
  have htimer := hsched.timer (heff ▸ henabled) (hview ▸ henabled) hrecord hidle
    hq.retryTimeout hq.saveError
  rw [hq.timeout] at htimer
  cases htimer

end

section

variable {Block Scene : Type} [DecidableEq Block] [DecidableEq Scene]

/-- In every run whose steps are safe, a quiescent editor has saved its form. -/
theorem quiescent_editor_has_saved_form
    (page : Page Block Scene) (maxRetries : Nat) (project : Option String)
    (opened : Opened Block Scene) (contents : List (FormData Block Scene))
    (hkeys : KeysDistinguish page contents) (hform : opened.form ∈ contents)
    (hmounted : (opened.mounted page project).form ∈ contents)
    (events : List (Event Block Scene)) (s : Session Block Scene)
    (hsafe : Guarded (step page maxRetries)
      (fun s e => stepIsSafe page contents opened s e = true)
      (start page project opened) events)
    (hrun : run (step page maxRetries) (start page project opened) events = some s)
    (hquiescent : Quiescent s) :
    ShowsSaved page opened s := by
  have hinv : Synced page s ∧ Scheduled page s ∧ Kept page contents opened s := by
    refine run_invariant_of_guarded
      (I := fun s => Synced page s ∧ Scheduled page s ∧ Kept page contents opened s)
      ?_ ⟨synced_start project opened, scheduled_start project opened,
        kept_start hform hmounted⟩ hsafe hrun
    intro s e t hs hsafe hstep
    obtain ⟨hsync, hsched, hkept⟩ := hs
    have hmove := move_of_step hstep
    exact ⟨synced_move hsync hmove, scheduled_move hsync hsched hsafe hmove,
      kept_move hkeys hsync hsched hkept hsafe hmove⟩
  exact showsSaved_of_quiescent hinv.1 hinv.2.1 hinv.2.2 hquiescent

end

/-! ## An edit that is dropped -/

namespace SampleEditor

def contents : List (FormData String Unit) :=
  [defaultFormData, form "a", form "b", form "c"]

/-- The save completes; `resetChanges` is rendered before the hash arrives. -/
def completing : List (Event String Unit) :=
  [.save (.respond (.ok "p.json")), .save .linked, .render, .effects false false,
    .save (.hashed (some "h")), .render, .effects false false]

/-- Another edit while the backend has the request. -/
def meanwhile : List (Event String Unit) :=
  [setTitle "c", .render, .effects true false]

/-- Whether the editor is quiescent, the title saved last, and the title shown. -/
def summary (s : Session String Unit) : Bool × Option String × String :=
  (decide (Quiescent s),
    (persisted opened s).map fun saved => (sentContent page saved).title,
    (sentContent page s.now.form).title)

end SampleEditor

open SampleEditor

theorem quiescent_editor_has_saved_form_sample :
    ∃ s, final (opening ++ editing ++
        completing) = some s ∧ Quiescent s ∧
      ShowsSaved page opened s := by
  have hsummary : (final (opening ++ editing ++
      completing)).map summary =
        some (true, some "b", "b") := by
    decide +kernel
  obtain ⟨s, hs, hread⟩ := Option.map_eq_some_iff.mp hsummary
  simp only [summary, Prod.mk.injEq, decide_eq_true_eq] at hread
  have hkeys : KeysDistinguish page contents := by
    unfold KeysDistinguish
    decide +kernel
  exact ⟨s, hs, hread.1, quiescent_editor_has_saved_form page 3 (some "@p")
    opened contents hkeys (by decide +kernel)
    (by decide +kernel) _ s (by decide +kernel) hs hread.1⟩

/-- The title "c" was typed while the backend saved "b". Nothing is left to do
in the editor, and "c" has never been sent. -/
theorem edit_during_save_is_dropped :
    ∃ s, final (opening ++ editing ++
        meanwhile ++ completing) = some s ∧ Quiescent s ∧
      ¬ ShowsSaved page opened s := by
  have hsummary : (final (opening ++ editing ++
      meanwhile ++ completing)).map summary =
        some (true, some "b", "c") := by
    decide +kernel
  obtain ⟨s, hs, hread⟩ := Option.map_eq_some_iff.mp hsummary
  simp only [summary, Prod.mk.injEq, decide_eq_true_eq] at hread
  obtain ⟨hquiescent, hsaved, hshown⟩ := hread
  refine ⟨s, hs, hquiescent, ?_⟩
  rintro ⟨form, hform, hsame⟩
  rw [hform, Option.map_some, hsame, hshown] at hsaved
  exact absurd hsaved (by decide)

end Yanta.Editor
