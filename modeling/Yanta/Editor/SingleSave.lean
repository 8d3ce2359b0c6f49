import Yanta.Editor.Sync

/-!
# One save at a time

Autosave has at most one unfinished save, and the key that a save records is the one that
was current when it started.
-/

namespace Yanta.Editor

open Support Session Option

section

variable {Block Scene : Type}

def Owner.savedKey? : Owner → Option String
  | .autoSave savedKey _ => some savedKey
  | .direct => none

/-- The keys that the unfinished saves of autosave have noted. -/
def notedKeys (chain : List (Run Block Scene)) : List String :=
  chain.filterMap (·.owner.savedKey?)

/-- The key that was current when the last save started, after a step from `s` to `t`. -/
def startKey (s t : Session Block Scene) (key : String) : String :=
  if !s.isSaving && t.isSaving then s.currentKey else key

def Session.stepNoting [DecidableEq Block] [DecidableEq Scene] (page : Page Block Scene)
    (maxRetries : Nat) (x : Session Block Scene × String) (e : Event Block Scene) :
    Option (Session Block Scene × String) :=
  (x.1.step page maxRetries e).map fun t => (t, startKey x.1 t x.2)

/-- Only the save that is not finished has noted a key, namely this one. -/
def NotesStart (s : Session Block Scene) (key : String) : Prop :=
  notedKeys s.savingChain = if s.isSaving then [key] else []

variable {page : Page Block Scene} {maxRetries : Nat} {s t : Session Block Scene}
  {key : String}

theorem notedKeys_handleSave (chain : List (Run Block Scene)) (owner : Owner)
    (v : Screen Block Scene) :
    notedKeys (handleSave chain owner v) = notedKeys chain ++ owner.savedKey?.toList := by
  cases owner <;> simp [notedKeys, handleSave, Owner.savedKey?]

theorem notedKeys_cons (run : Run Block Scene) (rest : List (Run Block Scene)) :
    notedKeys (run :: rest) = run.owner.savedKey?.toList ++ notedKeys rest := by
  cases h : run.owner <;> simp [notedKeys, h, Owner.savedKey?]

variable (h : NotesStart s key)
include h

theorem notesStart_of_same (hchain : notedKeys t.savingChain = notedKeys s.savingChain)
    (hsaving : t.isSaving = s.isSaving) : NotesStart t (startKey s t key) := by
  rw [NotesStart, hchain, h, startKey, hsaving]
  cases s.isSaving <;> rfl

theorem notesStart_performSave (n : Nat) :
    NotesStart (s.performSave n) (startKey s (s.performSave n) key) := by
  cases hsaving : s.isSaving with
  | true =>
    have hsame : s.performSave n = s := by simp [performSave, hsaving]
    exact notesStart_of_same h (by rw [hsame]) (by rw [hsame])
  | false =>
    rw [NotesStart, hsaving] at h
    simp [NotesStart, performSave, startKey, hsaving, notedKeys_handleSave, h,
      Owner.savedKey?]

section

variable {run : Run Block Scene} {rest : List (Run Block Scene)}
  (hchain : s.savingChain = run :: rest)
include hchain

/-- The end of a run: only the key that was noted is recorded. -/
theorem notesStart_settle (outcome : Except String Unit) :
    NotesStart (s.settle maxRetries run.owner outcome)
        (startKey s (s.settle maxRetries run.owner outcome) key) ∧
      ((s.settle maxRetries run.owner outcome).lastSavedKey = s.lastSavedKey ∨
        (s.settle maxRetries run.owner outcome).lastSavedKey = key) := by
  have hkeys := h
  rw [NotesStart, hchain, notedKeys_cons] at hkeys
  rcases settle_cases (t := s.settle maxRetries run.owner outcome) rfl with
    ⟨howner, ht⟩ | ⟨k, n, howner, -, -, -, ht⟩ | ⟨k, n, howner, -, -, ht⟩ |
    ⟨k, n, message, howner, -, ht⟩ | ⟨k, n, message, howner, -, ht⟩
  · rw [ht]
    refine ⟨notesStart_of_same h ?_ rfl, .inl rfl⟩
    rw [hchain, List.tail_cons, notedKeys_cons, howner]
    rfl
  all_goals
    -- the run was the one of autosave
    rw [howner] at hkeys
    cases hsaving : s.isSaving with
    | false => simp [hsaving, Owner.savedKey?] at hkeys
    | true =>
      simp only [Owner.savedKey?, toList_some, List.singleton_append, hsaving,
        if_true, List.cons.injEq] at hkeys
      rw [ht]
      simp [NotesStart, hchain, hkeys.1, hkeys.2]

theorem notesStart_saveMove {e : SaveEvent}
    (hmove : SaveMove maxRetries s run rest e t) :
    NotesStart t (startKey s t key) ∧
      (t.lastSavedKey = s.lastSavedKey ∨ t.lastSavedKey = key) := by
  cases hmove with
  | skipped | failed | unnamed => exact notesStart_settle h hchain _
  | conflict =>
    exact notesStart_settle (s := { s with now := { s.now with hasConflict := true } }) h
      hchain _
  | completed _ _ screen => exact notesStart_settle (s := { s with now := screen }) h hchain _
  | sent | accepted | reset =>
    refine ⟨notesStart_of_same h ?_ rfl, .inl rfl⟩
    rw [hchain, notedKeys_cons, notedKeys_cons]

end

theorem notesStart_move [DecidableEq Block] [DecidableEq Scene] {e : Event Block Scene}
    (hmove : Move page maxRetries s e t) :
    NotesStart t (startKey s t key) := by
  cases hmove with
  | unchanged | edited | rendered | hashedBlocks | switched =>
    exact notesStart_of_same h rfl rfl
  | effects =>
    refine notesStart_of_same h ?_ rfl
    rw [runEffects_savingChain]
    split_ifs
    · rw [notedKeys_handleSave, Owner.savedKey?, toList_none, List.append_nil]
    · rfl
  | debounced | called => exact notesStart_performSave (s := { s with timeout := false }) h _
  | retried => exact notesStart_performSave (s := { s with retryTimeout := none }) h _
  | saving e run rest t hchain hsave => exact (notesStart_saveMove h hchain hsave).1

end

/-- In every run of the editor at most one save of autosave is unfinished, the key it has
noted is the one that was current when it started, and no other key is recorded by a step
of a save. -/
theorem saves_one_at_a_time {Block Scene : Type} [DecidableEq Block] [DecidableEq Scene]
    (page : Page Block Scene) (maxRetries : Nat) (project : Option String)
    (opened : Opened Block Scene) (es : List (Event Block Scene))
    (x : Session Block Scene × String)
    (hrun : run (stepNoting page maxRetries) (start page project opened, "") es = some x) :
    (notedKeys x.1.savingChain).length ≤ 1 ∧
      (∀ key ∈ notedKeys x.1.savingChain, key = x.2) ∧
      ∀ e t, x.1.step page maxRetries (.save e) = some t →
        t.lastSavedKey = x.1.lastSavedKey ∨ t.lastSavedKey = x.2 := by
  have h : NotesStart x.1 x.2 := by
    refine run_invariant (I := fun x => NotesStart x.1 x.2) ?_
      (show NotesStart (start page project opened) "" from rfl) hrun
    rintro ⟨s, key⟩ e x' hs hstep
    obtain ⟨t, ht, rfl⟩ := map_eq_some_iff.mp hstep
    exact notesStart_move hs (move_of_step ht)
  refine ⟨?_, ?_, fun e t hstep => ?_⟩
  · rw [h]
    split_ifs <;> simp
  · rw [h]
    split_ifs <;> simp
  · cases move_of_step hstep with
    | saving e run rest t hchain hsave => exact (notesStart_saveMove h hchain hsave).2
    | switched e screen hscreen htask => exact absurd rfl (htask e)

open SampleEditor

theorem saves_one_at_a_time_sample :
    ∃ x, run (stepNoting page 3) (start page (some "@p") opened, "") (opening ++ editing) =
        some x ∧ x.1.isSaving = true ∧ (notedKeys x.1.savingChain).length ≤ 1 := by
  have hsome : ((run (stepNoting page 3) (start page (some "@p") opened, "")
      (opening ++ editing)).map fun x => x.1.isSaving) = some true := by decide +kernel
  obtain ⟨x, hx, hsaving⟩ := map_eq_some_iff.mp hsome
  exact ⟨x, hx, hsaving, (saves_one_at_a_time page 3 _ opened _ x hx).1⟩

/-- In every run of the editor all unfinished saves wait for the first one, and one of them
is of autosave exactly while `isSaving` is set. -/
theorem later_saves_wait {Block Scene : Type} [DecidableEq Block] [DecidableEq Scene]
    (page : Page Block Scene) (maxRetries : Nat) (project : Option String)
    (opened : Opened Block Scene) (es : List (Event Block Scene)) (s : Session Block Scene)
    (hrun : run (step page maxRetries) (start page project opened) es = some s) :
    (∀ run ∈ s.savingChain.tail, run.stage = .queued) ∧
      s.savingChain.countP Run.isAuto = s.isSaving.toNat := by
  have hs : Synced page s := run_invariant (I := Synced page)
    (fun _ _ _ hs hstep => synced_move hs (move_of_step hstep))
    (synced_start project opened) hrun
  exact ⟨hs.waiting, hs.saving⟩

theorem later_saves_wait_sample :
    ∃ s, final (opening ++ editing) = some s ∧ s.savingChain.countP Run.isAuto = 1 := by
  have hsome : (final (opening ++ editing)).map (·.isSaving) = some true := by decide +kernel
  obtain ⟨s, hs, hsaving⟩ := map_eq_some_iff.mp hsome
  refine ⟨s, hs, ?_⟩
  rw [(later_saves_wait page 3 _ opened _ s hs).2, hsaving]
  rfl

end Yanta.Editor
