import Yanta.Support.Runs

/-!
# Rebuilds of the in-memory index

The store of `frontend/src/search-index/searchIndex.store.ts` builds its index from an export
of the backend. A request that comes while a build runs is merged into one flag, which is
read when that build ends; requests of event handlers go through a timer. Everything between
two awaits runs at once, so a session is a sequence of calls, timer events and completions.
-/

namespace Yanta.SearchIndex

open Support List Bool

/-! ## The store -/

/-- A record of the export, with the fields the build reads. -/
structure IndexDoc where
  id : String
  body : String
deriving DecidableEq, Repr

inductive IndexStatus where
  | idle
  | building
  | ready
  | error
deriving DecidableEq, Repr

/-- What is noted of a session: requests for a rebuild, exports that start, and how they
end. -/
inductive Note where
  | requested
  | started (number : Nat)
  | exported (number : Nat) (records : List IndexDoc)
  | failed (number : Nat)
deriving DecidableEq, Repr

/-- The store with its module variables, the exports that run and the notes. No code reads
the notes. -/
structure Store where
  status : IndexStatus
  index : Option (List IndexDoc)
  docsById : List (String × IndexDoc)
  rebuildPending : Bool
  rebuildTimer : Bool
  running : List Nat
  exports : Nat
  notes : List Note
deriving DecidableEq, Repr

def initialStore : Store :=
  { status := .idle, index := none, docsById := [], rebuildPending := false
    rebuildTimer := false, running := [], exports := 0, notes := [] }

def Store.note (s : Store) (entry : Note) : Store := { s with notes := s.notes ++ [entry] }

/-- `build` up to its await. -/
def Store.build (s : Store) : Store :=
  if s.status = .building then { s with rebuildPending := true }
  else
    { s with
      status := .building
      rebuildPending := false
      running := s.running ++ [s.exports]
      exports := s.exports + 1
      notes := s.notes ++ [.started s.exports] }

/-- `docsById.set` for each record. -/
def setAll (records : List IndexDoc) : List (String × IndexDoc) :=
  records.foldl (fun docs rec => docs.filter (fun d => d.1 ≠ rec.id) ++ [(rec.id, rec)]) []

/-- `addAll` of the search library, which throws at an id that is already there. -/
def addAll (records : List IndexDoc) : Option (List IndexDoc) :=
  if (records.map IndexDoc.id).Nodup then some records else none

/-- How an export ends. -/
inductive Outcome where
  | resolved (records : Option (List IndexDoc))
  | rejected
deriving DecidableEq, Repr

variable {s s' : Store} {k : Nat} {notes : List Note} {outcome : Outcome}

/-- The rest of the `try` block of `build` behind the await, or its `catch`. -/
def Store.afterExport (s : Store) (k : Nat) : Outcome → Store
  | .rejected => { s with status := .error }.note (.failed k)
  | .resolved records =>
    let records := records.getD []
    match addAll records with
    | none => { s with status := .error }.note (.exported k records)
    | some index =>
      { s with
        status := .ready
        index := some index
        docsById := setAll records }.note (.exported k records)

/-- The `finally` block of `build`. -/
def Store.finish (s : Store) : Store := if s.rebuildPending then s.build else s

inductive Event where
  | build
  | scheduleRebuild
  | timer
  | completed (number : Nat) (outcome : Outcome)
deriving DecidableEq, Repr

/-- One event of a session; none if it cannot happen. -/
def Store.step (s : Store) : Event → Option Store
  | .build => some (s.note .requested).build
  | .scheduleRebuild => some { s.note .requested with rebuildTimer := true }
  | .timer =>
    if s.rebuildTimer then some ({ s with rebuildTimer := false }.note .requested).build
    else none
  | .completed k outcome =>
    if k ∈ s.running then
      some ({ s with running := s.running.erase k }.afterExport k outcome).finish
    else none

/-! ## What is promised -/

/-- Every request is followed by an export that starts after it. -/
def EveryRequestFollowed (notes : List Note) : Prop :=
  ∀ before after, notes = before ++ .requested :: after → ∃ k, .started k ∈ after

/-- The export started after every request. -/
def StartedAfterRequests (k : Nat) (notes : List Note) : Prop :=
  ∀ before after, notes = before ++ .requested :: after → .started k ∈ after

/-- The export has failed, or the index holds its records if and only if their ids are
distinct. -/
def Store.Settled (s : Store) (k : Nat) : Prop :=
  .failed k ∈ s.notes ∨
    ∃ records, .exported k records ∈ s.notes ∧
      (s.index = some records ↔ (records.map IndexDoc.id).Nodup)

/-- What a state promises: one export runs at most; a request that no export has followed
waits for the timer or for the running export, and at the latest the completion of that
export starts one; and at rest an export started after the last request has settled. -/
structure Store.NoRequestLost (s : Store) : Prop where
  one_export : s.running.length ≤ 1
  waits : EveryRequestFollowed s.notes ∨ s.rebuildTimer = true ∨
    (s.rebuildPending = true ∧ s.running ≠ [])
  followed : ∀ k outcome s', s.step (.completed k outcome) = some s' →
    s.rebuildTimer = false → EveryRequestFollowed s'.notes
  at_rest : s.running = [] → s.rebuildTimer = false → .requested ∈ s.notes →
    ∃ k, StartedAfterRequests k s.notes ∧ s.Settled k

/-! ## Notes -/

/-- A note that is not a request comes behind every request. -/
theorem requested_of_snoc {before after : List Note} {entry : Note}
    (hentry : entry ≠ .requested) (h : notes ++ [entry] = before ++ .requested :: after) :
    ∃ after', after = after' ++ [entry] ∧ notes = before ++ .requested :: after' := by
  rcases eq_nil_or_concat' after with rfl | ⟨after', last, rfl⟩
  · have hlast := (append_inj' h rfl).2
    exact absurd (List.cons.inj hlast).1 hentry
  · rw [← cons_append, ← append_assoc] at h
    obtain ⟨hfront, hlast⟩ := append_inj' h rfl
    rw [List.cons.inj hlast |>.1]
    exact ⟨after', rfl, hfront⟩

theorem startedAfterRequests_started (k : Nat) (notes : List Note) :
    StartedAfterRequests k (notes ++ [.started k]) := by
  intro before after h
  obtain ⟨after', rfl, -⟩ := requested_of_snoc (by simp) h
  simp

theorem StartedAfterRequests.snoc (h : StartedAfterRequests k notes) {entry : Note}
    (hentry : entry ≠ .requested) :
    StartedAfterRequests k (notes ++ [entry]) := by
  intro before after hsplit
  obtain ⟨after', rfl, hnotes⟩ := requested_of_snoc hentry hsplit
  exact mem_append_left _ (h before after' hnotes)

/-! ## The invariant -/

/-- The status says whether an export runs. -/
def Store.StatusFits (s : Store) : Prop :=
  (s.status = .building ∧ ∃ k, s.running = [k]) ∨ (s.status ≠ .building ∧ s.running = [])

structure Store.Inv (s : Store) : Prop where
  fits : s.StatusFits
  distinct : ∀ records, s.index = some records → (records.map IndexDoc.id).Nodup
  pending : s.rebuildPending = true → s.running ≠ []
  last : s.rebuildTimer = false → s.rebuildPending = false → .requested ∈ s.notes →
    ∃ k, StartedAfterRequests k s.notes ∧ (s.running = [k] ∨ (s.running = [] ∧ s.Settled k))

/-- A call of `build` starts an export or leaves the flag for the one that runs. -/
theorem Store.build_inv (hfits : s.StatusFits)
    (hdistinct : ∀ records, s.index = some records → (records.map IndexDoc.id).Nodup) :
    s.build.Inv := by
  rw [build]
  rcases hfits with ⟨hstatus, k, hrunning⟩ | ⟨hstatus, hrunning⟩
  · rw [if_pos hstatus]
    refine ⟨Or.inl ⟨hstatus, k, hrunning⟩, hdistinct, ?_, ?_⟩
    · intro _
      simp [hrunning]
    · intro _ hpending
      exact absurd hpending (by simp)
  · rw [if_neg hstatus]
    refine ⟨Or.inl ⟨rfl, s.exports, by simp [hrunning]⟩, hdistinct, ?_, ?_⟩
    · intro hpending
      exact absurd hpending (by simp)
    · intro _ _ _
      exact ⟨s.exports, startedAfterRequests_started _ _, Or.inl (by simp [hrunning])⟩

theorem Store.inv_initialStore : initialStore.Inv := by
  refine ⟨Or.inr ⟨by decide, rfl⟩, ?_, ?_, ?_⟩
  · intro records h
    exact absurd h (by simp [initialStore])
  · intro h
    exact absurd h (by decide)
  · intro _ _ hnotes
    exact absurd hnotes not_mem_nil

/-- The note that the end of an export leaves. -/
def Outcome.entry (k : Nat) : Outcome → Note
  | .rejected => .failed k
  | .resolved records => .exported k (records.getD [])

theorem Outcome.entry_ne_requested (k : Nat) (outcome : Outcome) :
    outcome.entry k ≠ .requested := by
  cases outcome <;> simp [entry]

/-- What the end of an export leaves as it was. -/
theorem Store.afterExport_frame (s : Store) (k : Nat) (outcome : Outcome) :
    (s.afterExport k outcome).status ≠ .building ∧
      (s.afterExport k outcome).running = s.running ∧
      (s.afterExport k outcome).rebuildPending = s.rebuildPending ∧
      (s.afterExport k outcome).rebuildTimer = s.rebuildTimer ∧
      (s.afterExport k outcome).notes = s.notes ++ [outcome.entry k] := by
  cases outcome with
  | rejected => exact ⟨by simp [afterExport, note], rfl, rfl, rfl, rfl⟩
  | resolved records =>
    rw [afterExport]
    cases addAll (records.getD []) with
    | none | some => exact ⟨by simp [note], rfl, rfl, rfl, rfl⟩

/-- An export that ends settles; the index keeps distinct ids. -/
theorem Store.afterExport_settled (k : Nat) (outcome : Outcome)
    (hdistinct : ∀ records, s.index = some records → (records.map IndexDoc.id).Nodup) :
    (s.afterExport k outcome).Settled k ∧
      ∀ records, (s.afterExport k outcome).index = some records →
        (records.map IndexDoc.id).Nodup := by
  cases outcome with
  | rejected =>
    refine ⟨Or.inl ?_, hdistinct⟩
    simp [afterExport, note]
  | resolved records =>
    by_cases hnodup : ((records.getD []).map IndexDoc.id).Nodup
    · have hadd : addAll (records.getD []) = some (records.getD []) := if_pos hnodup
      simp only [afterExport, hadd]
      refine ⟨Or.inr ⟨records.getD [], by simp [note], ?_⟩, ?_⟩
      · exact ⟨fun _ => hnodup, fun _ => rfl⟩
      · intro held h
        rw [← Option.some.inj h]
        exact hnodup
    · have hadd : addAll (records.getD []) = none := if_neg hnodup
      simp only [afterExport, hadd]
      refine ⟨Or.inr ⟨records.getD [], by simp [note], ?_⟩, hdistinct⟩
      exact ⟨fun h => hdistinct _ h, fun h => absurd h hnodup⟩

open Store

theorem Store.completed_inv (hs : s.Inv) (h : s.step (.completed k outcome) = some s') :
    s'.Inv := by
  rw [step] at h
  split_ifs at h with hmem
  rw [Option.some.injEq] at h
  -- The completed export is the only one that runs.
  have hrunning : s.running = [k] := by
    rcases hs.fits with ⟨-, k', hone⟩ | ⟨-, hnone⟩
    · rw [hone] at hmem ⊢
      rw [mem_singleton.mp hmem]
    · rw [hnone] at hmem
      exact absurd hmem not_mem_nil
  have hempty : s.running.erase k = [] := by simp [hrunning]
  rw [hempty] at h
  have hheld : ∀ records, ({ s with running := [] } : Store).index = some records →
      (records.map IndexDoc.id).Nodup := hs.distinct
  obtain ⟨hstatus, hafter, hpending, htimer, hnotes⟩ :=
    afterExport_frame { s with running := [] } k outcome
  obtain ⟨hsettled, hdistinct⟩ := afterExport_settled k outcome hheld
  generalize afterExport { s with running := [] } k outcome = t at *
  have hfits : t.StatusFits := Or.inr ⟨hstatus, hafter⟩
  rw [← h, finish]
  by_cases hflag : t.rebuildPending = true
  · rw [if_pos hflag]
    exact build_inv hfits hdistinct
  · rw [if_neg hflag]
    refine ⟨hfits, hdistinct, fun h => absurd h hflag, ?_⟩
    intro hnotimer _ hrequested
    rw [hnotes, mem_append, mem_singleton] at hrequested
    have hbefore : .requested ∈ s.notes := by
      rcases hrequested with hin | heq
      · exact hin
      · exact absurd heq.symm (Outcome.entry_ne_requested k outcome)
    rw [hpending, not_eq_true] at hflag
    obtain ⟨k', hstarted, hcase⟩ := hs.last (htimer ▸ hnotimer) hflag hbefore
    have hsame : k' = k := by
      rcases hcase with hone | ⟨hnone, -⟩
      · rw [hrunning] at hone
        exact (List.cons.inj hone).1.symm
      · rw [hrunning] at hnone
        exact absurd hnone (by simp)
    subst hsame
    refine ⟨k', ?_, Or.inr ⟨hafter, hsettled⟩⟩
    rw [hnotes]
    exact hstarted.snoc (Outcome.entry_ne_requested k' outcome)

theorem Store.step_inv {e : Event} (hs : s.Inv) (h : s.step e = some s') : s'.Inv := by
  cases e with
  | build =>
    rw [step, Option.some.injEq] at h
    rw [← h]
    exact build_inv hs.fits hs.distinct
  | scheduleRebuild =>
    rw [step, Option.some.injEq] at h
    rw [← h]
    refine { hs with last := ?_ }
    intro htimer
    exact absurd htimer (by simp)
  | timer =>
    rw [step] at h
    split_ifs at h
    rw [Option.some.injEq] at h
    rw [← h]
    exact build_inv hs.fits hs.distinct
  | completed k outcome => exact completed_inv hs h

/-! ## Every session -/

theorem Store.Inv.everyRequestFollowed (hs : s.Inv) (htimer : s.rebuildTimer = false)
    (hpending : s.rebuildPending = false) :
    EveryRequestFollowed s.notes := by
  intro before after h
  obtain ⟨k, hstarted, -⟩ := hs.last htimer hpending (by simp [h])
  exact ⟨k, hstarted before after h⟩

/-- After the end of an export the flag is down. -/
theorem Store.completed_pending (h : s.step (.completed k outcome) = some s') :
    s'.rebuildPending = false ∧ s'.rebuildTimer = s.rebuildTimer := by
  rw [step] at h
  split_ifs at h with hmem
  rw [Option.some.injEq] at h
  obtain ⟨hstatus, -, -, htimer, -⟩ :=
    afterExport_frame { s with running := s.running.erase k } k outcome
  generalize afterExport { s with running := s.running.erase k } k outcome = t at *
  rw [← h, finish]
  by_cases hflag : t.rebuildPending = true
  · rw [if_pos hflag, build, if_neg hstatus]
    exact ⟨rfl, htimer⟩
  · rw [if_neg hflag]
    exact ⟨not_eq_true _ ▸ hflag, htimer⟩

/-- Two builds: a request comes while the first one runs. -/
def sampleSession : List Event :=
  [.scheduleRebuild, .timer, .build, .completed 0 (.resolved (some [⟨"a", ""⟩])),
    .completed 1 (.resolved none)]

end Yanta.SearchIndex
