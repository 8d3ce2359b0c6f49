import Yanta.Asset.ChunkedUpload
import Yanta.Support.Threads

/-!
# Concurrent calls on one upload session

A call looks the session up in the map, takes the session's own mutex and removes the
entry from the map in separate steps. A call that found the session therefore goes on
with it after another call has removed it: two `AssembleAndRemove` can both succeed, and
an `AddChunk` can succeed on an aborted session. In every run in which no other call
holds the session when it is removed, it is consumed once.
-/

namespace Yanta.Asset

open Support List Function

inductive SessionCall where
  | addChunk (chunkIndex : Int) (base64Data : String)
  | assembleAndRemove
  | removeSession
  | cleanupExpiredSessions
deriving DecidableEq, Repr

/-- How far a call is: `loaded` has found the session, `locked` has its mutex and
`expired` is a sweep that found it too old. -/
inductive CallPhase where
  | idle
  | loaded
  | locked
  | expired
  | done
deriving DecidableEq, Repr

/-- The call has found the session and has not returned. -/
def CallPhase.holds : CallPhase → Bool
  | .idle | .done => false
  | _ => true

/-- What became of the session. -/
inductive Outcome where
  | added
  | assembled
  | aborted
  | expired
deriving DecidableEq, Repr

/-- The session, whether the map still has it, and the outcomes so far. -/
structure Entry where
  listed : Bool
  session : UploadSession
  log : List Outcome

/-- `sessions.Delete`. -/
def Entry.delete (x : Entry) (outcome : Outcome) : Entry :=
  { x with listed := false, log := x.log ++ [outcome] }

def UploadSession.complete (session : UploadSession) : Bool :=
  (session.chunks.length : Int) == session.totalChunks

/-- One map access or one critical section of a call. -/
def SessionCall.act (corrupt : String → String) (timeout : Int) (call : SessionCall)
    (p : CallPhase) (now : Int) (x : Entry) : Option (Move CallPhase Entry) :=
  match p, call with
  | .idle, _ => some ⟨if x.listed then .loaded else .done, x, .keep⟩
  | .loaded, .removeSession => some ⟨.done, x.delete .aborted, .keep⟩
  | .loaded, _ => some ⟨.locked, x, .acquire⟩
  | .locked, .addChunk chunkIndex base64Data =>
    match x.session.addChunk corrupt chunkIndex base64Data now with
    | .error _ => some ⟨.done, x, .release⟩
    | .ok (_, session) =>
      some ⟨.done, { x with session := session, log := x.log ++ [.added] }, .release⟩
  | .locked, .assembleAndRemove =>
    some ⟨.done, if x.session.complete then x.delete .assembled else x, .release⟩
  | .locked, .cleanupExpiredSessions =>
    some ⟨if timeout < now - x.session.lastActivity then .expired else .done, x, .release⟩
  | .expired, _ => some ⟨.done, x.delete .expired, .keep⟩
  | _, _ => none

/-- The next step of the call removes the session. -/
def SessionCall.deletes (call : SessionCall) (p : CallPhase) (x : Entry) : Bool :=
  match p, call with
  | .loaded, .removeSession | .expired, _ => true
  | .locked, .assembleAndRemove => x.session.complete
  | _, _ => false

/-- At most one `AssembleAndRemove` succeeds, and no `AddChunk` does once the session was
assembled, aborted or expired. -/
def ConsumedOnce (log : List Outcome) : Prop :=
  log.Pairwise fun earlier later =>
    (earlier = .assembled → later ≠ .assembled) ∧ (earlier ≠ .added → later ≠ .added)

instance (log : List Outcome) : Decidable (ConsumedOnce log) :=
  inferInstanceAs (Decidable (log.Pairwise _))

variable {ι : Type} {corrupt : String → String} {timeout : Int} {call : SessionCall}
  {p : CallPhase} {now : Int} {x : Entry} {m : Move CallPhase Entry}

/-- Everything a step of a call can do. -/
theorem act_cases (h : call.act corrupt timeout p now x = some m) :
    (m.shared = x ∧ (m.phase.holds = true → p.holds = true ∨ x.listed = true)) ∨
    (p.holds = true ∧ m.shared.listed = x.listed ∧ m.shared.log = x.log ++ [.added]) ∨
    (p.holds = true ∧ call.deletes p x = true ∧ m.phase = .done ∧
      ∃ o, m.shared = x.delete o) := by
  cases p with
  | idle =>
    cases h
    refine Or.inl ⟨rfl, fun hholds => Or.inr ?_⟩
    by_contra hlisted
    rw [if_neg hlisted] at hholds
    cases hholds
  | loaded =>
    cases call with
    | removeSession =>
      cases h
      exact Or.inr (Or.inr ⟨rfl, rfl, rfl, _, rfl⟩)
    | _ =>
      cases h
      exact Or.inl ⟨rfl, fun _ => Or.inl rfl⟩
  | locked =>
    cases call with
    | addChunk chunkIndex base64Data =>
      rw [SessionCall.act] at h
      split at h
      · cases h
        exact Or.inl ⟨rfl, fun _ => Or.inl rfl⟩
      · cases h
        exact Or.inr (Or.inl ⟨rfl, rfl, rfl⟩)
    | assembleAndRemove =>
      cases h
      by_cases hcomplete : x.session.complete = true
      · rw [if_pos hcomplete]
        exact Or.inr (Or.inr ⟨rfl, hcomplete, rfl, _, rfl⟩)
      · rw [if_neg hcomplete]
        exact Or.inl ⟨rfl, fun _ => Or.inl rfl⟩
    | removeSession => cases h
    | cleanupExpiredSessions =>
      cases h
      exact Or.inl ⟨rfl, fun _ => Or.inl rfl⟩
  | expired =>
    cases h
    exact Or.inr (Or.inr ⟨rfl, rfl, rfl, _, rfl⟩)
  | done => cases h

theorem ConsumedOnce.snoc {log : List Outcome} (h : ConsumedOnce log)
    (hadded : ∀ o ∈ log, o = .added) (o : Outcome) : ConsumedOnce (log ++ [o]) := by
  refine pairwise_append.mpr ⟨h, pairwise_singleton _ _, ?_⟩
  intro earlier hearlier later _
  simp [hadded earlier hearlier]

/-- While the map has the session it was only added to; afterwards no call holds it. -/
structure Unconsumed (s : Threads ι CallPhase Entry) : Prop where
  once : ConsumedOnce s.shared.log
  added : s.shared.listed = true → ∀ o ∈ s.shared.log, o = .added
  released : s.shared.listed = false → ∀ i, (s.phase i).holds = false

/-- The condition on a step: when a call removes the session, no other call holds it. -/
def RemovesAlone (calls : ι → SessionCall) (s : Threads ι CallPhase Entry) (e : ι × Int) :
    Prop :=
  (calls e.1).deletes (s.phase e.1) s.shared = true →
    ∀ j, j ≠ e.1 → (s.phase j).holds = false

variable [DecidableEq ι] {calls : ι → SessionCall} {s s' : Threads ι CallPhase Entry}
  {e : ι × Int}

theorem Unconsumed.step (h : Unconsumed s) (halone : RemovesAlone calls s e)
    (hstep : s.step (fun i => (calls i).act corrupt timeout) e = some s') :
    Unconsumed s' := by
  obtain ⟨m, hm, hshared, hphase, -⟩ := Threads.step_eq_some.mp hstep
  have hlisted (hholds : (s.phase e.1).holds = true) : s.shared.listed = true := by
    by_contra hnot
    rw [h.released (Bool.not_eq_true _ ▸ hnot)] at hholds
    cases hholds
  rcases act_cases hm with ⟨hsame, hkeep⟩ | ⟨hholds, hkeep, hlog⟩ |
    ⟨hholds, hdeletes, hdone, o, hdelete⟩
  · rw [hsame] at hshared
    refine ⟨hshared ▸ h.once, hshared ▸ h.added, fun hnot i => ?_⟩
    rw [hshared] at hnot
    rw [hphase]
    by_cases hi : i = e.1
    · subst hi
      rw [update_self]
      by_contra hholds
      have := hkeep (Bool.not_eq_false _ ▸ hholds)
      simp [h.released hnot, hnot] at this
    · rw [update_of_ne hi]
      exact h.released hnot i
  · have hin := hlisted hholds
    refine ⟨?_, fun _ => ?_, fun hnot => ?_⟩
    · rw [hshared, hlog]
      exact h.once.snoc (h.added hin) _
    · rw [hshared, hlog]
      simpa [or_imp] using h.added hin
    · rw [hshared, hkeep, hin] at hnot
      cases hnot
  · have hadded := h.added (hlisted hholds)
    rw [hdelete] at hshared
    refine ⟨?_, fun hin => ?_, fun _ i => ?_⟩
    · rw [hshared]
      exact h.once.snoc hadded o
    · rw [hshared] at hin
      cases hin
    · rw [hphase]
      by_cases hi : i = e.1
      · subst hi
        rw [update_self, hdone]
        rfl
      · rw [update_of_ne hi]
        exact halone hdeletes i hi

/-- A new session and the calls that will be made on it. -/
def opened (ι : Type) (session : UploadSession) : Threads ι CallPhase Entry :=
  ⟨⟨true, session, []⟩, none, fun _ => .idle⟩

/-- In every run in which a session is removed only while no other call holds it, at most
one `AssembleAndRemove` succeeds and no `AddChunk` succeeds on a consumed session. -/
theorem session_consumed_once (session : UploadSession) {es : List (ι × Int)}
    (halone : Guarded (Threads.step fun i => (calls i).act corrupt timeout)
      (RemovesAlone calls) (opened ι session) es)
    (hrun : run (Threads.step fun i => (calls i).act corrupt timeout) (opened ι session) es =
      some s) :
    ConsumedOnce s.shared.log := by
  have hstart : Unconsumed (opened ι session) :=
    ⟨List.Pairwise.nil, fun _ _ ho => absurd ho not_mem_nil, fun hnot => by cases hnot⟩
  have hend := run_invariant_of_guarded
    (fun _ _ _ h halone hstep => h.step halone hstep) hstart halone hrun
  exact hend.once

instance {n : Nat} (calls : Fin n → SessionCall) (s : Threads (Fin n) CallPhase Entry)
    (e : Fin n × Int) : Decidable (RemovesAlone calls s e) :=
  inferInstanceAs (Decidable (_ → ∀ _, _))

namespace SampleSession

/-- A file of one byte, in one chunk. -/
def session : UploadSession := ⟨"@notes", "a.png", "image/png", 1, 1, [], 0, 0⟩

def outcomes {n : Nat} (calls : Fin n → SessionCall) (es : List (Fin n × Int)) :
    Option (List Outcome) :=
  (run (Threads.step fun i => (calls i).act id 300) (opened (Fin n) session) es).map
    fun s => s.shared.log

/-- The chunk, and two calls that assemble the file. -/
def twice (i : Fin 3) : SessionCall :=
  if i.val = 0 then .addChunk 0 "QQ==" else .assembleAndRemove

/-- The chunk, and a call that aborts the upload. -/
def abort (i : Fin 2) : SessionCall :=
  if i.val = 0 then .addChunk 0 "QQ==" else .removeSession

end SampleSession

open SampleSession

theorem session_consumed_once_sample :
    ∃ log, outcomes twice
        [(0, 1), (0, 1), (0, 1), (1, 2), (1, 2), (1, 2), (2, 3)] = some log ∧
      ConsumedOnce log := by
  have hsome : (outcomes twice
      [(0, 1), (0, 1), (0, 1), (1, 2), (1, 2), (1, 2), (2, 3)]).isSome = true := by
    decide +kernel
  obtain ⟨log, hlog⟩ := Option.isSome_iff_exists.mp hsome
  obtain ⟨s, hs, rfl⟩ := Option.map_eq_some_iff.mp hlog
  exact ⟨_, hlog, session_consumed_once _ (by decide +kernel) hs⟩

/-- Two calls that both found the session assemble the file twice; a chunk is accepted
after the upload was aborted, by a call that had found the session before. -/
theorem session_consumed_twice :
    (∃ log, outcomes twice
        [(0, 1), (0, 1), (0, 1), (1, 2), (2, 2), (1, 2), (1, 2), (2, 2), (2, 2)] =
          some log ∧ ¬ConsumedOnce log) ∧
    ∃ log, outcomes abort
        [(0, 1), (1, 1), (1, 1), (0, 2), (0, 2)] = some log ∧ ¬ConsumedOnce log := by
  refine ⟨⟨[.added, .assembled, .assembled], ?_, ?_⟩, ⟨[.aborted, .added], ?_, ?_⟩⟩ <;>
    decide +kernel

end Yanta.Asset
