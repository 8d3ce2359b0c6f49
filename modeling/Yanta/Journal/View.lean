import Yanta.Js.Text
import Yanta.Support.Runs

/-!
# The journal view

The hook of the journal page fetches the entries of the project and date it shows. Only
the requests made for a new selection are numbered; those that follow an event, an added
or a restored entry keep the selection of their closure and are always displayed.
-/

namespace Yanta.Journal.View

open Support List

structure Selection where
  projectAlias : String
  date : String
deriving DecidableEq

structure Request where
  selection : Selection
  requestId : Option Nat
deriving DecidableEq

/-- The state of the hook, the requests and actions the backend has not answered, and
the answer that was displayed last (`none` stands for a failure). -/
structure State (Raw Entry : Type) where
  shown : Selection
  refreshRequestId : Nat
  entries : List Entry
  requests : List Request
  actions : List Selection
  displayed : Option (Selection × Option (List Raw))

inductive Event (Raw : Type)
  /-- The effect of a render with another project, date or notifier. -/
  | select (next : Selection)
  | entryChanged (projectId date : String)
  | addEntry (rawText : Js.Text)
  | restoreEntry
  /-- The backend has added or restored an entry, or failed to. -/
  | acted (selection : Selection) (ok : Bool)
  | responded (request : Request) (answer : Option (List Raw))

variable {Raw Entry : Type} (mapEntry : Raw → Entry)

def State.refresh (s : State Raw Entry) (request : Request) : State Raw Entry :=
  { s with requests := request :: s.requests }

/-- The effect fetches the entries of the selection under a new number. -/
def State.select (s : State Raw Entry) (next : Selection) : State Raw Entry :=
  { s with shown := next, refreshRequestId := s.refreshRequestId + 1 }.refresh
    ⟨next, some (s.refreshRequestId + 1)⟩

/-- The page has been opened. -/
def mount (shown : Selection) : State Raw Entry :=
  State.select ⟨shown, 0, [], [], [], none⟩ shown

/-- What `refresh` does when its request is answered. -/
def State.receive (s : State Raw Entry) (request : Request)
    (answer : Option (List Raw)) : State Raw Entry :=
  if request.requestId.isNone || request.requestId = some s.refreshRequestId then
    { s with
      entries := (answer.getD []).map mapEntry
      displayed := some (request.selection, answer) }
  else s

def step (s : State Raw Entry) : Event Raw → Option (State Raw Entry)
  | .select next => some (s.select next)
  | .entryChanged projectId date =>
    if s.shown.projectAlias = "all" ∨ ⟨projectId, date⟩ = s.shown then
      some (s.refresh ⟨s.shown, none⟩)
    else some s
  | .addEntry rawText =>
    if Js.trim rawText = [] ∨ s.shown.projectAlias = "all" then some s
    else some { s with actions := s.shown :: s.actions }
  | .restoreEntry => some { s with actions := s.shown :: s.actions }
  | .acted selection ok =>
    if selection ∈ s.actions then
      let s := { s with actions := s.actions.erase selection }
      if ok then some (s.refresh ⟨selection, none⟩) else some s
    else none
  | .responded request answer =>
    if request ∈ s.requests then
      some ({ s with requests := s.requests.erase request }.receive mapEntry request
        answer)
    else none

/-- The entries are those of an answer for the selection. -/
def Answered (s : State Raw Entry) : Prop :=
  ∃ answer, s.displayed = some (s.shown, answer) ∧
    s.entries = (answer.getD []).map mapEntry

/-- The view shows its selection unless a request for it is outstanding. -/
def ShowsSelection (s : State Raw Entry) : Prop :=
  (∀ r ∈ s.requests, r.selection ≠ s.shown) → Answered mapEntry s

/-- Another selection is made only when no action and no request without a number is
outstanding. -/
def settled (s : State Raw Entry) : Event Raw → Bool
  | .select next =>
    next == s.shown || (s.actions.isEmpty && s.requests.all (·.requestId.isSome))
  | _ => true

/-- What carries no number or the last one is for the selection. -/
structure Current (s : State Raw Entry) : Prop where
  actions : ∀ a ∈ s.actions, a = s.shown
  requests : ∀ r ∈ s.requests, (r.requestId = none → r.selection = s.shown) ∧
    ∀ n, r.requestId = some n →
      n ≤ s.refreshRequestId ∧ (n = s.refreshRequestId → r.selection = s.shown)
  answered : ⟨s.shown, some s.refreshRequestId⟩ ∈ s.requests ∨ Answered mapEntry s

variable {mapEntry} {s s' : State Raw Entry}

theorem Current.refresh (h : Current mapEntry s) :
    Current mapEntry (s.refresh ⟨s.shown, none⟩) where
  actions := h.actions
  requests := forall_mem_cons.mpr ⟨by simp [State.refresh], h.requests⟩
  answered := h.answered.imp_left (mem_cons_of_mem _)

theorem Current.select (h : Current mapEntry s) {next : Selection}
    (hsettled : next = s.shown ∨ s.actions = [] ∧ ∀ r ∈ s.requests, r.requestId ≠ none) :
    Current mapEntry (s.select next) where
  actions a ha := by
    rcases hsettled with rfl | ⟨hnone, -⟩
    · exact h.actions a ha
    · exact absurd (hnone ▸ ha) not_mem_nil
  requests := by
    refine forall_mem_cons.mpr ⟨by simp [State.select, State.refresh],
      fun r hr => ⟨fun hnone => ?_, fun n hn => ?_⟩⟩
    · rcases hsettled with rfl | ⟨-, hnumbered⟩
      · exact (h.requests r hr).1 hnone
      · exact absurd hnone (hnumbered r hr)
    · -- the new number has not been given before
      have hle := ((h.requests r hr).2 n hn).1
      refine ⟨Nat.le_succ_of_le hle, fun hnew => ?_⟩
      exact absurd (hnew ▸ hle) (Nat.not_succ_le_self _)
  answered := .inl mem_cons_self

open State

theorem Current.responded (h : Current mapEntry s) {request : Request}
    (hrequest : request ∈ s.requests) (answer : Option (List Raw)) :
    Current mapEntry ({ s with requests := s.requests.erase request }.receive mapEntry
      request answer) := by
  have hrest := fun r hr => h.requests r (mem_of_mem_erase (b := request) hr)
  rw [receive]
  split_ifs with hcurrent
  · have hsame : request.selection = s.shown := by
      cases hid : request.requestId with
      | none => exact (h.requests request hrequest).1 hid
      | some n =>
        exact ((h.requests request hrequest).2 n hid).2 (by simpa [hid] using hcurrent)
    exact ⟨h.actions, hrest, .inr ⟨answer, by rw [hsame], rfl⟩⟩
  · refine ⟨h.actions, hrest,
      h.answered.imp_left fun hin => (mem_erase_of_ne ?_).mpr hin⟩
    intro hsame
    simp [← hsame] at hcurrent

theorem Current.step {e : Event Raw} (h : Current mapEntry s)
    (hsettled : settled s e = true) (hstep : View.step mapEntry s e = some s') : Current mapEntry s' := by
  cases e with
  | select next =>
    cases hstep
    apply h.select
    simpa [settled, Option.isSome_iff_ne_none] using hsettled
  | entryChanged projectId date =>
    rw [View.step] at hstep
    split_ifs at hstep <;> cases hstep
    · exact h.refresh
    · exact h
  | addEntry rawText =>
    rw [View.step] at hstep
    split_ifs at hstep <;> cases hstep
    · exact h
    · exact ⟨forall_mem_cons.mpr ⟨rfl, h.actions⟩, h.requests, h.answered⟩
  | restoreEntry =>
    cases hstep
    exact ⟨forall_mem_cons.mpr ⟨rfl, h.actions⟩, h.requests, h.answered⟩
  | acted selection ok =>
    rw [View.step] at hstep
    split at hstep
    next hin =>
      have hdone : Current mapEntry { s with actions := s.actions.erase selection } :=
        ⟨fun a ha => h.actions a (mem_of_mem_erase ha), h.requests, h.answered⟩
      obtain rfl := h.actions selection hin
      cases ok <;> cases hstep
      · exact hdone
      · exact hdone.refresh
    next => cases hstep
  | responded request answer =>
    rw [View.step] at hstep
    split_ifs at hstep with hin
    cases hstep
    exact h.responded hin answer

def day (date : String) : Selection := ⟨"@notes", date⟩

/-- The second day is selected once the first one is shown. -/
def settledRun : List (Event String) :=
  [.responded ⟨day "1", some 1⟩ (some ["a"]), .select (day "2"),
    .responded ⟨day "2", some 2⟩ (some ["b"])]

end Yanta.Journal.View
