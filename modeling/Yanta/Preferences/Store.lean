import Mathlib.Data.Option.Basic
import Yanta.Support.Runs

/-!
# Saving preferences

`saveOverrides` merges its changes into the overrides it finds in the store, hands the
result to the backend and puts it in the store when the backend has answered. The
backend replaces what it has. All calls of the backend succeed here.
-/

namespace Yanta.Preferences

open Support List

inductive Timeout
  | autoSaveDebounceMs | tooltipHoverDelay | tooltipFocusDelay
  | scrollDebounceMs | searchDebounceMs | savePersistenceDebounceMs
deriving DecidableEq

inductive Group
  | global | sidebar | document | dashboard | journal | projects
  | quickCapture | settings | commandLine | search | pane
deriving DecidableEq

inductive Key
  | timeouts (name : Timeout)
  | shortcuts (group : Group) (name : String)
  | maxPanes | linuxMode | theme
  | fontSize | fontFamily | lineWidth | spellcheck | launchAtStartup
  | plugins (pluginId name : String)
deriving DecidableEq

/-- The values; one of a plugin may be anything and is given by its JSON text. -/
inductive Value
  | num (n : Int)
  | text (s : String)
  | flag (b : Bool)
  | json (s : String)

def Overrides := Key → Option Value

/-- `validatePreferencesOverrides` leaves the value of a timeout. -/
def Timeout.isValid : Timeout → Int → Bool
  | .autoSaveDebounceMs, n => 100 ≤ n && n ≤ 30000
  | .tooltipHoverDelay, n | .tooltipFocusDelay, n => 0 ≤ n && n ≤ 30000
  | _, _ => true

/-- `preferencesToModel` and `setPreferencesOverrides` send the value and
`validatePreferencesOverrides` leaves it. -/
def isKept : Key → Value → Bool
  | .timeouts name, .num n => n ≠ 0 && name.isValid n
  | .maxPanes, .num n => 2 ≤ n && n ≤ 8
  | .linuxMode, .text s => s ∈ ["auto", "native", "compat", "software"]
  | .theme, .text s => s ∈ ["dark", "light", "system"]
  | .shortcuts _ _, .text _ | .plugins _ _, _ => true
  -- the model of the backend has no editor and no general section
  | _, _ => false

def IsTaken (overrides : Overrides) : Prop :=
  ∀ k v, overrides k = some v → isKept k v = true

def setPreferencesOverrides (overrides : Overrides) : Overrides :=
  fun k => (overrides k).filter (isKept k)

/-- A call that waits for the backend. -/
structure Call where
  merged : Overrides
  arrived : Bool

/-- The store is `none` until the overrides are loaded; `made` are the changes so far. -/
structure State where
  store : Option Overrides
  backend : Overrides
  calls : List Call
  made : List Overrides

def State.existing (s : State) : Overrides := s.store.getD fun _ => none

inductive Event
  | saveOverrides (newOverrides : Overrides)
  /-- The backend handles a call. -/
  | arrive (i : Nat)
  /-- The answer of the backend reaches the store. -/
  | answer (i : Nat)

def merge (existing newOverrides : Overrides) : Overrides :=
  fun k => (newOverrides k).or (existing k)

def step (s : State) : Event → Option State
  | .saveOverrides newOverrides =>
    some { s with
      calls := s.calls ++ [⟨merge s.existing newOverrides, false⟩]
      made := newOverrides :: s.made }
  | .arrive i => do
    let call ← s.calls[i]?
    guard !call.arrived
    some { s with
      backend := setPreferencesOverrides call.merged
      calls := s.calls.set i { call with arrived := true } }
  | .answer i => do
    let call ← s.calls[i]?
    guard call.arrived
    some { s with store := some call.merged, calls := s.calls.eraseIdx i }

def Holds (overrides : Overrides) (made : List Overrides) : Prop :=
  ∀ changes ∈ made, ∀ k v, changes k = some v → overrides k = some v

/-- The keys of a call were not changed before. -/
def ChangesOthers (made : List Overrides) (new : Overrides) : Prop :=
  ∀ changes ∈ made, ∀ k v, changes k = some v → new k = none

theorem Holds.merge {existing new : Overrides} {made : List Overrides}
    (h : Holds existing made) (hothers : ChangesOthers made new) :
    Holds (merge existing new) (new :: made) := by
  refine forall_mem_cons.mpr ⟨fun k v hv => ?_, fun changes hin k v hv => ?_⟩
  · simp only [Preferences.merge, hv, Option.some_or]
  · simp only [Preferences.merge, hothers changes hin k v hv, Option.none_or]
    exact h changes hin k v hv

/-- When all calls have completed, the store and the backend hold every change. -/
def KeepsChanges (s : State) : Prop :=
  s.calls = [] → Holds s.existing s.made ∧ Holds s.backend s.made

/-- A call is made when no other one waits, for other keys than before and with values
that the backend takes. -/
def Alone (s : State) : Event → Prop
  | .saveOverrides new => s.calls = [] ∧ ChangesOthers s.made new ∧ IsTaken new
  | _ => True

/-- At most one call waits, and it carries all changes. -/
structure Serial (s : State) : Prop where
  taken : ∀ changes ∈ s.made, IsTaken changes
  held : KeepsChanges s
  waiting : s.calls = [] ∨ ∃ call, s.calls = [call] ∧ Holds call.merged s.made ∧
    (call.arrived = true → s.backend = setPreferencesOverrides call.merged)

/-- The call that is picked is the one that waits. -/
theorem Serial.picked {s : State} (h : Serial s) {i : Nat} {call : Call}
    (hcall : s.calls[i]? = some call) :
    i = 0 ∧ s.calls = [call] ∧ Holds call.merged s.made ∧
      (call.arrived = true → s.backend = setPreferencesOverrides call.merged) := by
  rcases h.waiting with hnil | ⟨c, hlist, hwait⟩
  · simp [hnil] at hcall
  · obtain ⟨rfl, rfl⟩ : i = 0 ∧ c = call := by
      simpa [hlist, getElem?_singleton] using hcall
    exact ⟨rfl, hlist, hwait⟩

theorem Serial.step {s s' : State} {e : Event} (h : Serial s)
    (halone : Alone s e) (hstep : Preferences.step s e = some s') : Serial s' := by
  cases e with
  | saveOverrides new =>
    cases hstep
    obtain ⟨hnone, hothers, htaken⟩ := halone
    refine ⟨forall_mem_cons.mpr ⟨htaken, h.taken⟩, fun hcalls => ?_,
      .inr ⟨⟨merge s.existing new, false⟩, ?_, ?_, ?_⟩⟩
    · simp at hcalls
    · rw [hnone, nil_append]
    · exact (h.held hnone).1.merge hothers
    · simp
  | arrive i =>
    obtain ⟨call, hcall, hguard⟩ := Option.bind_eq_some_iff.mp hstep
    obtain ⟨-, -, hs'⟩ := Option.bind_eq_some_iff.mp hguard
    cases hs'
    obtain ⟨rfl, hlist, hmerged, -⟩ := h.picked hcall
    refine ⟨h.taken, fun hcalls => ?_,
      .inr ⟨⟨call.merged, true⟩, ?_, hmerged, fun _ => rfl⟩⟩
    · simp [hlist] at hcalls
    · rw [hlist, set_cons_zero]
  | answer i =>
    obtain ⟨call, hcall, hguard⟩ := Option.bind_eq_some_iff.mp hstep
    obtain ⟨_, harrived, hs'⟩ := Option.bind_eq_some_iff.mp hguard
    cases hs'
    obtain ⟨rfl, hlist, hmerged, hbackend⟩ := h.picked hcall
    refine ⟨h.taken, fun _ => ⟨hmerged, fun changes hin k v hv => ?_⟩, .inl ?_⟩
    · rw [hbackend ((Option.guard_eq_some' _).mp harrived), setPreferencesOverrides,
        hmerged changes hin k v hv]
      exact Option.filter_some_pos (h.taken changes hin k v hv)
    · rw [hlist, eraseIdx_cons_zero]

def change (k : Key) (v : Value) : Overrides := fun k' => if k' = k then some v else none

def unset : Overrides := fun _ => none

def dark : Overrides := change .theme (.text "dark")

end Yanta.Preferences
