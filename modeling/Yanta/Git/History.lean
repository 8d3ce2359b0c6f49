import Mathlib.Data.List.Basic

/-!
# Histories of the pending list

What goroutines did to the list of pending changes, in order: the reasons that were
recorded, the snapshots and ends of cycles, what they staged and settled, and how many
reasons they removed.
-/

namespace Yanta.Git

open List

abbrev ThreadId := Nat

/-- A cycle is settled by a clean tree, by a commit, or by a commit that finds
nothing. -/
inductive Entry where
  | recorded (reason : String)
  | snapshot (t : ThreadId)
  | staged (t : ThreadId)
  | settled (t : ThreadId)
  | removed (t : ThreadId) (n : Nat)
  | ended (t : ThreadId)
deriving DecidableEq, Repr

abbrev History := List Entry

def Entry.reason? : Entry → Option String
  | .recorded reason => some reason
  | _ => none

def Entry.count : Entry → Nat
  | .removed _ n => n
  | _ => 0

/-- The reasons recorded in a history, in order. -/
def recordedIn (log : History) : List String := log.filterMap Entry.reason?

/-- The number of reasons removed in a history. -/
def removedIn : History → Nat
  | [] => 0
  | e :: log => e.count + removedIn log

/-- What is pending after a history: the reasons go from the front. -/
def pendingAfter (log : History) : List String := (recordedIn log).drop (removedIn log)

@[simp] theorem recordedIn_append (log log' : History) :
    recordedIn (log ++ log') = recordedIn log ++ recordedIn log' :=
  filterMap_append

@[simp] theorem recordedIn_cons (e : Entry) (log : History) :
    recordedIn (e :: log) = e.reason?.toList ++ recordedIn log := by
  cases h : e.reason? <;> simp [recordedIn, h]

@[simp] theorem recordedIn_nil : recordedIn [] = [] := rfl

@[simp] theorem removedIn_nil : removedIn [] = 0 := rfl

@[simp] theorem removedIn_cons (e : Entry) (log : History) :
    removedIn (e :: log) = e.count + removedIn log := rfl

@[simp] theorem removedIn_append (log log' : History) :
    removedIn (log ++ log') = removedIn log + removedIn log' := by
  induction log with
  | nil => simp
  | cons e log ih => rw [cons_append, removedIn_cons, removedIn_cons, ih, Nat.add_assoc]

/-- Each removal is of reasons that were recorded before the same cycle staged and
settled. -/
def RemovalsSettled (log : History) : Prop :=
  ∀ pre t n post, log = pre ++ .removed t n :: post →
    ∃ a b c, pre = a ++ .staged t :: (b ++ .settled t :: c) ∧
      .ended t ∉ b ∧ .ended t ∉ c ∧ removedIn pre + n ≤ (recordedIn a).length

/-- What was recorded between a cycle's snapshot and its end is pending at its end. -/
def LateKept (log : History) : Prop :=
  ∀ pre t mid post, log = pre ++ .snapshot t :: (mid ++ .ended t :: post) →
    .ended t ∉ mid → recordedIn mid <:+ pendingAfter (pre ++ .snapshot t :: mid)

/-- Where an item of a list that grew by one stands. -/
theorem append_singleton_eq_append_cons {α : Type} {xs pre post : List α} {x y : α} :
    xs ++ [x] = pre ++ y :: post ↔
      post = [] ∧ xs = pre ∧ x = y ∨ ∃ post', post = post' ++ [x] ∧ xs = pre ++ y :: post' := by
  constructor
  · intro h
    rcases eq_nil_or_concat' post with rfl | ⟨post', z, rfl⟩
    · exact .inl ⟨rfl, by simpa using append_inj' h rfl⟩
    · have h' : xs ++ [x] = (pre ++ y :: post') ++ [z] := by simpa using h
      obtain ⟨hxs, hz⟩ := append_inj' h' rfl
      obtain rfl : x = z := by simpa using hz
      exact .inr ⟨post', rfl, hxs⟩
  · rintro (⟨rfl, rfl, rfl⟩ | ⟨post', rfl, rfl⟩)
    · rfl
    · simp

/-- The history has a place where thread `t` staged and then settled `n` reasons that
were recorded before. -/
def SettledAt (t : ThreadId) (n : Nat) (log : History) : Prop :=
  ∃ a b c, log = a ++ .staged t :: (b ++ .settled t :: c) ∧
    .ended t ∉ b ∧ .ended t ∉ c ∧ removedIn log + n ≤ (recordedIn a).length

theorem RemovalsSettled.append {log : History} {e : Entry} (h : RemovalsSettled log)
    (he : ∀ t n, e = .removed t n → SettledAt t n log) : RemovalsSettled (log ++ [e]) := by
  intro pre t n post hlog
  rcases append_singleton_eq_append_cons.mp hlog with ⟨-, rfl, rfl⟩ | ⟨post', -, hold⟩
  · exact he t n rfl
  · exact h pre t n post' hold

/-- Thread `t` has taken a snapshot and not ended its cycle since. -/
def OpenAt (t : ThreadId) (log pre mid : History) : Prop :=
  log = pre ++ .snapshot t :: mid ∧ .ended t ∉ mid

theorem openAt_append {t : ThreadId} {log pre mid : History} {e : Entry}
    (h : OpenAt t (log ++ [e]) pre mid) :
    log = pre ∧ e = .snapshot t ∨ ∃ mid', OpenAt t log pre mid' ∧ e ≠ .ended t := by
  obtain ⟨hlog, hend⟩ := h
  rcases append_singleton_eq_append_cons.mp hlog with ⟨-, hpre, he⟩ | ⟨mid', rfl, hold⟩
  · exact .inl ⟨hpre, he⟩
  · refine .inr ⟨mid', ⟨hold, fun hmem => hend (mem_append_left _ hmem)⟩, ?_⟩
    rintro rfl
    exact hend (by simp)

theorem LateKept.append {log : History} {e : Entry} (h : LateKept log)
    (he : ∀ t pre mid, e = .ended t → OpenAt t log pre mid →
      removedIn log ≤ (recordedIn pre).length) : LateKept (log ++ [e]) := by
  intro pre t mid post hlog hend
  have hlog' : log ++ [e] = (pre ++ .snapshot t :: mid) ++ .ended t :: post := by
    simpa using hlog
  rcases append_singleton_eq_append_cons.mp hlog' with ⟨-, rfl, rfl⟩ | ⟨post', -, hold⟩
  · have hle := he t pre mid rfl ⟨rfl, hend⟩
    have hrecorded : recordedIn (pre ++ .snapshot t :: mid) =
        recordedIn pre ++ recordedIn mid := by
      simp [Entry.reason?]
    rw [pendingAfter, hrecorded, drop_append_of_le_length hle]
    exact suffix_append _ _
  · exact h pre t mid post' (by simpa using hold) hend

end Yanta.Git
