import Mathlib.Order.Lattice

/-!
# The nearest smaller entry before

A sequence of entries, some of which are barriers. The entries that are still open are
kept on a stack: a new one closes those that are not smaller, and a barrier closes all.
The top of the stack is the nearest smaller entry with no barrier after it.
-/

namespace Yanta.Support

open List Nat

variable {α : Type*} [LinearOrder α]

/-! ## The stack -/

/-- The open entries with their positions, the last one first; so are the entries. -/
def openEntries : List (Option α) → List (Nat × α)
  | [] => []
  | none :: _ => []
  | some a :: before =>
    (before.length, a) :: (openEntries before).dropWhile fun e => decide (a ≤ e.2)

/-- The position of the nearest entry below `a`, going back to a barrier at most. -/
def nearest (a : α) : List (Option α) → Option Nat
  | [] => none
  | none :: _ => none
  | some b :: before => if b < a then some before.length else nearest a before

/-- Closing for a larger entry first makes no difference. -/
theorem dropWhile_dropWhile_of_le {a b : α} (h : a ≤ b) (stack : List (Nat × α)) :
    (stack.dropWhile fun e => decide (b ≤ e.2)).dropWhile (fun e => decide (a ≤ e.2)) =
      stack.dropWhile fun e => decide (a ≤ e.2) := by
  induction stack with
  | nil => rfl
  | cons e stack ih =>
    by_cases hb : b ≤ e.2
    · have ha : a ≤ e.2 := le_trans h hb
      rw [dropWhile_cons_of_pos (by simpa using hb),
        dropWhile_cons_of_pos (by simpa using ha), ih]
    · rw [dropWhile_cons_of_neg (by simpa using hb)]

/-- The top of the stack, after closing, is the nearest smaller entry. -/
theorem head?_openEntries (a : α) (before : List (Option α)) :
    ((openEntries before).dropWhile fun e => decide (a ≤ e.2)).head?.map Prod.fst =
      nearest a before := by
  induction before with
  | nil => rfl
  | cons entry before ih =>
    cases entry with
    | none => rfl
    | some b =>
      rw [openEntries, nearest]
      by_cases hlt : b < a
      · rw [dropWhile_cons_of_neg (by simpa using hlt), if_pos hlt]
        rfl
      · have hle : a ≤ b := not_lt.mp hlt
        rw [dropWhile_cons_of_pos (by simpa using hle), if_neg hlt,
          dropWhile_dropWhile_of_le hle, ih]

/-! ## What it stands for -/

/-- Entry `j` is the nearest one before `k` that is smaller, and no barrier stands
between them. -/
def IsNearest (entries : List (Option α)) (j k : Nat) : Prop :=
  ∃ b a, entries[j]? = some (some b) ∧ entries[k]? = some (some a) ∧ j < k ∧ b < a ∧
    ∀ i, j < i → i < k → ∃ c, entries[i]? = some (some c) ∧ a ≤ c

/-- Entry `j` is the last one below `n` that is smaller than `a`, and no barrier stands
behind it. -/
def IsLastBelow (entries : List (Option α)) (a : α) (n j : Nat) : Prop :=
  ∃ b, entries[j]? = some (some b) ∧ j < n ∧ b < a ∧
    ∀ i, j < i → i < n → ∃ c, entries[i]? = some (some c) ∧ a ≤ c

theorem isNearest_iff {entries : List (Option α)} {j k : Nat} :
    IsNearest entries j k ↔
      ∃ a, entries[k]? = some (some a) ∧ IsLastBelow entries a k j := by
  constructor
  · rintro ⟨b, a, hb, ha, h⟩
    exact ⟨a, ha, b, hb, h⟩
  · rintro ⟨a, ha, b, hb, h⟩
    exact ⟨b, a, hb, ha, h⟩

section

variable {l : List (Option α)} {a : α} {n j : Nat}

/-- Only the entries below `n` count. -/
theorem IsLastBelow.congr {l' : List (Option α)} (h : IsLastBelow l a n j)
    (hsame : ∀ i < n, l[i]? = l'[i]?) : IsLastBelow l' a n j := by
  obtain ⟨b, hb, hj, hba, hbetween⟩ := h
  refine ⟨b, hsame j hj ▸ hb, hj, hba, fun i hi hi' => ?_⟩
  rw [← hsame i hi']
  exact hbetween i hi hi'

theorem isLastBelow_append (more : List (Option α)) (hn : n ≤ l.length) :
    IsLastBelow (l ++ more) a n j ↔ IsLastBelow l a n j := by
  have hsame : ∀ i < n, (l ++ more)[i]? = l[i]? :=
    fun i hi => List.getElem?_append_left (by omega)
  exact ⟨fun h => h.congr hsame, fun h => h.congr fun i hi => (hsame i hi).symm⟩

/-- One more entry is the last one, or it is no barrier and larger. -/
theorem isLastBelow_concat (entry : Option α) :
    IsLastBelow (l ++ [entry]) a (l.length + 1) j ↔
      ∃ c, entry = some c ∧
        (c < a ∧ j = l.length ∨ a ≤ c ∧ IsLastBelow l a l.length j) := by
  have hlast : (l ++ [entry])[l.length]? = some entry := by simp
  constructor
  · rintro ⟨b, hb, hj, hba, hbetween⟩
    rcases Nat.lt_succ_iff_lt_or_eq.mp hj with hlt | rfl
    · obtain ⟨c, hc, hac⟩ := hbetween l.length hlt (Nat.lt_succ_self _)
      refine ⟨c, Option.some.inj (hlast.symm.trans hc), .inr ⟨hac, ?_⟩⟩
      exact (isLastBelow_append [entry] (le_refl _)).mp
        ⟨b, hb, hlt, hba, fun i hi hi' => hbetween i hi (lt_succ_of_lt hi')⟩
    · exact ⟨b, Option.some.inj (hlast.symm.trans hb), .inl ⟨hba, rfl⟩⟩
  · rintro ⟨c, rfl, ⟨hca, rfl⟩ | ⟨hac, h⟩⟩
    · exact ⟨c, hlast, lt_succ_self _, hca, fun i hi hi' => by omega⟩
    · obtain ⟨b, hb, hj, hba, hbetween⟩ := (isLastBelow_append [some c] (le_refl _)).mpr h
      refine ⟨b, hb, lt_succ_of_lt hj, hba, fun i hi hi' => ?_⟩
      rcases Nat.lt_succ_iff_lt_or_eq.mp hi' with hlt | rfl
      · exact hbetween i hi hlt
      · exact ⟨c, hlast, hac⟩

theorem nearest_eq_some_iff {before : List (Option α)} :
    nearest a before = some j ↔ IsLastBelow before.reverse a before.length j := by
  induction before with
  | nil => simp [nearest, IsLastBelow]
  | cons entry before ih =>
    have hconcat := isLastBelow_concat (l := before.reverse) (a := a) (j := j) entry
    rw [length_reverse] at hconcat
    rw [reverse_cons, length_cons, hconcat]
    cases entry with
    | none => simp [nearest]
    | some c =>
      rw [nearest]
      by_cases hlt : c < a
      · simp [hlt, eq_comm]
      · simp [hlt, not_lt.mp hlt, ih]

theorem isNearest_concat_of_lt {entry : Option α} (hn : n < l.length) :
    IsNearest (l ++ [entry]) j n ↔ IsNearest l j n := by
  simp only [isNearest_iff, List.getElem?_append_left hn, isLastBelow_append [entry] (le_of_lt hn)]

theorem isNearest_concat_last {before : List (Option α)} :
    IsNearest (before.reverse ++ [some a]) j before.length ↔ nearest a before = some j := by
  have hlength : before.length ≤ before.reverse.length := by simp
  rw [isNearest_iff, nearest_eq_some_iff]
  simp [isLastBelow_append [some a] hlength]

end

/-- For each entry the nearest smaller one before it, the last entry first. -/
def nearestAll : List (Option α) → List (Option Nat)
  | [] => []
  | none :: before => none :: nearestAll before
  | some a :: before => nearest a before :: nearestAll before

@[simp] theorem length_nearestAll (before : List (Option α)) :
    (nearestAll before).length = before.length := by
  induction before with
  | nil => rfl
  | cons entry before ih =>
    cases entry with
    | none | some => rw [nearestAll, length_cons, length_cons, ih]

/-- The positions found on the stack are the nearest smaller entries. -/
theorem nearestAll_iff (before : List (Option α)) (j k : Nat) :
    (nearestAll before).reverse[k]? = some (some j) ↔ IsNearest before.reverse j k := by
  induction before with
  | nil => simp [IsNearest]
  | cons entry before ih =>
    have hstep : ∃ found, nearestAll (entry :: before) = found :: nearestAll before ∧
        (found = some j ↔ IsNearest (before.reverse ++ [entry]) j before.length) := by
      cases entry with
      | none =>
        refine ⟨none, rfl, ?_⟩
        simp [IsNearest]
      | some a => exact ⟨nearest a before, rfl, isNearest_concat_last.symm⟩
    obtain ⟨found, hall, hfound⟩ := hstep
    rw [hall, reverse_cons, reverse_cons]
    rcases lt_trichotomy k before.length with hlt | rfl | hgt
    · rw [List.getElem?_append_left (by simpa using hlt), ih,
        isNearest_concat_of_lt (by simpa using hlt)]
    · rw [← hfound]
      simp
    · have hnone : ((nearestAll before).reverse ++ [found])[k]? = none := by
        simpa using succ_le_of_lt hgt
      rw [hnone]
      simp only [reduceCtorEq, false_iff]
      rintro ⟨b, a, -, ha, -⟩
      have := (List.getElem?_eq_some_iff.mp ha).1
      simp only [length_append, length_reverse, length_cons, length_nil] at this
      omega

end Yanta.Support
