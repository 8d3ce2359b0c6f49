import Mathlib.Data.List.Rotate

/-!
# Turning a queue

A queue that entries join one after the other, and that is turned by one between them: its
first entry goes behind the last. The entries are in the order in which they joined at the
end exactly when the queue of each size was turned a whole number of times.
-/

namespace Yanta.Turning

open List Nat

variable {α : Type}

/-- Entries join a queue in order; each gap turns the queue by one. -/
def turned : List α → List (Option α) → List α
  | queue, [] => queue
  | queue, none :: word => turned (queue.rotate 1) word
  | queue, some a :: word => turned (queue ++ [a]) word

/-- The entries of a word. -/
def joined (word : List (Option α)) : List α := word.filterMap id

/-- The number of gaps that come when `n` entries have joined. -/
def gapsAt (n : Nat) : Nat → List (Option α) → Nat
  | _, [] => 0
  | seen, none :: word => (if seen = n then 1 else 0) + gapsAt n seen word
  | seen, some _ :: word => gapsAt n (seen + 1) word

/-- Every queue of the word is turned a whole number of times; the queue at hand has `size`
entries and was turned `turns` times. -/
def wholeTurns : Nat → Nat → List (Option α) → Prop
  | turns, size, [] => size = 0 ∨ size ∣ turns
  | turns, size, none :: word => wholeTurns (turns + 1) size word
  | turns, size, some _ :: word => (size = 0 ∨ size ∣ turns) ∧ wholeTurns 0 (size + 1) word

@[simp] theorem joined_none (word : List (Option α)) :
    joined (none :: word) = joined word := rfl

@[simp] theorem joined_some (a : α) (word : List (Option α)) :
    joined (some a :: word) = a :: joined word := rfl

theorem gapsAt_of_lt {n seen : Nat} (word : List (Option α)) (h : n < seen) :
    gapsAt n seen word = 0 := by
  induction word generalizing seen with
  | nil => rfl
  | cons mark word ih =>
    cases mark with
    | none => rw [gapsAt, ih h, if_neg (by omega)]
    | some a => rw [gapsAt, ih (by omega)]

theorem wholeTurns_iff (turns size : Nat) (word : List (Option α)) :
    wholeTurns turns size word ↔
      (size = 0 ∨ size ∣ turns + gapsAt size size word) ∧
        ∀ n, size < n → n ∣ gapsAt n size word := by
  induction word generalizing turns size with
  | nil => simp [wholeTurns, gapsAt]
  | cons mark word ih =>
    cases mark with
    | none =>
      have hlater : ∀ n, size < n → gapsAt n size (none :: word) = gapsAt n size word := by
        intro n hn
        rw [gapsAt, if_neg (by omega), Nat.zero_add]
      have hnow : turns + gapsAt size size (none :: word) =
          turns + 1 + gapsAt size size word := by
        rw [gapsAt, if_pos rfl]
        omega
      rw [wholeTurns, ih, hnow]
      refine and_congr_right fun _ => forall₂_congr fun n hn => ?_
      rw [hlater n hn]
    | some a =>
      have hnow : gapsAt size size (some a :: word) = 0 :=
        gapsAt_of_lt word (lt_succ_self size)
      rw [wholeTurns, ih, hnow, Nat.zero_add]
      refine and_congr_right fun _ => ?_
      simp only [Nat.add_one_ne_zero, false_or]
      constructor
      · rintro ⟨hnext, hrest⟩ n hn
        rcases lt_or_eq_of_le (succ_le_of_lt hn) with h | h
        · exact hrest n h
        · exact h ▸ hnext
      · intro h
        exact ⟨h _ (lt_succ_self size), fun n hn => h n (by omega)⟩

variable {queue : List α} {turns : Nat}

theorem turned_of_wholeTurns {word : List (Option α)}
    (h : wholeTurns turns queue.length word) :
    turned (queue.rotate turns) word = queue ++ joined word := by
  have hsame : ∀ {queue : List α} {turns : Nat},
      queue.length = 0 ∨ queue.length ∣ turns → queue.rotate turns = queue := by
    rintro queue turns (hzero | ⟨k, rfl⟩)
    · rw [length_eq_zero_iff.mp hzero, rotate_nil]
    · exact rotate_length_mul queue k
  induction word generalizing queue turns with
  | nil => simpa [turned, joined] using hsame h
  | cons mark word ih =>
    cases mark with
    | none =>
      rw [turned, rotate_rotate, ih h, joined_none]
    | some a =>
      obtain ⟨hnow, hrest⟩ := h
      have hnext : turned ((queue ++ [a]).rotate 0) word =
          queue ++ [a] ++ joined word := by
        apply ih
        rwa [length_append]
      rw [rotate_zero] at hnext
      rw [turned, hsame hnow, hnext, joined_some, append_assoc, singleton_append]

/-- A turned queue without repetitions that ends with its last entry was turned a whole
number of times. -/
theorem dvd_of_rotate_last {a : α} {rest : List α} (hnodup : (queue ++ [a]).Nodup)
    (h : (queue ++ [a]).rotate turns = rest ++ [a]) :
    (queue ++ [a]).length ∣ turns := by
  have hlength : rest.length = queue.length := by
    have := congrArg List.length h
    simpa using this.symm
  have hlast : ((queue ++ [a]).rotate turns)[queue.length]? = some a := by
    rw [h, ← hlength, List.getElem?_concat_length]
  have hlt : queue.length < (queue ++ [a]).length := by simp
  rw [List.getElem?_rotate hlt] at hlast
  have hself : (queue ++ [a])[queue.length]? = some a := List.getElem?_concat_length
  have hindex : queue.length = (queue.length + turns) % (queue ++ [a]).length :=
    (List.getElem?_inj hlt hnodup).mp (hself.trans hlast.symm)
  have hdiv := div_add_mod (queue.length + turns) (queue ++ [a]).length
  refine ⟨(queue.length + turns) / (queue ++ [a]).length, ?_⟩
  omega

theorem wholeTurns_of_turned {rest : List α} {a : α} {word : List (Option α)}
    (hnodup : (queue ++ [a] ++ joined word).Nodup)
    (h : turned ((queue ++ [a]).rotate turns) word = rest ++ [a] ++ joined word) :
    queue = rest ∧ wholeTurns turns (queue ++ [a]).length word := by
  -- The last entry to join stays last through all later turns, so they are whole ones.
  have hdone : ∀ {queue rest : List α} {a : α} {turns : Nat}, (queue ++ [a]).Nodup →
      (queue ++ [a]).rotate turns = rest ++ [a] →
        queue = rest ∧ (queue ++ [a]).length ∣ turns := by
    intro queue rest a turns hnodup h
    have hdvd := dvd_of_rotate_last hnodup h
    obtain ⟨k, hk⟩ := hdvd
    rw [hk, rotate_length_mul] at h
    exact ⟨append_cancel_right h, k, hk⟩
  induction word generalizing queue rest a turns with
  | nil =>
    have hnow := hdone (by simpa [joined] using hnodup) (by simpa [turned, joined] using h)
    exact ⟨hnow.1, Or.inr hnow.2⟩
  | cons mark word ih =>
    cases mark with
    | none =>
      rw [turned, rotate_rotate] at h
      exact ih hnodup h
    | some b =>
      rw [turned, ← rotate_zero ((queue ++ [a]).rotate turns ++ [b])] at h
      have hperm : ((queue ++ [a]).rotate turns ++ [b] ++ joined word).Perm
          (queue ++ [a] ++ joined (some b :: word)) := by
        rw [append_assoc]
        exact (rotate_perm _ _).append_right _
      have hend : rest ++ [a] ++ joined (some b :: word) =
          rest ++ [a] ++ [b] ++ joined word := by simp
      have hnext := ih (hperm.nodup_iff.mpr hnodup) (h.trans hend)
      have hfirst : (queue ++ [a]).Nodup := hnodup.of_append_left
      have hnow := hdone hfirst hnext.1
      refine ⟨hnow.1, Or.inr hnow.2, ?_⟩
      have hlength : ((queue ++ [a]).rotate turns ++ [b]).length =
          (queue ++ [a]).length + 1 := by simp
      rw [← hlength]
      exact hnext.2

/-- A queue ends in the order in which its entries joined if and only if, for each number of
entries, the gaps met by so many entries are a multiple of it. -/
theorem turned_eq_iff {word : List (Option α)} (hnodup : (joined word).Nodup) :
    turned [] word = joined word ↔ ∀ n, 0 < n → n ∣ gapsAt n 0 word := by
  have hwhole : wholeTurns 0 0 word ↔ ∀ n, 0 < n → n ∣ gapsAt n 0 word := by
    rw [wholeTurns_iff]
    simp
  rw [← hwhole]
  constructor
  · intro h
    clear hwhole
    induction word with
    | nil => exact Or.inl rfl
    | cons mark word ih =>
      cases mark with
      | none =>
        have hempty := ih hnodup (by simpa [turned] using h)
        rw [wholeTurns_iff] at hempty
        rw [wholeTurns, wholeTurns_iff]
        exact ⟨Or.inl rfl, hempty.2⟩
      | some a =>
        refine ⟨Or.inl rfl, ?_⟩
        have hstart : turned (([] ++ [a]).rotate 0) word = [] ++ [a] ++ joined word := by
          simpa [turned] using h
        exact (wholeTurns_of_turned (by simpa using hnodup) hstart).2
  · intro h
    have hback : turned (([] : List α).rotate 0) word = [] ++ joined word :=
      turned_of_wholeTurns h
    simpa using hback

end Yanta.Turning
