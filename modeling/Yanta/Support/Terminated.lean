import Mathlib.Tactic.Common

/-!
# Sequences of terminated pieces

A list of pieces is written to a stream by putting a separator after each of
them. The stream determines the pieces as long as no piece contains the
separator; a piece that does contain it is read back as several.
-/

namespace Yanta.Support

open List

variable {α : Type*}

/-- The stream of a list of pieces, each followed by the separator. -/
def terminated (sep : α) (pieces : List (List α)) : List α :=
  pieces.flatMap fun piece => piece ++ [sep]

@[simp] theorem terminated_nil (sep : α) : terminated sep [] = [] := rfl

@[simp] theorem terminated_cons (sep : α) (piece : List α) (pieces : List (List α)) :
    terminated sep (piece :: pieces) = piece ++ sep :: terminated sep pieces := by
  simp [terminated]

@[simp] theorem terminated_append (sep : α) (xs ys : List (List α)) :
    terminated sep (xs ++ ys) = terminated sep xs ++ terminated sep ys := by
  simp [terminated]

/-- A joined sequence of pieces is a stream of terminated ones up to the last piece. -/
theorem intercalate_concat (sep : α) (pieces : List (List α)) (last : List α) :
    [sep].intercalate (pieces ++ [last]) = terminated sep pieces ++ last := by
  induction pieces with
  | nil => simp
  | cons piece pieces ih =>
    rw [cons_append, intercalate_cons_of_ne_nil (by simp), ih]
    simp

/-- Two streams that start with a piece free of the separator start with the
same one. -/
theorem append_sep_inj
    {sep : α} {x y : List α} {xs ys : List α} (hx : sep ∉ x) (hy : sep ∉ y)
    (h : x ++ sep :: xs = y ++ sep :: ys) : x = y ∧ xs = ys := by
  induction x generalizing y with
  | nil =>
    cases y with
    | nil => simpa using h
    | cons b y =>
      obtain ⟨hb, -⟩ : sep = b ∧ xs = y ++ sep :: ys := by simpa using h
      simp [hb] at hy
  | cons a x ih =>
    cases y with
    | nil =>
      obtain ⟨ha, -⟩ : a = sep ∧ x ++ sep :: xs = ys := by simpa using h
      simp [ha] at hx
    | cons b y =>
      obtain ⟨hab, htail⟩ : a = b ∧ x ++ sep :: xs = y ++ sep :: ys := by
        simpa using h
      simp only [mem_cons, not_or] at hx hy
      obtain ⟨hxy, hrest⟩ := ih hx.2 hy.2 htail
      exact ⟨by rw [hab, hxy], hrest⟩

/-- The stream determines pieces that are free of the separator. -/
theorem terminated_inj
    {sep : α} {xs ys : List (List α)}
    (hxs : ∀ x ∈ xs, sep ∉ x) (hys : ∀ y ∈ ys, sep ∉ y) :
    terminated sep xs = terminated sep ys ↔ xs = ys := by
  refine ⟨fun h => ?_, fun h => by rw [h]⟩
  induction xs generalizing ys with
  | nil =>
    cases ys with
    | nil => rfl
    | cons y ys => simp at h
  | cons x xs ih =>
    cases ys with
    | nil => simp at h
    | cons y ys =>
      rw [terminated_cons, terminated_cons] at h
      rw [forall_mem_cons] at hxs hys
      obtain ⟨hxy, hrest⟩ := append_sep_inj hxs.1 hys.1 h
      rw [hxy, ih hxs.2 hys.2 hrest]

section

variable [DecidableEq α]

/-- Cutting at the separators gives the pieces between them. -/
theorem terminated_splitOn (sep : α) (xs : List α) :
    terminated sep (xs.splitOn sep) = xs ++ [sep] := by
  induction xs with
  | nil => simp
  | cons a xs ih =>
    rw [splitOn_cons_eq_if_modifyHead]
    split
    next ha =>
      rw [terminated_cons, ih]
      simp [beq_iff_eq.mp ha]
    next =>
      obtain ⟨piece, pieces, hsplit⟩ :=
        exists_cons_of_ne_nil (splitOn_ne_nil sep xs)
      rw [hsplit] at ih ⊢
      rw [terminated_cons] at ih
      rw [modifyHead_cons, terminated_cons, cons_append, ih]
      rfl

theorem notMem_of_mem_splitOn {sep : α} {xs piece : List α}
    (h : piece ∈ xs.splitOn sep) : sep ∉ piece := by
  induction xs generalizing piece with
  | nil =>
    rw [splitOn_nil, mem_singleton] at h
    simp [h]
  | cons a xs ih =>
    rw [splitOn_cons_eq_if_modifyHead] at h
    split at h
    next =>
      rcases mem_cons.mp h with rfl | h
      · simp
      · exact ih h
    next ha =>
      obtain ⟨head, pieces, hsplit⟩ :=
        exists_cons_of_ne_nil (splitOn_ne_nil sep xs)
      rw [hsplit, modifyHead_cons, mem_cons] at h
      have hmem : ∀ p ∈ head :: pieces, sep ∉ p := by
        intro p hp
        exact ih (hsplit ▸ hp)
      rw [forall_mem_cons] at hmem
      rcases h with rfl | h
      · have hne : ¬ sep = a := fun heq => ha (beq_iff_eq.mpr heq.symm)
        simp [hne, hmem.1]
      · exact hmem.2 piece h

/-- There is one piece more than there are separators. -/
theorem length_splitOn (sep : α) (xs : List α) :
    (xs.splitOn sep).length = xs.count sep + 1 := by
  induction xs with
  | nil => simp
  | cons a xs ih =>
    rw [splitOn_cons_eq_if_modifyHead, count_cons]
    split
    next ha => simp [ih]
    next => simp [ih]

end

end Yanta.Support
