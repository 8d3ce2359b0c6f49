import Mathlib.Data.List.Nodup

/-!
# A table and its index

A table is a list of items with a key; some of its items are live. An index holds
rows in no particular order, and mirrors the table when there is one row for each
live item. The rules say how the rows have to change when an item is added, dies,
is changed or comes back to life.
-/

namespace Yanta.Support

open List

variable {α κ ρ : Type*}

/-- What an index shows of an item. -/
structure Indexing (α κ ρ : Type*) where
  key : α → κ
  live : α → Bool
  row : α → ρ
  rowKey : ρ → κ
  rowKey_row : ∀ a, rowKey (row a) = key a

namespace Indexing

variable (ix : Indexing α κ ρ)

/-- The rows that an index of the table should have. -/
def liveRows (xs : List α) : List ρ := (xs.filter ix.live).map ix.row

/-- The keys of the table are unique, and the index has one row for each live
item. -/
structure Mirrors (xs : List α) (rows : List ρ) : Prop where
  nodup : (xs.map ix.key).Nodup
  rows_perm : rows.Perm (ix.liveRows xs)

variable [DecidableEq κ]

/-- The rows without those of a key. -/
def dropKey (k : κ) (rows : List ρ) : List ρ := rows.filter fun r => ix.rowKey r ≠ k

variable {ix}

omit [DecidableEq κ] in
theorem liveRows_cons (a : α) (xs : List α) :
    ix.liveRows (a :: xs) = ix.liveRows [a] ++ ix.liveRows xs := by
  cases h : ix.live a with
  | true | false => simp [liveRows, h]

theorem dropKey_append (k : κ) (rows rows' : List ρ) :
    ix.dropKey k (rows ++ rows') = ix.dropKey k rows ++ ix.dropKey k rows' :=
  filter_append ..

theorem dropKey_liveRows_single (a : α) : ix.dropKey (ix.key a) (ix.liveRows [a]) = [] := by
  cases h : ix.live a with
  | true => simp [liveRows, dropKey, ix.rowKey_row]
  | false => simp [liveRows, h, dropKey]

theorem dropKey_liveRows_of_notMem {k : κ} {xs : List α} (h : k ∉ xs.map ix.key) :
    ix.dropKey k (ix.liveRows xs) = ix.liveRows xs := by
  refine filter_eq_self.mpr fun r hr => ?_
  obtain ⟨a, ha, rfl⟩ := mem_map.mp hr
  have hmem : ix.key a ∈ xs.map ix.key :=
    mem_map_of_mem (mem_of_mem_filter ha)
  rw [decide_eq_true_iff, ix.rowKey_row]
  rintro rfl
  exact h hmem

/-- A change of one item drops its row and adds the one it has now. -/
theorem liveRows_modify_perm {f : α → α} {a : α} {i : Nat} {xs : List α}
    (hnodup : (xs.map ix.key).Nodup) (ha : xs[i]? = some a) :
    (ix.liveRows (xs.modify i f)).Perm
      (ix.dropKey (ix.key a) (ix.liveRows xs) ++ ix.liveRows [f a]) := by
  induction xs generalizing i with
  | nil => simp at ha
  | cons x xs ih =>
    rw [map_cons, nodup_cons] at hnodup
    cases i with
    | zero =>
      have hx : x = a := by simpa using ha
      subst hx
      rw [modify_zero_cons, liveRows_cons, liveRows_cons x xs, dropKey_append,
        dropKey_liveRows_single, dropKey_liveRows_of_notMem hnodup.1]
      exact perm_append_comm
    | succ i =>
      have ha' : xs[i]? = some a := by simpa using ha
      have hne : ix.key x ≠ ix.key a := by
        intro heq
        apply hnodup.1
        rw [heq]
        exact mem_map_of_mem (mem_of_getElem? ha')
      have hkept : ix.dropKey (ix.key a) (ix.liveRows [x]) = ix.liveRows [x] := by
        apply dropKey_liveRows_of_notMem
        simpa using hne.symm
      rw [modify_succ_cons, liveRows_cons, liveRows_cons x xs, dropKey_append,
        hkept, append_assoc]
      exact (ih hnodup.2 ha').append_left _

omit [DecidableEq κ] in
/-- A change that leaves an item live, or dead, leaves the number of rows. -/
theorem length_liveRows_modify {f : α → α} {a : α} {i : Nat} {xs : List α}
    (ha : xs[i]? = some a) (hlive : ix.live (f a) = ix.live a) :
    (ix.liveRows (xs.modify i f)).length = (ix.liveRows xs).length := by
  induction xs generalizing i with
  | nil => simp at ha
  | cons x xs ih =>
    cases i with
    | zero =>
      have hx : x = a := by simpa using ha
      subst hx
      cases h : ix.live x with
      | true | false => simp [liveRows, hlive, h]
    | succ i =>
      have ha' : xs[i]? = some a := by simpa using ha
      rw [modify_succ_cons, liveRows_cons, liveRows_cons x xs,
        length_append, length_append, ih ha']

omit [DecidableEq κ] in
theorem map_key_modify {f : α → α} {a : α} {i : Nat} {xs : List α}
    (ha : xs[i]? = some a) (hkey : ix.key (f a) = ix.key a) :
    (xs.modify i f).map ix.key = xs.map ix.key := by
  induction xs generalizing i with
  | nil => simp at ha
  | cons x xs ih =>
    cases i with
    | zero =>
      have hx : x = a := by simpa using ha
      subst hx
      simp [hkey]
    | succ i =>
      have ha' : xs[i]? = some a := by simpa using ha
      simp [ih ha']

namespace Mirrors

variable {xs : List α} {rows : List ρ} {f : α → α} {a : α} {i : Nat}

section

variable (h : ix.Mirrors xs rows)

include h

omit [DecidableEq κ] in
/-- A new live item gets a row. -/
theorem snoc (hnew : ix.key a ∉ xs.map ix.key) (hlive : ix.live a = true) :
    ix.Mirrors (xs ++ [a]) (rows ++ [ix.row a]) where
  nodup := by
    rw [map_append, nodup_append]
    refine ⟨h.nodup, nodup_singleton _, ?_⟩
    intro k hk k' hk'
    rw [mem_singleton.mp hk']
    rintro rfl
    exact hnew hk
  rows_perm := by
    have hrows : ix.liveRows (xs ++ [a]) = ix.liveRows xs ++ [ix.row a] := by
      simp [liveRows, hlive]
    rw [hrows]
    exact h.rows_perm.append_right _

section

variable (ha : xs[i]? = some a) (hkey : ix.key (f a) = ix.key a)

include ha hkey

theorem modify :
    ix.Mirrors (xs.modify i f) (ix.dropKey (ix.key a) rows ++ ix.liveRows [f a]) where
  nodup := by
    rw [map_key_modify ha hkey]
    exact h.nodup
  rows_perm := by
    have hdrop := (h.rows_perm.filter fun r => ix.rowKey r ≠ ix.key a).append_right
      (ix.liveRows [f a])
    exact hdrop.trans (liveRows_modify_perm h.nodup ha).symm

/-- An item that dies loses its row. -/
theorem kill (hdead : ix.live (f a) = false) :
    ix.Mirrors (xs.modify i f) (ix.dropKey (ix.key a) rows) := by
  have hmodify := h.modify ha hkey
  simpa [liveRows, hdead] using hmodify

/-- An item that is changed, or comes back to life, has its row replaced. -/
theorem replace (hlive : ix.live (f a) = true) :
    ix.Mirrors (xs.modify i f) (ix.dropKey (ix.key a) rows ++ [ix.row (f a)]) := by
  have hmodify := h.modify ha hkey
  simpa [liveRows, hlive] using hmodify

end

omit [DecidableEq κ] in
/-- A table with as many live items as before has no use for another row. -/
theorem not_snoc {xs' : List α} {r : ρ}
    (hlength : (ix.liveRows xs').length = (ix.liveRows xs).length) :
    ¬ ix.Mirrors xs' (rows ++ [r]) := by
  intro h'
  have hold := h.rows_perm.length_eq
  have hnew := h'.rows_perm.length_eq
  rw [length_append, length_singleton] at hnew
  omega

/-- An item that is not live has no row to drop. -/
theorem dropKey_eq_self (ha : xs[i]? = some a) (hdead : ix.live a = false) :
    ix.dropKey (ix.key a) rows = rows := by
  refine filter_eq_self.mpr fun r hr => ?_
  obtain ⟨b, hb, rfl⟩ := mem_map.mp (h.rows_perm.mem_iff.mp hr)
  obtain ⟨hbmem, hblive⟩ := mem_filter.mp hb
  rw [decide_eq_true_iff, ix.rowKey_row]
  intro heq
  have hab : b = a :=
    inj_on_of_nodup_map h.nodup hbmem (mem_of_getElem? ha) heq
  rw [hab, hdead] at hblive
  cases hblive

end

end Mirrors

end Indexing

end Yanta.Support
