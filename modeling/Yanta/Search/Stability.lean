import Yanta.Search.Service
import Yanta.Support.Turning

/-!
# The order of equally ranked results

`sortResultsByRank` exchanges the result at a place with each later one that is ranked
better. An exchange carries the first result of a rank behind the others of its rank that
stand before the better one. The results of one rank are thus turned once for each better
ranked result, and keep their order only if the turns add up to whole ones.
-/

namespace Yanta.Search

open Turning List Bool

/-! ## One round of exchanges -/

/-- A comparison that orders the ranks: numbers without a value that compares with none. -/
structure RankOrder {α : Type} (less : α → α → Bool) : Prop where
  asymm : ∀ {a b}, less a b = true → less b a = false
  between : ∀ {a c} (b), less a c = true → less a b = true ∨ less b c = true

section

variable {α : Type} {less : α → α → Bool}
variable {r : α} {word : List (Option α)}

/-- Neither is ranked better. -/
def tied (less : α → α → Bool) (a b : α) : Bool := !less a b && !less b a

/-- What the exchanges see of an element when they move the elements tied with `r`: a gap is
an element that is ranked better. -/
def mark (less : α → α → Bool) (r y : α) : Option (Option α) :=
  if less y r then some none else if less r y then none else some (some y)

/-- The elements tied with `r` and the gaps among them. -/
def marks (less : α → α → Bool) (r : α) (l : List α) : List (Option α) :=
  l.filterMap (mark less r)

/-- The first gap, if there is one, is filled by the entry. -/
def fillGap (a : α) : List (Option α) → List (Option α)
  | [] => []
  | none :: word => some a :: word
  | some b :: word => some b :: fillGap a word

def hasGap (word : List (Option α)) : Bool := word.any Option.isNone

/-- The marks that a round leaves behind: the first one is taken out, and fills the first gap
if it is an entry. -/
def afterRound : List (Option α) → List (Option α)
  | [] => []
  | none :: word => word
  | some a :: word => fillGap a word

/-- The mark of the element that a round selects. -/
def selected (word : List (Option α)) : Option (Option α) :=
  if hasGap word then some none else word.head?

@[simp] theorem hasGap_none (word : List (Option α)) : hasGap (none :: word) = true := rfl

@[simp] theorem hasGap_some (a : α) (word : List (Option α)) :
    hasGap (some a :: word) = hasGap word := rfl

theorem mark_better {y : α} (h : less y r = true) : mark less r y = some none := by
  rw [mark, if_pos h]

theorem mark_tied {y : α} (h : tied less y r = true) : mark less r y = some (some y) := by
  simp only [tied, and_eq_true, not_eq_true'] at h
  simp [mark, h.1, h.2]

theorem marks_cons_better {y : α} (h : less y r = true) (ys : List α) :
    marks less r (y :: ys) = none :: marks less r ys :=
  filterMap_cons_some (mark_better h)

theorem marks_cons_tied {y : α} (h : tied less y r = true) (ys : List α) :
    marks less r (y :: ys) = some y :: marks less r ys :=
  filterMap_cons_some (mark_tied h)

variable (hless : RankOrder less)

include hless

theorem RankOrder.less_congr_left {a b c : α} (h : tied less a b = true) :
    less a c = less b c := by
  simp only [tied, Bool.and_eq_true, Bool.not_eq_true'] at h
  rw [Bool.eq_iff_iff]
  constructor
  · intro hac
    rcases hless.between b hac with hab | hbc
    · exact absurd hab (by simp [h.1])
    · exact hbc
  · intro hbc
    rcases hless.between a hbc with hba | hac
    · exact absurd hba (by simp [h.2])
    · exact hac

theorem RankOrder.flip : RankOrder fun a b => less b a where
  asymm h := hless.asymm h
  between b h := (hless.between b h).symm

theorem RankOrder.less_congr_right {a b c : α} (h : tied less a b = true) :
    less c a = less c b := by
  rw [tied, Bool.and_comm] at h
  exact hless.flip.less_congr_left h

theorem RankOrder.irrefl (a : α) : less a a = false := by
  rw [eq_false_iff]
  intro h
  simp [hless.asymm h] at h

theorem RankOrder.trans {a b c : α} (hab : less a b = true) (hbc : less b c = true) :
    less a c = true := by
  rcases hless.between c hab with h | h
  · exact h
  · exact absurd hbc (by simp [hless.asymm h])

theorem mark_worse {y : α} (h : less r y = true) : mark less r y = none := by
  simp [mark, h, hless.asymm h]

theorem marks_cons_worse {y : α} (h : less r y = true) (ys : List α) :
    marks less r (y :: ys) = marks less r ys :=
  filterMap_cons_none (mark_worse hless h)

omit hless in
/-- An element is ranked better than another, worse, or is tied with it. -/
theorem better_or_worse_or_tied (y r : α) :
    less y r = true ∨ less r y = true ∨ tied less y r = true := by
  rw [tied]
  cases less y r <;> cases less r y <;> simp

omit hless in
theorem marks_cons (y : α) (ys : List α) :
    marks less r (y :: ys) = (mark less r y).toList ++ marks less r ys := by
  simp only [marks, filterMap_cons]
  cases mark less r y <;> rfl

/-- What a round does to the marks: the element that it carries along is the first one, or
one that is ranked better. -/
theorem exchange_marks (r x : α) (xs : List α) :
    mark less r (exchange less x xs).1 = selected (marks less r (x :: xs)) ∧
      marks less r (exchange less x xs).2 = afterRound (marks less r (x :: xs)) := by
  induction xs generalizing x with
  | nil =>
    rcases better_or_worse_or_tied x r with hx | hx | hx
    · rw [marks_cons_better hx]
      exact ⟨mark_better hx, rfl⟩
    · rw [marks_cons_worse hless hx]
      exact ⟨mark_worse hless hx, rfl⟩
    · rw [marks_cons_tied hx]
      exact ⟨mark_tied hx, rfl⟩
  | cons y ys ih =>
    rw [exchange]
    by_cases hyx : less y x = true
    · obtain ⟨hfirst, hrest⟩ := ih y
      simp only [hyx, if_true]
      rcases better_or_worse_or_tied x r with hx | hx | hx
      · rw [marks_cons_better (hless.trans hyx hx)] at hfirst hrest
        rw [marks_cons_better hx, marks_cons_better hx,
          marks_cons_better (hless.trans hyx hx), hrest, hfirst]
        exact ⟨rfl, rfl⟩
      · rw [marks_cons_worse hless hx, marks_cons_worse hless hx]
        exact ⟨hfirst, hrest⟩
      · have hy : less y r = true := hless.less_congr_right hx ▸ hyx
        rw [marks_cons_better hy] at hfirst hrest
        rw [marks_cons_tied hx, marks_cons_tied hx, marks_cons_better hy, hrest, hfirst]
        exact ⟨rfl, rfl⟩
    · obtain ⟨hfirst, hrest⟩ := ih x
      simp only [hyx, false_eq_true, if_false]
      rcases better_or_worse_or_tied x r with hx | hx | hx
      · rw [marks_cons_better hx] at hfirst hrest
        rw [marks_cons_better hx, marks_cons y, marks_cons y, hrest, hfirst]
        exact ⟨rfl, rfl⟩
      · have hy : less r y = true := (hless.between y hx).resolve_right hyx
        rw [marks_cons_worse hless hx] at hfirst hrest
        rw [marks_cons_worse hless hy, marks_cons_worse hless hx, marks_cons_worse hless hy]
        exact ⟨hfirst, hrest⟩
      · rw [marks_cons_tied hx] at hfirst hrest
        rw [hless.less_congr_right hx] at hyx
        rcases better_or_worse_or_tied y r with hy | hy | hy
        · exact absurd hy hyx
        · rw [marks_cons_worse hless hy, marks_cons_tied hx, marks_cons_worse hless hy]
          exact ⟨hfirst, hrest⟩
        · rw [marks_cons_tied hy, marks_cons_tied hx, marks_cons_tied hy, hrest, hfirst]
          exact ⟨rfl, rfl⟩

/-! ## All rounds -/

omit hless in
theorem turned_fillGap {a : α} {queue : List α} (hgap : hasGap word = true) :
    turned queue (fillGap a word) = turned (a :: queue) word := by
  induction word generalizing queue with
  | nil => simp [hasGap] at hgap
  | cons m word ih =>
    cases m with
    | none =>
      rw [fillGap, turned, turned]
      simp
    | some b =>
      rw [fillGap, turned, turned, ih hgap, cons_append]

omit hless in
theorem turned_of_no_gap {queue : List α} (hgap : hasGap word = false) :
    turned queue word = queue ++ joined word := by
  induction word generalizing queue with
  | nil => simp [turned, joined]
  | cons m word ih =>
    cases m with
    | none => simp at hgap
    | some b =>
      rw [turned, ih hgap, joined_some, append_assoc, singleton_append]

omit hless in
theorem fillGap_of_no_gap {a : α} (hgap : hasGap word = false) : fillGap a word = word := by
  induction word with
  | nil => rfl
  | cons m word ih =>
    cases m with
    | none => simp at hgap
    | some b => rw [fillGap, ih hgap]

omit hless in
/-- A round hands on what is still to be turned, after the tied element that it selects. -/
theorem turned_afterRound (word : List (Option α)) :
    turned [] word = joined (selected word).toList ++ turned [] (afterRound word) := by
  cases word with
  | nil => rfl
  | cons m word =>
    cases m with
    | none => simp [selected, afterRound, turned, joined]
    | some a =>
      by_cases hgap : hasGap word = true
      · rw [afterRound, turned_fillGap hgap]
        simp [selected, hgap, joined, turned]
      · rw [not_eq_true] at hgap
        rw [afterRound, fillGap_of_no_gap hgap, turned, turned_of_no_gap hgap,
          turned_of_no_gap hgap]
        simp [selected, hgap, joined]

omit hless in
theorem joined_marks_cons (r x : α) (xs : List α) :
    joined (marks less r (x :: xs)) =
      joined (mark less r x).toList ++ joined (marks less r xs) := by
  rw [marks_cons, joined, joined, joined, filterMap_append]

omit hless in
theorem length_exchange (x : α) (xs : List α) : (exchange less x xs).2.length = xs.length := by
  simpa using (exchange_perm less x xs).length_eq

/-- The rounds leave the elements tied with `r` in the order of the turned queue. -/
theorem joined_marks_exchangeRounds (r : α) {n : Nat} {l : List α} (hn : l.length ≤ n) :
    joined (marks less r (exchangeRounds less n l)) = turned [] (marks less r l) := by
  induction n generalizing l with
  | zero =>
    rw [length_eq_zero_iff.mp (Nat.le_zero.mp hn)]
    rfl
  | succ n ih =>
    cases l with
    | nil => rfl
    | cons x xs =>
      obtain ⟨hfirst, hrest⟩ := exchange_marks hless r x xs
      have hlength : (exchange less x xs).2.length ≤ n :=
        (length_exchange x xs).trans_le (Nat.le_of_succ_le_succ hn)
      rw [exchangeRounds, joined_marks_cons, ih hlength, hfirst, hrest,
        ← turned_afterRound]

/-! ## Sortedness -/

/-- A round selects an element that no other is ranked better than. -/
theorem exchange_least (x : α) (xs : List α) :
    less x (exchange less x xs).1 = false ∧
      ∀ y ∈ (exchange less x xs).2, less y (exchange less x xs).1 = false := by
  have hkeep : ∀ {a b m}, less a b = false → less b m = false → less a m = false := by
    intro a b m hab hbm
    rw [eq_false_iff]
    intro ham
    rcases hless.between b ham with h | h
    · simp [hab] at h
    · simp [hbm] at h
  induction xs generalizing x with
  | nil =>
    exact ⟨hless.irrefl x, fun y hy => absurd hy not_mem_nil⟩
  | cons y ys ih =>
    rw [exchange]
    by_cases hyx : less y x = true
    · have hx := hkeep (hless.asymm hyx) (ih y).1
      simp only [hyx]
      refine ⟨hx, ?_⟩
      intro z hz
      rcases mem_cons.mp hz with rfl | hz
      · exact hx
      · exact (ih y).2 z hz
    · simp only [hyx]
      refine ⟨(ih x).1, ?_⟩
      intro z hz
      rcases mem_cons.mp hz with rfl | hz
      · exact hkeep (not_eq_true _ ▸ hyx) (ih x).1
      · exact (ih x).2 z hz

theorem exchangeRounds_sorted {n : Nat} {l : List α} (hn : l.length ≤ n) :
    (exchangeRounds less n l).Pairwise fun a b => less b a = false := by
  induction n generalizing l with
  | zero =>
    rw [length_eq_zero_iff.mp (Nat.le_zero.mp hn)]
    exact List.Pairwise.nil
  | succ n ih =>
    cases l with
    | nil => exact List.Pairwise.nil
    | cons x xs =>
      have hlength : (exchange less x xs).2.length ≤ n :=
        (length_exchange x xs).trans_le (Nat.le_of_succ_le_succ hn)
      refine List.Pairwise.cons ?_ (ih hlength)
      intro y hy
      have hmem := (exchangeRounds_perm less n _).mem_iff.mp hy
      exact (exchange_least hless x xs).2 y hmem

omit hless in
theorem joined_marks (r : α) (l : List α) :
    joined (marks less r l) = l.filter fun y => tied less y r := by
  induction l with
  | nil => rfl
  | cons y ys ih =>
    rw [joined_marks_cons, ih, filter_cons]
    by_cases hy : less y r = true
    · have hnot : tied less y r = false := by simp [tied, hy]
      rw [mark_better hy, hnot]
      rfl
    · by_cases hry : less r y = true
      · simp [mark, tied, hry, joined]
      · have htied : tied less y r = true := by simp [tied, hy, hry]
        rw [mark_tied htied, htied]
        rfl

/-- How many elements ranked better than `r` stand behind exactly `n` elements tied with it,
of which `seen` come before the list. -/
def betterAfter (less : α → α → Bool) (r : α) (n : Nat) : Nat → List α → Nat
  | _, [] => 0
  | seen, y :: ys =>
    if less y r then (if seen = n then 1 else 0) + betterAfter less r n seen ys
    else if less r y then betterAfter less r n seen ys
    else betterAfter less r n (seen + 1) ys

omit hless in
theorem gapsAt_marks (r : α) (n seen : Nat) (l : List α) :
    gapsAt n seen (marks less r l) = betterAfter less r n seen l := by
  induction l generalizing seen with
  | nil => rfl
  | cons y ys ih =>
    rw [betterAfter, marks, filterMap_cons, mark]
    by_cases hy : less y r = true
    · simp only [hy]
      rw [← ih]
      rfl
    · by_cases hry : less r y = true
      · simp only [hy, hry]
        exact ih seen
      · simp only [hy, hry]
        exact ih (seen + 1)

/-- The elements tied with `r` keep their order if and only if, for every `n`, the better
ranked elements behind exactly `n` of them are a multiple of `n`. -/
theorem filter_exchangeRounds_eq_iff (r : α) {n : Nat} {l : List α} (hn : l.length ≤ n)
    (hnodup : l.Nodup) :
    ((exchangeRounds less n l).filter fun y => tied less y r) =
        (l.filter fun y => tied less y r) ↔
      ∀ k, 0 < k → k ∣ betterAfter less r k 0 l := by
  have hjoined : (joined (marks less r l)).Nodup := by
    rw [joined_marks]
    exact hnodup.filter _
  rw [← joined_marks, ← joined_marks, joined_marks_exchangeRounds hless r hn,
    turned_eq_iff hjoined]
  simp only [gapsAt_marks]

end

/-! ## The results -/

section

variable {α β : Type}
variable {less : α → α → Bool} {less' : β → β → Bool}

section

variable (f : α → β) (hf : ∀ a b, less a b = less' (f a) (f b))

include hf

theorem exchange_map (x : α) (xs : List α) :
    exchange less' (f x) (xs.map f) =
      (f (exchange less x xs).1, (exchange less x xs).2.map f) := by
  induction xs generalizing x with
  | nil => rfl
  | cons y ys ih =>
    rw [map_cons, exchange, exchange, ← hf]
    by_cases hyx : less y x = true
    · simp [hyx, ih]
    · simp [hyx, ih]

/-- The exchanges depend on the ranks only. -/
theorem exchangeRounds_map (n : Nat) (l : List α) :
    exchangeRounds less' n (l.map f) = (exchangeRounds less n l).map f := by
  induction n generalizing l with
  | zero => rfl
  | succ n ih =>
    cases l with
    | nil => rfl
    | cons x xs =>
      rw [map_cons, exchangeRounds, exchangeRounds, exchange_map f hf, ih, map_cons]

theorem betterAfter_map (r : α) (n seen : Nat) (l : List α) :
    betterAfter less' (f r) n seen (l.map f) = betterAfter less r n seen l := by
  induction l generalizing seen with
  | nil => rfl
  | cons y ys ih =>
    rw [map_cons, betterAfter, betterAfter, ← hf, ← hf, ih, ih]

end

/-- A comparison of positioned elements is an order if that of the elements is one. -/
theorem RankOrder.comap {less : β → β → Bool} (hless : RankOrder less) (f : α → β) :
    RankOrder fun a b => less (f a) (f b) where
  asymm h := hless.asymm h
  between b h := hless.between (f b) h

/-- Tied elements of a rearranged list stand in the order of the list if and only if the
elements tied with any one are met in the same order. -/
theorem pairwise_tied_iff (hless : RankOrder less) {place : α → Nat} {l sorted : List α}
    (hperm : sorted.Perm l) (hplaces : l.Pairwise fun a b => place a < place b) :
    (sorted.Pairwise fun a b => tied less a b = true → place a < place b) ↔
      ∀ r ∈ l, (sorted.filter fun y => tied less y r) = l.filter fun y => tied less y r := by
  constructor
  · intro h r _
    have hfilter : (sorted.filter fun y => tied less y r).Pairwise
        fun a b => place a < place b := by
      rw [pairwise_filter]
      refine h.imp ?_
      intro a b hab har hbr
      apply hab
      have hbr' := hbr
      simp only [tied] at har ⊢
      rw [hless.less_congr_left hbr', hless.less_congr_right hbr']
      exact har
    have hback : ∀ a b, a ∈ (sorted.filter fun y => tied less y r) →
        b ∈ (l.filter fun y => tied less y r) → place a < place b → place b < place a →
          a = b := by
      intro a b _ _ hab hba
      omega
    exact (hperm.filter _).eq_of_pairwise hback hfilter (hplaces.filter _)
  · intro h
    rw [pairwise_iff_forall_sublist]
    intro a b hsub htied
    have hmem : b ∈ l := hperm.mem_iff.mp (hsub.subset (by simp))
    have hself : tied less b b = true := by
      simp [tied, hless.irrefl b]
    have hpair : [a, b].Sublist (l.filter fun y => tied less y b) := by
      rw [← h b hmem]
      have hkept := hsub.filter fun y => tied less y b
      simpa [htied, hself] using hkept
    have hin : [a, b].Sublist l := hpair.trans filter_sublist
    exact pairwise_iff_forall_sublist.mp hplaces hin

end

section

variable {ρ : Type} (less : ρ → ρ → Bool)

/-- The comparison of the inner loop. -/
def rankedBetter (a b : Result ρ) : Bool := less a.rank b.rank

/-- The results with the places they had, after the exchanges of `sortResultsByRank`. -/
def sortedWithPlaces (results : List (Result ρ)) : List (Result ρ × Nat) :=
  exchangeRounds (fun a b => rankedBetter less a.1 b.1) results.length results.zipIdx

/-- The sort is stable: its result is a permutation in the order of the ranks, and results of
equal rank stand in the order of the places they had. -/
structure SortedStably (results : List (Result ρ)) : Prop where
  same : (sortedWithPlaces less results).map Prod.fst = sortResultsByRank less results
  perm : (sortResultsByRank less results).Perm results
  sorted : (sortResultsByRank less results).Pairwise fun a b => less b.rank a.rank = false
  stable : (sortedWithPlaces less results).Pairwise fun a b =>
    tied (rankedBetter less) a.1 b.1 = true → a.2 < b.2

theorem pairwise_places (results : List (Result ρ)) :
    results.zipIdx.Pairwise fun a b => a.2 < b.2 := by
  have hrange : (results.zipIdx.map Prod.snd).Pairwise (· < ·) := by
    rw [zipIdx_map_snd]
    exact pairwise_lt_range'
  exact pairwise_map.mp hrange

variable {less}

theorem rankOrder_rankedBetter (hless : RankOrder less) : RankOrder (rankedBetter less) :=
  hless.comap Result.rank

/-- Sorting by rank is stable for a list of results if and only if, for each of them and
every `n`, the number of better ranked results that stand behind exactly `n` results of its
rank is a multiple of `n`. -/
theorem sortResultsByRank_stable_iff (hless : RankOrder less) (results : List (Result ρ)) :
    SortedStably less results ↔
      ∀ r ∈ results, ∀ n, 0 < n → n ∣ betterAfter (rankedBetter less) r n 0 results := by
  have hplaced := (rankOrder_rankedBetter hless).comap (Prod.fst : Result ρ × Nat → Result ρ)
  have hlength : results.zipIdx.length ≤ results.length := by simp
  have hnodup : results.zipIdx.Nodup :=
    (pairwise_places results).imp fun h => fun heq => absurd h (by simp [heq])
  have hfst : results.zipIdx.map Prod.fst = results := zipIdx_map_fst 0 results
  have hcount : ∀ (r : Result ρ × Nat) (n : Nat),
      betterAfter (fun a b => rankedBetter less a.1 b.1) r n 0 results.zipIdx =
        betterAfter (rankedBetter less) r.1 n 0 results := by
    intro r n
    have h : betterAfter (rankedBetter less) r.1 n 0 (results.zipIdx.map Prod.fst) =
        betterAfter (fun a b => rankedBetter less a.1 b.1) r n 0 results.zipIdx :=
      betterAfter_map Prod.fst (fun a b => rfl) r n 0 results.zipIdx
    rw [hfst] at h
    exact h.symm
  have hstable : ((sortedWithPlaces less results).Pairwise fun a b =>
      tied (rankedBetter less) a.1 b.1 = true → a.2 < b.2) ↔
      ∀ r ∈ results, ∀ n, 0 < n → n ∣ betterAfter (rankedBetter less) r n 0 results := by
    have hiff := pairwise_tied_iff hplaced
      (exchangeRounds_perm (fun a b => rankedBetter less a.1 b.1) results.length
        results.zipIdx) (pairwise_places results)
    have hcounts : ∀ r ∈ results.zipIdx, _ ↔ _ := fun r _ =>
      filter_exchangeRounds_eq_iff hplaced r hlength hnodup
    refine hiff.trans ((forall₂_congr hcounts).trans ?_)
    simp only [hcount]
    constructor
    · intro h r hr
      rw [← hfst] at hr
      obtain ⟨placed, hmem, rfl⟩ := mem_map.mp hr
      exact h placed hmem
    · intro h r hr
      exact h r.1 (fst_mem_of_mem_zipIdx hr)
  constructor
  · intro h
    exact hstable.mp h.stable
  · intro h
    refine ⟨?_, sortResultsByRank_perm less results, ?_, hstable.mpr h⟩
    · have hmap : exchangeRounds (rankedBetter less) results.length
          (results.zipIdx.map Prod.fst) = (sortedWithPlaces less results).map Prod.fst :=
        exchangeRounds_map Prod.fst (fun a b => rfl) _ _
      rw [← hmap, hfst]
      rfl
    · exact exchangeRounds_sorted (rankOrder_rankedBetter hless) le_rfl

/-! ## Samples -/

/-- Ranks that are whole numbers. -/
def lessInt (a b : Int) : Bool := a < b

theorem rankOrder_lessInt : RankOrder lessInt := by
  refine ⟨?_, ?_⟩
  · intro a b h
    simp only [lessInt, decide_eq_true_eq, decide_eq_false_iff_not] at h ⊢
    omega
  · intro a c b h
    simp only [lessInt, decide_eq_true_eq] at h ⊢
    omega

/-- A document with a rank. -/
def rankedDocument (id : String) (rank : Int) : Result Int :=
  ⟨id, "", "", "", .document, "@notes", "", rank⟩

theorem sortResultsByRank_stable_iff_sample :
    RankOrder lessInt ∧
      (SortedStably lessInt [rankedDocument "a" 2, rankedDocument "b" 2,
          rankedDocument "c" 1, rankedDocument "d" 0] ↔
        ∀ r ∈ [rankedDocument "a" 2, rankedDocument "b" 2, rankedDocument "c" 1,
            rankedDocument "d" 0],
          ∀ n, 0 < n → n ∣ betterAfter (rankedBetter lessInt) r n 0
            [rankedDocument "a" 2, rankedDocument "b" 2, rankedDocument "c" 1,
              rankedDocument "d" 0]) :=
  ⟨rankOrder_lessInt, sortResultsByRank_stable_iff rankOrder_lessInt _⟩

/-- A better ranked result behind two of equal rank makes them change places. -/
theorem better_result_reverses_ties :
    sortResultsByRank lessInt
        [rankedDocument "a" 2, rankedDocument "b" 2, rankedDocument "c" 1] =
      [rankedDocument "c" 1, rankedDocument "b" 2, rankedDocument "a" 2] ∧
    ¬SortedStably lessInt
        [rankedDocument "a" 2, rankedDocument "b" 2, rankedDocument "c" 1] := by
  refine ⟨by decide, ?_⟩
  intro h
  exact absurd h.stable (by decide)

end

end Yanta.Search
