import Yanta.Search.Service

/-!
# The pages of a search

The pages of a search are slices of its ranking as long as the sum of offset and limit is
a machine integer.
-/

namespace Yanta.Search

open List Int64

/-! ## Pages -/

/-- The largest machine integer. -/
def maxInt : Int := 9223372036854775807

section

variable {α : Type} (results : List α)

theorem pageLimit_pos (limit : Int64) : 0 < (pageLimit limit).toInt := by
  unfold pageLimit
  split_ifs with h
  · decide
  · have hlt : 0 < limit := Int64.not_le.mp h
    simpa [Int64.lt_iff_toInt_lt] using hlt

theorem pageOffset_nonneg (offset : Int64) : 0 ≤ (pageOffset offset).toInt := by
  unfold pageOffset
  split_ifs with h
  · decide
  · have hle : 0 ≤ offset := Int64.not_lt.mp h
    simpa [Int64.le_iff_toInt_le] using hle

/-- The sum of two integers that are not negative is exact or negative. -/
theorem toInt_add_cases {a b : Int64} (ha : 0 ≤ a.toInt) (hb : 0 ≤ b.toInt) :
    (a.toInt + b.toInt ≤ maxInt ∧ (a + b).toInt = a.toInt + b.toInt) ∨
      (maxInt < a.toInt + b.toInt ∧ (a + b).toInt < 0) := by
  have ha' := a.toInt_lt
  have hb' := b.toInt_lt
  rw [toInt_add, Int.bmod_def]
  unfold maxInt
  split_ifs <;> omega

/-- A page is the slice of the results if and only if it starts behind them or its end is
a machine integer. -/
theorem paginate_eq_iff (limit offset : Int64) :
    paginate results limit offset =
        some ((results.drop (pageOffset offset).toInt.toNat).take
          (pageLimit limit).toInt.toNat) ↔
      (results.length : Int) ≤ (pageOffset offset).toInt ∨
        (pageOffset offset).toInt + (pageLimit limit).toInt ≤ maxInt := by
  have hlimit := pageLimit_pos limit
  have hoffset := pageOffset_nonneg offset
  unfold paginate
  generalize pageOffset offset = o at hoffset ⊢
  by_cases hbehind : (results.length : Int) ≤ o.toInt
  · rw [if_pos hbehind, drop_eq_nil_of_le (by omega), take_nil]
    exact ⟨fun _ => .inl hbehind, fun _ => rfl⟩
  · rw [if_neg hbehind, slice]
    rcases toInt_add_cases hoffset (Int.le_of_lt hlimit) with ⟨hsum, hadd⟩ | ⟨hsum, hadd⟩
    · rw [if_pos (by split_ifs <;> omega)]
      refine ⟨fun _ => .inr hsum, fun _ => congrArg some ?_⟩
      rw [drop_take]
      split_ifs with hend
      · rw [take_of_length_le, take_of_length_le]
        · rw [length_drop]
          omega
        · rw [length_drop]
          omega
      · congr 1
        omega
    · rw [if_neg (by split_ifs <;> omega)]
      refine ⟨fun h => absurd h (by simp), fun h => ?_⟩
      omega

theorem slice_sublist {xs ys : List α} {start stop : Int}
    (h : slice xs start stop = some ys) : ys.Sublist xs := by
  unfold slice at h
  split_ifs at h
  rw [← Option.some.inj h]
  exact (drop_sublist _ _).trans (take_sublist _ _)

theorem sublist_of_paginate {page : List α} {limit offset : Int64}
    (h : paginate results limit offset = some page) : page.Sublist results := by
  unfold paginate at h
  by_cases hbehind : (results.length : Int) ≤ (pageOffset offset).toInt
  · rw [if_pos hbehind] at h
    rw [← Option.some.inj h]
    exact nil_sublist results
  · rw [if_neg hbehind] at h
    exact slice_sublist h

/-- The page of the results with this number. -/
def pageAt (size i : Nat) : List α := (results.drop (i * size)).take size

theorem flatten_pageAt (size n : Nat) :
    ((List.range n).map (pageAt results size)).flatten = results.take (n * size) := by
  induction n with
  | zero => simp
  | succ n ih =>
    rw [range_succ, map_append, flatten_append, ih, Nat.succ_mul, take_add]
    simp [pageAt]

/-- All results fit on one page. -/
theorem paginate_all (h : (results.length : Int) ≤ maxInt) :
    paginate results Int64.maxValue 0 = some results := by
  have hpage := (paginate_eq_iff results maxValue 0).mpr (.inr (by decide))
  rw [hpage]
  have hlimit : (pageLimit maxValue).toInt = maxInt := by decide
  have hoffset : (pageOffset 0).toInt = 0 := by decide
  rw [hoffset, Int.toNat_zero, drop_zero, take_of_length_le]
  omega

end

section

variable {ρ : Type} {e : Engine ρ} {fold : CaseFold} {db : Database} {input : String}
  {limit offset : Int64} {q : Query} {results page : List (Result ρ)}

theorem query_eq_ok_iff (hparse : parse input = some q)
    (hranking : ranking e fold db q = .ok results) :
    query e fold db input limit offset = .ok page ↔
      paginate results limit offset = some page := by
  cases hpage : paginate results limit offset <;> simp [query, hparse, hranking, hpage]

theorem ranking_of_query (hparse : parse input = some q)
    (h : query e fold db input limit offset = .ok page) :
    ∃ results, ranking e fold db q = .ok results ∧
      paginate results limit offset = some page := by
  cases hranking : ranking e fold db q with
  | error text => simp [query, hparse, hranking] at h
  | ok results => exact ⟨results, rfl, (query_eq_ok_iff hparse hranking).mp h⟩

end

/-- A call returns the slice of the ranking from its offset on, limit long, if and only if
the offset is behind the ranking or the sum of both is a machine integer. Pages with such
sums, one behind the other, make up the ranking. -/
theorem query_page_iff {ρ : Type} (e : Engine ρ) (fold : CaseFold) (db : Database)
    (input : String) (q : Query) (results : List (Result ρ)) (hparse : parse input = some q)
    (hranking : ranking e fold db q = .ok results) (limit offset : Int64) :
    (query e fold db input limit offset =
        .ok ((results.drop (pageOffset offset).toInt.toNat).take
          (pageLimit limit).toInt.toNat) ↔
      (results.length : Int) ≤ (pageOffset offset).toInt ∨
        (pageOffset offset).toInt + (pageLimit limit).toInt ≤ maxInt) ∧
    ∀ n : Nat, n * (pageLimit limit).toInt ≤ maxInt →
      (∀ i < n, query e fold db input limit
          (Int64.ofNat (i * (pageLimit limit).toInt.toNat)) =
        .ok (pageAt results (pageLimit limit).toInt.toNat i)) ∧
      ((List.range n).map (pageAt results (pageLimit limit).toInt.toNat)).flatten =
        results.take (n * (pageLimit limit).toInt.toNat) := by
  refine ⟨?_, ?_⟩
  · rw [query_eq_ok_iff hparse hranking]
    exact paginate_eq_iff results limit offset
  · intro n hn
    refine ⟨?_, flatten_pageAt results _ n⟩
    intro i hi
    have hlimit := pageLimit_pos limit
    generalize hsize : (pageLimit limit).toInt.toNat = size
    have hsize' : (pageLimit limit).toInt = size := by omega
    have hstart : i * size + size ≤ n * size := by
      rw [← Nat.succ_mul]
      exact Nat.mul_le_mul_right size hi
    have hbound : ((i * size + size : Nat) : Int) ≤ maxInt := by
      rw [hsize'] at hn
      exact (Int.ofNat_le.mpr hstart).trans (by exact_mod_cast hn)
    have htoInt : (ofNat (i * size)).toInt = (i * size : Nat) := by
      apply toInt_ofNat_of_lt
      unfold maxInt at hbound
      omega
    have hoffset : pageOffset (ofNat (i * size)) = ofNat (i * size) := by
      unfold pageOffset
      rw [if_neg]
      rw [lt_iff_toInt_lt, htoInt]
      exact Int.not_lt.mpr (Int.natCast_nonneg _)
    rw [query_eq_ok_iff hparse hranking]
    have hpage := (paginate_eq_iff results limit (ofNat (i * size))).mpr
    rw [hoffset, htoInt, hsize'] at hpage
    rw [hpage (.inr (by push_cast at hbound ⊢; exact hbound))]
    rfl

/-- An engine that ranks all rows alike. -/
def flatEngine : Engine Nat where
  parseError _ := ""
  tokenize := wordTokenizer.tokenize
  matchError _ := "fts5: syntax error"
  zero := 0
  less a b := a < b
  bm25 _ _ _ := 0
  snippet _ _ _ := none
  journalBm25 _ _ _ := 0
  journalSnippet _ _ _ := none
  orderBy rows := rows
  orderBy_perm rows := List.Perm.refl rows

/-- Two documents of a project, one of them with two tags. -/
def twoDocuments : Database where
  doc := [⟨"projects/@p/a.json", "A", "@p", "2024", false⟩,
    ⟨"projects/@p/b.json", "B", "@p", "2023", false⟩]
  ftsDoc := [⟨"projects/@p/a.json", "A", "", "foo", ""⟩, ⟨"projects/@p/b.json", "B", "", "", ""⟩]
  docTag := [("projects/@p/a.json", "x"), ("projects/@p/a.json", "y")]
  ftsJournal := []
  doc_key := by decide
  ftsDoc_key := by decide
  docTag_key := by decide

/-- The second page of one result. -/
theorem query_page_iff_sample :
    query flatEngine asciiFold twoDocuments "project:@p" 1 1 =
      .ok [documentResult 0 "" ⟨"projects/@p/b.json", "B", "@p", "2023", false⟩] := by
  have hpage := (query_page_iff flatEngine asciiFold twoDocuments "project:@p"
    ⟨some [[.filter ⟨"project", some "@p"⟩]]⟩
    (twoDocuments.doc.map (documentResult 0 "")) (by decide) (by decide) 1 1).1.mpr
    (.inr (by decide))
  rw [hpage]
  rfl

/-- The sum of the offset and the largest limit is negative. -/
theorem largest_limit_panics :
    query flatEngine asciiFold twoDocuments "project:@p" Int64.maxValue 1 =
        .error .panicked ∧
      handleSearch flatEngine asciiFold twoDocuments "project:@p" Int64.maxValue 1 =
        .error .panicked := by
  decide

end Yanta.Search
