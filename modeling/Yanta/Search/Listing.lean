import Mathlib.Data.List.Nodup
import Yanta.Search.Pages

/-!
# The documents of a search

The tags of a query are joined to its rows, so a document is listed once for each of them
that it has. The filters of all branches are collected into one condition, so a document
that is returned need not satisfy the filters of the branch whose terms it has.
-/

namespace Yanta.Search

open Fts5 List Database

variable {projects tags : List String}

/-- The paths of the documents among the results. -/
def documentPaths {ρ : Type} (results : List (Result ρ)) : List String :=
  (results.filter fun r => r.type = .document).map Result.id

/-! ## Rows of the joins -/

section

variable {ρ : Type} {e : Engine ρ} {fold : CaseFold} {db : Database}

/-- Rows with distinct keys stay distinct if none is repeated. -/
theorem nodup_flatMap_replicate {α κ : Type} {key : α → κ} (n : α → Nat) {rows : List α}
    (h : (rows.map key).Nodup) :
    ((rows.flatMap fun r => List.replicate (n r) r).map key).Nodup ↔ ∀ r ∈ rows, n r ≤ 1 := by
  induction rows with
  | nil => simp
  | cons r rows ih =>
    rw [map_cons, nodup_cons] at h
    rw [flatMap_cons, map_append, map_replicate, nodup_append',
      nodup_replicate, ih h.2, forall_mem_cons]
    refine and_congr_right fun _ => and_iff_left ?_
    intro k hk hin
    obtain rfl := eq_of_mem_replicate hk
    obtain ⟨r', hr', hkey⟩ := mem_map.mp hin
    obtain ⟨r'', hr'', hrep⟩ := mem_flatMap.mp hr'
    rw [eq_of_mem_replicate hrep] at hkey
    exact h.1 (mem_map.mpr ⟨r'', hr'', hkey⟩)

theorem active_nodup (projects : List String) :
    ((db.active projects).map Document.path).Nodup :=
  db.doc_key.sublist (filter_sublist.map _)

theorem mem_active_iff {d : Document} :
    d ∈ db.active projects ↔
      d ∈ db.doc ∧ d.deleted = false ∧ (projects = [] ∨ d.projectAlias ∈ projects) := by
  simp [active, inProjects]

/-- The rows that match are results for the documents that match. -/
theorem mem_matchRows_iff {expression : List Char} {expr : Expr} {r : Result ρ} :
    r ∈ matchRows e db expression expr projects ↔
      ∃ f ∈ db.ftsDoc, ∃ d ∈ db.active projects, d.path = f.path ∧
        eval e.tokenize (e.row f) (fun _ => true) expr = true ∧
        r = documentResult (e.bm25 db expression f)
          ((e.snippet db expression f).getD "") d := by
  simp only [matchRows, mem_flatMap, mem_filter, mem_map, beq_iff_eq]
  constructor
  · rintro ⟨f, ⟨hf, heval⟩, d, ⟨hd, hpath⟩, rfl⟩
    exact ⟨f, hf, d, hd, hpath, heval, rfl⟩
  · rintro ⟨f, hf, d, hd, hpath, heval, rfl⟩
    exact ⟨f, ⟨hf, heval⟩, d, ⟨hd, hpath⟩, rfl⟩

theorem matchRows_nodup (expression : List Char) (expr : Expr) (projects : List String) :
    ((matchRows e db expression expr projects).map Result.id).Nodup := by
  have hids : (matchRows e db expression expr projects).map Result.id =
      (db.ftsDoc.filter fun f =>
        eval e.tokenize (e.row f) (fun _ => true) expr).flatMap fun f =>
          ((db.active projects).filter fun d => d.path == f.path).map Document.path := by
    rw [matchRows, map_flatMap]
    simp only [map_map]
    rfl
  rw [hids, nodup_flatMap]
  refine ⟨?_, ?_⟩
  · intro f _
    exact (active_nodup projects).sublist (filter_sublist.map _)
  · have hkeys : ((db.ftsDoc.filter fun f =>
        eval e.tokenize (e.row f) (fun _ => true) expr).map FullText.path).Nodup :=
      db.ftsDoc_key.sublist (filter_sublist.map _)
    refine (pairwise_map.mp hkeys).imp ?_
    intro f g hne path hf hg
    obtain ⟨d, hd, rfl⟩ := mem_map.mp hf
    obtain ⟨d', hd', heq⟩ := mem_map.mp hg
    have hpath : d.path = f.path := by simpa using (mem_filter.mp hd).2
    have hpath' : d'.path = g.path := by simpa using (mem_filter.mp hd').2
    exact hne (hpath.symm.trans (heq.symm.trans hpath'))

theorem mem_joinTags {rows : List (Result ρ)} {r : Result ρ} :
    r ∈ joinTags db tags rows ↔ r ∈ rows ∧ db.tagRows tags r.id ≠ 0 := by
  simp only [joinTags, mem_flatMap, mem_replicate]
  constructor
  · rintro ⟨r', hr', hn, rfl⟩
    exact ⟨hr', hn⟩
  · rintro ⟨hr, hn⟩
    exact ⟨r, hr, hn, rfl⟩

theorem tagRows_ne_zero_iff {path : String} :
    db.tagRows tags path ≠ 0 ↔ tags ≠ [] → ∃ t ∈ tags, (path, t) ∈ db.docTag := by
  unfold tagRows
  by_cases htags : tags = []
  · simp [htags]
  · rw [if_neg htags, Nat.ne_zero_iff_zero_lt, length_pos_iff_exists_mem]
    simp only [mem_filter, Bool.and_eq_true, beq_iff_eq, contains_iff_mem, Prod.exists]
    constructor
    · rintro ⟨p, t, hin, rfl, ht⟩ _
      exact ⟨t, ht, hin⟩
    · intro h
      obtain ⟨t, ht, hin⟩ := h htags
      exact ⟨path, t, hin, rfl, ht⟩

end

/-! ## The documents of the ranking -/

section

variable {ρ : Type} {e : Engine ρ} {fold : CaseFold} {db : Database} {q : Query}

/-- The text of a row matches the expression of the query, if that has terms. -/
def TextMatches (e : Engine ρ) (fold : CaseFold) (q : Query) (f : FullText) : Prop :=
  Matches e.tokenize (e.row f) ftsDocColumns (q.toFTS5 fold)

/-- The rows in front of the join with the tags. -/
def documentRows (e : Engine ρ) (fold : CaseFold) (db : Database) (q : Query) :
    List (Result ρ) :=
  if q.hasTerms fold then
    match compile ftsDocColumns (q.toFTS5 fold) with
    | none => []
    | some expr => matchRows e db (q.toFTS5 fold) expr (q.extractFilters fold).1
  else if q.hasFilters fold then
    (db.active (q.extractFilters fold).1).map (documentResult e.zero "")
  else []

theorem documentRows_nodup : ((documentRows e fold db q).map Result.id).Nodup := by
  unfold documentRows
  split_ifs
  · cases compile ftsDocColumns (q.toFTS5 fold) with
    | none => exact nodup_nil
    | some expr => exact matchRows_nodup _ _ _
  · rw [map_map]
    exact active_nodup _
  · exact nodup_nil

theorem type_documentRows {r : Result ρ} (h : r ∈ documentRows e fold db q) :
    r.type = .document := by
  unfold documentRows at h
  split_ifs at h
  · cases hexpr : compile ftsDocColumns (q.toFTS5 fold) with
    | none => simp [hexpr] at h
    | some expr =>
      rw [hexpr] at h
      obtain ⟨f, -, d, -, -, -, rfl⟩ := mem_matchRows_iff.mp h
      rfl
  · obtain ⟨d, -, rfl⟩ := mem_map.mp h
    rfl
  · exact absurd h not_mem_nil

theorem type_journalResults {r : Result ρ} (h : r ∈ journalResults e fold db q) :
    r.type = .note := by
  unfold journalResults searchJournals at h
  simp only at h
  split_ifs at h
  · cases hexpr : compile ftsJournalColumns (q.toFTS5Journal fold) with
    | none => simp [hexpr, Except.toOption] at h
    | some expr =>
      rw [hexpr] at h
      obtain ⟨n, -, rfl⟩ := mem_map.mp ((e.orderBy_perm _).mem_iff.mp h)
      rfl
  · exact absurd h not_mem_nil

theorem searchDocuments_perm {documents : List (Result ρ)}
    (hsearch : q.hasTerms fold = true ∨ q.hasFilters fold = true)
    (h : searchDocuments e db (q.toFTS5 fold) (q.extractFilters fold).1
      (q.extractFilters fold).2 (q.hasTerms fold) = .ok documents) :
    documents.Perm (joinTags db (q.extractFilters fold).2 (documentRows e fold db q)) := by
  unfold searchDocuments at h
  unfold documentRows
  by_cases hterms : q.hasTerms fold = true
  · rw [if_pos hterms] at h ⊢
    cases hexpr : compile ftsDocColumns (q.toFTS5 fold) with
    | none => simp [hexpr] at h
    | some expr =>
      rw [hexpr] at h
      obtain rfl := Except.ok.inj h
      exact e.orderBy_perm _
  · rw [if_neg hterms] at h ⊢
    rw [if_pos (hsearch.resolve_left hterms)]
    obtain rfl := Except.ok.inj h
    exact e.orderBy_perm _

/-- The ranking has the joined rows and the journal entries. -/
theorem ranking_perm {results : List (Result ρ)} (h : ranking e fold db q = .ok results) :
    results.Perm (joinTags db (q.extractFilters fold).2 (documentRows e fold db q) ++
      journalResults e fold db q) := by
  unfold ranking at h
  by_cases hsearch : q.hasTerms fold = true ∨ q.hasFilters fold = true
  · rw [if_neg (by rcases hsearch with hs | hs <;> simp [hs])] at h
    cases hdocs : searchDocuments e db (q.toFTS5 fold) (q.extractFilters fold).1
        (q.extractFilters fold).2 (q.hasTerms fold) with
    | error text => simp [hdocs] at h
    | ok documents =>
      rw [hdocs] at h
      obtain rfl := Except.ok.inj h
      exact (sortResultsByRank_perm e.less _).trans
        ((searchDocuments_perm hsearch hdocs).append_right _)
  · rw [not_or] at hsearch
    rw [if_pos (by simp [hsearch])] at h
    obtain rfl := Except.ok.inj h
    simp [documentRows, journalResults, hsearch, joinTags]

/-- The documents of the ranking are the joined rows. -/
theorem documents_of_ranking {results : List (Result ρ)}
    (h : ranking e fold db q = .ok results) :
    (results.filter fun r => r.type = .document).Perm
      (joinTags db (q.extractFilters fold).2 (documentRows e fold db q)) := by
  have hnotes : (journalResults e fold db q).filter (fun r => r.type = .document) = [] := by
    rw [filter_eq_nil_iff]
    intro r hr
    simp [type_journalResults hr]
  have hall : (joinTags db (q.extractFilters fold).2 (documentRows e fold db q)).filter
      (fun r => r.type = .document) =
      joinTags db (q.extractFilters fold).2 (documentRows e fold db q) := by
    rw [filter_eq_self]
    intro r hr
    simp [type_documentRows (mem_joinTags.mp hr).1]
  have hfilter := (ranking_perm h).filter fun r => r.type = .document
  rwa [filter_append, hnotes, hall, append_nil] at hfilter

/-- A row stands for an active document of the projects whose text matches. -/
theorem mem_documentRows {r : Result ρ} (h : r ∈ documentRows e fold db q) :
    ∃ d ∈ db.active (q.extractFilters fold).1, d.path = r.id ∧
      (q.hasTerms fold = true →
        ∃ f ∈ db.ftsDoc, f.path = d.path ∧ TextMatches e fold q f) := by
  unfold documentRows at h
  split_ifs at h with hterms
  · cases hexpr : compile ftsDocColumns (q.toFTS5 fold) with
    | none => simp [hexpr] at h
    | some expr =>
      rw [hexpr] at h
      obtain ⟨f, hf, d, hd, hpath, heval, rfl⟩ := mem_matchRows_iff.mp h
      exact ⟨d, hd, rfl, fun _ =>
        ⟨f, hf, hpath.symm, matches_iff_compile.mpr ⟨expr, hexpr, heval⟩⟩⟩
  · obtain ⟨d, hd, rfl⟩ := mem_map.mp h
    exact ⟨d, hd, rfl, fun hterms' => absurd hterms' hterms⟩
  · exact absurd h not_mem_nil

theorem exists_mem_documentRows {d : Document}
    (hsearch : q.hasTerms fold = true ∨ q.hasFilters fold = true)
    (hd : d ∈ db.active (q.extractFilters fold).1)
    (htext : q.hasTerms fold = true →
      ∃ f ∈ db.ftsDoc, f.path = d.path ∧ TextMatches e fold q f) :
    ∃ r ∈ documentRows e fold db q, r.id = d.path := by
  unfold documentRows
  by_cases hterms : q.hasTerms fold = true
  · obtain ⟨f, hf, hpath, hmatch⟩ := htext hterms
    obtain ⟨expr, hexpr, heval⟩ := matches_iff_compile.mp hmatch
    rw [if_pos hterms, hexpr]
    exact ⟨_, mem_matchRows_iff.mpr ⟨f, hf, d, hd, hpath.symm, heval, rfl⟩, rfl⟩
  · rw [if_neg hterms, if_pos (hsearch.resolve_left hterms)]
    exact ⟨_, mem_map_of_mem hd, rfl⟩

variable (db) in
/-- The search only fails if the expression is malformed. -/
theorem ranking_isOk (h : q.hasTerms fold = true → ∃ f, TextMatches e fold q f) :
    ∃ results, ranking e fold db q = .ok results := by
  unfold ranking searchDocuments
  by_cases hterms : q.hasTerms fold = true
  · obtain ⟨f, hmatch⟩ := h hterms
    obtain ⟨expr, hexpr, -⟩ := matches_iff_compile.mp hmatch
    simp [hterms, hexpr]
  · cases q.hasFilters fold <;> simp [hterms]

end

/-- Every page lists each document once if and only if no active document of the query's
projects whose text matches has two of the query's tags. -/
theorem query_lists_documents_once_iff {ρ : Type} (e : Engine ρ) (fold : CaseFold)
    (db : Database) (input : String) (q : Query) (hparse : parse input = some q)
    (hsize : ∀ results, ranking e fold db q = .ok results →
      (results.length : Int) ≤ maxInt) :
    (∀ limit offset page, query e fold db input limit offset = .ok page →
        (documentPaths page).Nodup) ↔
      ∀ d ∈ db.doc, d.deleted = false →
        ((q.extractFilters fold).1 = [] ∨ d.projectAlias ∈ (q.extractFilters fold).1) →
        (q.hasTerms fold = true →
          ∃ f ∈ db.ftsDoc, f.path = d.path ∧ TextMatches e fold q f) →
        (db.docTag.filter fun row =>
          row.1 == d.path && (q.extractFilters fold).2.contains row.2).length ≤ 1 := by
  have hcounts : ∀ d : Document, (db.docTag.filter fun row =>
      row.1 == d.path && (q.extractFilters fold).2.contains row.2).length ≤ 1 ↔
      db.tagRows (q.extractFilters fold).2 d.path ≤ 1 := by
    intro d
    unfold tagRows
    split_ifs with htags
    · simp [htags]
    · rfl
  have hjoined : ((joinTags db (q.extractFilters fold).2
      (documentRows e fold db q)).map Result.id).Nodup ↔
      ∀ r ∈ documentRows e fold db q, db.tagRows (q.extractFilters fold).2 r.id ≤ 1 :=
    nodup_flatMap_replicate _ documentRows_nodup
  constructor
  · intro h d hd hactive hproject htext
    rw [hcounts]
    by_cases hsearch : q.hasTerms fold = true ∨ q.hasFilters fold = true
    · obtain ⟨results, hranking⟩ := ranking_isOk db (fun hterms =>
        (htext hterms).imp fun f hf => hf.2.2)
      have hnodup : (documentPaths results).Nodup := by
        refine h Int64.maxValue 0 results ?_
        rw [query_eq_ok_iff hparse hranking]
        exact paginate_all results (hsize results hranking)
      rw [documentPaths, ((documents_of_ranking hranking).map _).nodup_iff, hjoined] at hnodup
      obtain ⟨r, hr, hid⟩ := exists_mem_documentRows hsearch
        (mem_active_iff.mpr ⟨hd, hactive, hproject⟩) htext
      rw [← hid]
      exact hnodup r hr
    · have htags : (q.extractFilters fold).2 = [] := by
        have hnone := (not_or.mp hsearch).2
        simp only [Query.hasFilters, Bool.or_eq_true, not_or, Bool.not_eq_true,
          Bool.not_eq_false', List.isEmpty_iff] at hnone
        exact hnone.2
      simp [tagRows, htags]
  · intro h limit offset page hpage
    obtain ⟨results, hranking, hpaginate⟩ := ranking_of_query hparse hpage
    have hsublist : (documentPaths page).Sublist (documentPaths results) :=
      ((sublist_of_paginate results hpaginate).filter _).map _
    refine List.Nodup.sublist hsublist ?_
    rw [documentPaths, ((documents_of_ranking hranking).map _).nodup_iff, hjoined]
    intro r hr
    obtain ⟨d, hd, hpath, htext⟩ := mem_documentRows hr
    obtain ⟨hdoc, hactive, hproject⟩ := mem_active_iff.mp hd
    rw [← hpath, ← hcounts]
    exact h d hdoc hactive hproject htext

/-- A document with one of the tags. -/
theorem query_lists_documents_once_iff_sample :
    (documentPaths [documentResult 0 ""
      ⟨"projects/@p/a.json", "A", "@p", "2024", false⟩]).Nodup := by
  have hall : ∀ d ∈ twoDocuments.doc, (twoDocuments.docTag.filter fun row =>
      row.1 == d.path && ["x"].contains row.2).length ≤ 1 := by decide
  refine (query_lists_documents_once_iff flatEngine asciiFold twoDocuments "tag:x"
    ⟨some [[.filter ⟨"tag", some "x"⟩]]⟩ (by decide) ?_).mpr ?_ 0 0 _ (by decide)
  · intro results hresults
    obtain rfl := Except.ok.inj hresults
    decide
  · intro d hd _ _ _
    exact hall d hd

/-- A document with both tags of the query is listed twice. -/
theorem two_tags_listed_twice :
    query flatEngine asciiFold twoDocuments "tag:x tag:y" 0 0 =
      .ok [documentResult 0 "" ⟨"projects/@p/a.json", "A", "@p", "2024", false⟩,
        documentResult 0 "" ⟨"projects/@p/a.json", "A", "@p", "2024", false⟩] := by
  decide

end Yanta.Search
