import Mathlib.Data.List.Perm.Subperm
import Yanta.Search.Listing

/-!
# Filters and branches

A branch of a query asks for its terms and for its projects and tags, with those in front
of the first branch. `Query` collects the filters of all branches into one condition, so a
document may have the terms of one branch and the project or tag of another.
-/

namespace Yanta.Search

open Fts5 List

/-- What a branch asks for. -/
structure Demand where
  projects : List String
  tags : List String
  clauses : List Clause
deriving DecidableEq, Repr

/-- The project and tag filters that lead the first branch. -/
def Query.leading (fold : CaseFold) (q : Query) : List Item :=
  (leadingFilters fold .any ((q.expression.getD []).head?.getD [])).1

/-- The demand of each branch, with the filters that lead the first one. -/
def Query.demands (fold : CaseFold) (q : Query) : List Demand :=
  let branches := q.expression.getD []
  (branches.zip (branchItems fold branches)).map fun branch =>
    let filters := (q.leading fold ++ branch.1).filterMap Item.filter?
    { projects := filters.filterMap (Filter.project fold)
      tags := filters.filterMap (Filter.tag fold)
      clauses := clausesOf fold (commonFilters fold branches).2 branch.2 }

section

variable {ρ : Type} (e : Engine ρ)

/-- The text has the positive terms and none of the negated ones. -/
def Demand.TextHolds (b : Demand) (f : FullText) : Prop :=
  ∀ c ∈ b.clauses,
    (Matches e.tokenize (e.row f) ftsDocColumns c.positive ↔ c.negated = false)

/-- The document has the project, the tags and the terms. -/
def Demand.Met (b : Demand) (db : Database) (d : Document) : Prop :=
  (∀ p ∈ b.projects, p = d.projectAlias) ∧ (∀ t ∈ b.tags, (d.path, t) ∈ db.docTag) ∧
    (b.clauses = [] ∨ ∃ f ∈ db.ftsDoc, f.path = d.path ∧ b.TextHolds e f)

/-- A text that the query matches, in any project and with any tag that the query names,
has the terms of a branch that names no other project and no other tag. -/
def Query.Separable (fold : CaseFold) (q : Query) : Prop :=
  ∀ f p t, (q.hasTerms fold = true → TextMatches e fold q f) →
    ((q.extractFilters fold).1 = [] ∨ p ∈ (q.extractFilters fold).1) →
    ((q.extractFilters fold).2 = [] ∨ t ∈ (q.extractFilters fold).2) →
    ∃ b ∈ q.demands fold, (∀ p' ∈ b.projects, p' = p) ∧ (∀ t' ∈ b.tags, t' = t) ∧
      b.TextHolds e f

end

/-! ## Queries without terms -/

section

variable {fold : CaseFold} {q : Query}

theorem head?_render (c : Clause) : ∃ x, c.render.head? = some x ∧ x ≠ '"' := by
  unfold Clause.render
  split_ifs
  · exact ⟨'N', rfl, by decide⟩
  · rcases head?_positive c with h | h | h
    · exact ⟨'(', h, by decide⟩
    · exact ⟨'t', h, by decide⟩
    · exact ⟨'b', h, by decide⟩

theorem head?_orPart {s : List Char} (h : ∃ x, s.head? = some x ∧ x ≠ '"') :
    ∃ x, (orPart s).head? = some x ∧ x ≠ '"' := by
  unfold orPart
  split_ifs
  · exact ⟨'(', rfl, by decide⟩
  · exact h

theorem head?_append_left {s : List Char} (more : List Char)
    (h : ∃ x, s.head? = some x ∧ x ≠ '"') : ∃ x, (s ++ more).head? = some x ∧ x ≠ '"' := by
  obtain ⟨x, hx, hne⟩ := h
  exact ⟨x, by simp [hx], hne⟩

theorem head?_branchText {clauses : List Clause} (h : clauses ≠ []) :
    ∃ x, (branchText clauses).head? = some x ∧ x ≠ '"' := by
  obtain ⟨c, rest, rfl⟩ := exists_cons_of_ne_nil h
  exact head?_append_left _ (head?_render c)

/-- The expression of branches with clauses is not the marker. -/
theorem head?_joinBranches {branches : List (List Clause)} (hsome : branches ≠ [])
    (hne : ∀ clauses ∈ branches, clauses ≠ []) :
    ∃ x, (joinBranches (branches.map branchText)).head? = some x ∧ x ≠ '"' := by
  cases branches with
  | nil => exact absurd rfl hsome
  | cons clauses branches =>
    have hfirst := head?_branchText (hne clauses mem_cons_self)
    cases branches with
    | nil => simpa [joinBranches] using hfirst
    | cons other branches =>
      rw [map_cons, joinBranches]
      · exact head?_append_left _ (head?_orPart hfirst)
      · simp

/-- Without terms no branch has a clause. -/
theorem clauses_eq_nil (hterms : q.hasTerms fold ≠ true) {b : Demand}
    (hb : b ∈ q.demands fold) : b.clauses = [] := by
  by_contra hne
  obtain ⟨branch, hbranch, rfl⟩ := mem_map.mp hb
  have hitems := (of_mem_zip hbranch).2
  have hin : clausesOf fold (commonFilters fold (q.expression.getD [])).2 branch.2 ∈
      q.clauses fold :=
    mem_filter.mpr ⟨mem_map_of_mem hitems, by simpa using hne⟩
  obtain ⟨x, hx, hquote⟩ := head?_joinBranches (ne_nil_of_mem hin)
    fun clauses h => clauses_ne_nil h
  rw [← toFTS5_eq] at hx
  apply hterms
  simp only [Query.hasTerms, Bool.and_eq_true, decide_eq_true_eq]
  refine ⟨?_, ?_⟩
  · intro hnil
    simp [hnil] at hx
  · intro hmarker
    rw [hmarker] at hx
    exact hquote (Option.some.inj hx).symm

end

theorem leadingFilters_subset (scope : Scope) (items : List Item) :
    (leadingFilters fold scope items).1 ⊆ items := by
  induction items generalizing scope with
  | nil => exact nil_subset []
  | cons item items ih =>
    cases item with
    | term t => exact nil_subset _
    | filter f =>
      rw [leadingFilters]
      split_ifs
      · exact cons_subset_cons _ (ih scope)
      · exact List.Subset.trans (ih _) (subset_cons_self _ _)
      · exact nil_subset _

/-- The tags of a branch are tags of the query. -/
theorem demand_tags_subset {q : Query} {b : Demand} (hb : b ∈ q.demands fold) :
    b.tags ⊆ (q.extractFilters fold).2 := by
  obtain ⟨branch, hbranch, rfl⟩ := mem_map.mp hb
  have hown : branch.1 ⊆ q.items := by
    intro item hitem
    exact mem_flatten.mpr ⟨branch.1, (of_mem_zip hbranch).1, hitem⟩
  have hleading : q.leading fold ⊆ q.items := by
    intro item hitem
    have hfirst := leadingFilters_subset _ _ hitem
    cases hhead : (q.expression.getD []).head? with
    | none => simp [hhead] at hfirst
    | some first =>
      rw [hhead] at hfirst
      exact mem_flatten.mpr ⟨first, mem_of_mem_head? hhead, hfirst⟩
  have hitems : q.leading fold ++ branch.1 ⊆ q.items := append_subset.mpr ⟨hleading, hown⟩
  exact filterMap_subset _ (filterMap_subset _ hitems)

/-! ## One document -/

section

/-- A database of one document with one tag. -/
def oneDocument (f : FullText) (p t : String) : Database where
  doc := [⟨f.path, f.title, p, "", false⟩]
  ftsDoc := [f]
  docTag := [(f.path, t)]
  ftsJournal := []
  doc_key := nodup_singleton _
  ftsDoc_key := nodup_singleton _
  docTag_key := nodup_singleton _

variable {ρ : Type} {e : Engine ρ} {fold : CaseFold} {q : Query} {input : String}
  {f : FullText} {p t : String}

theorem length_documentRows_le {db : Database} :
    (documentRows e fold db q).length ≤ db.doc.length := by
  have hsubset : (documentRows e fold db q).map Result.id ⊆ db.doc.map Document.path := by
    intro path hpath
    obtain ⟨r, hr, rfl⟩ := mem_map.mp hpath
    obtain ⟨d, hd, hid, -⟩ := mem_documentRows hr
    exact mem_map.mpr ⟨d, (mem_active_iff.mp hd).1, hid⟩
  have hlength := (subperm_of_subset documentRows_nodup hsubset).length_le
  simpa using hlength

theorem tagRows_oneDocument_le (tags : List String) (path : String) :
    (oneDocument f p t).tagRows tags path ≤ 1 := by
  unfold Database.tagRows
  split_ifs
  · exact Nat.le_refl 1
  · exact length_filter_le _ _

theorem journalResults_oneDocument :
    journalResults e fold (oneDocument f p t) q = [] := by
  unfold journalResults searchJournals
  simp only
  split_ifs
  · cases compile ftsJournalColumns (q.toFTS5Journal fold) with
    | none => rfl
    | some expr => exact (e.orderBy_perm _).eq_nil
  · rfl

/-- The results for one document fit on one page. -/
theorem length_oneDocument_le {results : List (Result ρ)}
    (h : ranking e fold (oneDocument f p t) q = .ok results) :
    (results.length : Int) ≤ maxInt := by
  have hlength := (ranking_perm h).length_eq
  rw [journalResults_oneDocument, append_nil] at hlength
  have hjoined : (joinTags (oneDocument f p t) (q.extractFilters fold).2
      (documentRows e fold (oneDocument f p t) q)).length ≤
      (documentRows e fold (oneDocument f p t) q).length := by
    generalize documentRows e fold (oneDocument f p t) q = rows
    induction rows with
    | nil => exact Nat.le_refl 0
    | cons r rows ih =>
      have hrow := tagRows_oneDocument_le (f := f) (p := p) (t := t)
        (q.extractFilters fold).2 r.id
      simp only [joinTags, flatMap_cons, length_append, length_replicate,
        length_cons] at ih ⊢
      omega
  have hrows : (documentRows e fold (oneDocument f p t) q).length ≤
      (oneDocument f p t).doc.length := length_documentRows_le
  have hone : (oneDocument f p t).doc.length = 1 := rfl
  unfold maxInt
  omega

/-- The document is found if its text, project and tag are asked for. -/
theorem oneDocument_listed (hparse : parse input = some q)
    (hsearch : q.hasTerms fold = true ∨ q.hasFilters fold = true)
    (htext : q.hasTerms fold = true → TextMatches e fold q f)
    (hp : (q.extractFilters fold).1 = [] ∨ p ∈ (q.extractFilters fold).1)
    (ht : (q.extractFilters fold).2 = [] ∨ t ∈ (q.extractFilters fold).2) :
    ∃ results, query e fold (oneDocument f p t) input Int64.maxValue 0 = .ok results ∧
      ∃ r ∈ results, r.type = .document := by
  obtain ⟨results, hranking⟩ := ranking_isOk (oneDocument f p t)
    (fun hterms => ⟨f, htext hterms⟩)
  have hactive : (⟨f.path, f.title, p, "", false⟩ : Document) ∈
      (oneDocument f p t).active (q.extractFilters fold).1 :=
    mem_active_iff.mpr ⟨mem_singleton_self _, rfl, hp⟩
  obtain ⟨r, hr, hid⟩ := exists_mem_documentRows hsearch hactive fun hterms =>
    ⟨f, mem_singleton_self f, rfl, htext hterms⟩
  have hjoined : r ∈ joinTags (oneDocument f p t) (q.extractFilters fold).2
      (documentRows e fold (oneDocument f p t) q) := by
    refine mem_joinTags.mpr ⟨hr, tagRows_ne_zero_iff.mpr fun htags => ?_⟩
    rw [hid]
    exact ⟨t, ht.resolve_left htags, mem_singleton_self _⟩
  have hmem := (documents_of_ranking hranking).mem_iff.mpr hjoined
  refine ⟨results, ?_, r, (mem_filter.mp hmem).1, type_documentRows hr⟩
  rw [query_eq_ok_iff hparse hranking]
  exact paginate_all results (length_oneDocument_le hranking)

end

/-- A document with the word of one branch in the project of another. -/
def misplacedDocument : Database where
  doc := [⟨"projects/@b/a.json", "A", "@b", "2024", false⟩]
  ftsDoc := [⟨"projects/@b/a.json", "", "", "foo", ""⟩]
  docTag := []
  ftsJournal := []
  doc_key := by decide
  ftsDoc_key := by decide
  docTag_key := by decide

end Yanta.Search
