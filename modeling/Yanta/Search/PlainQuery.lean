import Yanta.Fts5.Match
import Yanta.Search.WellFormed

/-!
# Queries of plain words

Queries of lower-case words and phrases with project, tag and scope filters, and what it
means that a branch holds for a document. The branches of such a query have one clause
for each term, in the scope of the last filter before it or in the inherited one.
-/

namespace Yanta.Search

open Go Fts5 Item Option
open List hiding lex

/-! ## Plain queries -/

/-- A lower-case ASCII letter or a digit. -/
def isPlainChar (c : Char) : Bool :=
  (97 ≤ c.toNat && c.toNat ≤ 122) || (48 ≤ c.toNat && c.toNat ≤ 57)

def LowerWord (w : Word) : Prop := w ≠ [] ∧ ∀ c ∈ w, isPlainChar c = true

/-- The words of a term. -/
def Term.words (t : Term) : List Word := t.value.toList.splitOn ' '

/-- The items of a plain query: a word or a phrase of words, or a filter on a project, a
tag or the scope. -/
inductive PlainItem (fold : CaseFold) : Item → Prop
  | term {t : Term} (h : ∀ w ∈ t.words, LowerWord w) : PlainItem fold (.term t)
  | project {f : Filter} (h : toLower fold.lower f.key = "project") :
      PlainItem fold (.filter f)
  | tag {f : Filter} (h : toLower fold.lower f.key = "tag") : PlainItem fold (.filter f)
  | scope {f : Filter} {value : String} {s : Scope} (h : toLower fold.lower f.key = "in")
      (hvalue : f.value = some value) (hs : scopeOf fold value = some s) :
      PlainItem fold (.filter f)

/-- The scope that an `in` filter sets. -/
def Item.scope? (fold : CaseFold) : Item → Option Scope
  | .filter f =>
    if toLower fold.lower f.key = "in" then f.value.bind (scopeOf fold) else none
  | .term _ => none

/-- The scope of the last `in` filter. -/
def lastScope (fold : CaseFold) (items : List Item) : Option Scope :=
  (items.filterMap (scope? fold)).getLast?

def Item.isFilter : Item → Bool
  | .filter _ => true
  | .term _ => false

/-- The scope of the last `in` filter in front of the first term of the first branch. -/
def inheritedScope (fold : CaseFold) (branches : List (List Item)) : Scope :=
  (lastScope fold ((branches.head?.getD []).takeWhile isFilter)).getD .any

/-- The words stand next to each other in a column of the scope. -/
def Present (title body : List Word) (scope : Scope) (words : List Word) : Prop :=
  match scope with
  | .title => words <:+: title
  | .body => words <:+: body
  | .any => words <:+: title ∨ words <:+: body

/-- The branch has terms, its positive terms are present and its negated ones are not. -/
def BranchHolds (fold : CaseFold) (inherited : Scope) (title body : List Word)
    (items : List Item) : Prop :=
  (∃ t, .term t ∈ items) ∧
    ∀ before t after, items = before ++ .term t :: after →
      (Present title body ((lastScope fold before).getD inherited) t.words ↔
        t.negated = false)

/-! ## Scopes -/

section

variable {fold : CaseFold} {scope : Scope} {items : List Item}

theorem lastScope_cons (item : Item) (items : List Item) :
    (lastScope fold (item :: items)).getD scope =
      (lastScope fold items).getD ((item.scope? fold).getD scope) := by
  unfold lastScope
  cases hitem : item.scope? fold with
  | none => rw [filterMap_cons_none hitem]; rfl
  | some s =>
    rw [filterMap_cons_some hitem, List.getLast?_cons]
    cases (items.filterMap (scope? fold)).getLast? <;> rfl

theorem lastScope_append (items others : List Item) :
    (lastScope fold (items ++ others)).getD scope =
      (lastScope fold others).getD ((lastScope fold items).getD scope) := by
  induction items generalizing scope with
  | nil => rfl
  | cons item items ih => rw [cons_append, lastScope_cons, ih, lastScope_cons]

theorem lastScope_drop (k : Nat) (items : List Item) :
    (lastScope fold (items.drop k)).getD ((lastScope fold items).getD scope) =
      (lastScope fold items).getD scope := by
  have hsplit : (lastScope fold items).getD scope = (lastScope fold (items.drop k)).getD
      ((lastScope fold (items.take k)).getD scope) := by
    rw [← lastScope_append, take_append_drop]
  rw [hsplit]
  cases lastScope fold (items.drop k) <;> rfl

end

/-! ## Texts of plain terms -/

section

variable {t : Term}

theorem words_ne_nil (t : Term) : t.words ≠ [] := splitOn_ne_nil _ _

theorem value_eq_intercalate (t : Term) : t.value.toList = [' '].intercalate t.words := by
  rw [Term.words, intercalate_splitOn]

theorem plainChar_of_mem (h : ∀ w ∈ t.words, LowerWord w) {c : Char}
    (hc : c ∈ t.value.toList) : c = ' ' ∨ isPlainChar c = true := by
  rw [value_eq_intercalate] at hc
  rcases mem_intercalate hc with hblank | ⟨w, hw, hcw⟩
  · exact .inl (mem_singleton.mp hblank)
  · exact .inr ((h w hw).2 c hcw)

theorem value_ne_nil (h : ∀ w ∈ t.words, LowerWord w) : t.value.toList ≠ [] := by
  intro hnil
  have hword : [] ∈ t.words := by simp [Term.words, hnil]
  exact (h [] hword).1 rfl

theorem ne_of_plainChar {c x : Char} (hc : c = ' ' ∨ isPlainChar c = true)
    (hblank : x ≠ ' ') (hx : isPlainChar x = false) : c ≠ x := by
  rintro rfl
  rcases hc with rfl | hplain
  · exact hblank rfl
  · rw [hx] at hplain
    exact Bool.false_ne_true hplain

theorem sanitizeTerm_plain (h : ∀ w ∈ t.words, LowerWord w) :
    sanitizeTerm t.value.toList = t.value.toList := by
  have hstar : (t.value.toList.getLast? == some '*') = false := by
    rw [beq_eq_false_iff_ne]
    intro hlast
    exact ne_of_plainChar (plainChar_of_mem h (mem_of_getLast? hlast)) (by decide)
      (by decide) rfl
  have hfilter : (t.value.toList.filter fun c => !droppedChars.contains c) =
      t.value.toList := by
    rw [filter_eq_self]
    intro c hc
    have hplain := plainChar_of_mem h hc
    have hne : ∀ x ∈ droppedChars, c ≠ x := by
      intro x hx
      apply ne_of_plainChar hplain
      · rintro rfl
        exact absurd hx (by decide)
      · have hall : (droppedChars.all fun x => !isPlainChar x) = true := by decide
        simpa using all_eq_true.mp hall x hx
    simp only [Bool.not_eq_true', contains_eq_mem, decide_eq_false_iff_not]
    exact fun hin => hne c hin rfl
  simp only [sanitizeTerm, hstar, Bool.false_eq_true, if_false, hfilter]
  rw [if_neg (value_ne_nil h)]

/-- What a plain item gives: a filter may set the scope, and a term is its own clause. -/
theorem convertItem_plain {fold : CaseFold} (scope : Scope) {item : Item}
    (h : PlainItem fold item) :
    convertItem fold scope item = ((item.scope? fold).getD scope,
      item.term?.map fun t => ⟨t.negated, scope, t.value.toList⟩) := by
  cases h with
  | @term t h =>
    have hquote : (t.value.toList.filter fun c => c != '\'') = t.value.toList := by
      rw [filter_eq_self]
      intro c hc
      simpa using ne_of_plainChar (plainChar_of_mem h hc) (by decide) (by decide)
    simp [convertItem, clause?, hquote, sanitizeTerm_plain h, value_ne_nil h, scope?,
      term?]
  | @project f hkey | @tag f hkey =>
    cases hvalue : f.value <;> simp [convertItem, scope?, term?, *]
  | @scope _ value s hkey hvalue hs =>
    have hne : value ≠ "" := by
      rintro rfl
      simp [scopeOf, toLower] at hs
    simp [convertItem, scope?, term?, hvalue, hkey, hne]

/-- The string token of a plain text. -/
theorem lex_operandText (h : ∀ w ∈ t.words, LowerWord w) :
    lex (operandText t.value.toList) = some [.string t.value.toList] := by
  unfold operandText
  split_ifs with hquoted
  · exact lex_quoteString _
  · have hplain : ∀ c ∈ t.value.toList, isPlainChar c = true := by
      intro c hc
      refine (plainChar_of_mem h hc).resolve_left ?_
      rintro rfl
      simp only [Bool.or_eq_true, not_or, Bool.not_eq_true] at hquoted
      exact absurd (any_eq_false.mp hquoted.1 ' ' hc) (by decide)
    have hbare : ∀ c ∈ t.value.toList, isBareword c = true := by
      intro c hc
      have hchar := hplain c hc
      simp only [isPlainChar, Bool.or_eq_true] at hchar
      rcases hchar with hchar | hchar <;> simp [isBareword, hchar]
    have hupper : ∀ {word : List Char} {x : Char}, word.head? = some x →
        isPlainChar x = false → t.value.toList ≠ word := by
      intro word x hhead hx heq
      rw [← heq] at hhead
      rw [hplain x (mem_of_mem_head? hhead)] at hx
      exact Bool.false_ne_true hx.symm
    rw [lex_bareword (value_ne_nil h) hbare, wordToken, if_neg, if_neg, if_neg]
    · exact hupper (x := 'N') rfl (by decide)
    · exact hupper (x := 'O') rfl (by decide)
    · exact hupper (x := 'A') rfl (by decide)

end

/-! ## Clauses of plain items -/

section

variable {fold : CaseFold} {scope : Scope} {items : List Item}

theorem clausesOf_cons {item : Item} (h : PlainItem fold item) :
    clausesOf fold scope (item :: items) =
      (item.term?.map fun t => ⟨t.negated, scope, t.value.toList⟩).toList ++
        clausesOf fold ((item.scope? fold).getD scope) items := by
  rw [clausesOf, convertItem_plain scope h]

/-- Filters in front only set the scope. -/
theorem clausesOf_filters (scope : Scope) (items : List Item) {filters : List Item}
    (hfilters : ∀ item ∈ filters, item.isFilter = true)
    (hplain : ∀ item ∈ filters, PlainItem fold item) :
    clausesOf fold scope (filters ++ items) =
      clausesOf fold ((lastScope fold filters).getD scope) items := by
  induction filters generalizing scope with
  | nil => rfl
  | cons item filters ih =>
    obtain ⟨hitem, hothers⟩ := forall_mem_cons.mp hfilters
    obtain ⟨hplainItem, hplainOthers⟩ := forall_mem_cons.mp hplain
    have hterm : item.term? = none := by
      cases item with
      | term t => exact absurd hitem Bool.false_ne_true
      | filter f => rfl
    rw [cons_append, clausesOf_cons hplainItem, hterm, ih _ hothers hplainOthers,
      lastScope_cons]
    rfl

/-- The clauses are those of the terms, each in the scope of the filters before it. -/
theorem mem_clausesOf (hplain : ∀ item ∈ items, PlainItem fold item) {c : Clause} :
    c ∈ clausesOf fold scope items ↔ ∃ before t after, items = before ++ .term t :: after ∧
      c = ⟨t.negated, (lastScope fold before).getD scope, t.value.toList⟩ := by
  induction items generalizing scope c with
  | nil => simp [clausesOf]
  | cons item items ih =>
    obtain ⟨hitem, htail⟩ := forall_mem_cons.mp hplain
    rw [clausesOf_cons hitem, mem_append, mem_toList, ih htail]
    constructor
    · rintro (hin | ⟨before, t, after, rfl, rfl⟩)
      · obtain ⟨t, hterm, rfl⟩ := map_eq_some_iff.mp hin
        cases item with
        | filter f => exact absurd hterm (by simp [term?])
        | term t' =>
          obtain rfl := Option.some.inj hterm
          exact ⟨[], t', items, rfl, rfl⟩
      · exact ⟨item :: before, t, after, rfl, by rw [lastScope_cons]⟩
    · rintro ⟨before, t, after, heq, rfl⟩
      cases before with
      | nil =>
        obtain ⟨rfl, rfl⟩ := List.cons.inj heq
        exact .inl rfl
      | cons i before =>
        obtain ⟨rfl, rfl⟩ := List.cons.inj heq
        exact .inr ⟨before, t, after, rfl, by rw [lastScope_cons]⟩

theorem negated_clausesOf (scope : Scope) (hplain : ∀ item ∈ items, PlainItem fold item) :
    (clausesOf fold scope items).map Clause.negated =
      (items.filterMap term?).map Term.negated := by
  induction items generalizing scope with
  | nil => rfl
  | cons item items ih =>
    obtain ⟨hitem, htail⟩ := forall_mem_cons.mp hplain
    rw [clausesOf_cons hitem, map_append, ih _ htail]
    cases item <;> rfl

end

/-! ## Leading filters -/

section

variable {fold : CaseFold} {scope : Scope} {items : List Item}

/-- What is taken from the front of a plain branch. -/
theorem leadingFilters_plain (scope : Scope) (hplain : ∀ item ∈ items, PlainItem fold item) :
    (∀ item ∈ (leadingFilters fold scope items).1,
        item.isFilter = true ∧ PlainItem fold item ∧ item.scope? fold = none) ∧
      (leadingFilters fold scope items).1.length ≤
        (items.takeWhile isFilter).length ∧
      (leadingFilters fold scope items).2.1 =
        (lastScope fold (items.takeWhile isFilter)).getD scope := by
  induction items generalizing scope with
  | nil => simp [leadingFilters, lastScope]
  | cons item items ih =>
    obtain ⟨hitem, htail⟩ := forall_mem_cons.mp hplain
    cases item with
    | term t => simp [leadingFilters, lastScope, isFilter]
    | filter f =>
      rw [takeWhile_cons_of_pos rfl, lastScope_cons]
      by_cases hcommon : toLower fold.lower f.key = "project" ∨
          toLower fold.lower f.key = "tag"
      · have hnone : scope? fold (.filter f) = none := by
          rcases hcommon with h | h <;> simp [scope?, h]
        obtain ⟨hall, hlength, hscope⟩ := ih scope htail
        rw [leadingFilters, if_pos hcommon, hnone]
        refine ⟨?_, by simpa using hlength, hscope⟩
        intro i hi
        rcases mem_cons.mp hi with rfl | hi
        · exact ⟨rfl, hitem, hnone⟩
        · exact hall i hi
      · have hin : toLower fold.lower f.key = "in" := by
          cases hitem with
          | project h => exact absurd (.inl h) hcommon
          | tag h => exact absurd (.inr h) hcommon
          | scope h _ _ => exact h
        have hset : scope? fold (.filter f) = f.value.bind (scopeOf fold) := by
          simp [scope?, hin]
        obtain ⟨hall, hlength, hscope⟩ :=
          ih ((f.value.bind (scopeOf fold)).getD scope) htail
        rw [leadingFilters, if_neg hcommon, if_pos hin, hset]
        exact ⟨hall, Nat.le_succ_of_le hlength, hscope⟩

/-- The first branch is only cut inside its leading filters. -/
theorem findIdx?_isScopeFilter_lt {j : Nat}
    (hscope : lastScope fold (items.takeWhile isFilter) ≠ none)
    (h : items.findIdx? (isScopeFilter fold) = some j) :
    j < (items.takeWhile isFilter).length := by
  induction items generalizing j with
  | nil => simp [lastScope] at hscope
  | cons item items ih =>
    cases item with
    | term t => simp [isFilter, lastScope] at hscope
    | filter f =>
      rw [takeWhile_cons_of_pos rfl] at hscope ⊢
      rw [List.findIdx?_cons] at h
      by_cases hin : toLower fold.lower f.key = "in"
      · rw [if_pos (by simpa [isScopeFilter] using hin)] at h
        obtain rfl := Option.some.inj h
        simp
      · rw [if_neg (by simpa [isScopeFilter] using hin)] at h
        obtain ⟨k, hk, rfl⟩ := map_eq_some_iff.mp h
        have hnone : scope? fold (.filter f) = none := by simp [scope?, hin]
        have hlater : lastScope fold (items.takeWhile isFilter) ≠ none := by
          rwa [lastScope, filterMap_cons_none hnone] at hscope
        exact Nat.succ_lt_succ (ih hlater hk)

theorem lastScope_eq_none (h : ∀ item ∈ items, item.scope? fold = none) :
    lastScope fold items = none := by
  rw [lastScope, filterMap_eq_nil_iff.mpr h]
  rfl

/-- Filters that set no scope change no clauses. -/
theorem clausesOf_common {common : List Item} (hcommon : ∀ item ∈ common,
      item.isFilter = true ∧ PlainItem fold item ∧ item.scope? fold = none)
    (items : List Item) :
    clausesOf fold scope (common ++ items) = clausesOf fold scope items := by
  rw [clausesOf_filters scope items (fun item hitem => (hcommon item hitem).1)
    (fun item hitem => (hcommon item hitem).2.1),
    lastScope_eq_none fun item hitem => (hcommon item hitem).2.2]
  rfl

/-- The leading filters of a branch set the scope of the rest. -/
theorem clausesOf_leading (scope : Scope) (hplain : ∀ item ∈ items, PlainItem fold item) :
    clausesOf fold scope items =
      clausesOf fold ((lastScope fold (items.takeWhile isFilter)).getD scope)
        (items.dropWhile isFilter) := by
  conv_lhs => rw [← takeWhile_append_dropWhile (p := isFilter) (l := items)]
  exact clausesOf_filters scope _ (fun _ hitem => mem_takeWhile_imp hitem)
    fun item hitem => hplain item (takeWhile_subset _ hitem)

/-- A cut inside the leading filters does not change the clauses of a branch that starts
in its own leading scope. -/
theorem clausesOf_cut {k : Nat} (hplain : ∀ item ∈ items, PlainItem fold item)
    (hk : k ≤ (items.takeWhile isFilter).length)
    (hscope : (lastScope fold (items.takeWhile isFilter)).getD scope = scope) :
    clausesOf fold scope (items.drop k) = clausesOf fold scope items := by
  have hdrop : items.drop k =
      (items.takeWhile isFilter).drop k ++ items.dropWhile isFilter := by
    rw [← drop_append_of_le_length hk, takeWhile_append_dropWhile]
  have hcut := @lastScope_drop fold scope k (items.takeWhile isFilter)
  rw [hscope] at hcut
  rw [hdrop, clausesOf_filters, hcut, clausesOf_leading scope hplain, hscope]
  · intro item hitem
    exact mem_takeWhile_imp (mem_of_mem_drop hitem)
  · intro item hitem
    exact hplain item (takeWhile_subset _ (mem_of_mem_drop hitem))

theorem commonFilters_plain {first : List Item} (second : List Item)
    (others : List (List Item))
    (hplain : ∀ item ∈ first, PlainItem fold item) :
    (∀ item ∈ (commonFilters fold (first :: second :: others)).1,
        item.isFilter = true ∧ PlainItem fold item ∧ item.scope? fold = none) ∧
      (commonFilters fold (first :: second :: others)).1.length ≤
        (first.takeWhile isFilter).length ∧
      (commonFilters fold (first :: second :: others)).2 =
        (lastScope fold (first.takeWhile isFilter)).getD .any := by
  obtain ⟨hall, hlength, hscope⟩ := leadingFilters_plain .any hplain
  refine ⟨?_, ?_, hscope⟩
  · intro item hitem
    simp only [commonFilters] at hitem
    split_ifs at hitem
    · exact hall item hitem
    · exact absurd hitem not_mem_nil
  · simp only [commonFilters]
    split_ifs
    · exact hlength
    · exact Nat.zero_le _

theorem startIndex_le {common : List Item}
    (hlength : common.length ≤ (items.takeWhile isFilter).length) :
    startIndex fold common ((lastScope fold (items.takeWhile isFilter)).getD .any) items ≤
      (items.takeWhile isFilter).length := by
  unfold startIndex
  split_ifs with hany
  · cases hfind : items.findIdx? (isScopeFilter fold) with
    | none => exact hlength
    | some j =>
      refine findIdx?_isScopeFilter_lt ?_ hfind
      intro hnone
      rw [hnone] at hany
      exact hany rfl
  · exact hlength

/-- Each branch has the clauses of its own items, in the inherited scope. -/
theorem branchClauses_plain {branches : List (List Item)}
    (hplain : ∀ items ∈ branches, ∀ item ∈ items, PlainItem fold item) :
    branchClauses fold branches =
      (branches.map (clausesOf fold (inheritedScope fold branches))).filter
        fun clauses => clauses ≠ [] := by
  cases branches with
  | nil => rfl
  | cons first others =>
    have hfirst := hplain first mem_cons_self
    have hscope : inheritedScope fold (first :: others) =
        (lastScope fold (first.takeWhile isFilter)).getD .any := rfl
    have hidem : (lastScope fold (first.takeWhile isFilter)).getD
        (inheritedScope fold (first :: others)) = inheritedScope fold (first :: others) := by
      rw [hscope]
      cases lastScope fold (first.takeWhile isFilter) <;> rfl
    cases others with
    | nil =>
      -- A branch alone starts in no scope, which its leading filters then set.
      have hany : clausesOf fold .any first =
          clausesOf fold (inheritedScope fold [first]) first := by
        rw [clausesOf_leading .any hfirst, clausesOf_leading (inheritedScope fold [first])
          hfirst, hidem, hscope]
      simp [branchClauses, branchItems, commonFilters, startIndex, hany]
    | cons second others =>
      obtain ⟨hcommon, hlength, hinherited⟩ := commonFilters_plain second others hfirst
      have hstart : startIndex fold (commonFilters fold (first :: second :: others)).1
          (inheritedScope fold (first :: second :: others)) first ≤
            (first.takeWhile isFilter).length := by
        exact startIndex_le hlength
      rw [branchClauses, branchItems, hinherited, ← hscope, List.map_cons, List.map_map,
        List.map_cons (a := first), clausesOf_common hcommon,
        clausesOf_cut hfirst hstart hidem]
      have hothers : clausesOf fold (inheritedScope fold (first :: second :: others)) ∘
          (fun items => (commonFilters fold (first :: second :: others)).1 ++ items) =
            clausesOf fold (inheritedScope fold (first :: second :: others)) := by
        funext items
        exact clausesOf_common hcommon items
      rw [hothers]

end

end Yanta.Search
