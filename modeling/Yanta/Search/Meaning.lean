import Yanta.Search.PlainQuery

/-!
# What a query of plain words means

For queries of lower-case words and phrases with project, tag and scope filters, the
expression that `ToFTS5` writes is true of a document exactly when some branch has all its
positive terms present and none of its negated ones, each looked up in its scope.
-/

namespace Yanta.Search

open Fts5 Clause
open List hiding lex

variable {c : Clause} {a : List Char} {x : Bool} {row : Row} {table : List (List Char)}
  {t : Term} {branches : List (List Clause)}

/-! ## Rows -/

/-- The tokenizer of the full-text table: on lower-case words with spaces between them it
gives the words, and a star is no word. -/
structure Tokenizer where
  tokenize : List Char → List Word
  plain : ∀ words, words ≠ [] → (∀ w ∈ words, LowerWord w) →
    tokenize ([' '].intercalate words) = words
  star : tokenize ['*'] = []

/-- The words are what stands between other characters. -/
def wordTokenizer : Tokenizer where
  tokenize text := (text.splitOnP fun c => !isPlainChar c).filter fun w => w ≠ []
  plain := by
    intro words hne hwords
    have hsplit : ([' '].intercalate words).splitOnP (fun c => !isPlainChar c) = words := by
      induction words with
      | nil => exact absurd rfl hne
      | cons w words ih =>
        have hw : ∀ c ∈ w, (!isPlainChar c) = false := by
          intro c hc
          rw [(hwords w mem_cons_self).2 c hc]
          rfl
        cases words with
        | nil => simpa using splitOnP_eq_singleton hw
        | cons v vs =>
          rw [intercalate_cons_cons, append_assoc, singleton_append,
            splitOnP_append_cons_of_forall_mem hw ' ' (by decide),
            ih (cons_ne_nil v vs) (forall_mem_cons.mp hwords).2]
    rw [hsplit, filter_eq_self]
    intro w hw
    simpa using (hwords w hw).1
  star := by decide

def headingsColumn : List Char := ['h', 'e', 'a', 'd', 'i', 'n', 'g', 's']

def codeColumn : List Char := ['c', 'o', 'd', 'e']

/-- A row of `fts_doc`. -/
def ftsRow (title headings body code : List Word) : Row :=
  [(titleColumn, title), (headingsColumn, headings), (bodyColumn, body), (codeColumn, code)]

/-! ## Values of clauses and branches -/

section

variable (tok : Tokenizer) (title headings body code : List Word)

/-- The clause with the words of its text holds. -/
def Clause.holds (tok : Tokenizer) (title body : List Word) (c : Clause) : Bool :=
  let words := tok.tokenize c.text
  let found :=
    match c.scope with
    | .title => occurs words false title
    | .body => occurs words false body
    | .any => occurs words false title || occurs words false body
  if c.negated then !found else found

/-- The text of the clause is one string for the full-text engine. -/
def Clause.Plain (c : Clause) : Prop :=
  lex (operandText c.text) = some [.string c.text]

/-- A filter on one of the two columns means that the words occur in that column. -/
theorem denotes_ftsCol (h : c.Plain) {name : List Char} {words : List Word}
    (hname : name = titleColumn ∧ words = title ∨ name = bodyColumn ∧ words = body) :
    Denotes tok.tokenize (ftsRow title headings body code) ftsDocColumns .operand
      (ftsCol name (quoteIfNeeded c.text)) (occurs (tok.tokenize c.text) false words) := by
  have hrow : ((ftsRow title headings body code).any fun column =>
      (foldName name == foldName column.1) &&
        occurs (tok.tokenize c.text) false column.2) =
      occurs (tok.tokenize c.text) false words := by
    rcases hname with ⟨rfl, rfl⟩ | ⟨rfl, rfl⟩ <;>
      simp [ftsRow, foldName, titleColumn, headingsColumn, bodyColumn, codeColumn]
  rw [ftsCol_quoteIfNeeded, ← hrow]
  rcases hname with ⟨rfl, -⟩ | ⟨rfl, -⟩
  · exact denotes_column (by decide) (by simp [titleColumn, isBareword]) (by decide)
      (by decide) (closed_operandText c.text) h
  · exact denotes_column (by decide) (by simp [bodyColumn, isBareword]) (by decide)
      (by decide) (closed_operandText c.text) h

/-- What the positive text of a clause means. -/
theorem denotes_positive (h : c.Plain) :
    Denotes tok.tokenize (ftsRow title headings body code) ftsDocColumns .operand c.positive
      (holds tok title body ⟨false, c.scope, c.text⟩) := by
  have htitle := denotes_ftsCol tok title headings body code h (.inl ⟨rfl, rfl⟩)
  have hbody := denotes_ftsCol tok title headings body code h (.inr ⟨rfl, rfl⟩)
  unfold positive holds
  cases c.scope with
  | title => exact htitle
  | body => exact hbody
  | any =>
    have hgroup := (htitle.not_level.and_level.or_level.or hbody.not_level.and_level).group
    simpa using hgroup

theorem chain_joinParts (clauses : List Clause) (hplain : ∀ c ∈ clauses, c.Plain)
    (ha : Chain tok.tokenize (ftsRow title headings body code) ftsDocColumns a x) :
    Chain tok.tokenize (ftsRow title headings body code) ftsDocColumns
      (a ++ joinParts (clauses.map render))
      (x && clauses.all (holds tok title body)) := by
  induction clauses generalizing a x with
  | nil => simpa [joinParts] using ha
  | cons c clauses ih =>
    have hrest := (forall_mem_cons.mp hplain).2
    have hpositive := denotes_positive tok title headings body code
      (hplain c mem_cons_self)
    rw [map_cons, joinParts, isPrefixOf_render, render, all_cons, ← Bool.and_assoc]
    cases hneg : c.negated with
    | true =>
      have hlater := ih hrest (ha.not hpositive)
      simpa [holds, hneg] using hlater
    | false =>
      have hlater := ih hrest (ha.and hpositive)
      simpa [holds, hneg] using hlater

/-- A branch that starts with a positive clause means that all its clauses hold. -/
theorem denotes_branchText {clauses : List Clause} (hne : clauses ≠ [])
    (hplain : ∀ c ∈ clauses, c.Plain) (hfirst : ∀ c ∈ clauses.head?, c.negated = false) :
    Denotes tok.tokenize (ftsRow title headings body code) ftsDocColumns .and
      (branchText clauses) (clauses.all (holds tok title body)) := by
  obtain ⟨c, rest, rfl⟩ := exists_cons_of_ne_nil hne
  have hneg : c.negated = false := hfirst c rfl
  have hpositive := denotes_positive tok title headings body code
    (hplain c mem_cons_self)
  have hchain := chain_joinParts tok title headings body code rest (forall_mem_cons.mp hplain).2
    (.alone hpositive.not_level)
  have hvalue : holds tok title body ⟨false, c.scope, c.text⟩ =
      holds tok title body c := by
    simp [holds, hneg]
  have htext : branchText (c :: rest) = c.positive ++ joinParts (rest.map render) := by
    simp [branchText, render, hneg]
  rw [htext, all_cons, ← hvalue]
  exact hchain.denotes

variable {tok} in
theorem Denotes.orPart (h : Denotes tok.tokenize row table .and a x) :
    Denotes tok.tokenize row table .and (orPart a) x := by
  unfold Search.orPart
  split_ifs
  · exact h.or_level.group.not_level.and_level
  · exact h

variable {tok} in
theorem denotes_more {value : List Clause → Bool}
    (ha : Denotes tok.tokenize row table .or a x)
    (h : ∀ clauses ∈ branches,
      Denotes tok.tokenize row table .and (branchText clauses) (value clauses)) :
    Denotes tok.tokenize row table .or
      (a ++ (branches.map branchText).flatMap fun p => ' ' :: 'O' :: 'R' :: ' ' :: orPart p)
      (x || branches.any value) := by
  induction branches generalizing a x with
  | nil => simpa using ha
  | cons clauses branches ih =>
    have hmore := ih (ha.or (Denotes.orPart (h clauses mem_cons_self)))
      (forall_mem_cons.mp h).2
    simpa [Bool.or_assoc] using hmore

variable {tok} in
theorem denotes_joinBranches {value : List Clause → Bool} (hsome : branches ≠ [])
    (h : ∀ clauses ∈ branches,
      Denotes tok.tokenize row table .and (branchText clauses) (value clauses)) :
    Denotes tok.tokenize row table .or (joinBranches (branches.map branchText))
      (branches.any value) := by
  cases branches with
  | nil => exact absurd rfl hsome
  | cons clauses branches =>
    obtain ⟨hfirst, hrest⟩ := forall_mem_cons.mp h
    cases branches with
    | nil => simpa [joinBranches] using hfirst.or_level
    | cons other branches =>
      rw [map_cons, map_cons, joinBranches, ← map_cons]
      · exact denotes_more (Denotes.orPart hfirst).or_level hrest
      · simp

/-- The marker of a query without terms is true of no row. -/
theorem not_matches_matchAll (row : Row) (table : List (List Char)) :
    ¬Matches tok.tokenize row table matchAll := by
  have hlex : lex matchAll = some [.string ['*']] := by decide
  have hdenotes : Denotes tok.tokenize row table .or matchAll false := by
    refine ⟨closed_quoteString ['*'], [.string ['*']], .phrases [⟨none, ['*'], false⟩], hlex,
      .ofAnd (.ofNot (.operand (.phrases (.one (.plain ['*']))))), ?_, ?_⟩
    · simp [Expr.known]
    · simp [eval, nonemptyPhrases, tok.star]
  rw [hdenotes.matches_iff]
  exact Bool.false_ne_true

end

/-! ## Queries -/

section

variable {fold : CaseFold} {items : List Item}

theorem tokenize_value (tok : Tokenizer) (h : ∀ w ∈ t.words, LowerWord w) :
    tok.tokenize t.value.toList = t.words := by
  rw [value_eq_intercalate]
  exact tok.plain t.words (words_ne_nil t) h

theorem holds_term_iff (tok : Tokenizer) (title body : List Word) (scope : Scope)
    (h : ∀ w ∈ t.words, LowerWord w) :
    holds tok title body ⟨t.negated, scope, t.value.toList⟩ = true ↔
      (Present title body scope t.words ↔ t.negated = false) := by
  have hfound : ∀ words, occurs t.words false words = true ↔ t.words <:+: words := by
    intro words
    rw [occurs_iff]
    exact and_iff_right (words_ne_nil t)
  simp only [holds, tokenize_value tok h]
  cases scope <;> cases t.negated <;>
    simp [Present, ← hfound]

theorem plain_of_term_mem {before after : List Item}
    (hplain : ∀ item ∈ items, PlainItem fold item) (h : items = before ++ .term t :: after) :
    ∀ w ∈ t.words, LowerWord w := by
  have hmem : .term t ∈ items := by
    rw [h]
    exact mem_append_right before mem_cons_self
  cases hplain _ hmem with
  | term hterm => exact hterm

theorem plain_of_mem_clausesOf {scope : Scope} (hplain : ∀ item ∈ items, PlainItem fold item)
    (h : c ∈ clausesOf fold scope items) : c.Plain := by
  obtain ⟨before, t, after, heq, rfl⟩ := (mem_clausesOf hplain).mp h
  exact lex_operandText (plain_of_term_mem hplain heq)

theorem branchHolds_iff (tok : Tokenizer) (title body : List Word) (scope : Scope)
    (hplain : ∀ item ∈ items, PlainItem fold item) :
    BranchHolds fold scope title body items ↔ clausesOf fold scope items ≠ [] ∧
      (clausesOf fold scope items).all (holds tok title body) = true := by
  rw [all_eq_true]
  refine and_congr ?_ ?_
  · constructor
    · rintro ⟨t, ht⟩
      obtain ⟨before, after, heq⟩ := append_of_mem ht
      exact ne_nil_of_mem ((mem_clausesOf hplain).mpr ⟨before, t, after, heq, rfl⟩)
    · intro hne
      obtain ⟨c, hc⟩ := exists_mem_of_ne_nil _ hne
      obtain ⟨before, t, after, heq, -⟩ := (mem_clausesOf hplain).mp hc
      exact ⟨t, by simp [heq]⟩
  · constructor
    · intro h c hc
      obtain ⟨before, t, after, heq, rfl⟩ := (mem_clausesOf hplain).mp hc
      exact (holds_term_iff tok title body _ (plain_of_term_mem hplain heq)).mpr
        (h before t after heq)
    · intro h before t after heq
      refine (holds_term_iff tok title body _ (plain_of_term_mem hplain heq)).mp ?_
      exact h _ ((mem_clausesOf hplain).mpr ⟨before, t, after, heq, rfl⟩)

theorem head?_clausesOf {scope : Scope} (hplain : ∀ item ∈ items, PlainItem fold item)
    (hfirst : ∀ t ∈ (items.filterMap Item.term?).head?, t.negated = false) :
    ∀ c ∈ (clausesOf fold scope items).head?, c.negated = false := by
  intro c hc
  have hflags := congrArg List.head? (negated_clausesOf scope hplain)
  rw [List.head?_map, List.head?_map, Option.mem_def.mp hc] at hflags
  obtain ⟨t, ht, htneg⟩ := Option.map_eq_some_iff.mp hflags.symm
  rw [← htneg]
  exact hfirst t ht

end

/-- A plain query whose branches start with a positive term is true of a document exactly
when some branch with terms holds. -/
theorem toFTS5_matches_iff (fold : CaseFold) (tok : Tokenizer) (branches : List (List Item))
    (hplain : ∀ items ∈ branches, ∀ item ∈ items, PlainItem fold item)
    (hfirst : ∀ items ∈ branches, ∀ t ∈ (items.filterMap Item.term?).head?,
      t.negated = false)
    (title headings body code : List Word) :
    Matches tok.tokenize (ftsRow title headings body code) ftsDocColumns
        (Query.toFTS5 fold ⟨some branches⟩) ↔
      ∃ items ∈ branches,
        BranchHolds fold (inheritedScope fold branches) title body items := by
  have hbranches : ∀ clauses ∈ branchClauses fold branches, ∃ items ∈ branches,
      clauses = clausesOf fold (inheritedScope fold branches) items ∧ clauses ≠ [] := by
    intro clauses hin
    rw [branchClauses_plain hplain] at hin
    obtain ⟨hmap, hne⟩ := mem_filter.mp hin
    obtain ⟨items, hitems, rfl⟩ := mem_map.mp hmap
    exact ⟨items, hitems, rfl, by simpa using hne⟩
  have hdenotes : ∀ clauses ∈ branchClauses fold branches,
      Denotes tok.tokenize (ftsRow title headings body code) ftsDocColumns .and
        (branchText clauses) (clauses.all (holds tok title body)) := by
    intro clauses hin
    obtain ⟨items, hitems, rfl, hne⟩ := hbranches clauses hin
    have hitemsPlain := hplain items hitems
    exact denotes_branchText tok title headings body code hne
      (fun c hc => plain_of_mem_clausesOf hitemsPlain hc)
      (head?_clausesOf hitemsPlain (hfirst items hitems))
  have hvalue : (branchClauses fold branches).any
      (fun clauses => clauses.all (holds tok title body)) = true ↔
      ∃ items ∈ branches,
        BranchHolds fold (inheritedScope fold branches) title body items := by
    rw [any_eq_true]
    constructor
    · rintro ⟨clauses, hin, hall⟩
      obtain ⟨items, hitems, rfl, hne⟩ := hbranches clauses hin
      exact ⟨items, hitems,
        (branchHolds_iff tok title body _ (hplain items hitems)).mpr ⟨hne, hall⟩⟩
    · rintro ⟨items, hitems, hholds⟩
      obtain ⟨hne, hall⟩ :=
        (branchHolds_iff tok title body _ (hplain items hitems)).mp hholds
      refine ⟨_, ?_, hall⟩
      rw [branchClauses_plain hplain]
      exact mem_filter.mpr ⟨mem_map_of_mem hitems, by simpa using hne⟩
  have htext : Query.toFTS5 fold ⟨some branches⟩ =
      joinBranches ((branchClauses fold branches).map branchText) :=
    toFTS5Branches_eq fold branches
  rw [← hvalue, htext]
  by_cases hnone : branchClauses fold branches = []
  · rw [hnone]
    simpa [joinBranches] using not_matches_matchAll tok _ _
  · exact (denotes_joinBranches hnone hdenotes).matches_iff

/-- A word in the title, without a phrase. -/
theorem toFTS5_matches_iff_sample :
    Matches wordTokenizer.tokenize (ftsRow [['f', 'o', 'o'], ['b', 'a', 'r']] [] [] [])
      ftsDocColumns (Query.toFTS5 asciiFold ⟨some
        [[.filter ⟨"in", some "title"⟩, .term ⟨false, .word "foo"⟩,
          .term ⟨true, .phrase "bar foo"⟩]]⟩) := by
  have hfoo : Term.words ⟨false, .word "foo"⟩ = [['f', 'o', 'o']] := by decide
  have hbar : Term.words ⟨true, .phrase "bar foo"⟩ =
      [['b', 'a', 'r'], ['f', 'o', 'o']] := by decide
  have hplain : ∀ item ∈ [.filter ⟨"in", some "title"⟩, .term ⟨false, .word "foo"⟩,
      .term ⟨true, .phrase "bar foo"⟩], PlainItem asciiFold item := by
    simp only [forall_mem_cons]
    refine ⟨.scope (s := .title) (by decide) rfl (by decide), .term ?_, .term ?_, by simp⟩
    · rw [hfoo]
      simp [LowerWord, isPlainChar]
    · rw [hbar]
      simp [LowerWord, isPlainChar]
  refine (toFTS5_matches_iff asciiFold wordTokenizer _ ?_ ?_ _ _ _ _).mpr ?_
  · simpa only [forall_mem_singleton] using hplain
  · rw [forall_mem_singleton]
    intro t ht
    obtain rfl := Option.some.inj ht
    rfl
  · refine ⟨_, mem_singleton_self _, ?_⟩
    exact (branchHolds_iff wordTokenizer _ _ _ hplain).mpr ⟨by decide, by decide⟩

end Yanta.Search
