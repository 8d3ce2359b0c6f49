import Yanta.Fts5.Validity
import Yanta.Search.ToFts5

/-!
# Which queries give well-formed expressions

`ToFTS5` writes a clause for each term. The expression of a query is well formed if and
only if no branch starts with a negated clause and the text of every clause is an operand
by itself: a text with a blank, a parenthesis, a quote, `#` or `@` is put in quotes and
always is one, any other text stands as it is.
-/

namespace Yanta.Search

open Fts5 Option
open List hiding lex

variable {text name other : List Char} {branches : List (List Clause)} {fold : CaseFold}

/-- The columns of `fts_doc`. -/
def ftsDocColumns : List (List Char) :=
  ["title".toList, "headings".toList, "body".toList, "code".toList, "path".toList]

/-- The clauses of the branches that have any. -/
def branchClauses (fold : CaseFold) (branches : List (List Item)) : List (List Clause) :=
  ((branchItems fold branches).map (clausesOf fold (commonFilters fold branches).2)).filter
    fun clauses => clauses ≠ []

def Query.clauses (fold : CaseFold) (q : Query) : List (List Clause) :=
  branchClauses fold (q.expression.getD [])

/-- The text of the clause is an operand of an expression. -/
def Clause.Operand (c : Clause) : Prop :=
  WellFormed ftsDocColumns (ftsCol titleColumn (quoteIfNeeded c.text))

/-! ## Clauses -/

/-- What `ftsCol` writes behind the colon. -/
def operandText (text : List Char) : List Char :=
  if needsQuotes text || text.any (fun c => c == '#' || c == '@') then quoteString text
  else text

variable {clauses : List Clause} (c : Clause)

section

variable {d : Nat}

theorem quoteString_of_notMem (h : '"' ∉ text) :
    quoteString text = '"' :: (text ++ ['"']) := by
  have hflat : text.flatMap (fun c => if c = '"' then ['"', '"'] else [c]) = text := by
    induction text with
    | nil => rfl
    | cons c text ih =>
      have hc : c ≠ '"' := fun heq => h (heq ▸ mem_cons_self)
      rw [flatMap_cons, if_neg hc, ih fun hin => h (mem_cons_of_mem c hin)]
      rfl
  rw [quoteString, hflat]

theorem notMem_of_needsQuotes (h : needsQuotes text = false) :
    '"' ∉ text ∧ '(' ∉ text ∧ ')' ∉ text := by
  have hall : ∀ c ∈ text, ¬(c == ' ' || c == '(' || c == ')' || c == '"') = true :=
    any_eq_false.mp h
  refine ⟨?_, ?_, ?_⟩ <;> intro hin <;> exact hall _ hin (by decide)

theorem ftsCol_quoteIfNeeded (col text : List Char) :
    ftsCol col (quoteIfNeeded text) = col ++ ':' :: operandText text := by
  unfold ftsCol quoteIfNeeded operandText
  by_cases hneeds : needsQuotes text = true
  · simp [hneeds, quoteString]
  · have hfalse : needsQuotes text = false := by simpa using hneeds
    obtain ⟨hquote, -⟩ := notMem_of_needsQuotes hfalse
    have hhead : text.head? ≠ some '"' :=
      fun heq => hquote (mem_of_mem_head? heq)
    rw [quoteString_of_notMem hquote]
    simp [hfalse, hhead]

theorem closed_operandText (text : List Char) : Closed (operandText text) := by
  unfold operandText
  split_ifs with hquoted
  · exact closed_quoteString text
  · simp only [Bool.or_eq_true, not_or, Bool.not_eq_true] at hquoted
    exact closed_of_notMem (notMem_of_needsQuotes hquoted.1).1

theorem flat_operandText {ts : List Fts5.Token} (h : lex (operandText text) = some ts) :
    Flat ts := by
  unfold operandText at h
  split_ifs at h with hquoted
  · rw [lex_quoteString] at h
    obtain rfl := Option.some.inj h
    intro t ht
    rw [mem_singleton.mp ht]
    exact ⟨by simp, by simp⟩
  · simp only [Bool.or_eq_true, not_or, Bool.not_eq_true] at hquoted
    exact flat_of_lex (notMem_of_needsQuotes hquoted.1).2 h

/-- The depth behind a column filter on the text, for either column. -/
theorem scanText_ftsCol (hname : name = titleColumn ∨ name = bodyColumn) (text : List Char) :
    scanText ftsDocColumns d (ftsCol name (quoteIfNeeded text)) =
      (scanText ftsDocColumns 0 (ftsCol titleColumn (quoteIfNeeded text))).map
        fun _ => d := by
  have hcolumn : ∀ (d : Nat) {name}, name = titleColumn ∨ name = bodyColumn →
      scanText ftsDocColumns d (ftsCol name (quoteIfNeeded text)) =
        (lex (operandText text)).bind fun ts =>
          (Support.run (shapeStep ftsDocColumns) (d, .column true) ts).bind Shape.depth := by
    intro d name hname
    rw [ftsCol_quoteIfNeeded]
    rcases hname with rfl | rfl
    · exact scanText_column (by decide) (by simp [titleColumn, isBareword]) rfl rfl
    · exact scanText_column (by decide) (by simp [bodyColumn, isBareword]) rfl rfl
  rw [hcolumn d hname, hcolumn 0 (.inl rfl)]
  cases hlex : lex (operandText text) with
  | none => rfl
  | some ts =>
    simp only [bind_some]
    rw [run_flat (flat_operandText hlex)]
    cases Support.run (shapeStep ftsDocColumns) (0, .column true) ts with
    | none => rfl
    | some s =>
      simp only [map_some, bind_some, Shape.depth]
      split_ifs <;> rfl

theorem closed_ftsCol (hname : name = titleColumn ∨ name = bodyColumn) (text : List Char) :
    Closed (ftsCol name (quoteIfNeeded text)) := by
  rw [ftsCol_quoteIfNeeded]
  refine Closed.delimited delimiter_colon ?_ (closed_operandText text)
  rcases hname with rfl | rfl
  · exact closed_bareword (by simp [titleColumn, isBareword])
  · exact closed_bareword (by simp [bodyColumn, isBareword])

/-- Whether the scan goes through an operand. -/
def Clause.ok (c : Clause) : Bool :=
  (scanText ftsDocColumns 0 (ftsCol titleColumn (quoteIfNeeded c.text))).isSome

theorem Clause.ok_iff : c.ok = true ↔ c.Operand := by
  rw [Clause.Operand, wellFormed_iff_scanText, Clause.ok]
  have hzero := scanText_ftsCol (d := 0) (.inl rfl) c.text
  cases hscan : scanText ftsDocColumns 0 (ftsCol titleColumn (quoteIfNeeded c.text)) with
  | none => simp
  | some n =>
    rw [hscan] at hzero
    simpa using hzero

theorem scanText_column_ok (hname : name = titleColumn ∨ name = bodyColumn) :
    scanText ftsDocColumns d (ftsCol name (quoteIfNeeded c.text)) =
      if c.ok then some d else none := by
  rw [scanText_ftsCol hname, Clause.ok]
  cases scanText ftsDocColumns 0 (ftsCol titleColumn (quoteIfNeeded c.text)) <;> rfl

/-- A text that is an operand at every depth or at none. -/
structure IsPart (text : List Char) (ok : Bool) : Prop where
  closed : Closed text
  scan : ∀ d, scanText ftsDocColumns d text = if ok then some d else none

theorem IsPart.group {ok : Bool} (h : IsPart text ok) :
    IsPart ('(' :: (text ++ [')'])) ok := by
  refine ⟨closed_group h.closed, ?_⟩
  intro d
  rw [scanText_group h.closed, h.scan]
  cases ok <;> simp

theorem IsPart.operator {ok ok' : Bool} (word : List Char) {op : Fts5.Token}
    (h : IsPart text ok) (h' : IsPart other ok') (htoken : wordToken word = op)
    (hop : IsOperator op) (hne : word ≠ []) (hword : ∀ c ∈ word, isBareword c = true) :
    IsPart (text ++ ' ' :: (word ++ ' ' :: other)) (ok && ok') := by
  refine ⟨closed_operator word h.closed h'.closed hword, ?_⟩
  intro d
  rw [scanText_operator word h.closed hne hword htoken hop, h.scan]
  cases ok with
  | false => rfl
  | true => simp [h'.scan]

theorem IsPart.or {ok ok' : Bool} (h : IsPart text ok) (h' : IsPart other ok') :
    IsPart (text ++ ' ' :: 'O' :: 'R' :: ' ' :: other) (ok && ok') :=
  h.operator ['O', 'R'] h' rfl (.inr (.inl rfl)) (by decide) (by simp [isBareword])

theorem isPart_positive : IsPart c.positive c.ok := by
  have hcolumn : ∀ name, name = titleColumn ∨ name = bodyColumn →
      IsPart (ftsCol name (quoteIfNeeded c.text)) c.ok := fun name hname =>
    ⟨closed_ftsCol hname c.text, fun d => scanText_column_ok c hname⟩
  unfold Clause.positive
  cases c.scope with
  | title => exact hcolumn titleColumn (.inl rfl)
  | body => exact hcolumn bodyColumn (.inr rfl)
  | any =>
    have hgroup := ((hcolumn titleColumn (.inl rfl)).or (hcolumn bodyColumn (.inr rfl))).group
    simpa using hgroup

end

/-! ## Branches -/

/-- The text of a branch. -/
def branchText (clauses : List Clause) : List Char :=
  match clauses.map Clause.render with
  | [] => []
  | part :: parts => part ++ joinParts parts

/-- No clause of the branch is malformed, and the first is not negated. -/
def goodBranch (clauses : List Clause) : Bool :=
  !(clauses.head?.any Clause.negated) && clauses.all Clause.ok

section

theorem head?_positive :
    c.positive.head? = some '(' ∨ c.positive.head? = some 't' ∨ c.positive.head? = some 'b' := by
  unfold Clause.positive
  cases c.scope with
  | any => exact .inl rfl
  | title =>
    exact .inr (.inl rfl)
  | body =>
    exact .inr (.inr rfl)

theorem isPrefixOf_render : ['N', 'O', 'T', ' '].isPrefixOf c.render = c.negated := by
  unfold Clause.render
  cases hneg : c.negated with
  | true => simp
  | false =>
    rcases head?_positive c with hhead | hhead | hhead <;>
      cases htext : c.positive with
      | nil => simp [htext] at hhead
      | cons x xs =>
        obtain rfl : x = _ := by simpa [htext] using hhead
        rfl

/-- A clause in front of a branch must not be negated. -/
theorem isPart_render : IsPart c.render (!c.negated && c.ok) := by
  have hpositive := isPart_positive c
  unfold Clause.render
  cases c.negated with
  | false => simpa using hpositive
  | true =>
    refine ⟨(closed_bareword (w := ['N', 'O', 'T']) (by simp [isBareword])).delimited
      delimiter_blank hpositive.closed, ?_⟩
    intro d
    rw [if_pos rfl, scanText_not_first]
    rfl

/-- Further clauses are joined to those in front. -/
theorem IsPart.joinParts {ok : Bool} (h : IsPart text ok) (clauses : List Clause) :
    IsPart (text ++ joinParts (clauses.map Clause.render)) (ok && clauses.all Clause.ok) := by
  induction clauses generalizing text ok with
  | nil => simpa [Search.joinParts] using h
  | cons c clauses ih =>
    have hpositive := isPart_positive c
    have hword : ∀ word ∈ [['N', 'O', 'T'], ['A', 'N', 'D']],
        ∀ x ∈ word, isBareword x = true := by simp [isBareword]
    rw [map_cons, Search.joinParts, isPrefixOf_render, Clause.render, all_cons,
      ← Bool.and_assoc]
    cases c.negated with
    | true =>
      have hnot := ih (h.operator ['N', 'O', 'T'] hpositive rfl (.inr (.inr rfl))
        (by decide) (hword _ (by simp)))
      simpa using hnot
    | false =>
      have hand := ih (h.operator ['A', 'N', 'D'] hpositive rfl (.inl rfl) (by decide)
        (hword _ (by simp)))
      simpa using hand

theorem isPart_branchText (hne : clauses ≠ []) :
    IsPart (branchText clauses) (goodBranch clauses) := by
  obtain ⟨c, rest, rfl⟩ := exists_cons_of_ne_nil hne
  have hgood : goodBranch (c :: rest) = ((!c.negated && c.ok) && rest.all Clause.ok) := by
    rw [Bool.and_assoc]
    rfl
  rw [hgood]
  exact (isPart_render c).joinParts rest

theorem branchText_ne_nil (hne : clauses ≠ []) : branchText clauses ≠ [] := by
  obtain ⟨c, rest, rfl⟩ := exists_cons_of_ne_nil hne
  have hrender : c.render ≠ [] := by
    unfold Clause.render
    split_ifs
    · exact cons_ne_nil _ _
    · rcases head?_positive c with h | h | h <;> exact fun hnil => by simp [hnil] at h
  exact append_ne_nil_of_left_ne_nil hrender _

theorem IsPart.orPart {ok : Bool} (h : IsPart text ok) : IsPart (orPart text) ok := by
  unfold Search.orPart
  split_ifs
  · exact h.group
  · exact h

theorem isPart_more {ok : Bool} (h : IsPart text ok)
    (hne : ∀ clauses ∈ branches, clauses ≠ []) :
    IsPart (text ++ (branches.map branchText).flatMap
      fun p => ' ' :: 'O' :: 'R' :: ' ' :: orPart p) (ok && branches.all goodBranch) := by
  induction branches generalizing text ok with
  | nil => simpa using h
  | cons clauses branches ih =>
    have hfirst := (isPart_branchText (hne clauses mem_cons_self)).orPart
    have hmore := ih (h.or hfirst) (forall_mem_cons.mp hne).2
    simpa [Bool.and_assoc] using hmore

theorem isPart_joinBranches (hsome : branches ≠ [])
    (hne : ∀ clauses ∈ branches, clauses ≠ []) :
    IsPart (joinBranches (branches.map branchText)) (branches.all goodBranch) := by
  cases branches with
  | nil => exact absurd rfl hsome
  | cons clauses branches =>
    have hfirst := isPart_branchText (hne clauses mem_cons_self)
    have hrest := (forall_mem_cons.mp hne).2
    cases branches with
    | nil => simpa [joinBranches] using hfirst
    | cons other branches =>
      rw [map_cons, joinBranches]
      · exact isPart_more hfirst.orPart hrest
      · simp

theorem toFTS5Branches_eq (fold : CaseFold) (branches : List (List Item)) :
    toFTS5Branches fold branches =
      joinBranches ((branchClauses fold branches).map branchText) := by
  have hfilter : ∀ lists : List (List Clause),
      (lists.map branchText).filter (fun part => part ≠ []) =
        (lists.filter fun clauses => clauses ≠ []).map branchText := by
    intro lists
    induction lists with
    | nil => rfl
    | cons clauses lists ih =>
      by_cases hnil : clauses = []
      · rw [map_cons, hnil, filter_cons_of_neg (by simp [branchText]), ih,
          filter_cons_of_neg (by simp)]
      · rw [map_cons, filter_cons_of_pos (by simpa using branchText_ne_nil hnil),
          ih, filter_cons_of_pos (by simpa using hnil), map_cons]
  rw [branchClauses, ← hfilter, List.map_map]
  rfl

theorem toFTS5_eq (q : Query) :
    q.toFTS5 fold = joinBranches ((q.clauses fold).map branchText) := by
  unfold Query.toFTS5 Query.clauses
  cases q.expression with
  | none => rfl
  | some branches => exact toFTS5Branches_eq fold branches

theorem clauses_ne_nil {q : Query} (h : clauses ∈ q.clauses fold) : clauses ≠ [] := by
  simpa using (mem_filter.mp h).2

end

/-- The expression of a query with terms is well formed if and only if no branch starts
with a negated clause and the text of every clause is an operand. -/
theorem toFTS5_wellFormed_iff (fold : CaseFold) (input : String) (q : Query)
    (_ : parse input = some q) (hterms : q.toFTS5 fold ≠ matchAll) :
    WellFormed ftsDocColumns (q.toFTS5 fold) ↔
      ∀ clauses ∈ q.clauses fold,
        (∀ c ∈ clauses.head?, c.negated = false) ∧ ∀ c ∈ clauses, c.Operand := by
  have hsome : q.clauses fold ≠ [] := by
    intro hnil
    rw [toFTS5_eq, hnil] at hterms
    exact hterms rfl
  have hpart := isPart_joinBranches hsome fun clauses hin => clauses_ne_nil hin
  rw [toFTS5_eq, wellFormed_iff_scanText, hpart.scan]
  have hgood : (q.clauses fold).all goodBranch = true ↔
      ∀ clauses ∈ q.clauses fold,
        (∀ c ∈ clauses.head?, c.negated = false) ∧ ∀ c ∈ clauses, c.Operand := by
    rw [List.all_eq_true]
    refine forall₂_congr fun clauses _ => ?_
    rw [goodBranch, Bool.and_eq_true, List.all_eq_true]
    refine and_congr ?_ (forall₂_congr fun c _ => c.ok_iff)
    cases clauses.head? <;> simp
  rw [← hgood]
  cases (q.clauses fold).all goodBranch <;> simp

/-- Two words are looked up in the title and in the body. -/
theorem toFTS5_wellFormed_iff_sample :
    ∃ q, parse "foo bar" = some q ∧ WellFormed ftsDocColumns (q.toFTS5 asciiFold) := by
  refine ⟨⟨some [[.term ⟨false, .word "foo"⟩, .term ⟨false, .word "bar"⟩]]⟩, by decide, ?_⟩
  have hclauses : (Query.mk (some [[.term ⟨false, .word "foo"⟩,
      .term ⟨false, .word "bar"⟩]])).clauses asciiFold =
      [[⟨false, .any, ['f', 'o', 'o']⟩, ⟨false, .any, ['b', 'a', 'r']⟩]] := by decide
  refine (toFTS5_wellFormed_iff asciiFold "foo bar" _ (by decide) (by decide)).mpr ?_
  rw [hclauses, forall_mem_singleton]
  refine ⟨by simp, ?_⟩
  intro c hc
  rw [← Clause.ok_iff]
  rcases mem_cons.mp hc with rfl | hin
  · decide
  · rw [mem_singleton.mp hin]
    decide

/-- A query that starts with a negated word is an expression that starts with `NOT`. -/
theorem negated_first_not_wellFormed :
    (parse "-foo").map (fun q => q.toFTS5 asciiFold) =
        some "NOT (title:foo OR body:foo)".toList ∧
      ¬WellFormed ftsDocColumns "NOT (title:foo OR body:foo)".toList := by
  refine ⟨by decide, ?_⟩
  rw [wellFormed_iff_scanText]
  decide

end Yanta.Search
