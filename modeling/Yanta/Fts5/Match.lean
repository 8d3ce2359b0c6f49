import Mathlib.Data.List.Infix
import Yanta.Fts5.Lexer
import Yanta.Fts5.Parser

/-!
# What an expression matches

A row has a list of words in each column. A phrase occurs in a column if its words stand
there next to each other, the last one possibly continued where the phrase has a star; a
phrase without words occurs nowhere and is skipped next to other phrases. `Denotes` says
what a text means on a row, and is closed under the ways of putting texts together.
-/

namespace Yanta.Fts5

open List

abbrev Word := List Char

/-- The columns of a row with their words. -/
abbrev Row := List (List Char × List Word)

/-- The phrase stands at the start of the words. -/
def matchesAt : List Word → Bool → List Word → Bool
  | [], _, _ => true
  | _ :: _, _, [] => false
  | [q], star, w :: _ => if star then q.isPrefixOf w else q == w
  | q :: q' :: qs, star, w :: ws => q == w && matchesAt (q' :: qs) star ws

def occurs (phrase : List Word) (star : Bool) (words : List Word) : Bool :=
  !phrase.isEmpty && words.tails.any (matchesAt phrase star)

/-- The filter lets a column through. -/
def Columns.covers (column : List Char) : Columns → Bool
  | .only name => foldName name == foldName column
  | .except name => !(foldName name == foldName column)

section

variable (tokenize : List Char → List Word) (row : Row)

/-- The phrase occurs in a column in scope. -/
def Phrase.matches (scope : List Char → Bool) (p : Phrase) : Bool :=
  row.any fun column =>
    scope column.1 && p.columns.all (Columns.covers column.1) &&
      occurs (tokenize p.text) p.star column.2

/-- The phrases that have words. -/
def nonemptyPhrases (list : List Phrase) : List Phrase :=
  list.filter fun p => !(tokenize p.text).isEmpty

def eval (scope : List Char → Bool) : Expr → Bool
  | .phrases list =>
    !(nonemptyPhrases tokenize list).isEmpty &&
      (nonemptyPhrases tokenize list).all (Phrase.matches tokenize row scope)
  | .columns c e => eval (fun column => scope column && c.covers column) e
  | .and l r => eval scope l && eval scope r
  | .or l r => eval scope l || eval scope r
  | .not l r => eval scope l && !eval scope r

/-- The text is an expression that is true of the row. -/
def Matches (table : List (List Char)) (s : List Char) : Prop :=
  ∃ ts e, lex s = some ts ∧ Derives .or ts e ∧ e.known table = true ∧
    eval tokenize row (fun _ => true) e = true

/-- The tree of a text whose columns the table has. -/
def compile (table : List (List Char)) (s : List Char) : Option Expr :=
  ((lex s).bind parse).filter fun e => e.known table

/-- The text is an expression of the level with this value on the row. -/
def Denotes (table : List (List Char)) (l : Level) (s : List Char) (b : Bool) : Prop :=
  Closed s ∧ ∃ ts e, lex s = some ts ∧ Derives l ts e ∧ e.known table = true ∧
    eval tokenize row (fun _ => true) e = b

end

theorem matches_iff_compile {tokenize : List Char → List Word} {row : Row}
    {table : List (List Char)} {s : List Char} :
    Matches tokenize row table s ↔
      ∃ e, compile table s = some e ∧ eval tokenize row (fun _ => true) e = true := by
  simp only [compile, Option.filter_eq_some_iff, Option.bind_eq_some_iff,
    parse_eq_some_iff]
  constructor
  · rintro ⟨ts, e, hlex, hderives, hknown, heval⟩
    exact ⟨e, ⟨⟨ts, hlex, hderives⟩, hknown⟩, heval⟩
  · rintro ⟨e, ⟨⟨ts, hlex, hderives⟩, hknown⟩, heval⟩
    exact ⟨ts, e, hlex, hderives, hknown, heval⟩

/-! ## Phrases without a star -/

theorem matchesAt_iff {phrase words : List Word} :
    matchesAt phrase false words = true ↔ phrase <+: words := by
  induction phrase generalizing words with
  | nil => simp [matchesAt]
  | cons q qs ih =>
    cases words with
    | nil => simp [matchesAt]
    | cons w ws =>
      cases qs with
      | nil => simp [matchesAt]
      | cons q' qs =>
        rw [matchesAt, Bool.and_eq_true, beq_iff_eq, ih, cons_prefix_cons]

theorem occurs_iff {phrase words : List Word} :
    occurs phrase false words = true ↔ phrase ≠ [] ∧ phrase <:+: words := by
  rw [occurs, Bool.and_eq_true, any_eq_true]
  refine and_congr (by simp) ?_
  constructor
  · rintro ⟨tail, htail, hmatch⟩
    exact (matchesAt_iff.mp hmatch).isInfix.trans (mem_tails tail words |>.mp htail).isInfix
  · intro h
    obtain ⟨tail, hpre, hsuf⟩ := infix_iff_prefix_suffix.mp h
    exact ⟨tail, (mem_tails tail words).mpr hsuf, matchesAt_iff.mpr hpre⟩

/-! ## Texts put together -/

section

variable {tokenize : List Char → List Word} {row : Row} {table : List (List Char)}
  {a b : List Char} {x y : Bool}

/-- A text has at most one tree, so its value is what it denotes. -/
theorem Denotes.matches_iff (h : Denotes tokenize row table .or a x) :
    Matches tokenize row table a ↔ x = true := by
  obtain ⟨-, ts, e, hlex, hderives, hknown, rfl⟩ := h
  constructor
  · rintro ⟨ts', e', hlex', hderives', -, heval⟩
    obtain rfl := Option.some.inj (hlex.symm.trans hlex')
    have hparse := parse_eq_some_iff.mpr hderives
    rw [parse_eq_some_iff.mpr hderives'] at hparse
    obtain rfl := Option.some.inj hparse
    exact heval
  · intro heval
    exact ⟨ts, e, hlex, hderives, hknown, heval⟩

theorem Denotes.not_level (h : Denotes tokenize row table .operand a x) :
    Denotes tokenize row table .not a x := by
  obtain ⟨hclosed, ts, e, hlex, hderives, hrest⟩ := h
  exact ⟨hclosed, ts, e, hlex, .operand hderives, hrest⟩

theorem Denotes.and_level (h : Denotes tokenize row table .not a x) :
    Denotes tokenize row table .and a x := by
  obtain ⟨hclosed, ts, e, hlex, hderives, hrest⟩ := h
  exact ⟨hclosed, ts, e, hlex, .ofNot hderives, hrest⟩

theorem Denotes.or_level (h : Denotes tokenize row table .and a x) :
    Denotes tokenize row table .or a x := by
  obtain ⟨hclosed, ts, e, hlex, hderives, hrest⟩ := h
  exact ⟨hclosed, ts, e, hlex, .ofAnd hderives, hrest⟩

theorem Denotes.group (h : Denotes tokenize row table .or a x) :
    Denotes tokenize row table .operand ('(' :: (a ++ [')'])) x := by
  obtain ⟨hclosed, ts, e, hlex, hderives, hrest⟩ := h
  refine ⟨closed_group hclosed, .lparen :: (ts ++ [.rparen]), e, ?_, .group hderives, hrest⟩
  rw [show '(' :: (a ++ [')']) = [] ++ '(' :: (a ++ ')' :: []) from rfl,
    lex_delimited delimiter_lparen closed_nil, lex_delimited delimiter_rparen hclosed,
      hlex]
  rfl

/-- Two texts with the word of an operator between them. -/
theorem Denotes.operator {k l : Level} {op : Expr → Expr → Expr} {g : Bool → Bool → Bool}
    (word : List Char) (hword : ∀ c ∈ word, isBareword c = true) (hne : word ≠ [])
    (hop : ∀ {ts us e f}, Derives k ts e → Derives l us f →
      Derives k (ts ++ wordToken word :: us) (op e f))
    (hknown : ∀ e f, (op e f).known table = (e.known table && f.known table))
    (heval : ∀ e f, eval tokenize row (fun _ => true) (op e f) =
      g (eval tokenize row (fun _ => true) e) (eval tokenize row (fun _ => true) f))
    (h : Denotes tokenize row table k a x) (h' : Denotes tokenize row table l b y) :
    Denotes tokenize row table k (a ++ ' ' :: (word ++ ' ' :: b)) (g x y) := by
  obtain ⟨hclosed, ts, e, hlex, hderives, hk, rfl⟩ := h
  obtain ⟨hclosed', us, f, hlex', hderives', hk', rfl⟩ := h'
  refine ⟨closed_operator word hclosed hclosed' hword, ts ++ wordToken word :: us, op e f, ?_,
    hop hderives hderives', by rw [hknown, hk, hk', Bool.and_self], heval e f⟩
  rw [lex_delimited delimiter_blank hclosed,
    lex_delimited delimiter_blank (closed_bareword hword), lex_bareword hne hword, hlex, hlex']
  simp

theorem Denotes.or (h : Denotes tokenize row table .or a x)
    (h' : Denotes tokenize row table .and b y) :
    Denotes tokenize row table .or (a ++ ' ' :: 'O' :: 'R' :: ' ' :: b) (x || y) :=
  .operator ['O', 'R'] (by simp [isBareword]) (by decide) .or (fun _ _ => rfl)
    (fun _ _ => rfl) h h'

theorem Denotes.and (h : Denotes tokenize row table .and a x)
    (h' : Denotes tokenize row table .not b y) :
    Denotes tokenize row table .and (a ++ ' ' :: 'A' :: 'N' :: 'D' :: ' ' :: b)
      (x && y) :=
  .operator ['A', 'N', 'D'] (by simp [isBareword]) (by decide) .and (fun _ _ => rfl)
    (fun _ _ => rfl) h h'

theorem Denotes.not (h : Denotes tokenize row table .not a x)
    (h' : Denotes tokenize row table .operand b y) :
    Denotes tokenize row table .not (a ++ ' ' :: 'N' :: 'O' :: 'T' :: ' ' :: b)
      (x && !y) :=
  .operator (g := fun x y => x && !y) ['N', 'O', 'T'] (by simp [isBareword]) (by decide)
    .not (fun _ _ => rfl) (fun _ _ => rfl) h h'

/-- A column filter on a string. -/
theorem denotes_column {name text : List Char} (hne : name ≠ [])
    (hbare : ∀ c ∈ name, isBareword c = true) (htoken : wordToken name = .string name)
    (hname : (Columns.only name).known table = true) (hclosed : Closed b)
    (hlex : lex b = some [.string text]) :
    Denotes tokenize row table .operand (name ++ ':' :: b)
      (row.any fun column => (foldName name == foldName column.1) &&
        occurs (tokenize text) false column.2) := by
  refine ⟨(closed_bareword hbare).delimited delimiter_colon hclosed,
    [.string name, .colon, .string text], .phrases [⟨some (.only name), text, false⟩], ?_,
    .phrases (.one (.filtered text (.only name))), ?_, ?_⟩
  · rw [lex_delimited delimiter_colon (closed_bareword hbare), lex_bareword hne hbare, htoken,
      hlex]
    rfl
  · simp [Expr.known, hname]
  · cases htext : tokenize text with
    | nil => simp [eval, nonemptyPhrases, htext, occurs]
    | cons w ws =>
      simp [eval, nonemptyPhrases, htext, Phrase.matches, Columns.covers]

/-- Operands joined with `AND`, each followed by negated ones: the value so far and the
last operand with its negations, which a further negation belongs to. -/
inductive Chain (tokenize : List Char → List Word) (row : Row) (table : List (List Char)) :
    List Char → Bool → Prop
  | alone {a : List Char} {x : Bool} (h : Denotes tokenize row table .not a x) :
      Chain tokenize row table a x
  | after {a b : List Char} {x y : Bool} (h : Denotes tokenize row table .and a x)
      (h' : Denotes tokenize row table .not b y) :
      Chain tokenize row table (a ++ ' ' :: 'A' :: 'N' :: 'D' :: ' ' :: b) (x && y)

theorem Chain.denotes (h : Chain tokenize row table a x) :
    Denotes tokenize row table .and a x := by
  cases h with
  | alone h => exact h.and_level
  | after h h' => exact h.and h'

section

variable (h : Chain tokenize row table a x)
  (h' : Denotes tokenize row table .operand b y)

include h h'

theorem Chain.and :
    Chain tokenize row table (a ++ ' ' :: 'A' :: 'N' :: 'D' :: ' ' :: b) (x && y) :=
  .after h.denotes h'.not_level

theorem Chain.not :
    Chain tokenize row table (a ++ ' ' :: 'N' :: 'O' :: 'T' :: ' ' :: b) (x && !y) := by
  cases h with
  | alone h => exact .alone (h.not h')
  | @after u v z w h h'' =>
    have hlater := Chain.after h (h''.not h')
    simpa [Bool.and_assoc] using hlater

end

end

end Yanta.Fts5
