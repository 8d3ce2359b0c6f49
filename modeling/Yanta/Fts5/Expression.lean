import Mathlib.Data.List.Basic

/-!
# Full-text expressions

The expressions that SQLite's FTS5 accepts on the right of `MATCH`: their tokens, their
grammar and their trees. `NOT` binds tighter than `AND`, `AND` tighter than `OR`, and all
three group to the left. Phrases next to each other are joined implicitly, which binds
tightest. A column filter stands in front of a phrase or of a group in parentheses.

`NEAR` groups, phrases put together with `+`, phrases marked with `^` and column lists in
braces are left out: the characters `+ ^ ,` and braces are tokens that no rule uses.
-/

namespace Yanta.Fts5

/-! ## Tokens -/

inductive Token where
  | string (text : List Char)
  | and
  | or
  | not
  | colon
  | minus
  | star
  | lparen
  | rparen
  | other (c : Char)
deriving DecidableEq, Repr

/-- The white space between tokens. -/
def isBlank (c : Char) : Bool := c == ' ' || c == '\t' || c == '\n' || c == '\r'

/-- The characters of a word without quotes. -/
def isBareword (c : Char) : Bool :=
  128 ≤ c.toNat || (48 ≤ c.toNat && c.toNat ≤ 57) || (65 ≤ c.toNat && c.toNat ≤ 90) ||
    (97 ≤ c.toNat && c.toNat ≤ 122) || c == '_' || c.toNat == 26

/-- A word without quotes is an operator or a string. -/
def wordToken (word : List Char) : Token :=
  if word = ['A', 'N', 'D'] then .and
  else if word = ['O', 'R'] then .or
  else if word = ['N', 'O', 'T'] then .not
  else .string word

/-- The token of a character that is one by itself. -/
def charToken (c : Char) : Option Token :=
  if c = ':' then some .colon
  else if c = '-' then some .minus
  else if c = '*' then some .star
  else if c = '(' then some .lparen
  else if c = ')' then some .rparen
  else if c = '\x7b' ∨ c = '\x7d' ∨ c = ',' ∨ c = '+' ∨ c = '^' then some (.other c)
  else none

/-- Where the lexer stands: between tokens, in a word, in a quoted string, or behind a
quote that ends the string unless another one follows. -/
inductive Lexer where
  | between (done : List Token)
  | word (done : List Token) (text : List Char)
  | quoted (done : List Token) (text : List Char)
  | quote (done : List Token) (text : List Char)
  | failed
deriving DecidableEq, Repr

/-- The start of a token. -/
def Lexer.start (done : List Token) (c : Char) : Lexer :=
  if isBlank c then .between done
  else if c = '"' then .quoted done []
  else if isBareword c then .word done [c]
  else
    match charToken c with
    | some t => .between (done ++ [t])
    | none => .failed

def Lexer.step : Lexer → Char → Lexer
  | .between done, c => .start done c
  | .word done text, c =>
    if isBareword c then .word done (text ++ [c]) else .start (done ++ [wordToken text]) c
  | .quoted done text, c =>
    if c = '"' then .quote done text else .quoted done (text ++ [c])
  | .quote done text, c =>
    if c = '"' then .quoted done (text ++ [c]) else .start (done ++ [.string text]) c
  | .failed, _ => .failed

/-- The tokens read when the text ends. -/
def Lexer.finish : Lexer → Option (List Token)
  | .between done => some done
  | .word done text => some (done ++ [wordToken text])
  | .quoted _ _ => none
  | .quote done text => some (done ++ [.string text])
  | .failed => none

def lex (s : List Char) : Option (List Token) := (s.foldl Lexer.step (.between [])).finish

/-! ## Trees -/

/-- A column filter: one column, or all but one. -/
inductive Columns where
  | only (name : List Char)
  | except (name : List Char)
deriving DecidableEq, Repr

structure Phrase where
  columns : Option Columns
  text : List Char
  star : Bool
deriving DecidableEq, Repr

inductive Expr where
  | phrases (list : List Phrase)
  | columns (c : Columns) (e : Expr)
  | and (left right : Expr)
  | or (left right : Expr)
  | not (left right : Expr)
deriving DecidableEq, Repr

/-! ## The grammar -/

inductive DerivesColumns : List Token → Columns → Prop
  | only (name : List Char) : DerivesColumns [.string name] (.only name)
  | except (name : List Char) : DerivesColumns [.minus, .string name] (.except name)

/-- A string with an optional star and an optional column filter. -/
inductive DerivesPhrase : List Token → Phrase → Prop
  | plain (text : List Char) : DerivesPhrase [.string text] ⟨none, text, false⟩
  | star (text : List Char) : DerivesPhrase [.string text, .star] ⟨none, text, true⟩
  | filtered {cs : List Token} {c : Columns} (text : List Char) (hc : DerivesColumns cs c) :
      DerivesPhrase (cs ++ [.colon, .string text]) ⟨some c, text, false⟩
  | filteredStar {cs : List Token} {c : Columns} (text : List Char)
      (hc : DerivesColumns cs c) :
      DerivesPhrase (cs ++ [.colon, .string text, .star]) ⟨some c, text, true⟩

/-- One or more phrases next to each other. -/
inductive DerivesList : List Token → List Phrase → Prop
  | one {ts : List Token} {p : Phrase} (h : DerivesPhrase ts p) : DerivesList ts [p]
  | more {ts us : List Token} {list : List Phrase} {p : Phrase} (h : DerivesList ts list)
      (hp : DerivesPhrase us p) : DerivesList (ts ++ us) (list ++ [p])

/-- The levels of precedence, tightest first. -/
inductive Level where
  | operand
  | not
  | and
  | or
deriving DecidableEq, Repr

inductive Derives : Level → List Token → Expr → Prop
  | phrases {ts : List Token} {list : List Phrase} (h : DerivesList ts list) :
      Derives .operand ts (.phrases list)
  | group {ts : List Token} {e : Expr} (h : Derives .or ts e) :
      Derives .operand (.lparen :: (ts ++ [.rparen])) e
  | filter {cs ts : List Token} {c : Columns} {e : Expr} (hc : DerivesColumns cs c)
      (h : Derives .or ts e) :
      Derives .operand (cs ++ .colon :: .lparen :: (ts ++ [.rparen])) (.columns c e)
  | operand {ts : List Token} {e : Expr} (h : Derives .operand ts e) : Derives .not ts e
  | not {ts us : List Token} {e f : Expr} (hl : Derives .not ts e)
      (hr : Derives .operand us f) : Derives .not (ts ++ .not :: us) (.not e f)
  | ofNot {ts : List Token} {e : Expr} (h : Derives .not ts e) : Derives .and ts e
  | and {ts us : List Token} {e f : Expr} (hl : Derives .and ts e) (hr : Derives .not us f) :
      Derives .and (ts ++ .and :: us) (.and e f)
  | ofAnd {ts : List Token} {e : Expr} (h : Derives .and ts e) : Derives .or ts e
  | or {ts us : List Token} {e f : Expr} (hl : Derives .or ts e) (hr : Derives .and us f) :
      Derives .or (ts ++ .or :: us) (.or e f)

/-! ## Names of columns -/

/-- ASCII lower case; column names are compared without regard to it. -/
def foldName (name : List Char) : List Char :=
  name.map fun c => if 65 ≤ c.toNat ∧ c.toNat ≤ 90 then Char.ofNat (c.toNat + 32) else c

def Columns.name : Columns → List Char
  | .only name => name
  | .except name => name

/-- The columns that a filter names are columns of the table. -/
def Columns.known (table : List (List Char)) (c : Columns) : Bool :=
  table.any fun column => foldName column == foldName c.name

def Expr.known (table : List (List Char)) : Expr → Bool
  | .phrases list => list.all fun p => p.columns.all (Columns.known table)
  | .columns c e => c.known table && e.known table
  | .and l r => l.known table && r.known table
  | .or l r => l.known table && r.known table
  | .not l r => l.known table && r.known table

/-- A text is an expression over the columns of a table. -/
def WellFormed (table : List (List Char)) (s : List Char) : Prop :=
  ∃ ts e, lex s = some ts ∧ Derives .or ts e ∧ e.known table = true

end Yanta.Fts5
