import Yanta.Go.Regexp
import Yanta.Go.Strings

/-!
# Search queries

The query language of `internal/search/parser.go`: a lexer with a list of token patterns,
a grammar of filters and terms joined by `AND` and `OR`, and `ExtractFilters`. The lexer
tries the patterns in order at the current position and drops white space. Literals of
the grammar match a token by its value, whatever its type.

An iteration of a repeated group that fails leaves the parser in front of a token that no
other part of the grammar accepts, so the whole parse fails there; a failed parse is
`none`.
-/

namespace Yanta.Search

open Go

/-! ## Tokens -/

inductive TokenType where
  | string
  | or
  | and
  | ident
  | punct
deriving DecidableEq, Repr

structure Token where
  type : TokenType
  value : List Char
deriving DecidableEq, Repr

/-- `[^\s:\-"]`. -/
def identChar (c : Char) : Bool :=
  !(Regexp.space c || c == ':' || c == '-' || c == '"')

/-- `"(?:[^"\\]|\\.)*"` behind the opening quote: the text inside and what is left. -/
def quotedText : List Char → Option (List Char × List Char)
  | [] => none
  | [c] => if c = '"' then some ([], []) else none
  | c :: d :: s =>
    if c = '"' then some ([], d :: s)
    else if c = '\\' then
      if d = '\n' then none else (quotedText s).map fun r => (c :: d :: r.1, r.2)
    else (quotedText (d :: s)).map fun r => (c :: r.1, r.2)

/-- `\bOR\b` and `\bAND\b` at the start of a text. -/
def startsWithKeyword (keyword s : List Char) : Bool :=
  keyword.isPrefixOf s && !((s.drop keyword.length).head?.any Regexp.word)

/-- The value of a digit in base 16. -/
def digitValue (c : Char) : Option Nat :=
  if 48 ≤ c.toNat ∧ c.toNat ≤ 57 then some (c.toNat - 48)
  else if 97 ≤ c.toNat ∧ c.toNat ≤ 102 then some (c.toNat - 87)
  else if 65 ≤ c.toNat ∧ c.toNat ≤ 70 then some (c.toNat - 55)
  else none

/-- The value of `n` more digits in the given base. -/
def digits (base : Nat) : Nat → Nat → List Char → Option (Nat × List Char)
  | 0, value, s => some (value, s)
  | _ + 1, _, [] => none
  | n + 1, value, c :: s =>
    (digitValue c).bind fun digit =>
      if digit < base then digits base n (value * base + digit) s else none

/-- A code point that an escape stands for. -/
def escapedRune (r : Nat × List Char) : Option (Char × List Char) :=
  if h : r.1.isValidChar then some (Char.ofNatAux r.1 h, r.2) else none

/-- `strconv.UnquoteChar` behind a backslash, in a string with double quotes. -/
def escapedChar : List Char → Option (Char × List Char)
  | [] => none
  | c :: s =>
    if c = 'a' then some ('\x07', s)
    else if c = 'b' then some ('\x08', s)
    else if c = 'f' then some ('\x0c', s)
    else if c = 'n' then some ('\n', s)
    else if c = 'r' then some ('\r', s)
    else if c = 't' then some ('\t', s)
    else if c = 'v' then some ('\x0b', s)
    else if c = 'x' then (digits 16 2 0 s).bind escapedRune
    else if c = 'u' then (digits 16 4 0 s).bind escapedRune
    else if c = 'U' then (digits 16 8 0 s).bind escapedRune
    else if 48 ≤ c.toNat ∧ c.toNat ≤ 55 then
      (digits 8 3 0 (c :: s)).bind fun r => if 255 < r.1 then none else escapedRune r
    else if c = '\\' then some ('\\', s)
    else if c = '"' then some ('"', s)
    else none

/-- `participle.Unquote` of the text between the quotes. -/
def unquote : Nat → List Char → Option (List Char)
  | _, [] => some []
  | 0, _ :: _ => none
  | fuel + 1, c :: s =>
    if c = '\\' then
      (escapedChar s).bind fun r => (unquote fuel r.2).map (r.1 :: ·)
    else (unquote fuel s).map (c :: ·)

/-- The first token pattern that matches; white space is no token. -/
def nextToken : List Char → Option (Option Token × List Char)
  | [] => none
  | c :: s =>
    if c = '"' then
      (quotedText s).bind fun r =>
        (unquote r.1.length r.1).map fun value => (some ⟨.string, value⟩, r.2)
    else if startsWithKeyword ['O', 'R'] (c :: s) then
      some (some ⟨.or, ['O', 'R']⟩, s.drop 1)
    else if startsWithKeyword ['A', 'N', 'D'] (c :: s) then
      some (some ⟨.and, ['A', 'N', 'D']⟩, s.drop 2)
    else if identChar c then
      some (some ⟨.ident, (c :: s).takeWhile identChar⟩, (c :: s).dropWhile identChar)
    else if c = ':' ∨ c = '-' then some (some ⟨.punct, [c]⟩, s)
    else some (none, (c :: s).dropWhile Regexp.space)

/-- The tokens of a text; a token has at least one character. -/
def tokensFrom : Nat → List Char → Option (List Token)
  | _, [] => some []
  | 0, _ :: _ => none
  | fuel + 1, c :: s =>
    (nextToken (c :: s)).bind fun r =>
      (tokensFrom fuel r.2).map fun tokens => r.1.toList ++ tokens

def tokens (s : List Char) : Option (List Token) := tokensFrom s.length s

/-! ## The grammar -/

structure Filter where
  key : String
  value : Option String
deriving DecidableEq, Repr

/-- What a term has after its optional minus sign. -/
inductive TermText where
  | phrase (text : String)
  | word (text : String)
deriving DecidableEq, Repr

structure Term where
  negated : Bool
  text : TermText
deriving DecidableEq, Repr

/-- `Term.Value`. -/
def Term.value (t : Term) : String :=
  match t.text with
  | .phrase text => text
  | .word text => text

inductive Item where
  | filter (f : Filter)
  | term (t : Term)
deriving DecidableEq, Repr

/-- The branches between `OR`; no expression for an input without tokens. -/
structure Query where
  expression : Option (List (List Item))
deriving DecidableEq, Repr

/-- `@Ident ':' @(String | Ident | 'OR' | 'AND')?`. -/
def parseFilter : List Token → Option (Filter × List Token)
  | key :: colon :: rest =>
    if key.type = .ident ∧ colon.value = [':'] then
      match rest with
      | value :: rest' =>
        if value.type = .punct then some (⟨String.ofList key.value, none⟩, rest)
        else some (⟨String.ofList key.value, some (String.ofList value.value)⟩, rest')
      | [] => some (⟨String.ofList key.value, none⟩, [])
    else none
  | _ => none

/-- `@String | @Ident`. -/
def parseTermText : List Token → Option (TermText × List Token)
  | [] => none
  | t :: rest =>
    match t.type with
    | .string => some (.phrase (String.ofList t.value), rest)
    | .ident => some (.word (String.ofList t.value), rest)
    | _ => none

/-- `@'-'? ( @String | @Ident )`. -/
def parseTerm : List Token → Option (Term × List Token)
  | [] => none
  | t :: rest =>
    if t.value = ['-'] then (parseTermText rest).map fun r => (⟨true, r.1⟩, r.2)
    else (parseTermText (t :: rest)).map fun r => (⟨false, r.1⟩, r.2)

def parseItem (ts : List Token) : Option (Item × List Token) :=
  match parseFilter ts with
  | some (f, rest) => some (.filter f, rest)
  | none => (parseTerm ts).map fun r => (.term r.1, r.2)

/-- `( 'AND'? @@ )*`. -/
def parseItems : Nat → List Token → List Item × List Token
  | _, [] => ([], [])
  | 0, t :: ts => ([], t :: ts)
  | fuel + 1, t :: ts =>
    match parseItem (if t.value = ['A', 'N', 'D'] then ts else t :: ts) with
    | none => ([], t :: ts)
    | some (item, rest) =>
      let r := parseItems fuel rest
      (item :: r.1, r.2)

/-- `AndExpression`. -/
def parseAnd (ts : List Token) : Option (List Item × List Token) :=
  (parseItem ts).map fun r =>
    let more := parseItems r.2.length r.2
    (r.1 :: more.1, more.2)

/-- `( 'OR' @@ )*`. -/
def parseBranches : Nat → List Token → List (List Item) × List Token
  | _, [] => ([], [])
  | 0, t :: ts => ([], t :: ts)
  | fuel + 1, t :: ts =>
    if t.value = ['O', 'R'] then
      match parseAnd ts with
      | none => ([], t :: ts)
      | some (items, rest) =>
        let r := parseBranches fuel rest
        (items :: r.1, r.2)
    else ([], t :: ts)

/-- The parse of all tokens. -/
def parseTokens (ts : List Token) : Option Query :=
  match ts with
  | [] => some ⟨none⟩
  | _ :: _ =>
    (parseAnd ts).bind fun r =>
      let more := parseBranches r.2.length r.2
      if more.2 = [] then some ⟨some (r.1 :: more.1)⟩ else none

/-- `Parse`. -/
def parse (input : String) : Option Query := (tokens input.toList).bind parseTokens

/-! ## Filters -/

/-- `strings.ToLower`, with what it does to ASCII characters. -/
structure CaseFold where
  lower : Char → Char
  ascii : ∀ c : Char, c.toNat < 128 →
    lower c = if 65 ≤ c.toNat ∧ c.toNat ≤ 90 then Char.ofNat (c.toNat + 32) else c

/-- The case folding of ASCII letters only. -/
def asciiFold : CaseFold where
  lower c := if 65 ≤ c.toNat ∧ c.toNat ≤ 90 then Char.ofNat (c.toNat + 32) else c
  ascii _ _ := rfl

/-- The project of a filter that names one. -/
def Filter.project (fold : CaseFold) (f : Filter) : Option String :=
  match f.value with
  | none => none
  | some value =>
    if value ≠ "" ∧ toLower fold.lower f.key = "project" then some value else none

/-- The tag of a filter that names one. -/
def Filter.tag (fold : CaseFold) (f : Filter) : Option String :=
  match f.value with
  | none => none
  | some value =>
    if value ≠ "" ∧ toLower fold.lower f.key = "tag" then
      some (toLower fold.lower (trimPrefix value "#"))
    else none

def Item.filter? : Item → Option Filter
  | .filter f => some f
  | .term _ => none

def Item.term? : Item → Option Term
  | .filter _ => none
  | .term t => some t

/-- The items of all branches. -/
def Query.items (q : Query) : List Item := (q.expression.getD []).flatten

/-- `ExtractFilters`. -/
def Query.extractFilters (fold : CaseFold) (q : Query) : List String × List String :=
  let filters := q.items.filterMap Item.filter?
  (filters.filterMap (Filter.project fold), filters.filterMap (Filter.tag fold))

/-- The terms of all branches. -/
def Query.terms (q : Query) : List Term := q.items.filterMap Item.term?

example : parse "project:@my-notes" =
    some ⟨some [[.filter ⟨"project", some "@my"⟩, .term ⟨true, .word "notes"⟩]]⟩ := by
  decide

end Yanta.Search
