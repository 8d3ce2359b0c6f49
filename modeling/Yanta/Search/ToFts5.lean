import Yanta.Fts5.Lexer
import Yanta.Search.Query

/-!
# From queries to full-text expressions

`ToFTS5` of `internal/search/fts5.go`. Each branch of a query becomes a list of clauses,
one for each term and for each filter that is not about a project, a tag or the scope, and
the branches are joined with `OR`. Texts are lists of characters.
-/

namespace Yanta.Search

open Go

/-! ## Terms -/

/-- The characters that `sanitizeTerm` takes out. -/
def droppedChars : List Char :=
  ['.', '?', '+', '\\', '[', ']', '^', '$', '|', '\x7b', '\x7d', '*']

/-- `sanitizeTerm`: a star is only kept at the end. -/
def sanitizeTerm (term : List Char) : List Char :=
  let star := term.getLast? == some '*'
  let sanitized := (if star then term.dropLast else term).filter fun c =>
    !droppedChars.contains c
  if sanitized = [] then [] else if star then sanitized ++ ['*'] else sanitized

/-- The test of `quoteIfNeeded`. -/
def needsQuotes (term : List Char) : Bool :=
  term.any fun c => c == ' ' || c == '(' || c == ')' || c == '"'

def quoteIfNeeded (term : List Char) : List Char :=
  if needsQuotes term then Fts5.quoteString term else term

def ftsCol (col val : List Char) : List Char :=
  let val :=
    if val.head? ≠ some '"' ∧ val.any (fun c => c == '#' || c == '@') = true then
      '"' :: (val ++ ['"'])
    else val
  col ++ ':' :: val

/-! ## Clauses -/

/-- The columns a term is looked up in: the scope `""`, `"title"` or `"body"`. -/
inductive Scope where
  | any
  | title
  | body
deriving DecidableEq, Repr

def titleColumn : List Char := ['t', 'i', 't', 'l', 'e']

def bodyColumn : List Char := ['b', 'o', 'd', 'y']

/-- A part of a branch: a sanitized text in a scope, possibly negated. -/
structure Clause where
  negated : Bool
  scope : Scope
  text : List Char
deriving DecidableEq, Repr

/-- The clause without its negation. -/
def Clause.positive (c : Clause) : List Char :=
  let quoted := quoteIfNeeded c.text
  match c.scope with
  | .title => ftsCol titleColumn quoted
  | .body => ftsCol bodyColumn quoted
  | .any =>
    '(' :: (ftsCol titleColumn quoted ++
      ' ' :: 'O' :: 'R' :: ' ' :: (ftsCol bodyColumn quoted ++ [')']))

def Clause.render (c : Clause) : List Char :=
  if c.negated then 'N' :: 'O' :: 'T' :: ' ' :: c.positive else c.positive

/-- The scope of an `in` filter that names one. -/
def scopeOf (fold : CaseFold) (value : String) : Option Scope :=
  let value := toLower fold.lower value
  if value = "title" then some .title else if value = "body" then some .body else none

/-- A clause unless nothing is left of its text. -/
def clause? (negated : Bool) (scope : Scope) (text : List Char) : Option Clause :=
  let sanitized := sanitizeTerm text
  if sanitized = [] then none else some ⟨negated, scope, sanitized⟩

/-- One round of the loop of `convertItems`: the scope from there on, and the clause. -/
def convertItem (fold : CaseFold) (scope : Scope) : Item → Scope × Option Clause
  | .filter f =>
    match f.value with
    | none => (scope, none)
    | some value =>
      if value = "" then (scope, none)
      else
        let key := toLower fold.lower f.key
        if key = "project" then (scope, none)
        else if key = "tag" then (scope, none)
        else if key = "in" then ((scopeOf fold value).getD scope, none)
        else if key = "title" then (scope, clause? false .title value.toList)
        else if key = "body" then (scope, clause? false .body value.toList)
        else (scope, clause? false scope (f.key.toList ++ ':' :: value.toList))
  | .term t =>
    (scope, clause? t.negated scope (t.value.toList.filter fun c => c != '\''))

/-- The clauses of a list of items. -/
def clausesOf (fold : CaseFold) : Scope → List Item → List Clause
  | _, [] => []
  | scope, item :: items =>
    let r := convertItem fold scope item
    r.2.toList ++ clausesOf fold r.1 items

/-- The parts of a branch behind the first. -/
def joinParts : List (List Char) → List Char
  | [] => []
  | part :: parts =>
    (if ['N', 'O', 'T', ' '].isPrefixOf part then ' ' :: part
      else ' ' :: 'A' :: 'N' :: 'D' :: ' ' :: part) ++ joinParts parts

/-- `convertItems`; the empty text if there is no clause. -/
def convertItems (fold : CaseFold) (items : List Item) (scope : Scope) : List Char :=
  match (clausesOf fold scope items).map Clause.render with
  | [] => []
  | part :: parts => part ++ joinParts parts

/-! ## Branches -/

/-- The filters in front of the first term of a branch, the scope they give, and whether
a term follows them. -/
def leadingFilters (fold : CaseFold) : Scope → List Item → List Item × Scope × Bool
  | scope, [] => ([], scope, false)
  | scope, .term _ :: _ => ([], scope, true)
  | scope, .filter f :: items =>
    let key := toLower fold.lower f.key
    if key = "project" ∨ key = "tag" then
      let r := leadingFilters fold scope items
      (.filter f :: r.1, r.2)
    else if key = "in" then
      leadingFilters fold ((f.value.bind (scopeOf fold)).getD scope) items
    else ([], scope, false)

/-- The filters that all branches share, and the scope they start in. -/
def commonFilters (fold : CaseFold) (branches : List (List Item)) : List Item × Scope :=
  match branches with
  | first :: _ :: _ =>
    let r := leadingFilters fold .any first
    (if r.2.2 then r.1 else [], r.2.1)
  | _ => ([], .any)

def isScopeFilter (fold : CaseFold) : Item → Bool
  | .filter f => toLower fold.lower f.key == "in"
  | .term _ => false

/-- Where the first branch starts behind what was taken out of it. -/
def startIndex (fold : CaseFold) (common : List Item) (scope : Scope)
    (items : List Item) : Nat :=
  if scope ≠ .any then
    match items.findIdx? (isScopeFilter fold) with
    | some j => j + 1
    | none => common.length
  else common.length

/-- The items that are converted for each branch. -/
def branchItems (fold : CaseFold) (branches : List (List Item)) : List (List Item) :=
  let common := commonFilters fold branches
  match branches with
  | [] => []
  | first :: others =>
    (common.1 ++ first.drop (startIndex fold common.1 common.2 first)) ::
      others.map fun items => common.1 ++ items

/-- `needsParens`. -/
def needsParens (s : List Char) : Bool :=
  contains (String.ofList s) " AND "

/-- A part between `OR`. -/
def orPart (part : List Char) : List Char :=
  if needsParens part then '(' :: (part ++ [')']) else part

/-- The marker of a query without terms. -/
def matchAll : List Char := ['"', '*', '"']

/-- The parts joined with `OR`. -/
def joinBranches : List (List Char) → List Char
  | [] => matchAll
  | [part] => part
  | part :: parts =>
    orPart part ++ parts.flatMap fun p => ' ' :: 'O' :: 'R' :: ' ' :: orPart p

/-- `OrExpression.toFTS5`. -/
def toFTS5Branches (fold : CaseFold) (branches : List (List Item)) : List Char :=
  let scope := (commonFilters fold branches).2
  joinBranches
    (((branchItems fold branches).map fun items => convertItems fold items scope).filter
      fun part => part ≠ [])

/-- `Query.ToFTS5`. -/
def Query.toFTS5 (fold : CaseFold) (q : Query) : List Char :=
  match q.expression with
  | none => matchAll
  | some branches => toFTS5Branches fold branches

end Yanta.Search
