import Yanta.Go.CleanPaths
import Yanta.Search.Meaning

/-!
# The search service

`Query` of `internal/search/service.go` over the tables it reads. The match expression and
the filters of the query give the rows of a join; the results of the document and journal
tables are merged by rank and one page of them is returned. What the database engine
computes for a row, and the order it returns rows of equal rank in, are parameters.
-/

namespace Yanta.Search

open Go Fts5

/-! ## Tables -/

/-- A row of `doc`. -/
structure Document where
  path : String
  title : String
  projectAlias : String
  updatedAt : String
  deleted : Bool
deriving DecidableEq, Repr

/-- A row of `fts_doc`. -/
structure FullText where
  path : String
  title : String
  headings : String
  body : String
  code : String
deriving DecidableEq, Repr

/-- A row of `fts_journal`. -/
structure Note where
  projectAlias : String
  date : String
  entryId : String
  content : String
  tags : String
deriving DecidableEq, Repr

/-- The tables with their keys. -/
structure Database where
  doc : List Document
  ftsDoc : List FullText
  docTag : List (String × String)
  ftsJournal : List Note
  doc_key : (doc.map Document.path).Nodup
  ftsDoc_key : (ftsDoc.map FullText.path).Nodup
  docTag_key : docTag.Nodup

inductive ResultType where
  | document
  | note
deriving DecidableEq, Repr

structure Result (ρ : Type) where
  id : String
  title : String
  snippet : String
  updated : String
  type : ResultType
  projectAlias : String
  noteId : String
  rank : ρ
deriving DecidableEq, Repr

/-- What the query parser, the tokenizer and the database engine are asked for. Rows that
the engine orders by rank and date are the same rows. -/
structure Engine (ρ : Type) where
  parseError : String → String
  tokenize : List Char → List Word
  matchError : List Char → String
  zero : ρ
  less : ρ → ρ → Bool
  bm25 : Database → List Char → FullText → ρ
  snippet : Database → List Char → FullText → Option String
  journalBm25 : Database → List Char → Note → ρ
  journalSnippet : Database → List Char → Note → Option String
  orderBy : List (Result ρ) → List (Result ρ)
  orderBy_perm : ∀ rows, (orderBy rows).Perm rows

/-! ## The expression for the journal -/

/-- One round of the loop of `convertItemsJournal`. -/
def convertItemJournal (fold : CaseFold) : Item → Option (List Char)
  | .filter f =>
    let key := toLower fold.lower f.key
    if key = "project" ∨ key = "tag" ∨ key = "in" ∨ key = "title" ∨ key = "body" then none
    else
      match f.value with
      | none => none
      | some value =>
        let sanitized := sanitizeTerm (f.key.toList ++ ':' :: value.toList)
        if value = "" ∨ sanitized = [] then none else some (quoteIfNeeded sanitized)
  | .term t =>
    let sanitized := sanitizeTerm (t.value.toList.filter fun c => c != '\'')
    if sanitized = [] then none
    else
      let quoted := quoteIfNeeded sanitized
      some (if t.negated then 'N' :: 'O' :: 'T' :: ' ' :: quoted else quoted)

def convertItemsJournal (fold : CaseFold) (items : List Item) : List Char :=
  match items.filterMap (convertItemJournal fold) with
  | [] => []
  | part :: parts => part ++ joinParts parts

/-- `Query.ToFTS5Journal`. -/
def Query.toFTS5Journal (fold : CaseFold) (q : Query) : List Char :=
  joinBranches (((q.expression.getD []).map (convertItemsJournal fold)).filter
    fun part => part ≠ [])

/-! ## Rows -/

/-- `formatSearchError`. -/
def formatSearchError (text : String) : String :=
  if contains text "fts5: syntax error" then
    "invalid search syntax. Tips: use * only at end of words (e.g., 'kick*'), " ++
      "avoid special characters like . ? + in search terms"
  else if contains text "SQL logic error" then
    "invalid search query. Try simpler terms or check your syntax"
  else "search failed: " ++ text

/-- The characters that fit in the first bytes. -/
def takeBytes : Nat → List Char → List Char
  | _, [] => []
  | n, c :: cs => if c.utf8Size ≤ n then c :: takeBytes (n - c.utf8Size) cs else []

/-- `extractTitle`; the bytes of a character that the limit cuts in two are left out. -/
def extractTitle (content : String) : String :=
  let line := trimSpace (String.ofList (content.toList.takeWhile fun c => c ≠ '\n'))
  let line := if 60 < len line then String.ofList (takeBytes 57 line.toList) ++ "..." else line
  if line = "" then "(empty)" else line

/-- SQLite's `LIKE` with `%` at both ends: the text occurs, where `_` stands for any
character and `%` for any text, and ASCII letters match in either case. -/
def likeAt (same : Char → Char → Bool) : List Char → List Char → Bool
  | [], _ => true
  | p :: pattern, [] => p == '%' && likeAt same pattern []
  | p :: pattern, c :: text =>
    if p = '%' then (c :: text).tails.any (likeAt same pattern)
    else (p == '_' || same p c) && likeAt same pattern text

/-- The letters are equal up to ASCII case. -/
def sameLetter (a b : Char) : Bool := asciiFold.lower a == asciiFold.lower b

def likeInside (pattern text : List Char) : Bool :=
  text.tails.any (likeAt sameLetter pattern)

section

variable {ρ : Type} (e : Engine ρ) (db : Database)

/-- The words of a row of `fts_doc`. -/
def Engine.row (f : FullText) : Row :=
  ftsRow (e.tokenize f.title.toList) (e.tokenize f.headings.toList)
    (e.tokenize f.body.toList) (e.tokenize f.code.toList)

/-- The indexed columns of a row of `fts_journal`. -/
def Engine.journalRow (n : Note) : Row :=
  [("content".toList, e.tokenize n.content.toList), ("tags".toList, e.tokenize n.tags.toList)]

/-- The columns of `fts_journal`. -/
def ftsJournalColumns : List (List Char) :=
  ["content".toList, "tags".toList, "project_alias".toList, "date".toList,
    "entry_id".toList]

/-- The result for a document. -/
def documentResult (rank : ρ) (snippet : String) (d : Document) : Result ρ where
  id := d.path
  title := d.title
  snippet := snippet
  updated := d.updatedAt
  type := .document
  projectAlias := d.projectAlias
  noteId := ""
  rank := rank

/-- The condition on the project of a row. -/
def inProjects (projects : List String) (projectAlias : String) : Bool :=
  projects.isEmpty || projects.contains projectAlias

/-- The rows of `doc_tag` that a document is joined with; one row without tag filters. -/
def Database.tagRows (tags : List String) (path : String) : Nat :=
  if tags = [] then 1
  else (db.docTag.filter fun row => row.1 == path && tags.contains row.2).length

/-- The documents that the conditions on `doc` let through. -/
def Database.active (projects : List String) : List Document :=
  db.doc.filter fun d => !d.deleted && inProjects projects d.projectAlias

/-- The rows of `fts_doc` that match joined with `doc`, with their results. -/
def matchRows (expression : List Char) (expr : Expr) (projects : List String) :
    List (Result ρ) :=
  (db.ftsDoc.filter fun f => eval e.tokenize (e.row f) (fun _ => true) expr).flatMap
    fun f => ((db.active projects).filter fun d => d.path == f.path).map
      (documentResult (e.bm25 db expression f) ((e.snippet db expression f).getD ""))

/-- The rows joined with `doc_tag`. -/
def joinTags (tags : List String) (rows : List (Result ρ)) : List (Result ρ) :=
  rows.flatMap fun r => List.replicate (db.tagRows tags r.id) r

/-- `searchDocuments`. -/
def searchDocuments (expression : List Char) (projects tags : List String)
    (hasTerms : Bool) : Except String (List (Result ρ)) :=
  if hasTerms then
    match compile ftsDocColumns expression with
    | none => .error (formatSearchError (e.matchError expression))
    | some expr =>
      .ok (e.orderBy (joinTags db tags (matchRows e db expression expr projects)))
  else
    .ok (e.orderBy (joinTags db tags
      ((db.active projects).map (documentResult e.zero ""))))

/-- The result for a journal entry. -/
def noteResult (expression : List Char) (n : Note) : Result ρ where
  id := "journal/" ++ n.projectAlias ++ "/" ++ n.date ++ "/" ++ n.entryId
  title := extractTitle n.content
  snippet := (e.journalSnippet db expression n).getD ""
  updated := n.date
  type := .note
  projectAlias := n.projectAlias
  noteId := n.entryId
  rank := e.journalBm25 db expression n

/-- The condition on the tags column of a journal row. -/
def Note.inTags (tags : List String) (n : Note) : Bool :=
  tags.isEmpty || tags.any fun tag => likeInside (' ' :: (tag.toList ++ [' '])) n.tags.toList

/-- `searchJournals`. -/
def searchJournals (expression : List Char) (projects tags : List String) :
    Except String (List (Result ρ)) :=
  match compile ftsJournalColumns expression with
  | none => .error (formatSearchError (e.matchError expression))
  | some expr =>
    .ok (e.orderBy ((db.ftsJournal.filter fun n =>
      eval e.tokenize (e.journalRow n) (fun _ => true) expr &&
        inProjects projects n.projectAlias && n.inTags tags).map
          (noteResult e db expression)))

end

/-! ## The ranking and its pages -/

/-- One round of the outer loop of `sortResultsByRank`: the first element is exchanged for
each later one that is less. -/
def exchange {α : Type} (less : α → α → Bool) : α → List α → α × List α
  | x, [] => (x, [])
  | x, y :: ys =>
    let r := if less y x then exchange less y ys else exchange less x ys
    (r.1, (if less y x then x else y) :: r.2)

/-- The rounds of the outer loop. -/
def exchangeRounds {α : Type} (less : α → α → Bool) : Nat → List α → List α
  | 0, l => l
  | _ + 1, [] => []
  | n + 1, x :: xs =>
    let r := exchange less x xs
    r.1 :: exchangeRounds less n r.2

/-- `sortResultsByRank`. -/
def sortResultsByRank {ρ : Type} (less : ρ → ρ → Bool) (results : List (Result ρ)) :
    List (Result ρ) :=
  exchangeRounds (fun a b => less a.rank b.rank) results.length results

/-- The slice `xs[start:stop]`; none if it panics. -/
def slice {α : Type} (xs : List α) (start stop : Int) : Option (List α) :=
  if 0 ≤ start ∧ start ≤ stop ∧ stop ≤ xs.length then
    some ((xs.take stop.toNat).drop start.toNat)
  else none

def pageLimit (limit : Int64) : Int64 := if limit ≤ 0 then 50 else limit

def pageOffset (offset : Int64) : Int64 := if offset < 0 then 0 else offset

/-- The page of the results; the sum of offset and limit is one of machine integers. -/
def paginate {α : Type} (results : List α) (limit offset : Int64) : Option (List α) :=
  let limit := pageLimit limit
  let offset := pageOffset offset
  let total : Int := results.length
  if total ≤ offset.toInt then some []
  else
    let stop := (offset + limit).toInt
    slice results offset.toInt (if total < stop then total else stop)

/-- How a call ends without results. -/
inductive QueryFailure where
  | error (text : String)
  | panicked
deriving DecidableEq, Repr

section

variable {ρ : Type} (e : Engine ρ) (fold : CaseFold) (db : Database)

/-- The match expression has terms. -/
def Query.hasTerms (q : Query) : Bool :=
  q.toFTS5 fold ≠ [] && q.toFTS5 fold ≠ matchAll

def Query.hasFilters (q : Query) : Bool :=
  !(q.extractFilters fold).1.isEmpty || !(q.extractFilters fold).2.isEmpty

/-- The journal entries of a query; a failed search has none. -/
def journalResults (q : Query) : List (Result ρ) :=
  let expression := q.toFTS5Journal fold
  if q.hasTerms fold && expression ≠ [] && expression ≠ matchAll then
    (searchJournals e db expression (q.extractFilters fold).1
      (q.extractFilters fold).2).toOption.getD []
  else []

/-- All results of a query by rank. -/
def ranking (q : Query) : Except String (List (Result ρ)) :=
  if !q.hasTerms fold && !q.hasFilters fold then .ok []
  else
    match searchDocuments e db (q.toFTS5 fold) (q.extractFilters fold).1
        (q.extractFilters fold).2 (q.hasTerms fold) with
    | .error text => .error text
    | .ok documents =>
      .ok (sortResultsByRank e.less (documents ++ journalResults e fold db q))

/-- `Query`. -/
def query (input : String) (limit offset : Int64) : Except QueryFailure (List (Result ρ)) :=
  match parse input with
  | none => .error (.error ("parsing search query: " ++ e.parseError input))
  | some q =>
    match ranking e fold db q with
    | .error text => .error (.error text)
    | .ok results =>
      match paginate results limit offset with
      | none => .error .panicked
      | some page => .ok page

/-- `handleSearch` of the agent server, which asks for a page of 20 by default. -/
def handleSearch (input : String) (limit offset : Int64) :
    Except QueryFailure (List (Result ρ)) :=
  if input = "" then .error (.error "query is required")
  else
    query e fold db input (if limit ≤ 0 then 20 else limit) (if offset < 0 then 0 else offset)

end

/-! ## What the parts do -/

section

variable {α : Type} (less : α → α → Bool)

theorem exchange_perm (x : α) (xs : List α) :
    ((exchange less x xs).1 :: (exchange less x xs).2).Perm (x :: xs) := by
  induction xs generalizing x with
  | nil => exact List.Perm.refl _
  | cons y ys ih =>
    rw [exchange]
    by_cases hless : less y x = true
    · simp only [hless]
      exact (List.Perm.swap _ _ _).trans ((ih y).cons x)
    · simp only [hless]
      refine (List.Perm.swap _ _ _).trans (((ih x).cons y).trans ?_)
      exact List.Perm.swap x y ys

theorem exchangeRounds_perm (n : Nat) (l : List α) : (exchangeRounds less n l).Perm l := by
  induction n generalizing l with
  | zero => exact List.Perm.refl l
  | succ n ih =>
    cases l with
    | nil => exact List.Perm.refl []
    | cons x xs =>
      exact ((ih _).cons _).trans (exchange_perm less x xs)

theorem sortResultsByRank_perm {ρ : Type} (less : ρ → ρ → Bool) (results : List (Result ρ)) :
    (sortResultsByRank less results).Perm results :=
  exchangeRounds_perm _ _ _

end

end Yanta.Search
