import Mathlib.Algebra.Group.Int.Defs
import Yanta.Blocknote.Scan

/-!
# Markdown and blocks

The block half of `internal/blocknote/blocknote.go`: what `MarkdownToBlocks` builds from
its tokens, and `BlocksToMarkdown`. Block ids come from a supply, in the order in
which they are drawn.
-/

namespace Yanta.Blocknote

open Go Document

/-- `Block`, which has the fields of `BlockNoteBlock`. -/
abbrev Block := BlockNoteBlock

/-! ## Building blocks -/

def joinLines (sep : Char) (lines : List Line) : Line := [sep].intercalate lines

def inlineBlock (id type : String) (props : Object) (text : Line) : Block :=
  .mk id type props (some (marshalInline (parseInline text))) []

def codeBlock (id : String) (lang code : Line) : Block :=
  .mk id "codeBlock" [("language", .str (String.ofList lang))]
    (some (marshalInline [textInline code []])) []

def dividerBlock (id : String) : Block := .mk id "divider" [] none []

def columnCount (rows : List (List Line)) : Nat := (rows.map List.length).foldl max 0

/-- A row with empty cells up to the number of columns. -/
def padRow (cols : Nat) (row : List Line) : List Line :=
  row ++ List.replicate (cols - row.length) []

def cellJson (text : Line) : Json :=
  .obj [("type", .str "tableCell"), ("content", marshalInline (parseInline text)),
    ("props", .obj [])]

def rowJson (row : List Line) : Json := .obj [("cells", .arr (row.map cellJson))]

def tableJson (rows : List (List Line)) : Json :=
  let cols := columnCount rows
  .obj [("type", .str "tableContent"),
    ("columnWidths", .arr (List.replicate cols .null)),
    ("rows", .arr ((rows.map (padRow cols)).map rowJson))]

def tableBlock (id : String) (rows : List (List Line)) : Block :=
  .mk id "table" [] (some (tableJson rows)) []

def ItemKind.type : ItemKind → String
  | .bullet => "bulletListItem"
  | .numbered => "numberedListItem"
  | .check _ => "checkListItem"

def ItemKind.props : ItemKind → Object
  | .bullet | .numbered => []
  | .check checked => [("checked", .bool checked)]

def headingBlock (id : String) (level : Nat) (text : Line) : Block :=
  inlineBlock id "heading" [("level", .num level 0)] text

def paragraphBlock (id : String) (text : Line) : Block := inlineBlock id "paragraph" [] text

def quoteBlock (id : String) (text : Line) : Block := inlineBlock id "quote" [] text

def itemBlock (id : String) (kind : ItemKind) (text : Line) : Block :=
  inlineBlock id kind.type kind.props text

/-! ## The parser's state -/

/-- The blocks so far, the indentations of the open list items with the innermost one
first, the lines of the open paragraph, and the number of ids drawn. An open item is
the last block of its level, so the stack need not point to it. -/
structure State where
  roots : List Block
  stack : List Nat
  para : List Line
  fresh : Nat

/-- Append to the children of the last block, `depth` levels down. -/
def appendAt : Nat → List Block → Block → List Block
  | 0, blocks, b => blocks ++ [b]
  | depth + 1, blocks, b =>
    match blocks.getLast? with
    | none => blocks
    | some (.mk id type props content children) =>
      blocks.dropLast ++ [.mk id type props content (appendAt depth children b)]

section

variable (ids : Nat → String)

/-- Draw an id. -/
def State.draw (st : State) : String × State :=
  (ids st.fresh, { st with fresh := st.fresh + 1 })

/-- `flushPara`. -/
def State.flushPara (st : State) : State :=
  if st.para = [] then st
  else
    let id := st.draw ids
    { id.2 with
      roots := st.roots ++ [paragraphBlock id.1 (joinLines ' ' st.para)]
      para := []
      stack := [] }

@[simp] theorem para_flushPara (st : State) : (st.flushPara ids).para = [] := by
  unfold State.flushPara
  split
  case isTrue h => exact h
  case isFalse h => rfl

/-- `addRoot`. -/
def State.addRoot (st : State) (mk : String → Block) : State :=
  let id := st.draw ids
  let st := id.2.flushPara ids
  { st with stack := [], roots := st.roots ++ [mk id.1] }

/-- `addListItem`. -/
def State.addListItem (st : State) (indent : Nat) (mk : String → Block) : State :=
  let id := st.draw ids
  let st := id.2.flushPara ids
  let stack := st.stack.dropWhile fun i => decide (indent ≤ i)
  { st with
    stack := indent :: stack
    roots := appendAt stack.length st.roots (mk id.1) }

/-- The case of a quote draws its id last. -/
def State.addQuote (st : State) (text : Line) : State :=
  let st := st.flushPara ids
  let id := st.draw ids
  { id.2 with stack := [], roots := st.roots ++ [quoteBlock id.1 text] }

/-- What a pass of the loop does with its token. -/
def State.apply (st : State) : Token → State
  | .code lang lines _ => st.addRoot ids (codeBlock · lang (joinLines '\n' lines))
  | .blank => st.flushPara ids
  | .heading level text => st.addRoot ids (headingBlock · level text)
  | .divider => st.addRoot ids dividerBlock
  | .table rows => st.addRoot ids (tableBlock · rows)
  | .quote lines => st.addQuote ids (joinLines ' ' lines)
  | .item indent kind text => st.addListItem ids indent (itemBlock · kind text)
  | .text line => { st with para := st.para ++ [line] }

def State.start : State := ⟨[], [], [], 0⟩

/-- The blocks of a list of lines. -/
def blocksOfLines (lines : List Line) : List Block :=
  ((((tokens lines).foldl (State.apply ids) .start)).flushPara ids).roots

/-- `MarkdownToBlocks`. -/
def markdownToBlocks (md : String) : List Block := blocksOfLines ids (linesOf md)

end

/-! ## Rendering -/

/-- `propInt`: a number is truncated. -/
def propInt (props : Object) (key : String) (default : Int) : Int :=
  match props.get? key with
  | some (.num mantissa exponent) => mantissa.tdiv (10 ^ exponent)
  | _ => default

/-- `propString`. -/
def propString (props : Object) (key default : String) : String :=
  (props.string? key).getD default

/-- `propBool`. -/
def propBool (props : Object) (key : String) (default : Bool) : Bool :=
  match props.get? key with
  | some (.bool b) => b
  | _ => default

/-- The content of a cell, as `renderTable` decodes it. -/
def cellContent : Object → List Inline → Option (List Inline)
  | [], content => some content
  | (key, value) :: members, content =>
    if keyMatches key "content" then
      match decodeInline value with
      | none => none
      | some content => cellContent members content
    else cellContent members content

def cellsOf : List Json → Option (List (List Inline))
  | [] => some []
  | .null :: cells => (cellsOf cells).map ([] :: ·)
  | .obj members :: cells =>
    match cellContent members [] with
    | none => none
    | some cell => (cellsOf cells).map (cell :: ·)
  | _ :: _ => none

def rowCells : Object → List (List Inline) → Option (List (List Inline))
  | [], row => some row
  | (key, value) :: members, row =>
    if keyMatches key "cells" then
      match value with
      | .null => rowCells members []
      | .arr cells =>
        match cellsOf cells with
        | none => none
        | some row => rowCells members row
      | _ => none
    else rowCells members row

def rowsOf : List Json → Option (List (List (List Inline)))
  | [] => some []
  | .null :: rows => (rowsOf rows).map ([] :: ·)
  | .obj members :: rows =>
    match rowCells members [] with
    | none => none
    | some row => (rowsOf rows).map (row :: ·)
  | _ :: _ => none

def tableRows : Object → List (List (List Inline)) → Option (List (List (List Inline)))
  | [], rows => some rows
  | (key, value) :: members, rows =>
    if keyMatches key "rows" then
      match value with
      | .null => tableRows members []
      | .arr items =>
        match rowsOf items with
        | none => none
        | some rows => tableRows members rows
      | _ => none
    else tableRows members rows

/-- The rows of a table's content. -/
def decodeRowsOf : Option Json → Option (List (List (List Inline)))
  | some .null => some []
  | some (.obj members) => tableRows members []
  | _ => none

def renderRow (indent : Line) (cells : List Line) : Line :=
  indent ++ ['|', ' '] ++ [' ', '|', ' '].intercalate cells ++ [' ', '|', '\n']

/-- `renderTable`. -/
def renderTable (indent : Line) (raw : Option Json) : Line :=
  match decodeRowsOf raw with
  | none | some [] => []
  | some (head :: rows) =>
    renderRow indent (head.map inlineToMarkdown) ++
      renderRow indent (head.map fun _ => ['-', '-', '-']) ++
      (rows.flatMap fun row => renderRow indent (row.map inlineToMarkdown)) ++ ['\n']

/-- A line that is left out when it is empty. -/
def renderText (indent text : Line) : Line :=
  if text = [] then [] else indent ++ text ++ ['\n', '\n']

/-- The heading level that is written. -/
def clampLevel (level : Int) : Nat :=
  if level < 1 then 1 else if 3 < level then 3 else level.toNat

/-- The switch of `renderBlocks`; `num` is the number of a numbered item. -/
def renderHead (depth num : Nat) (type : String) (props : Object) (content : Option Json) :
    Line :=
  let indent := List.replicate (2 * depth) ' '
  if type = "heading" then
    indent ++ List.replicate (clampLevel (propInt props "level" 1)) '#' ++ [' '] ++
      renderInline content ++ ['\n', '\n']
  else if type = "paragraph" then renderText indent (renderInline content)
  else if type = "codeBlock" then
    indent ++ ['`', '`', '`'] ++ (propString props "language" "").toList ++ ['\n'] ++
      plainText content ++ ['\n', '`', '`', '`', '\n', '\n']
  else if type = "bulletListItem" then
    indent ++ ['-', ' '] ++ renderInline content ++ ['\n']
  else if type = "numberedListItem" then
    indent ++ (decimal num).toList ++ ['.', ' '] ++ renderInline content ++ ['\n']
  else if type = "checkListItem" then
    indent ++ ['-', ' ', '[', if propBool props "checked" false then 'x' else ' ', ']', ' '] ++
      renderInline content ++ ['\n']
  else if type = "quote" then
    indent ++ ['>', ' '] ++ renderInline content ++ ['\n', '\n']
  else if type = "image" then
    indent ++ ['!', '['] ++ (propString props "caption" "").toList ++ [']', '('] ++
      (propString props "url" "").toList ++ [')', '\n', '\n']
  else if type = "file" then
    let url := propString props "url" ""
    indent ++ ['['] ++ (propString props "name" url).toList ++ [']', '('] ++ url.toList ++
      [')', '\n', '\n']
  else if type = "table" then renderTable indent content
  else if type = "divider" then indent ++ ['-', '-', '-', '\n', '\n']
  else renderText indent (renderInline content)

/-- The number of the next block in a list: numbered items count up. -/
def nextNumber (type : String) (num : Nat) : Nat :=
  if type = "numberedListItem" then num + 1 else 0

mutual

def renderBlock (depth num : Nat) : Block → Line
  | .mk _ type props content children =>
    renderHead depth num type props content ++ renderBlocks (depth + 1) 0 children

/-- `renderBlocks`, `num` being the number of the block before. -/
def renderBlocks (depth num : Nat) : List Block → Line
  | [] => []
  | b :: bs =>
    renderBlock depth (nextNumber b.type num) b ++
      renderBlocks depth (nextNumber b.type num) bs

end

/-- `BlocksToMarkdown`. -/
def blocksToMarkdown (blocks : List Block) : String :=
  String.ofList (trimRightChars (· == '\n') (renderBlocks 0 0 blocks))

end Yanta.Blocknote
