import Yanta.Blocknote.Inline

/-!
# Lines of Markdown

The line half of `MarkdownToBlocks`: its regular expressions, and the switch that
decides how the next lines are read. One pass of the loop reads one token. What it
reads does not depend on what was built from the tokens before.
-/

namespace Yanta.Blocknote

open Go

/-! ## Regular expressions -/

/-- The class `\s`. -/
def isRegexSpace (c : Char) : Bool := [' ', '\t', '\n', '\x0c', '\r'].contains c

/-- The end `\s+(.*)$` of an expression, with what it captures. -/
def afterSpaces : Line → Option Line
  | [] => none
  | c :: cs => if isRegexSpace c then some (cs.dropWhile isRegexSpace) else none

/-- `headingRe`: the number of hashes and the text. -/
def matchHeading (line : Line) : Option (Nat × Line) :=
  let level := (line.takeWhile (· == '#')).length
  if 1 ≤ level ∧ level ≤ 6 then
    (afterSpaces (line.dropWhile (· == '#'))).map fun text => (level, text)
  else none

def isBulletMark (c : Char) : Bool := c == '-' || c == '*'

/-- `bulletRe`. -/
def matchBullet : Line → Option Line
  | [] => none
  | c :: cs => if isBulletMark c then afterSpaces cs else none

/-- `checkRe`: whether the box is ticked, and the text. -/
def matchCheck (line : Line) : Option (Bool × Line) :=
  match matchBullet line with
  | some ('[' :: mark :: ']' :: rest) =>
    if [' ', 'x', 'X'].contains mark then
      (afterSpaces rest).map fun text => (mark == 'x' || mark == 'X', text)
    else none
  | _ => none

/-- `numRe`: the text. -/
def matchNumber (line : Line) : Option Line :=
  if (line.takeWhile Char.isDigit).isEmpty then none
  else
    match line.dropWhile Char.isDigit with
    | '.' :: rest => afterSpaces rest
    | _ => none

/-- `thematicRe`. -/
def matchThematic (line : Line) : Bool :=
  decide (3 ≤ line.length) &&
    (line.all (· == '-') || line.all (· == '*') || line.all (· == '_'))

def dropColon : Line → Line
  | ':' :: cs => cs
  | cs => cs

/-- The part `\s*:?-+:?\s*` of `tableSepRe`. -/
def matchSepCell (cell : Line) : Bool :=
  let dashes := dropColon (cell.dropWhile isRegexSpace)
  !(dashes.takeWhile (· == '-')).isEmpty &&
    (dropColon (dashes.dropWhile (· == '-'))).all isRegexSpace

/-- A row without its optional first and last pipe. -/
def stripPipes (row : Line) : Line :=
  let row := if ['|'].isPrefixOf row then row.drop 1 else row
  if ['|'].isSuffixOf row then row.dropLast else row

/-- `tableSepRe`: at least two cells. -/
def matchTableSep (line : Line) : Bool :=
  let cells := (stripPipes line).splitOn '|'
  decide (2 ≤ cells.length) && cells.all matchSepCell

/-! ## Tokens -/

inductive ItemKind where
  | bullet
  | numbered
  | check (checked : Bool)
deriving DecidableEq, Repr

inductive Token where
  /-- `closed` tells whether the closing fence was there. -/
  | code (lang : Line) (lines : List Line) (closed : Bool)
  | blank
  | heading (level : Nat) (text : Line)
  | divider
  | table (rows : List (List Line))
  | quote (lines : List Line)
  | item (indent : Nat) (kind : ItemKind) (text : Line)
  | text (line : Line)
deriving DecidableEq, Repr

/-- `leadingIndent`. -/
def leadingIndent (line : Line) : Nat :=
  (line.takeWhile fun c => c == ' ' || c == '\t').length

def isFence (line : Line) : Bool := ['`', '`', '`'].isPrefixOf (trimSpaceChars line)

/-- `isTableStart`, for the trimmed line and the lines after it. -/
def isTableStart (line : Line) (rest : List Line) : Bool :=
  line.contains '|' &&
    match rest with
    | [] => false
    | next :: _ => matchTableSep (trimSpaceChars next)

/-- `splitTableRow`. -/
def splitTableRow (line : Line) : List Line :=
  ((stripPipes (trimSpaceChars line)).splitOn '|').map trimSpaceChars

/-- The lines after the delimiter row that belong to a table. -/
def isTableRow (line : Line) : Bool :=
  let line := trimSpaceChars line
  !line.isEmpty && line.contains '|'

def isQuoteLine (line : Line) : Bool := ['>'].isPrefixOf (trimSpaceChars line)

/-- The text of a line of a quote. -/
def quoteText (line : Line) : Line := trimSpaceChars ((trimSpaceChars line).drop 1)

/-- The list item that a trimmed line is. -/
def matchItem (line : Line) : Option (ItemKind × Line) :=
  match matchCheck line with
  | some (checked, text) => some (.check checked, text)
  | none =>
    match matchBullet line with
    | some text => some (.bullet, text)
    | none => (matchNumber line).map fun text => (.numbered, text)

/-- The cases of the switch that read one line, for the trimmed line. -/
def lineToken (indent : Nat) (line : Line) : Token :=
  match matchItem line with
  | some (kind, text) => .item indent kind text
  | none => .text line

/-- The code up to the closing fence, and the lines after it. -/
def readCode (lang : Line) (rest : List Line) : Token × List Line :=
  let code := rest.takeWhile fun line => !isFence line
  match rest.dropWhile fun line => !isFence line with
  | [] => (.code lang code false, [])
  | _ :: rest => (.code lang code true, rest)

/-- One pass of the loop: the token that the next lines are, and the lines left. -/
def nextToken (line : Line) (rest : List Line) : Token × List Line :=
  let trimmed := trimSpaceChars line
  if isFence line then readCode (trimSpaceChars (trimmed.drop 3)) rest
  else if trimmed = [] then (.blank, rest)
  else
    match matchHeading trimmed with
    | some (level, text) => (.heading (min level 3) text, rest)
    | none =>
      if matchThematic trimmed then (.divider, rest)
      else if isTableStart trimmed rest then
        (.table (splitTableRow trimmed ::
            ((rest.drop 1).takeWhile isTableRow).map splitTableRow),
          (rest.drop 1).dropWhile isTableRow)
      else if isQuoteLine line then
        (.quote (((line :: rest).takeWhile isQuoteLine).map quoteText),
          (line :: rest).dropWhile isQuoteLine)
      else (lineToken (leadingIndent line) trimmed, rest)

/-- The loop; `fuel` bounds the number of lines. -/
def tokensFrom : Nat → List Line → List Token
  | 0, _ => []
  | _ + 1, [] => []
  | fuel + 1, line :: rest =>
    (nextToken line rest).1 :: tokensFrom fuel (nextToken line rest).2

def tokens (lines : List Line) : List Token := tokensFrom lines.length lines

/-- The lines of a text, with either line ending. -/
def linesOf (md : String) : List Line :=
  (replaceAll md "\r\n" "\n").toList.splitOn '\n'

end Yanta.Blocknote
