import Yanta.Document.Parser

/-!
# Inline Markdown

The inline half of `internal/blocknote/blocknote.go`: the parser of emphasis, code and
links, the renderer, and the JSON that carries inline items. Texts are lists of
characters. The parser reads bytes, but every byte it looks for is an ASCII
character, so on valid UTF-8 it reads characters.
-/

namespace Yanta.Blocknote

open Go Document

abbrev Line := List Char

/-- `Inline`, which has the fields of `BlockNoteContent`. -/
abbrev Inline := BlockNoteContent

def textInline (text : Line) (styles : Object) : Inline :=
  .mk "text" (String.ofList text) (some styles) "" []

/-- A link is built without styles. -/
def linkInline (url : Line) (content : List Inline) : Inline :=
  .mk "link" "" none (String.ofList url) content

/-! ## Parsing -/

/-- What stands before the first occurrence of a separator, and what after it. -/
def cut (sep : Line) : Line → Option (Line × Line)
  | [] => none
  | c :: cs =>
    if sep.isPrefixOf (c :: cs) then some ([], (c :: cs).drop sep.length)
    else (cut sep cs).map fun found => (c :: found.1, found.2)

/-- `matchDelim`: the inner text, which is not empty, and the text after it. -/
def matchDelim (delim s : Line) : Option (Line × Line) :=
  if delim.isPrefixOf s then
    (cut delim (s.drop delim.length)).filter fun found => found.1 ≠ []
  else none

/-- `matchLink`: the label, the address and the text after the link. -/
def matchLink (s : Line) : Option (Line × Line × Line) :=
  match cut [']'] s with
  | some (_ :: label, '(' :: rest) => (cut [')'] rest).map fun found => (label, found)
  | _ => none

/-- What the parser may find at a position. -/
inductive Span where
  | code (text rest : Line)
  | link (label url rest : Line)
  | styled (style : String) (inner rest : Line)
deriving DecidableEq, Repr

/-- The switch of `parseInline`: the first case that applies decides, also where its
match fails. -/
def nextSpan (s : Line) : Option Span :=
  match s with
  | [] => none
  | c :: cs =>
    if c = '`' then (cut ['`'] cs).map fun found => .code found.1 found.2
    else if c = '[' then
      (matchLink s).map fun found => .link found.1 found.2.1 found.2.2
    else if ['*', '*'].isPrefixOf s then
      (matchDelim ['*', '*'] s).map fun found => .styled "bold" found.1 found.2
    else if ['~', '~'].isPrefixOf s then
      (matchDelim ['~', '~'] s).map fun found => .styled "strike" found.1 found.2
    else if c = '*' ∨ c = '_' then
      (matchDelim [c] s).map fun found => .styled "italic" found.1 found.2
    else none

/-- Assignment to a map. -/
def setKey (o : Object) (key : String) (value : Json) : Object :=
  o.filter (fun member => member.1 ≠ key) ++ [(key, value)]

mutual

/-- `applyStyle` for one item. -/
def applyStyleItem (style : String) : Inline → Inline
  | .mk type text styles href content =>
    if type = "text" then
      .mk type text (some (setKey (styles.getD []) style (.bool true))) href content
    else if type = "link" then
      .mk type text styles href (applyStyle style content)
    else .mk type text styles href content

/-- `applyStyle`. -/
def applyStyle (style : String) : List Inline → List Inline
  | [] => []
  | item :: items => applyStyleItem style item :: applyStyle style items

end

/-- The pending text as an item. -/
def flush (buf : Line) : List Inline :=
  if buf = [] then [] else [textInline buf []]

/-- The loop of `parseInline` from a position on, with the pending text; `fuel` bounds
the number of characters read. -/
def parseFrom : Nat → Line → Line → List Inline
  | 0, _, _ => []
  | _ + 1, buf, [] => flush buf
  | fuel + 1, buf, c :: cs =>
    match nextSpan (c :: cs) with
    | none => parseFrom fuel (buf ++ [c]) cs
    | some (.code text rest) =>
      flush buf ++ textInline text [("code", .bool true)] :: parseFrom fuel [] rest
    | some (.link label url rest) =>
      flush buf ++ linkInline url (parseFrom fuel [] label) :: parseFrom fuel [] rest
    | some (.styled style inner rest) =>
      flush buf ++ applyStyle style (parseFrom fuel [] inner) ++ parseFrom fuel [] rest

/-- `parseInline`. -/
def parseInline (s : Line) : List Inline := parseFrom (s.length + 1) [] s

/-! ## Rendering -/

/-- `boolFrom`. -/
def boolFrom (styles : Option Object) (key : String) : Bool :=
  match (styles.getD []).get? key with
  | some (.bool b) => b
  | _ => false

/-- Put a marker on both sides. -/
def wrapIf (b : Bool) (mark text : Line) : Line :=
  if b then mark ++ text ++ mark else text

/-- `styleWrap`: code innermost, then strike, italic, and bold outermost. -/
def styleWrap (text : Line) (styles : Option Object) : Line :=
  wrapIf (boolFrom styles "bold") ['*', '*'] <|
    wrapIf (boolFrom styles "italic") ['_'] <|
      wrapIf (boolFrom styles "strike") ['~', '~'] <|
        wrapIf (boolFrom styles "code") ['`'] text

mutual

def itemToMarkdown : Inline → Line
  | .mk type text styles href content =>
    if type = "text" then styleWrap text.toList styles
    else if type = "link" then
      ['['] ++ inlineToMarkdown content ++ [']', '('] ++ href.toList ++ [')']
    else []

/-- `inlineToMarkdown`. -/
def inlineToMarkdown : List Inline → Line
  | [] => []
  | item :: items => itemToMarkdown item ++ inlineToMarkdown items

end

mutual

def itemPlainText : Inline → Line
  | .mk type text _ _ content =>
    (if type = "text" then text.toList else []) ++ itemsPlainText content

/-- The walk of `plainText`. -/
def itemsPlainText : List Inline → Line
  | [] => []
  | item :: items => itemPlainText item ++ itemsPlainText items

end

/-- `decodeInline`: absent content has no items. -/
def decodeItems (raw : Option Json) : Option (List Inline) :=
  match raw with
  | none => some []
  | some json => decodeInline json

/-- `renderInline`. -/
def renderInline (raw : Option Json) : Line :=
  match decodeItems raw with
  | none => []
  | some items => inlineToMarkdown items

/-- `plainText`. -/
def plainText (raw : Option Json) : Line :=
  match decodeItems raw with
  | none => []
  | some items => itemsPlainText items

/-! ## JSON -/

def omitEmpty (key value : String) : Object :=
  if value = "" then [] else [(key, .str value)]

/-- The member `content`, which is left out when it is empty. -/
def contentMember : List Json → Object
  | [] => []
  | item :: items => [("content", .arr (item :: items))]

mutual

/-- `json.Marshal` of one item. -/
def encodeItem : Inline → Json
  | .mk type text styles href content =>
    .obj ([("type", .str type)] ++ omitEmpty "text" text ++
      [("styles", (styles.map Json.obj).getD .null)] ++ omitEmpty "href" href ++
      contentMember (encodeItems content))

def encodeItems : List Inline → List Json
  | [] => []
  | item :: items => encodeItem item :: encodeItems items

end

/-- `marshalInline`. -/
def marshalInline (items : List Inline) : Json := .arr (encodeItems items)

end Yanta.Blocknote
