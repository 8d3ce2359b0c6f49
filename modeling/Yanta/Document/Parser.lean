import Yanta.Document.File

/-!
# Extracting searchable content

`internal/document/parser.go` and `blocks.go`: the walk over the block tree that
collects the texts, links and asset references the index stores. The walk is
written with the accumulating `ExtractedContent` that the source mutates.
-/

namespace Yanta.Document

open Go

/-! ## Inline content -/

inductive BlockNoteContent where
  | mk (type text : String) (styles : Option Object) (href : String)
      (content : List BlockNoteContent)
deriving Repr

namespace BlockNoteContent

def type : BlockNoteContent → String
  | mk type _ _ _ _ => type

def text : BlockNoteContent → String
  | mk _ text _ _ _ => text

def styles : BlockNoteContent → Option Object
  | mk _ _ styles _ _ => styles

def href : BlockNoteContent → String
  | mk _ _ _ href _ => href

def content : BlockNoteContent → List BlockNoteContent
  | mk _ _ _ _ content => content

/-- The zero value of the struct. -/
def zero : BlockNoteContent := mk "" "" none "" []

end BlockNoteContent

mutual

/-- `json.Unmarshal` of one inline item. -/
def decodeContent : Json → Option BlockNoteContent
  | .null => some .zero
  | .obj members => decodeContentMembers members .zero
  | _ => none

/-- The members of an object, assigned to the fields in the order they come. -/
def decodeContentMembers :
    List (String × Json) → BlockNoteContent → Option BlockNoteContent
  | [], c => some c
  | (key, value) :: members, .mk type text styles href content =>
    if keyMatches key "type" then
      match decodeString type value with
      | none => none
      | some type => decodeContentMembers members (.mk type text styles href content)
    else if keyMatches key "text" then
      match decodeString text value with
      | none => none
      | some text => decodeContentMembers members (.mk type text styles href content)
    else if keyMatches key "href" then
      match decodeString href value with
      | none => none
      | some href => decodeContentMembers members (.mk type text styles href content)
    else if keyMatches key "styles" then
      match value with
      | .null => decodeContentMembers members (.mk type text none href content)
      | .obj o => decodeContentMembers members (.mk type text (some o) href content)
      | _ => none
    else if keyMatches key "content" then
      match value with
      | .null => decodeContentMembers members (.mk type text styles href [])
      | .arr items =>
        match decodeContentItems items with
        | none => none
        | some content =>
          decodeContentMembers members (.mk type text styles href content)
      | _ => none
    else decodeContentMembers members (.mk type text styles href content)

def decodeContentItems : List Json → Option (List BlockNoteContent)
  | [] => some []
  | item :: items =>
    match decodeContent item with
    | none => none
    | some c => (decodeContentItems items).map (c :: ·)

end

/-- `json.Unmarshal` into `[]BlockNoteContent`. -/
def decodeInline : Json → Option (List BlockNoteContent)
  | .null => some []
  | .arr items => decodeContentItems items
  | _ => none

/-! ## What is extracted -/

structure Link where
  url : String
  host : String
deriving DecidableEq, Repr

structure Asset where
  path : String
  caption : String
deriving DecidableEq, Repr

structure ExtractedContent where
  title : String
  headings : List String
  body : List String
  code : List String
  links : List Link
  assets : List Asset
  hasCode : Bool
  hasImages : Bool
  hasLinks : Bool
deriving DecidableEq, Repr

mutual

/-- The text an inline item contributes: its own, or its label's for a link. -/
def itemText : BlockNoteContent → String
  | .mk type text _ _ content =>
    if type = "text" then text
    else if type = "link" then extractTextFromContentSlice content
    else ""

def extractTextFromContentSlice : List BlockNoteContent → String
  | [] => ""
  | item :: items => itemText item ++ extractTextFromContentSlice items

end

def extractTextFromContent (rawContent : Option Json) : String :=
  match rawContent.bind decodeInline with
  | none => ""
  | some items => extractTextFromContentSlice items

section

variable {β : Type} (rt : Runtime β)

def extractHost (rawURL : String) : String :=
  match rt.parseURL rawURL with
  | none => ""
  | some (_, host, _) => host

def extractLinksFromContent (rawContent : Option Json) : List Link :=
  match rawContent.bind decodeInline with
  | none => []
  | some items =>
    (items.filter fun item => item.type == "link" && !(item.href == "")).map
      fun item => { url := item.href, host := extractHost rt item.href }

/-- The properties `extractPropText` reads, in its order. -/
def propTextKeys : List String :=
  ["text", "caption", "name", "title", "alt", "url"]

def extractPropText (props : Object) : String :=
  let parts := propTextKeys.filterMap fun key =>
    (props.string? key).bind fun v =>
      let trimmed := trimSpace v
      if trimmed = "" then none else some trimmed
  join parts " "

def parseHeading (block : BlockNoteBlock) (c : ExtractedContent) :
    ExtractedContent :=
  let text := extractTextFromContent block.content
  if text = "" then c
  else
    { c with
      headings := c.headings ++ [text]
      links := c.links ++ extractLinksFromContent rt block.content }

/-- The shared body of `parseParagraph`, `parseListItem` and `parseQuote`. -/
def parseBodyText (block : BlockNoteBlock) (c : ExtractedContent) :
    ExtractedContent :=
  let text := extractTextFromContent block.content
  if text = "" then c
  else
    { c with
      body := c.body ++ [text]
      links := c.links ++ extractLinksFromContent rt block.content }

def parseParagraph := parseBodyText rt

def parseListItem := parseBodyText rt

def parseQuote := parseBodyText rt

def parseCodeBlock (block : BlockNoteBlock) (c : ExtractedContent) :
    ExtractedContent :=
  let text := extractTextFromContent block.content
  if text = "" then c else { c with code := c.code ++ [text] }

def parseImage (block : BlockNoteBlock) (c : ExtractedContent) :
    ExtractedContent :=
  match block.props.string? "url" with
  | none => c
  | some url =>
    if url = "" then c
    else
      let caption := (block.props.string? "caption").getD ""
      { c with
        body := if caption = "" then c.body else c.body ++ [caption]
        assets := c.assets ++ [{ path := url, caption := caption }] }

def parseFile (block : BlockNoteBlock) (c : ExtractedContent) :
    ExtractedContent :=
  match block.props.string? "url" with
  | none => c
  | some url =>
    if url = "" then c
    else
      let name := (block.props.string? "name").getD ""
      { c with
        body := if name = "" then c.body else c.body ++ [name]
        assets := c.assets ++ [{ path := url, caption := name }] }

/-! ### Tables -/

/-- `TableCell`: only its inline content is read. -/
def decodeCell (members : Object) (content : List BlockNoteContent) :
    Option (List BlockNoteContent) :=
  match members with
  | [] => some content
  | (key, value) :: members =>
    if keyMatches key "type" then
      match decodeString "" value with
      | none => none
      | some _ => decodeCell members content
    else if keyMatches key "props" then
      match value with
      | .null => decodeCell members content
      | .obj _ => decodeCell members content
      | _ => none
    else if keyMatches key "content" then
      match decodeInline value with
      | none => none
      | some content => decodeCell members content
    else decodeCell members content

def decodeCells : List Json → Option (List (List BlockNoteContent))
  | [] => some []
  | .null :: cells => (decodeCells cells).map ([] :: ·)
  | .obj members :: cells =>
    match decodeCell members [] with
    | none => none
    | some c => (decodeCells cells).map (c :: ·)
  | _ :: _ => none

/-- `TableRow`: the cells of one row. -/
def decodeRow (members : Object) (row : List (List BlockNoteContent)) :
    Option (List (List BlockNoteContent)) :=
  match members with
  | [] => some row
  | (key, value) :: members =>
    if keyMatches key "cells" then
      match value with
      | .null => decodeRow members []
      | .arr cells =>
        match decodeCells cells with
        | none => none
        | some row => decodeRow members row
      | _ => none
    else decodeRow members row

def decodeRows : List Json → Option (List (List (List BlockNoteContent)))
  | [] => some []
  | .null :: rows => (decodeRows rows).map ([] :: ·)
  | .obj members :: rows =>
    match decodeRow members [] with
    | none => none
    | some r => (decodeRows rows).map (r :: ·)
  | _ :: _ => none

/-- The members of a `TableContent` object. -/
def decodeTableMembers (members : Object)
    (rows : List (List (List BlockNoteContent))) :
    Option (List (List (List BlockNoteContent))) :=
  match members with
  | [] => some rows
  | (key, value) :: members =>
    if keyMatches key "type" then
      match decodeString "" value with
      | none => none
      | some _ => decodeTableMembers members rows
    else if keyMatches key "columnwidths" then
      match value with
      | .null => decodeTableMembers members rows
      | .arr _ => decodeTableMembers members rows
      | _ => none
    else if keyMatches key "rows" then
      match value with
      | .null => decodeTableMembers members []
      | .arr items =>
        match decodeRows items with
        | none => none
        | some rows => decodeTableMembers members rows
      | _ => none
    else decodeTableMembers members rows

/-- `json.Unmarshal` into `TableContent`, keeping the rows. -/
def decodeTable : Json → Option (List (List (List BlockNoteContent)))
  | .null => some []
  | .obj members => decodeTableMembers members []
  | _ => none

def parseTable (block : BlockNoteBlock) (c : ExtractedContent) :
    ExtractedContent :=
  match block.content.bind decodeTable with
  | none => c
  | some rows =>
    let tableText :=
      (rows.flatten.map extractTextFromContentSlice).filter fun t => !(t == "")
    if tableText = [] then c
    else { c with body := c.body ++ [join tableText " "] }

/-! ### The walk -/

/-- The `default` branch of `parseBlock`. -/
def parseOther (block : BlockNoteBlock) (c : ExtractedContent) :
    ExtractedContent :=
  let text := extractTextFromContent block.content
  let text := if text = "" then extractPropText block.props else text
  if text = "" then c else { c with body := c.body ++ [text] }

/-- The type switch of `parseBlock`, without the recursion to the children. -/
def parseOwn (block : BlockNoteBlock) (c : ExtractedContent) :
    ExtractedContent :=
  match block.type with
  | "heading" => parseHeading rt block c
  | "paragraph" => parseParagraph rt block c
  | "codeBlock" => parseCodeBlock block c
  | "bulletListItem" => parseListItem rt block c
  | "numberedListItem" => parseListItem rt block c
  | "checkListItem" => parseListItem rt block c
  | "image" => parseImage block c
  | "file" => parseFile block c
  | "quote" => parseQuote rt block c
  | "table" => parseTable block c
  | _ => parseOther block c

mutual

def parseBlock : BlockNoteBlock → ExtractedContent → ExtractedContent
  | .mk id type props content children, c =>
    parseBlocks children (parseOwn rt (.mk id type props content children) c)

def parseBlocks : List BlockNoteBlock → ExtractedContent → ExtractedContent
  | [], c => c
  | block :: blocks, c => parseBlocks blocks (parseBlock block c)

end

/-! ### Canvas documents -/

structure CanvasElement where
  type : String
  text : String
  isDeleted : Bool
deriving DecidableEq, Repr

def decodeElementMembers : Object → CanvasElement → Option CanvasElement
  | [], el => some el
  | (key, value) :: members, el =>
    if keyMatches key "type" then
      match decodeString el.type value with
      | none => none
      | some type => decodeElementMembers members { el with type := type }
    else if keyMatches key "text" then
      match decodeString el.text value with
      | none => none
      | some text => decodeElementMembers members { el with text := text }
    else if keyMatches key "isdeleted" then
      match decodeBool el.isDeleted value with
      | none => none
      | some isDeleted =>
        decodeElementMembers members { el with isDeleted := isDeleted }
    else decodeElementMembers members el

def decodeElements : List Json → Option (List CanvasElement)
  | [] => some []
  | .null :: items => (decodeElements items).map (⟨"", "", false⟩ :: ·)
  | .obj members :: items =>
    match decodeElementMembers members ⟨"", "", false⟩ with
    | none => none
    | some el => (decodeElements items).map (el :: ·)
  | _ :: _ => none

def decodeSceneMembers :
    Object → List CanvasElement → Option (List CanvasElement)
  | [], elements => some elements
  | (key, value) :: members, elements =>
    if keyMatches key "elements" then
      match value with
      | .null => decodeSceneMembers members []
      | .arr items =>
        match decodeElements items with
        | none => none
        | some elements => decodeSceneMembers members elements
      | _ => none
    else decodeSceneMembers members elements

def maxCanvasSceneBytes : Nat := 20 * 1024 * 1024

def extractCanvasText : Option Json → List String
  | some (.obj members) =>
    if maxCanvasSceneBytes < rt.rawSize (.obj members) then []
    else
      match decodeSceneMembers members [] with
      | none => []
      | some elements =>
        (elements.filter fun el =>
          !el.isDeleted && el.type == "text" && !(el.text == "")).map
          CanvasElement.text
  | _ => []

def parseCanvas (doc : DocumentFile) (c : ExtractedContent) :
    ExtractedContent :=
  { c with
    body := c.body ++ extractCanvasText rt doc.scene
    assets := c.assets ++
      ((doc.assets.map Prod.snd).filter fun ref => !(ref == "")).map
        fun ref => { path := ref, caption := "" } }

/-- `Parser.Parse`; it never fails. -/
def parse (doc : DocumentFile) : ExtractedContent :=
  let start : ExtractedContent :=
    { title := doc.docMeta.title, headings := [], body := [], code := []
      links := [], assets := [], hasCode := false, hasImages := false
      hasLinks := false }
  let kind := kindOf doc.kind
  let c :=
    if kind = documentKindCanvas then parseCanvas rt doc start
    else if kind = documentKindDocument then parseBlocks rt doc.blocks start
    else start
  { c with
    title := if c.title = "" then c.headings.headD "" else c.title
    hasCode := !c.code.isEmpty
    hasImages := !c.assets.isEmpty
    hasLinks := !c.links.isEmpty }

end

end Yanta.Document
