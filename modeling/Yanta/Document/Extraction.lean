import Yanta.Document.Validation

/-!
# The walk over the blocks

What the parser of `internal/document/parser.go` extracts from a document is what it extracts
from each block alone, one after the other in document order: a block before its children,
and the children in their order.
-/

namespace Yanta.Document

open List

mutual

/-- A block and what is nested in it, in document order. -/
def preorderBlock : BlockNoteBlock → List BlockNoteBlock
  | .mk id type props content children =>
    .mk id type props content children :: preorder children

def preorder : List BlockNoteBlock → List BlockNoteBlock
  | [] => []
  | block :: blocks => preorderBlock block ++ preorder blocks

end

/-- Nothing extracted. -/
def emptyContent : ExtractedContent :=
  { title := "", headings := [], body := [], code := [], links := [], assets := []
    hasCode := false, hasImages := false, hasLinks := false }

/-- The lists of both, one after the other. -/
def ExtractedContent.append (c d : ExtractedContent) : ExtractedContent :=
  { c with
    headings := c.headings ++ d.headings
    body := c.body ++ d.body
    code := c.code ++ d.code
    links := c.links ++ d.links
    assets := c.assets ++ d.assets }

section

variable {β : Type} (rt : Runtime β)

/-- What a block gives by itself. -/
def ownContent (block : BlockNoteBlock) : ExtractedContent := parseOwn rt block emptyContent

variable (block : BlockNoteBlock) (c : ExtractedContent)

open ExtractedContent

@[simp] theorem append_emptyContent : c.append emptyContent = c := by
  simp [append, emptyContent]

theorem parseHeading_eq :
    parseHeading rt block c = c.append (parseHeading rt block emptyContent) := by
  simp only [parseHeading]
  split_ifs <;> simp [append, emptyContent]

theorem parseBodyText_eq :
    parseBodyText rt block c = c.append (parseBodyText rt block emptyContent) := by
  simp only [parseBodyText]
  split_ifs <;> simp [append, emptyContent]

theorem parseCodeBlock_eq :
    parseCodeBlock block c = c.append (parseCodeBlock block emptyContent) := by
  simp only [parseCodeBlock]
  split_ifs <;> simp [append, emptyContent]

theorem parseImage_eq :
    parseImage block c = c.append (parseImage block emptyContent) := by
  rw [parseImage, parseImage]
  cases block.props.string? "url" with
  | none => exact (append_emptyContent c).symm
  | some url =>
    simp only
    split_ifs <;> simp [append, emptyContent]

theorem parseFile_eq : parseFile block c = c.append (parseFile block emptyContent) := by
  rw [parseFile, parseFile]
  cases block.props.string? "url" with
  | none => exact (append_emptyContent c).symm
  | some url =>
    simp only
    split_ifs <;> simp [append, emptyContent]

theorem parseTable_eq :
    parseTable block c = c.append (parseTable block emptyContent) := by
  rw [parseTable, parseTable]
  cases block.content.bind decodeTable with
  | none => exact (append_emptyContent c).symm
  | some rows =>
    simp only
    split_ifs <;> simp [append, emptyContent]

theorem parseOther_eq :
    parseOther block c = c.append (parseOther block emptyContent) := by
  simp only [parseOther]
  split_ifs <;> simp [append, emptyContent]

/-- A block adds what it gives by itself. -/
theorem parseOwn_eq : parseOwn rt block c = c.append (ownContent rt block) := by
  rw [ownContent, parseOwn, parseOwn]
  split
  · exact parseHeading_eq rt block c
  · exact parseBodyText_eq rt block c
  · exact parseCodeBlock_eq block c
  · exact parseBodyText_eq rt block c
  · exact parseBodyText_eq rt block c
  · exact parseBodyText_eq rt block c
  · exact parseImage_eq block c
  · exact parseFile_eq block c
  · exact parseBodyText_eq rt block c
  · exact parseTable_eq block c
  · exact parseOther_eq block c

mutual

theorem parseBlock_eq_foldl (block : BlockNoteBlock) (c : ExtractedContent) :
    parseBlock rt block c =
      (preorderBlock block).foldl (fun c b => parseOwn rt b c) c := by
  obtain ⟨id, type, props, content, children⟩ := block
  rw [parseBlock, preorderBlock, foldl_cons, parseBlocks_eq_foldl children]

theorem parseBlocks_eq_foldl (blocks : List BlockNoteBlock) (c : ExtractedContent) :
    parseBlocks rt blocks c = (preorder blocks).foldl (fun c b => parseOwn rt b c) c := by
  cases blocks with
  | nil => rw [parseBlocks, preorder, foldl_nil]
  | cons block blocks =>
    rw [parseBlocks, preorder, foldl_append, parseBlock_eq_foldl block,
      parseBlocks_eq_foldl blocks]

end

/-- The walk gives, list by list, what the blocks give in document order. -/
theorem foldl_parseOwn (blocks : List BlockNoteBlock) (c : ExtractedContent) :
    blocks.foldl (fun c b => parseOwn rt b c) c =
      { c with
        headings := c.headings ++ blocks.flatMap fun b => (ownContent rt b).headings
        body := c.body ++ blocks.flatMap fun b => (ownContent rt b).body
        code := c.code ++ blocks.flatMap fun b => (ownContent rt b).code
        links := c.links ++ blocks.flatMap fun b => (ownContent rt b).links
        assets := c.assets ++ blocks.flatMap fun b => (ownContent rt b).assets } := by
  induction blocks generalizing c with
  | nil => simp
  | cons block blocks ih =>
    rw [foldl_cons, ih, parseOwn_eq]
    simp [append]

/-- The texts and links of a document are those of its blocks, in document order. -/
structure InDocumentOrder (doc : DocumentFile) : Prop where
  headings : (parse rt doc).headings =
    (preorder doc.blocks).flatMap fun b => (ownContent rt b).headings
  body : (parse rt doc).body = (preorder doc.blocks).flatMap fun b => (ownContent rt b).body
  code : (parse rt doc).code = (preorder doc.blocks).flatMap fun b => (ownContent rt b).code
  links : (parse rt doc).links = (preorder doc.blocks).flatMap fun b => (ownContent rt b).links

theorem parse_inDocumentOrder {doc : DocumentFile}
    (hkind : kindOf doc.kind = documentKindDocument) : InDocumentOrder rt doc := by
  constructor
  all_goals
    rw [parse, hkind, parseBlocks_eq_foldl, foldl_parseOwn]
    exact nil_append _

end

end Yanta.Document
