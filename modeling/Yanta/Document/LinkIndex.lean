import Yanta.Document.Searchable

/-!
# Indexed links

Which links of a document are indexed. The handlers of headings, paragraphs, list items and
quotes add the links that stand directly in the inline list, if the block has text; those of
tables, code and other blocks add none, and no handler looks into a link for another one.
-/

namespace Yanta.Document

open Go List

/-! ## Addresses -/

mutual

/-- The addresses of the links in an inline item, also inside other links. -/
def itemAddresses : BlockNoteContent → List String
  | .mk type _ _ href content =>
    if type = "link" then (if href = "" then [] else [href]) ++ sliceAddresses content
    else []

def sliceAddresses : List BlockNoteContent → List String
  | [] => []
  | item :: items => itemAddresses item ++ sliceAddresses items

end

/-- The addresses in the well-formed items of an inline list. -/
def inlineAddresses : Option Json → List String
  | some (.arr items) => (items.filterMap decodeContent).flatMap itemAddresses
  | _ => []

def tableAddresses (content : Option Json) : List String :=
  match content.bind decodeTable with
  | none => []
  | some rows => rows.flatten.flatMap sliceAddresses

/-- The addresses of the links in the content of a block of the type. -/
def blockAddresses (type : String) (content : Option Json) : List String :=
  inlineAddresses content ++ if type = "table" then tableAddresses content else []

/-- The addresses of the links directly in an inline list. -/
def directAddresses (content : Option Json) : List String :=
  match content.bind decodeInline with
  | none => []
  | some items =>
    (items.filter fun item => item.type == "link" && !(item.href == "")).map
      BlockNoteContent.href

/-- The types of blocks whose links are indexed. -/
def linkTypes : List String :=
  ["heading", "paragraph", "bulletListItem", "numberedListItem", "checkListItem", "quote"]

/-- Every link of the content stands directly in the inline list of a block with text, of a
type whose links are indexed, or has the address of one that does. -/
def LinksDirect (type : String) (content : Option Json) : Prop :=
  ∀ address ∈ blockAddresses type content, type ∈ linkTypes ∧
    extractTextFromContent content ≠ "" ∧ address ∈ directAddresses content

section

variable {β : Type} (rt : Runtime β)

theorem map_url_extractLinks (content : Option Json) :
    (extractLinksFromContent rt content).map Link.url = directAddresses content := by
  rw [extractLinksFromContent, directAddresses]
  cases content.bind decodeInline with
  | none => rfl
  | some items =>
    simp only [map_map]
    rfl

variable (block : BlockNoteBlock)

theorem map_url_parseHeading :
    (parseHeading rt block emptyContent).links.map Link.url =
      if extractTextFromContent block.content ≠ "" then directAddresses block.content
      else [] := by
  simp only [parseHeading, ite_not]
  split_ifs
  · rfl
  · exact map_url_extractLinks rt block.content

theorem map_url_parseBodyText :
    (parseBodyText rt block emptyContent).links.map Link.url =
      if extractTextFromContent block.content ≠ "" then directAddresses block.content
      else [] := by
  simp only [parseBodyText, ite_not]
  split_ifs
  · rfl
  · exact map_url_extractLinks rt block.content

/-- The handlers of code, images, files, tables and other blocks add no links. -/
theorem links_of_others :
    (parseCodeBlock block emptyContent).links = [] ∧
      (parseImage block emptyContent).links = [] ∧
      (parseFile block emptyContent).links = [] ∧
      (parseTable block emptyContent).links = [] ∧
      (parseOther block emptyContent).links = [] := by
  refine ⟨?_, ?_, ?_, ?_, ?_⟩
  · simp only [parseCodeBlock]
    split_ifs <;> rfl
  · rw [parseImage]
    cases block.props.string? "url" with
    | none => rfl
    | some url =>
      simp only
      split_ifs <;> rfl
  · rw [parseFile]
    cases block.props.string? "url" with
    | none => rfl
    | some url =>
      simp only
      split_ifs <;> rfl
  · rw [parseTable]
    cases block.content.bind decodeTable with
    | none => rfl
    | some rows =>
      simp only
      split_ifs <;> rfl
  · simp only [parseOther]
    split_ifs <;> rfl

/-- The addresses that a block gives by itself. -/
theorem map_url_ownContent :
    (ownContent rt block).links.map Link.url =
      if block.type ∈ linkTypes ∧ extractTextFromContent block.content ≠ "" then
        directAddresses block.content
      else [] := by
  obtain ⟨hcode, himage, hfile, htable, hother⟩ := links_of_others block
  have hbody : block.type ∈ linkTypes →
      (parseBodyText rt block emptyContent).links.map Link.url =
      if block.type ∈ linkTypes ∧ extractTextFromContent block.content ≠ "" then
        directAddresses block.content else [] := by
    intro h
    rw [map_url_parseBodyText]
    simp [h]
  have hnot : block.type ∉ linkTypes →
      (if block.type ∈ linkTypes ∧ extractTextFromContent block.content ≠ "" then
        directAddresses block.content else []) = [] := by
    intro h
    simp [h]
  rw [ownContent, parseOwn]
  split
  · next h =>
      rw [map_url_parseHeading]
      simp [h, linkTypes]
  · next h => exact hbody (by simp [h, linkTypes])
  · next h => rw [hnot (by simp [h, linkTypes]), hcode, map_nil]
  · next h => exact hbody (by simp [h, linkTypes])
  · next h => exact hbody (by simp [h, linkTypes])
  · next h => exact hbody (by simp [h, linkTypes])
  · next h => rw [hnot (by simp [h, linkTypes]), himage, map_nil]
  · next h => rw [hnot (by simp [h, linkTypes]), hfile, map_nil]
  · next h => exact hbody (by simp [h, linkTypes])
  · next h => rw [hnot (by simp [h, linkTypes]), htable, map_nil]
  · rw [hnot (by simp_all [linkTypes]), hother, map_nil]

end

/-- The inline content of a link with a label. -/
def linkJson (address label : String) : Json :=
  .obj [("type", .str "link"), ("href", .str address),
    ("content", .arr [.obj [("type", .str "text"), ("text", .str label), ("styles", .obj [])]])]

/-- A table with a link in its only cell. -/
def linkTable : BlockNoteBlock :=
  .mk "inner" "table" []
    (some (.obj [("rows", .arr [.obj [("cells", .arr [.obj [("content",
      .arr [linkJson "https://a.test" "a"])]])]])])) []

end Yanta.Document
