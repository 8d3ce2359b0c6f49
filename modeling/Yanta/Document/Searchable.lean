import Yanta.Document.Extraction

/-!
# Searchable text

Which text of a document the index gets to see. The content of a block is kept as raw JSON:
it is decoded as a whole when the text is extracted, and the validation decodes only that of
the top-level blocks. A nested block with one malformed item in its inline list loses the
text of all the others, and so does a table whose content is an inline list.
-/

namespace Yanta.Document

open Go List

/-! ## Text runs -/

mutual

/-- The non-empty texts of an inline item, also inside links. -/
def itemRuns : BlockNoteContent → List String
  | .mk type text _ _ content =>
    if type = "text" then if text = "" then [] else [text]
    else if type = "link" then sliceRuns content
    else []

def sliceRuns : List BlockNoteContent → List String
  | [] => []
  | item :: items => itemRuns item ++ sliceRuns items

end

/-- The text runs of the well-formed items of an inline list. -/
def inlineRuns : Option Json → List String
  | some (.arr items) => (items.filterMap decodeContent).flatMap itemRuns
  | _ => []

/-- The text runs in the cells of a table that decodes as table content. -/
def tableRuns (content : Option Json) : List String :=
  match content.bind decodeTable with
  | none => []
  | some rows => rows.flatten.flatMap sliceRuns

/-- The text runs in the content of a block of the type. -/
def blockRuns (type : String) (content : Option Json) : List String :=
  if type = "image" ∨ type = "file" then []
  else inlineRuns content ++ if type = "table" then tableRuns content else []

/-- The run is contained in an extracted text. -/
def Extracted (c : ExtractedContent) (run : String) : Prop :=
  ∃ t ∈ c.headings ++ c.body ++ c.code, run.toList <:+: t.toList

/-- The content is what a block of the type is read as, or has no text. -/
def Readable (type : String) (content : Option Json) : Prop :=
  blockRuns type content = [] ∨
    if type = "table" then (content.bind decodeTable).isSome
    else (content.bind decodeInline).isSome

/-! ## What is extracted from an inline list -/

mutual

theorem infix_itemText {item : BlockNoteContent} {run : String} (h : run ∈ itemRuns item) :
    run.toList <:+: (itemText item).toList := by
  obtain ⟨type, text, styles, href, content⟩ := item
  rw [itemRuns] at h
  rw [itemText]
  split_ifs at h ⊢ with htext hlink
  · exact absurd h not_mem_nil
  · obtain rfl := mem_singleton.mp h
    exact infix_refl _
  · exact infix_extractText h
  · exact absurd h not_mem_nil

theorem infix_extractText {items : List BlockNoteContent} {run : String}
    (h : run ∈ sliceRuns items) :
    run.toList <:+: (extractTextFromContentSlice items).toList := by
  cases items with
  | nil => exact absurd h not_mem_nil
  | cons item items =>
    rw [sliceRuns, mem_append] at h
    rw [extractTextFromContentSlice, String.toList_append]
    rcases h with h | h
    · exact (infix_itemText h).trans (prefix_append _ _).isInfix
    · exact (infix_extractText h).trans (suffix_append _ _).isInfix

end

theorem sliceRuns_eq_flatMap (items : List BlockNoteContent) :
    sliceRuns items = items.flatMap itemRuns := by
  induction items with
  | nil => rfl
  | cons item items ih => rw [sliceRuns, ih, flatMap_cons]

/-- A list that decodes as a whole has no malformed item. -/
theorem filterMap_decodeContent {items : List Json} {decoded : List BlockNoteContent}
    (h : decodeContentItems items = some decoded) : items.filterMap decodeContent = decoded := by
  induction items generalizing decoded with
  | nil =>
    rw [decodeContentItems, Option.some.injEq] at h
    exact h
  | cons item items ih =>
    rw [decodeContentItems] at h
    cases hitem : decodeContent item with
    | none => simp [hitem] at h
    | some c =>
      simp only [hitem, Option.map_eq_some_iff] at h
      obtain ⟨rest, hrest, rfl⟩ := h
      rw [filterMap_cons_some hitem, ih hrest]

theorem inlineRuns_eq {content : Option Json} {decoded : List BlockNoteContent}
    (h : content.bind decodeInline = some decoded) :
    inlineRuns content = sliceRuns decoded := by
  obtain ⟨json, rfl, hjson⟩ := Option.bind_eq_some_iff.mp h
  cases json with
  | null =>
    rw [decodeInline, Option.some.injEq] at hjson
    rw [← hjson]
    rfl
  | arr items =>
    rw [inlineRuns, filterMap_decodeContent hjson, sliceRuns_eq_flatMap]
  | _ => exact absurd hjson (by simp [decodeInline])

variable {run : String}

theorem infix_extractTextFromContent {content : Option Json}
    (hdecodes : (content.bind decodeInline).isSome = true) (h : run ∈ inlineRuns content) :
    run.toList <:+: (extractTextFromContent content).toList := by
  obtain ⟨decoded, hdecoded⟩ := Option.isSome_iff_exists.mp hdecodes
  rw [inlineRuns_eq hdecoded] at h
  rw [extractTextFromContent, hdecoded]
  exact infix_extractText h

mutual

theorem itemRuns_ne_empty {item : BlockNoteContent} {run : String} (h : run ∈ itemRuns item) :
    run ≠ "" := by
  obtain ⟨type, text, styles, href, content⟩ := item
  rw [itemRuns] at h
  split_ifs at h with htext hempty hlink
  · exact absurd h not_mem_nil
  · rwa [mem_singleton.mp h]
  · exact sliceRuns_ne_empty h
  · exact absurd h not_mem_nil

theorem sliceRuns_ne_empty {items : List BlockNoteContent} {run : String}
    (h : run ∈ sliceRuns items) : run ≠ "" := by
  cases items with
  | nil => exact absurd h not_mem_nil
  | cons item items =>
    rw [sliceRuns, mem_append] at h
    rcases h with h | h
    · exact itemRuns_ne_empty h
    · exact sliceRuns_ne_empty h

end

/-- A text that a run is contained in is not empty. -/
theorem ne_empty_of_infix_text {t : String} (hrun : run ≠ "") (h : run.toList <:+: t.toList) :
    t ≠ "" := by
  rintro rfl
  apply hrun
  exact String.toList_injective (eq_nil_of_infix_nil h)

/-! ## Blocks -/

section

variable {β : Type} (rt : Runtime β)
variable {block : BlockNoteBlock}

/-- The text of an inline list is among the texts of a block that is not an image, a file or
a table. -/
theorem text_mem_ownContent (htype : ¬(block.type = "image" ∨ block.type = "file"))
    (htable : block.type ≠ "table") (htext : extractTextFromContent block.content ≠ "") :
    extractTextFromContent block.content ∈ (ownContent rt block).headings ++
      (ownContent rt block).body ++ (ownContent rt block).code := by
  rw [ownContent, parseOwn]
  split
  · simp [parseHeading, htext]
  · simp [parseParagraph, parseBodyText, htext]
  · simp [parseCodeBlock, htext]
  · simp [parseListItem, parseBodyText, htext]
  · simp [parseListItem, parseBodyText, htext]
  · simp [parseListItem, parseBodyText, htext]
  · next h => exact absurd (Or.inl h) htype
  · next h => exact absurd (Or.inr h) htype
  · simp [parseQuote, parseBodyText, htext]
  · next h => exact absurd h htable
  · simp [parseOther, htext]

/-- A run in a cell is contained in the text of the table. -/
theorem table_extracted (htable : block.type = "table") (h : run ∈ tableRuns block.content) :
    Extracted (ownContent rt block) run := by
  cases hrows : block.content.bind decodeTable with
  | none => simp [tableRuns, hrows] at h
  | some rows =>
    rw [tableRuns, hrows] at h
    obtain ⟨cell, hcell, hrun⟩ := mem_flatMap.mp h
    have hinfix := infix_extractText hrun
    have hne := ne_empty_of_infix_text (sliceRuns_ne_empty hrun) hinfix
    have hmem : extractTextFromContentSlice cell ∈
        (rows.flatten.map extractTextFromContentSlice).filter fun t => !(t == "") := by
      rw [mem_filter]
      exact ⟨mem_map_of_mem hcell, by simpa using hne⟩
    refine ⟨join ((rows.flatten.map extractTextFromContentSlice).filter
      fun t => !(t == "")) " ", ?_, ?_⟩
    · have hown : ownContent rt block = parseTable block emptyContent := by
        simp [ownContent, parseOwn, htable]
      rw [hown, parseTable, hrows]
      simp only
      rw [if_neg (ne_nil_of_mem hmem)]
      simp
    · rw [join, String.toList_ofList]
      exact hinfix.trans (infix_intercalate (mem_map_of_mem hmem))

/-- A block whose content is readable gives all its text. -/
theorem own_extracted (hreadable : Readable block.type block.content)
    (h : run ∈ blockRuns block.type block.content) : Extracted (ownContent rt block) run := by
  have hread := hreadable.resolve_left (ne_nil_of_mem h)
  rw [blockRuns] at h
  split_ifs at h with htype htable
  · exact absurd h not_mem_nil
  · rw [if_pos htable] at hread
    rcases mem_append.mp h with hinline | hcell
    · -- Table content is an object, so there is no inline list.
      obtain ⟨rows, hrows⟩ := Option.isSome_iff_exists.mp hread
      obtain ⟨json, hjson, hdecode⟩ := Option.bind_eq_some_iff.mp hrows
      rw [hjson] at hinline
      cases json with
      | arr items => exact absurd hdecode (by simp [decodeTable])
      | _ => exact absurd hinline not_mem_nil
    · exact table_extracted rt htable hcell
  · rw [if_neg htable] at hread
    rw [append_nil] at h
    have hinfix := infix_extractTextFromContent hread h
    obtain ⟨decoded, hdecoded⟩ := Option.isSome_iff_exists.mp hread
    have hrun : run ≠ "" := sliceRuns_ne_empty (inlineRuns_eq hdecoded ▸ h)
    exact ⟨_, text_mem_ownContent rt htype htable (ne_empty_of_infix_text hrun hinfix), hinfix⟩

/-- A block without properties whose content is not readable gives no text. -/
theorem own_unreadable (id : String) {type : String} {content : Option Json}
    (h : ¬Readable type content) (children : List BlockNoteBlock) :
    ownContent rt (.mk id type [] content children) = emptyContent := by
  rw [Readable, not_or] at h
  obtain ⟨hruns, hdecodes⟩ := h
  have htype : ¬(type = "image" ∨ type = "file") := by
    intro htype
    exact hruns (if_pos htype)
  by_cases htable : type = "table"
  · rw [if_pos htable, Option.not_isSome_iff_eq_none] at hdecodes
    simp [ownContent, parseOwn, BlockNoteBlock.type, htable, parseTable,
      BlockNoteBlock.content, hdecodes]
  · rw [if_neg htable, Option.not_isSome_iff_eq_none] at hdecodes
    have htext : extractTextFromContent content = "" := by
      rw [extractTextFromContent, hdecodes]
    have hprops : extractPropText [] = "" := by decide
    rw [ownContent, parseOwn]
    split
    · simp [parseHeading, BlockNoteBlock.content, htext]
    · simp [parseParagraph, parseBodyText, BlockNoteBlock.content, htext]
    · simp [parseCodeBlock, BlockNoteBlock.content, htext]
    · simp [parseListItem, parseBodyText, BlockNoteBlock.content, htext]
    · simp [parseListItem, parseBodyText, BlockNoteBlock.content, htext]
    · simp [parseListItem, parseBodyText, BlockNoteBlock.content, htext]
    · next h => exact absurd (Or.inl h) htype
    · next h => exact absurd (Or.inr h) htype
    · simp [parseQuote, parseBodyText, BlockNoteBlock.content, htext]
    · next h => exact absurd h htable
    · simp [parseOther, BlockNoteBlock.content, BlockNoteBlock.props, htext, hprops]

/-! ## Documents -/

/-- A document with the block nested in an empty paragraph. -/
def nestedDocument (block : BlockNoteBlock) : DocumentFile :=
  { docMeta := ⟨"@notes", "note", [], [], 0, 0⟩
    kind := documentKindDocument
    scene := none
    blocks := [.mk "outer" "paragraph" [] none [block]]
    assets := [] }

theorem kindOf_nestedDocument (block : BlockNoteBlock) :
    kindOf (nestedDocument block).kind = documentKindDocument := by
  exact (by decide : kindOf documentKindDocument = documentKindDocument)

theorem validate_nestedDocument {type : String} (htype : type ≠ "") (content : Option Json) :
    validateBlockNoteStructure (nestedDocument (.mk "inner" type [] content [])).blocks =
      .ok () := by
  rw [validateBlockNoteStructure_eq_ok]
  refine ⟨⟨⟨⟨by decide, by decide, ⟨⟨by decide, htype, trivial⟩, trivial⟩⟩, trivial⟩, ?_⟩, ?_⟩
  · simp [nestedDocument, height, heightOf, maxDepth]
  · intro b hb
    rw [mem_singleton.mp hb]
    rfl

/-- The empty paragraph around the block gives nothing. -/
theorem ownContent_outer (children : List BlockNoteBlock) :
    ownContent rt (.mk "outer" "paragraph" [] none children) = emptyContent := by
  simp [ownContent, parseOwn, BlockNoteBlock.type, parseParagraph, parseBodyText,
    BlockNoteBlock.content, extractTextFromContent]

theorem extracted_parse {doc : DocumentFile} (hkind : kindOf doc.kind = documentKindDocument)
    (hblock : block ∈ preorder doc.blocks) (h : Extracted (ownContent rt block) run) :
    Extracted (parse rt doc) run := by
  obtain ⟨hheadings, hbody, hcode, -⟩ := parse_inDocumentOrder rt hkind
  obtain ⟨t, ht, hinfix⟩ := h
  refine ⟨t, ?_, hinfix⟩
  rw [hheadings, hbody, hcode]
  simp only [mem_append] at ht ⊢
  rcases ht with (ht | ht) | ht
  · exact Or.inl (Or.inl (mem_flatMap_of_mem hblock ht))
  · exact Or.inl (Or.inr (mem_flatMap_of_mem hblock ht))
  · exact Or.inr (mem_flatMap_of_mem hblock ht)

end

/-- A nested paragraph with the text `hello` and an item that is no object. -/
def malformedParagraph : BlockNoteBlock :=
  .mk "inner" "paragraph" []
    (some (.arr [.obj [("type", .str "text"), ("text", .str "hello"), ("styles", .obj [])],
      .bool true])) []

end Yanta.Document
