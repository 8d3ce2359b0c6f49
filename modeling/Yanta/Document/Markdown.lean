import Yanta.Blocknote.Markdown

/-!
# Markdown for export

`MarkdownConverter` of `internal/document/markdown.go`. A document becomes a list of
lines: the front matter, then the lines of each block and its children. The targets of
the links and images that are written are collected beside the text.
-/

namespace Yanta.Document

open Go List

abbrev Line := List Char

/-! ## Inline content -/

/-- The style is set to true. -/
def hasStyle (styles : Option Object) (key : String) : Bool :=
  match styles.bind fun o => o.get? key with
  | some (.bool b) => b
  | _ => false

def wrapIf (b : Bool) (marker text : Line) : Line :=
  if b then marker ++ text ++ marker else text

def formatTextWithStyles (text : Line) (styles : Option Object) : Line :=
  wrapIf (hasStyle styles "strike") ['~', '~']
    (wrapIf (hasStyle styles "code") ['\x60']
      (wrapIf (hasStyle styles "italic") ['*']
        (wrapIf (hasStyle styles "bold") ['*', '*'] text)))

/-- `[text](target)`. -/
def linkText (text : Line) (target : String) : Line :=
  '[' :: (text ++ ']' :: '(' :: (target.toList ++ [')']))

mutual

/-- What an item contributes. -/
def formatItem : BlockNoteContent → Line
  | .mk type text styles href content =>
    if type = "text" then
      if text = "" then [] else formatTextWithStyles text.toList styles
    else if type = "link" then
      if formatInlineContent content = [] then []
      else linkText (formatInlineContent content) href
    else []

def formatInlineContent : List BlockNoteContent → Line
  | [] => []
  | item :: items => formatItem item ++ formatInlineContent items

end

/-- The items of raw content; none if it is not a list of items. -/
def inlineItems (rawContent : Option Json) : List BlockNoteContent :=
  (rawContent.bind decodeInline).getD []

def extractFormattedText (rawContent : Option Json) : Line :=
  formatInlineContent (inlineItems rawContent)

/-! ## Blocks -/

/-- Lines for a text that is not empty. -/
def textLines (text : Line) (lines : Line → List Line) : List Line :=
  if text = [] then [] else lines text

/-- `strings.Repeat` panics for a negative count. -/
def convertHeading (block : BlockNoteBlock) : Option (List Line) :=
  let level := Blocknote.propInt block.props "level" 1
  if extractFormattedText block.content = [] then some []
  else if level < 0 then none
  else
    some [[], List.replicate level.toNat '#' ++ ' ' :: extractFormattedText block.content]

def convertParagraph (block : BlockNoteBlock) : List Line :=
  textLines (extractFormattedText block.content) fun text => [[], text]

def convertCodeBlock (block : BlockNoteBlock) : List Line :=
  textLines (extractFormattedText block.content) fun text =>
    [[], '\x60' :: '\x60' :: '\x60' :: (Blocknote.propString block.props "language" "").toList,
      text, ['\x60', '\x60', '\x60']]

/-- A list item with its marker. -/
def convertListItem (marker : Line) (block : BlockNoteBlock) (depth : Nat) : List Line :=
  textLines (extractFormattedText block.content) fun text =>
    [List.replicate (2 * depth) ' ' ++ marker ++ text]

def convertBulletListItem := convertListItem ['-', ' ']

def convertNumberedListItem := convertListItem ['1', '.', ' ']

def convertCheckListItem (block : BlockNoteBlock) : Nat → List Line :=
  convertListItem
    ['-', ' ', '[', if Blocknote.propBool block.props "checked" false then 'x' else ' ', ']',
      ' '] block

/-- The target of an image or a file. -/
def blockTarget (block : BlockNoteBlock) : Option String :=
  (block.props.string? "url").filter fun url => url ≠ ""

def convertImage (block : BlockNoteBlock) : List Line :=
  match blockTarget block with
  | none => []
  | some url =>
    [[], '!' :: linkText (Blocknote.propString block.props "caption" "").toList url]

def convertFile (block : BlockNoteBlock) : List Line :=
  match blockTarget block with
  | none => []
  | some url =>
    let name := Blocknote.propString block.props "name" ""
    [[], linkText (if name = "" then "file" else name).toList url]

def convertQuote (block : BlockNoteBlock) : List Line :=
  textLines (extractFormattedText block.content) fun text => [[], '>' :: ' ' :: text]

/-- `"| " + strings.Join(cells, " | ") + " |"`. -/
def tableLine (cells : List Line) : Line :=
  '|' :: ' ' :: ([' ', '|', ' '].intercalate cells ++ [' ', '|'])

def tableRowLine (row : List (List BlockNoteContent)) : Line :=
  tableLine (row.map formatInlineContent)

def convertTable (block : BlockNoteBlock) : List Line :=
  match (block.content.bind decodeTable).getD [] with
  | [] => []
  | row :: rows =>
    [] :: tableRowLine row :: tableLine (row.map fun _ => ['-', '-', '-']) ::
      rows.map tableRowLine

/-- The type switch of `convertBlock`; none if it panics. -/
def convertOwn (block : BlockNoteBlock) (depth : Nat) : Option (List Line) :=
  let type := block.type
  if type = "heading" then convertHeading block
  else if type = "paragraph" then some (convertParagraph block)
  else if type = "codeBlock" then some (convertCodeBlock block)
  else if type = "bulletListItem" then some (convertBulletListItem block depth)
  else if type = "numberedListItem" then some (convertNumberedListItem block depth)
  else if type = "checkListItem" then some (convertCheckListItem block depth)
  else if type = "image" then some (convertImage block)
  else if type = "file" then some (convertFile block)
  else if type = "quote" then some (convertQuote block)
  else if type = "table" then some (convertTable block)
  else if type = "divider" then some [[], ['-', '-', '-']]
  else some (textLines (extractFormattedText block.content) fun text => [text])

mutual

def convertBlock : BlockNoteBlock → Nat → Option (List Line)
  | .mk id type props content children, depth =>
    (convertOwn (.mk id type props content children) depth).bind fun own =>
      (convertBlocks children (depth + 1)).map fun below => own ++ below

def convertBlocks : List BlockNoteBlock → Nat → Option (List Line)
  | [], _ => some []
  | block :: blocks, depth =>
    (convertBlock block depth).bind fun lines =>
      (convertBlocks blocks depth).map fun more => lines ++ more

end

/-! ## Documents -/

section

variable {β : Type} (rt : Runtime β)

/-- `generateFrontmatter`. -/
def generateFrontmatter (m : DocumentMeta) : List Line :=
  ["---".toList, "title: ".toList ++ m.title.toList, "project: ".toList ++ m.project.toList] ++
    (if m.tags = [] then []
      else "tags:".toList :: m.tags.map fun tag => "  - ".toList ++ tag.toList) ++
    (if m.aliases = [] then []
      else "aliases:".toList :: m.aliases.map fun name => "  - ".toList ++ name.toList) ++
    ["created: ".toList ++ (rt.formatRFC3339 m.created).toList,
      "updated: ".toList ++ (rt.formatRFC3339 m.updated).toList, "---".toList]

def canvasNote : Line :=
  ("> Canvas document — visual content is only viewable in the app; " ++
    "its text is exported below.").toList

/-- `ToMarkdown`; none if it panics. -/
def toMarkdown (doc : DocumentFile) : Option Line :=
  (if doc.kind = documentKindCanvas then
      some ([] :: canvasNote ::
        (extractCanvasText rt doc.scene).flatMap fun text => [[], text.toList])
    else convertBlocks doc.blocks 0).map fun lines =>
      ['\n'].intercalate (generateFrontmatter rt doc.docMeta ++ lines)

end

/-! ## Targets -/

mutual

/-- The targets of the links that an item writes. -/
def itemTargets : BlockNoteContent → List String
  | .mk type _ _ href content =>
    if type = "link" then
      if formatInlineContent content = [] then [] else href :: inlineTargets content
    else []

def inlineTargets : List BlockNoteContent → List String
  | [] => []
  | item :: items => itemTargets item ++ inlineTargets items

end

/-- The targets that a block itself writes. -/
def ownTargets (block : BlockNoteBlock) : List String :=
  let type := block.type
  if type = "image" ∨ type = "file" then (blockTarget block).toList
  else if type = "table" then
    ((block.content.bind decodeTable).getD []).flatten.flatMap inlineTargets
  else if type = "divider" then []
  else inlineTargets (inlineItems block.content)

mutual

def blockTargets : BlockNoteBlock → List String
  | .mk id type props content children =>
    ownTargets (.mk id type props content children) ++ blocksTargets children

def blocksTargets : List BlockNoteBlock → List String
  | [] => []
  | block :: blocks => blockTargets block ++ blocksTargets blocks

end

/-- The targets of the links and images of a document. -/
def DocumentFile.targets (doc : DocumentFile) : List String :=
  if doc.kind = documentKindCanvas then [] else blocksTargets doc.blocks

/-- The target stands in parentheses in the text. -/
def Shown (target : String) (text : Line) : Prop :=
  '(' :: target.toList <:+: text

section

variable {target : String} {text : Line}
variable {block : BlockNoteBlock} {lines : List Line}

theorem Shown.append_left (before : Line) (h : Shown target text) :
    Shown target (before ++ text) :=
  h.trans (suffix_append before text).isInfix

theorem Shown.append_right (after : Line) (h : Shown target text) :
    Shown target (text ++ after) :=
  h.trans (prefix_append text after).isInfix

theorem Shown.ne_nil (h : Shown target text) : text ≠ [] := by
  rintro rfl
  exact absurd (eq_nil_of_infix_nil h) (cons_ne_nil _ _)

theorem shown_linkText (text : Line) (target : String) : Shown target (linkText text target) :=
  ⟨'[' :: (text ++ [']']), [')'], by simp [linkText]⟩

theorem Shown.linkText (h : Shown target text) (href : String) :
    Shown target (linkText text href) :=
  (h.append_right _).append_left ['[']

mutual

theorem shown_formatItem (target : String) (item : BlockNoteContent)
    (h : target ∈ itemTargets item) : Shown target (formatItem item) := by
  obtain ⟨type, text, styles, href, content⟩ := item
  rw [itemTargets] at h
  by_cases hlink : type = "link"
  · rw [if_pos hlink] at h
    by_cases hempty : formatInlineContent content = []
    · rw [if_pos hempty] at h
      exact absurd h not_mem_nil
    · rw [if_neg hempty] at h
      have htext : type ≠ "text" := by
        rw [hlink]
        decide
      rw [formatItem, if_neg htext, if_pos hlink, if_neg hempty]
      rcases mem_cons.mp h with rfl | hin
      · exact shown_linkText _ target
      · exact (shown_formatInlineContent target content hin).linkText href
  · rw [if_neg hlink] at h
    exact absurd h not_mem_nil

theorem shown_formatInlineContent (target : String) (items : List BlockNoteContent)
    (h : target ∈ inlineTargets items) : Shown target (formatInlineContent items) := by
  cases items with
  | nil => exact absurd h not_mem_nil
  | cons item items =>
    rw [inlineTargets, mem_append] at h
    rw [formatInlineContent]
    rcases h with hin | hin
    · exact (shown_formatItem target item hin).append_right _
    · exact (shown_formatInlineContent target items hin).append_left _

end

/-- The target is shown in one of the lines. -/
def ShownIn (target : String) (lines : List Line) : Prop := ∃ line ∈ lines, Shown target line

theorem shownIn_textLines (h : Shown target text) {lines : Line → List Line}
    (hlines : ShownIn target (lines text)) : ShownIn target (textLines text lines) := by
  rwa [textLines, if_neg h.ne_nil]

theorem shownIn_convertHeading (h : Shown target (extractFormattedText block.content))
    (hlines : convertHeading block = some lines) : ShownIn target lines := by
  simp only [convertHeading, if_neg h.ne_nil] at hlines
  split_ifs at hlines
  obtain rfl := Option.some.inj hlines
  exact ⟨_, mem_cons_of_mem _ mem_cons_self, (h.append_left [' ']).append_left _⟩

theorem shownIn_convertListItem {marker : Line} {depth : Nat}
    (h : Shown target (extractFormattedText block.content)) :
    ShownIn target (convertListItem marker block depth) :=
  shownIn_textLines h ⟨_, mem_singleton_self _, h.append_left _⟩

/-- A cell that shows the target shows it in the line of its row. -/
theorem shown_tableRowLine {row : List (List BlockNoteContent)} {cell : List BlockNoteContent}
    (hcell : cell ∈ row) (h : Shown target (formatInlineContent cell)) :
    Shown target (tableRowLine row) := by
  have hjoined : Shown target ([' ', '|', ' '].intercalate (row.map formatInlineContent)) :=
    h.trans (infix_intercalate (mem_map_of_mem hcell))
  exact (hjoined.append_right _).append_left ['|', ' ']

theorem shownIn_convertTable {row : List (List BlockNoteContent)} {cell : List BlockNoteContent}
    (hrow : row ∈ (block.content.bind decodeTable).getD []) (hcell : cell ∈ row)
    (h : Shown target (formatInlineContent cell)) : ShownIn target (convertTable block) := by
  have hline := shown_tableRowLine hcell h
  unfold convertTable
  cases hrows : (block.content.bind decodeTable).getD [] with
  | nil =>
    rw [hrows] at hrow
    exact absurd hrow not_mem_nil
  | cons first rows =>
    rw [hrows] at hrow
    rcases mem_cons.mp hrow with rfl | hin
    · exact ⟨_, mem_cons_of_mem _ mem_cons_self, hline⟩
    · exact ⟨_, by simp [hin, mem_map_of_mem], hline⟩

theorem shownIn_convertOwn {depth : Nat} (h : target ∈ ownTargets block)
    (hlines : convertOwn block depth = some lines) : ShownIn target lines := by
  have htext : target ∈ inlineTargets (inlineItems block.content) →
      Shown target (extractFormattedText block.content) :=
    shown_formatInlineContent target _
  unfold ownTargets at h
  unfold convertOwn at hlines
  simp only at h hlines
  by_cases himage : block.type = "image"
  · rw [if_pos (.inl himage), Option.mem_toList] at h
    simp only [himage] at hlines
    obtain rfl := Option.some.inj hlines
    rw [convertImage, Option.mem_def.mp h]
    exact ⟨_, mem_cons_of_mem _ mem_cons_self,
      (shown_linkText _ target).append_left ['!']⟩
  by_cases hfile : block.type = "file"
  · rw [if_pos (.inr hfile), Option.mem_toList] at h
    simp only [hfile] at hlines
    obtain rfl := Option.some.inj hlines
    rw [convertFile, Option.mem_def.mp h]
    exact ⟨_, mem_cons_of_mem _ mem_cons_self, shown_linkText _ target⟩
  rw [if_neg (not_or.mpr ⟨himage, hfile⟩)] at h
  by_cases htable : block.type = "table"
  · rw [if_pos htable] at h
    simp only [htable] at hlines
    obtain rfl := Option.some.inj hlines
    obtain ⟨cell, hcell, hin⟩ := mem_flatMap.mp h
    obtain ⟨row, hrow, hcell⟩ := mem_flatten.mp hcell
    exact shownIn_convertTable hrow hcell (shown_formatInlineContent target cell hin)
  rw [if_neg htable] at h
  by_cases hdivider : block.type = "divider"
  · rw [if_pos hdivider] at h
    exact absurd h not_mem_nil
  rw [if_neg hdivider] at h
  have hshown := htext h
  split_ifs at hlines
  · exact shownIn_convertHeading hshown hlines
  all_goals obtain rfl := Option.some.inj hlines
  · exact shownIn_textLines hshown
      ⟨_, mem_cons_of_mem _ mem_cons_self, hshown⟩
  · exact shownIn_textLines hshown
      ⟨_, mem_cons_of_mem _ (mem_cons_of_mem _ mem_cons_self), hshown⟩
  · exact shownIn_convertListItem hshown
  · exact shownIn_convertListItem hshown
  · exact shownIn_convertListItem hshown
  · exact shownIn_textLines hshown
      ⟨_, mem_cons_of_mem _ mem_cons_self, hshown.append_left ['>', ' ']⟩
  · exact shownIn_textLines hshown ⟨_, mem_singleton_self _, hshown⟩

theorem ShownIn.append_left (before : List Line) (h : ShownIn target lines) :
    ShownIn target (before ++ lines) := by
  obtain ⟨line, hline, hshown⟩ := h
  exact ⟨line, mem_append_right before hline, hshown⟩

theorem ShownIn.append_right (after : List Line) (h : ShownIn target lines) :
    ShownIn target (lines ++ after) := by
  obtain ⟨line, hline, hshown⟩ := h
  exact ⟨line, mem_append_left after hline, hshown⟩

mutual

theorem shownIn_convertBlock (target : String) (block : BlockNoteBlock) (depth : Nat)
    (lines : List Line) (h : target ∈ blockTargets block)
    (hlines : convertBlock block depth = some lines) : ShownIn target lines := by
  obtain ⟨id, type, props, content, children⟩ := block
  obtain ⟨own, hown, hrest⟩ := Option.bind_eq_some_iff.mp hlines
  obtain ⟨below, hbelow, rfl⟩ := Option.map_eq_some_iff.mp hrest
  rw [blockTargets, mem_append] at h
  rcases h with hin | hin
  · exact (shownIn_convertOwn hin hown).append_right _
  · exact (shownIn_convertBlocks target children _ below hin hbelow).append_left _

theorem shownIn_convertBlocks (target : String) (blocks : List BlockNoteBlock) (depth : Nat)
    (lines : List Line) (h : target ∈ blocksTargets blocks)
    (hlines : convertBlocks blocks depth = some lines) : ShownIn target lines := by
  cases blocks with
  | nil => exact absurd h not_mem_nil
  | cons block blocks =>
    rw [convertBlocks] at hlines
    obtain ⟨first, hfirst, hrest⟩ := Option.bind_eq_some_iff.mp hlines
    obtain ⟨more, hmore, rfl⟩ := Option.map_eq_some_iff.mp hrest
    rw [blocksTargets, mem_append] at h
    rcases h with hin | hin
    · exact (shownIn_convertBlock target block depth first hin hfirst).append_right _
    · exact (shownIn_convertBlocks target blocks depth more hin hmore).append_left _

end

/-- The Markdown of a document shows the targets of its links and images. -/
theorem shown_toMarkdown {β : Type} {rt : Runtime β} {doc : DocumentFile} {markdown : Line}
    (h : target ∈ doc.targets) (hmarkdown : toMarkdown rt doc = some markdown) :
    Shown target markdown := by
  unfold DocumentFile.targets at h
  unfold toMarkdown at hmarkdown
  split_ifs at h hmarkdown with hkind
  · exact absurd h not_mem_nil
  · obtain ⟨lines, hlines, rfl⟩ := Option.map_eq_some_iff.mp hmarkdown
    obtain ⟨line, hline, hshown⟩ := shownIn_convertBlocks target doc.blocks 0 lines h hlines
    exact hshown.trans (infix_intercalate (mem_append_right _ hline))

end

end Yanta.Document
