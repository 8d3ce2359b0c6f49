import Yanta.Blocknote.Parsed
import Yanta.Blocknote.PlainText
import Yanta.Blocknote.Tokens

/-!
# Tables through Markdown

A table of words is printed as a header row, a delimiter row and the other rows. The
parser takes the lines for a table if the second line matches the expression for
delimiter rows, which asks for two columns.
-/

namespace Yanta.Blocknote

open Go Document Support List State

/-! ## Tables of words -/

/-- A text without any of the styles that are printed. -/
def PlainItem : Inline → Prop
  | .mk type _ styles _ content =>
    type = "text" ∧ content = [] ∧
      ∀ style ∈ ["bold", "italic", "strike", "code"], boolFrom styles style = false

/-- The texts of the cells of a table block. -/
def tableTexts (b : Block) : Option (List (List Line)) :=
  (decodeRowsOf b.content).map fun rows => rows.map fun row => row.map itemsPlainText

/-- A rectangular table whose cells are words or empty. -/
structure WordTable (content : Json) (cols : Nat) (cells : List (List Line)) : Prop where
  plain : ∃ rows, decodeRowsOf (some content) = some rows ∧
    (∀ row ∈ rows, ∀ cell ∈ row, ∀ item ∈ cell, PlainItem item) ∧
    cells = rows.map fun row => row.map itemsPlainText
  words : ∀ row ∈ cells, ∀ cell ∈ row, WordsOf cell
  rectangular : ∀ row ∈ cells, row.length = cols
  rows_ne_nil : cells ≠ []
  cols_pos : 1 ≤ cols

theorem plainItem_textInline (text : Line) : PlainItem (textInline text []) := by
  refine ⟨rfl, rfl, ?_⟩
  intro style _
  rfl

/-! ## Printing -/

theorem itemToMarkdown_plain {item : Inline} (h : PlainItem item) :
    itemToMarkdown item = itemPlainText item := by
  obtain ⟨type, text, styles, href, content⟩ := item
  obtain ⟨rfl, rfl, hstyles⟩ := h
  simp [itemToMarkdown, itemPlainText, itemsPlainText, styleWrap, wrapIf, hstyles]

theorem inlineToMarkdown_plain {items : List Inline} (h : ∀ item ∈ items, PlainItem item) :
    inlineToMarkdown items = itemsPlainText items := by
  induction items with
  | nil => rfl
  | cons item items ih =>
    rw [forall_mem_cons] at h
    rw [inlineToMarkdown, itemsPlainText, itemToMarkdown_plain h.1, ih h.2]

/-- A row as it is printed. -/
def rowLine (cells : List Line) : Line :=
  ['|', ' '] ++ [' ', '|', ' '].intercalate cells ++ [' ', '|']

theorem renderRow_nil (cells : List Line) : renderRow [] cells = rowLine cells ++ ['\n'] := by
  simp [renderRow, rowLine]

/-- The delimiter row. -/
def delimiterRow (cols : Nat) : List Line := List.replicate cols ['-', '-', '-']

/-- The lines of a table of plain texts, the header first. -/
def tableLines (cols : Nat) (head : List Line) (rows : List (List Line)) : List Line :=
  rowLine head :: rowLine (delimiterRow cols) :: rows.map rowLine

theorem renderTable_plain {content : Json} {head : List (List Inline)}
    {rows : List (List (List Inline))} (hdecode : decodeRowsOf (some content) = some (head :: rows))
    (hplain : ∀ row ∈ head :: rows, ∀ cell ∈ row, ∀ item ∈ cell, PlainItem item) :
    renderTable [] (some content) =
      terminated '\n' (tableLines head.length (head.map itemsPlainText)
        (rows.map fun row => row.map itemsPlainText) ++ [[]]) := by
  have hrow : ∀ row ∈ head :: rows, row.map inlineToMarkdown = row.map itemsPlainText := by
    intro row hin
    exact map_congr_left fun cell hcell => inlineToMarkdown_plain (hplain row hin cell hcell)
  rw [forall_mem_cons] at hrow
  have hseps : (head.map fun _ => ['-', '-', '-']) = delimiterRow head.length :=
    map_const' ..
  have hrows : (rows.flatMap fun row => renderRow [] (row.map inlineToMarkdown)) =
      terminated '\n' ((rows.map fun row => row.map itemsPlainText).map rowLine) := by
    rw [terminated, flatMap_map, flatMap_map]
    refine flatMap_congr ?_
    intro row hin
    rw [renderRow_nil, hrow.2 row hin]
  simp only [renderTable, hdecode, hrow.1, hseps, hrows, tableLines]
  simp [renderRow_nil]

theorem blocksToMarkdown_table (id : String) (props : Object) (content : Option Json) :
    blocksToMarkdown [.mk id "table" props content []] =
      String.ofList (trimRightChars (· == '\n') (renderTable [] content)) := by
  simp [blocksToMarkdown, renderBlocks, renderBlock, renderHead]

/-! ## Reading a printed row -/

/-- A cell with the spaces around it. -/
def padCell (cell : Line) : Line := ' ' :: (cell ++ [' '])

variable {cells : List Line}

theorem rowLine_eq (h : cells ≠ []) :
    rowLine cells = '|' :: (joinLines '|' (cells.map padCell) ++ ['|']) := by
  have hjoin : ' ' :: ([' ', '|', ' '].intercalate cells ++ [' ']) =
      joinLines '|' (cells.map padCell) := by
    induction cells with
    | nil => exact absurd rfl h
    | cons cell cells ih =>
      cases cells with
      | nil => simp [joinLines, padCell]
      | cons cell' cells =>
        have hrest := ih (cons_ne_nil _ _)
        have hjoin : joinLines '|' ((cell :: cell' :: cells).map padCell) =
            padCell cell ++ ['|'] ++ joinLines '|' ((cell' :: cells).map padCell) := by
          rw [map_cons, joinLines, intercalate_cons_of_ne_nil (by simp)]
          rfl
        rw [hjoin, ← hrest]
        simp [padCell]
  rw [← hjoin]
  simp [rowLine]

theorem trim_rowLine (h : cells ≠ []) : trimSpaceChars (rowLine cells) = rowLine cells := by
  rw [rowLine_eq h]
  refine trimSpaceChars_of_ends ?_ ?_
  · intro c hc
    obtain rfl : '|' = c := by simpa using hc
    decide
  · intro c hc
    rw [← cons_append, List.getLast?_concat] at hc
    obtain rfl : '|' = c := by simpa using hc
    decide

/-- No cell has a pipe in it. -/
def PipeFree (cells : List Line) : Prop := ∀ cell ∈ cells, '|' ∉ cell

theorem splitOn_rowLine (h : cells ≠ []) (hfree : PipeFree cells) :
    (stripPipes (rowLine cells)).splitOn '|' = cells.map padCell := by
  have hstrip : stripPipes (rowLine cells) = joinLines '|' (cells.map padCell) := by
    have hsuffix : ['|'].isSuffixOf (joinLines '|' (cells.map padCell) ++ ['|']) = true :=
      isSuffixOf_iff_suffix.mpr (suffix_append _ _)
    have hpre : ['|'].isPrefixOf ('|' :: (joinLines '|' (cells.map padCell) ++ ['|'])) = true := by
      simp
    rw [rowLine_eq h]
    simp only [stripPipes, hpre, if_true, drop_one, tail_cons, hsuffix, dropLast_concat]
  rw [hstrip]
  refine splitOn_intercalate '|' ?_ (by simpa using h)
  intro padded hpadded
  obtain ⟨cell, hcell, rfl⟩ := mem_map.mp hpadded
  have := hfree cell hcell
  simp [padCell, this]

theorem splitTableRow_rowLine (h : cells ≠ []) (hwords : ∀ cell ∈ cells, WordsOf cell) :
    splitTableRow (rowLine cells) = cells := by
  have hfree : PipeFree cells := fun cell hcell =>
    (hwords cell hcell).notMem (by decide) (by decide)
  rw [splitTableRow, trim_rowLine h, splitOn_rowLine h hfree, map_map]
  have htrim : ∀ cell ∈ cells, (trimSpaceChars ∘ padCell) cell = cell := by
    intro cell hcell
    have hspace : ∀ x ∈ [' '], isSpace x = true := forall_mem_singleton.mpr (by decide)
    exact (hwords cell hcell).trim hspace hspace
  rw [map_congr_left htrim, map_id']

theorem matchTableSep_of_single (h : cells.length = 1) (hfree : PipeFree cells) :
    matchTableSep (rowLine cells) = false := by
  have hne : cells ≠ [] := by
    rintro rfl
    cases h
  simp [matchTableSep, splitOn_rowLine hne hfree, h]

theorem matchTableSep_delimiterRow {cols : Nat} (h : 2 ≤ cols) :
    matchTableSep (rowLine (delimiterRow cols)) = true := by
  have hne : delimiterRow cols ≠ [] := by
    rw [delimiterRow, Ne, replicate_eq_nil_iff]
    omega
  have hfree : PipeFree (delimiterRow cols) := by
    intro cell hcell
    rw [eq_of_mem_replicate hcell]
    decide
  have hcell : matchSepCell (padCell ['-', '-', '-']) = true := by decide
  rw [matchTableSep, splitOn_rowLine hne hfree]
  simp [delimiterRow, h, hcell]

/-! ## Tokens -/

/-- A printed row starts a table or is text. -/
theorem nextToken_rowLine (h : cells ≠ []) (rest : List Line) :
    nextToken (rowLine cells) rest =
      if isTableStart (rowLine cells) rest then
        (.table (splitTableRow (rowLine cells) ::
            ((rest.drop 1).takeWhile isTableRow).map splitTableRow),
          (rest.drop 1).dropWhile isTableRow)
      else (.text (rowLine cells), rest) := by
  have htrim := trim_rowLine h
  obtain ⟨tail, htail⟩ : ∃ tail, rowLine cells = '|' :: tail := ⟨_, rowLine_eq h⟩
  have hfence : isFence (rowLine cells) = false := by
    rw [isFence, htrim]
    rfl
  have hheading : matchHeading (trimSpaceChars (rowLine cells)) = none := by
    rw [htrim]
    rfl
  have hthematic : matchThematic (trimSpaceChars (rowLine cells)) = false := by
    rw [htrim, htail]
    simp [matchThematic]
  have hquote : isQuoteLine (rowLine cells) = false := by
    rw [isQuoteLine, htrim]
    rfl
  have hitem : matchItem (rowLine cells) = none := by
    rfl
  have hblank : trimSpaceChars (rowLine cells) ≠ [] := by
    rw [htrim]
    exact cons_ne_nil _ _
  rw [nextToken_eq_ite rest hfence hblank hheading, htrim]
  rw [htrim] at hthematic
  simp only [hthematic, hquote, Bool.false_eq_true, if_false, lineToken, hitem]

theorem isTableRow_rowLine (h : cells ≠ []) : isTableRow (rowLine cells) = true := by
  rw [isTableRow, trim_rowLine h, rowLine_eq h]
  simp

variable {rows : List (List Line)}

/-- Two columns are enough for a table. -/
theorem tokens_tableLines {cols : Nat} {head : List Line} (hcols : 2 ≤ cols)
    (hrect : ∀ row ∈ head :: rows, row.length = cols)
    (hwords : ∀ row ∈ head :: rows, ∀ cell ∈ row, WordsOf cell) :
    tokens (tableLines cols head rows) = [.table (head :: rows)] := by
  have hne : ∀ row ∈ head :: rows, row ≠ [] := by
    rintro row hrow rfl
    have := hrect [] hrow
    simp at this
    omega
  have hsplit : ∀ row ∈ head :: rows, splitTableRow (rowLine row) = row := fun row hrow =>
    splitTableRow_rowLine (hne row hrow) (hwords row hrow)
  rw [forall_mem_cons] at hne hsplit
  have hsep : delimiterRow cols ≠ [] := by
    rw [delimiterRow, Ne, replicate_eq_nil_iff]
    omega
  have hstart : isTableStart (rowLine head) (rowLine (delimiterRow cols) :: rows.map rowLine) =
      true := by
    simp only [isTableStart, trim_rowLine hsep, matchTableSep_delimiterRow hcols]
    rw [rowLine_eq hne.1]
    simp
  have hall : ∀ line ∈ rows.map rowLine, isTableRow line = true := by
    intro line hline
    obtain ⟨row, hrow, rfl⟩ := mem_map.mp hline
    exact isTableRow_rowLine (hne.2 row hrow)
  have hback : (rows.map rowLine).map splitTableRow = rows := by
    rw [map_map]
    exact (map_congr_left hsplit.2).trans (map_id' rows)
  rw [tableLines, tokens_cons, nextToken_rowLine hne.1, if_pos hstart]
  simp only [drop_one, tail_cons, takeWhile_eq_self_iff.mpr hall,
    dropWhile_eq_nil_iff.mpr hall, hsplit.1, hback, tokens_nil]

/-- The rows of a table of one column are text. -/
theorem tokens_single (h : ∀ row ∈ rows, row.length = 1) (hfree : ∀ row ∈ rows, PipeFree row) :
    tokens (rows.map rowLine) = (rows.map rowLine).map .text := by
  have hne : ∀ row : List Line, row.length = 1 → row ≠ [] := by
    rintro row hrow rfl
    cases hrow
  induction rows with
  | nil => rfl
  | cons row rows ih =>
    rw [forall_mem_cons] at h hfree
    have hstart : isTableStart (rowLine row) (rows.map rowLine) = false := by
      cases rows with
      | nil => simp [isTableStart]
      | cons next rows =>
        have hnext := h.2 next mem_cons_self
        have hsep := matchTableSep_of_single hnext (hfree.2 next mem_cons_self)
        simp [isTableStart, trim_rowLine (hne next hnext), hsep]
    rw [map_cons, tokens_cons, nextToken_rowLine (hne row h.1), hstart]
    simp only [Bool.false_eq_true, if_false, map_cons, ih h.2 hfree.2]

/-! ## Blocks -/

section

variable (ids : Nat → String)

theorem foldl_apply_text (st : State) (lines : List Line) :
    (lines.map Token.text).foldl (State.apply ids) st = { st with para := st.para ++ lines } := by
  induction lines generalizing st with
  | nil => simp
  | cons line lines ih =>
    rw [map_cons, foldl_cons, ih]
    simp [apply]

theorem blocksOfLines_table {lines : List Line} (h : tokens lines = [.table rows]) :
    blocksOfLines ids lines = [tableBlock (ids 0) rows] := by
  simp [blocksOfLines, h, apply, addRoot, draw, flushPara, start]

theorem blocksOfLines_text {lines : List Line} (hne : lines ≠ [])
    (h : tokens lines = lines.map .text) :
    blocksOfLines ids lines = [paragraphBlock (ids 0) (joinLines ' ' lines)] := by
  rw [blocksOfLines, h, foldl_apply_text]
  simp [start, flushPara, hne, draw]

end

/-! ## The table that is read back -/

theorem cellContent_cellJson (text : Line) :
    cellContent [("type", .str "tableCell"), ("content", marshalInline (parseInline text)),
      ("props", .obj [])] [] = some (parseInline text) := by
  have htype : keyMatches "type" "content" = false := by decide
  have hcontent : keyMatches "content" "content" = true := by decide
  have hprops : keyMatches "props" "content" = false := by decide
  have hdecode : decodeInline (marshalInline (parseInline text)) = some (parseInline text) :=
    decodeContentItems_encodeItems _
  simp [cellContent, htype, hcontent, hprops, hdecode]

theorem cellsOf_row (row : List Line) :
    cellsOf (row.map cellJson) = some (row.map parseInline) := by
  induction row with
  | nil => rfl
  | cons text row ih =>
    rw [map_cons, cellJson, cellsOf, cellContent_cellJson]
    simp [ih]

theorem rowsOf_rows (rows : List (List Line)) :
    rowsOf (rows.map rowJson) = some (rows.map fun row => row.map parseInline) := by
  induction rows with
  | nil => rfl
  | cons row rows ih =>
    have hkey : keyMatches "cells" "cells" = true := by decide
    rw [map_cons, rowJson, rowsOf]
    simp [rowCells, hkey, cellsOf_row, ih]

theorem columnCount_eq {cols : Nat} (hne : rows ≠ []) (h : ∀ row ∈ rows, row.length = cols) :
    columnCount rows = cols := by
  have hlengths : rows.map List.length = List.replicate rows.length cols :=
    map_eq_replicate_iff.mpr h
  have hfold : ∀ n m, (List.replicate (n + 1) cols).foldl max m = max m cols := by
    intro n
    induction n with
    | zero => exact fun _ => rfl
    | succ n ih =>
      intro m
      rw [replicate_succ, foldl_cons, ih, max_assoc, max_self]
  obtain ⟨n, hn⟩ := Nat.exists_eq_succ_of_ne_zero (mt length_eq_zero_iff.mp hne)
  rw [columnCount, hlengths, hn, hfold, Nat.zero_max]

section

variable {rows : List (List Line)} {cols : Nat}

theorem decodeRowsOf_tableJson (hne : rows ≠ []) (hrect : ∀ row ∈ rows, row.length = cols) :
    decodeRowsOf (some (tableJson rows)) = some (rows.map fun row => row.map parseInline) := by
  have hpad : rows.map (padRow cols) = rows := by
    refine (map_congr_left ?_).trans (map_id' rows)
    intro row hrow
    simp [padRow, hrect row hrow]
  have htype : keyMatches "type" "rows" = false := by decide
  have hwidths : keyMatches "columnWidths" "rows" = false := by decide
  have hkey : keyMatches "rows" "rows" = true := by decide
  simp [tableJson, decodeRowsOf, tableRows, htype, hwidths, hkey, columnCount_eq hne hrect,
    hpad, rowsOf_rows]

theorem texts_parseInline (hwords : ∀ row ∈ rows, ∀ cell ∈ row, WordsOf cell) :
    (rows.map fun row => row.map parseInline).map (fun row => row.map itemsPlainText) = rows := by
  have htexts : ∀ row ∈ rows, (row.map parseInline).map itemsPlainText = row := by
    intro row hrow
    rw [map_map]
    refine (map_congr_left ?_).trans (map_id' row)
    intro cell hcell
    rw [Function.comp_apply, parseInline_words (hwords row hrow cell hcell),
      itemsPlainText_flush]
  rw [map_map]
  exact (map_congr_left htexts).trans (map_id' rows)

theorem tableTexts_tableBlock (id : String) (hne : rows ≠ [])
    (hrect : ∀ row ∈ rows, row.length = cols)
    (hwords : ∀ row ∈ rows, ∀ cell ∈ row, WordsOf cell) :
    tableTexts (tableBlock id rows) = some rows := by
  rw [tableTexts, tableBlock, BlockNoteBlock.content, decodeRowsOf_tableJson hne hrect,
    Option.map_some, texts_parseInline hwords]

/-- The tables that the parser builds from words are tables of words. -/
theorem wordTable_tableJson (hne : rows ≠ []) (hrect : ∀ row ∈ rows, row.length = cols)
    (hpos : 1 ≤ cols) (hwords : ∀ row ∈ rows, ∀ cell ∈ row, WordsOf cell) :
    WordTable (tableJson rows) cols rows := by
  refine ⟨⟨_, decodeRowsOf_tableJson hne hrect, ?_, (texts_parseInline hwords).symm⟩, hwords,
    hrect, hne, hpos⟩
  simp only [forall_mem_map]
  intro row hrow cell hcell item hitem
  rw [parseInline_words (hwords row hrow cell hcell), flush] at hitem
  split_ifs at hitem with hempty
  · cases hitem
  · rw [mem_singleton.mp hitem]
    exact plainItem_textInline cell

end

/-- The lines of a table of words are read back from its Markdown. -/
theorem linesOf_table {content : Json} {cols : Nat} {head : List Line}
    (h : WordTable content cols (head :: rows)) (id : String) (props : Object) :
    linesOf (blocksToMarkdown [.mk id "table" props (some content) []]) =
      tableLines cols head rows := by
  obtain ⟨decoded, hdecode, hplain, hcells⟩ := h.plain
  obtain ⟨head', rows', rfl⟩ : ∃ head' rows', decoded = head' :: rows' := by
    cases decoded with
    | nil => cases hcells
    | cons head' rows' => exact ⟨head', rows', rfl⟩
  obtain ⟨rfl, rfl⟩ := List.cons.inj hcells
  have hcols := h.rectangular _ mem_cons_self
  rw [length_map] at hcols
  rw [blocksToMarkdown_table, renderTable_plain hdecode hplain, hcols]
  have hline : ∀ cells : List Line, (∀ cell ∈ cells, OneLine cell) → OneLine (rowLine cells) := by
    intro cells hcells
    have hfirst : OneLine ['|', ' '] := by simp [OneLine]
    have hsep : OneLine [' ', '|', ' '] := by simp [OneLine]
    have hend : OneLine [' ', '|'] := by simp [OneLine]
    exact oneLine_append.mpr
      ⟨oneLine_append.mpr ⟨hfirst, oneLine_intercalate hsep hcells⟩, hend⟩
  have hall : ∀ line ∈ tableLines cols (head'.map itemsPlainText)
      (rows'.map fun row => row.map itemsPlainText), OneLine line := by
    rw [tableLines, forall_mem_cons, forall_mem_cons, forall_mem_map]
    refine ⟨hline _ fun cell hcell => ?_, hline _ fun cell hcell => ?_, fun row hrow => ?_⟩
    · exact (h.words _ mem_cons_self cell hcell).oneLine
    · rw [eq_of_mem_replicate hcell]
      simp [OneLine]
    · exact hline _ fun cell hcell =>
        (h.words row (mem_cons_of_mem _ hrow) cell hcell).oneLine
  obtain ⟨init, last, hsplit⟩ := (eq_nil_or_concat' (tableLines cols
    (head'.map itemsPlainText) (rows'.map fun row => row.map itemsPlainText))).resolve_left
      (cons_ne_nil _ _)
  have hlast : last ≠ [] := by
    rintro rfl
    have hmem : [] ∈ tableLines cols (head'.map itemsPlainText)
        (rows'.map fun row => row.map itemsPlainText) := by
      rw [hsplit]
      simp
    simp [tableLines, rowLine] at hmem
  rw [hsplit, forall_mem_append, forall_mem_singleton] at hall
  rw [hsplit]
  exact linesOf_printed hall.1 hall.2 hlast 1

/-- Words in a rectangular table survive exactly where it has two columns or more. -/
theorem table_round_trip_iff (ids : Nat → String) {content : Json} {cols : Nat}
    {cells : List (List Line)} (h : WordTable content cols cells) (id : String)
    (props : Object) :
    (∃ b, markdownToBlocks ids (blocksToMarkdown [.mk id "table" props (some content) []]) =
        [b] ∧ b.type = "table" ∧ tableTexts b = some cells) ↔ 2 ≤ cols := by
  obtain ⟨head, rows, rfl⟩ := exists_cons_of_ne_nil h.rows_ne_nil
  rw [markdownToBlocks, linesOf_table h]
  constructor
  · rintro ⟨b, hb, htype, -⟩
    by_contra hcols
    obtain rfl : cols = 1 := by
      have := h.cols_pos
      omega
    have hlines : tableLines 1 head rows = (head :: delimiterRow 1 :: rows).map rowLine := rfl
    have hfree : ∀ row ∈ head :: rows, PipeFree row := fun row hrow cell hcell =>
      (h.words row hrow cell hcell).notMem (by decide) (by decide)
    have hrect := h.rectangular
    have hsingle : ∀ row ∈ head :: delimiterRow 1 :: rows, row.length = 1 := by
      simpa [delimiterRow] using hrect
    have hpipes : ∀ row ∈ head :: delimiterRow 1 :: rows, PipeFree row := by
      simpa [delimiterRow, PipeFree] using hfree
    rw [hlines, blocksOfLines_text ids (by simp) (tokens_single hsingle hpipes)] at hb
    obtain rfl := singleton_inj.mp hb
    have hparagraph : "paragraph" = "table" := htype
    exact absurd hparagraph (by decide)
  · intro hcols
    have htokens := tokens_tableLines hcols h.rectangular h.words
    exact ⟨_, blocksOfLines_table ids htokens, rfl,
      tableTexts_tableBlock _ h.rows_ne_nil h.rectangular h.words⟩

theorem wordsOf_a : WordsOf ['a'] := by
  have hword : IsWord ['a'] := ⟨by simp, by simp [isWordChar]⟩
  exact ⟨[['a']], by simpa using hword, rfl⟩

theorem table_round_trip_iff_pair :
    ∃ b, markdownToBlocks (fun _ => "b")
        (blocksToMarkdown [.mk "t" "table" [] (some (tableJson [[['a'], []]])) []]) = [b] ∧
      b.type = "table" ∧ tableTexts b = some [[['a'], []]] := by
  have hempty : WordsOf [] := ⟨[], by simp, rfl⟩
  have h : WordTable (tableJson [[['a'], []]]) 2 [[['a'], []]] :=
    wordTable_tableJson (by simp) (by simp) (by omega) (by simp [wordsOf_a, hempty])
  exact (table_round_trip_iff (fun _ => "b") h "t" []).mpr (by omega)

/-- The delimiter row of one column is not recognised. -/
theorem one_column_becomes_paragraph :
    WordTable (tableJson [[['a']]]) 1 [[['a']]] ∧
      (markdownToBlocks (fun _ => "b")
          (blocksToMarkdown [.mk "t" "table" [] (some (tableJson [[['a']]])) []])).map
        BlockNoteBlock.type = ["paragraph"] := by
  refine ⟨wordTable_tableJson (by simp) (by simp) (by omega) (by simp [wordsOf_a]), ?_⟩
  decide +kernel

end Yanta.Blocknote
