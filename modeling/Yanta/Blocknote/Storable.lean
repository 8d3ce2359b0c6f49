import Yanta.Blocknote.Forest
import Yanta.Blocknote.Parsed

/-!
# What the importer produces and the validators

The blocks of a Markdown text are accepted by both validators, and none of their items
serialises with null styles, exactly where no inline text has a link and no list is
nested deeper than the validators allow.
-/

namespace Yanta.Blocknote

open Go Document State List

variable {mk : String → Block} {roots : List Block} {d : DocumentFile}

/-! ## The condition -/

/-- The texts of a token that are parsed for inline markup, a paragraph's apart. -/
def Token.inlineTexts : Token → List Line
  | .heading _ s => [s]
  | .table rows => (rows.map (padRow (columnCount rows))).flatten
  | .quote lines => [joinLines ' ' lines]
  | .item _ _ s => [s]
  | .code _ _ _ | .blank | .divider | .text _ => []

/-- The text of an open paragraph. -/
def paraText (para : List Line) : List Line :=
  if para = [] then [] else [joinLines ' ' para]

/-- The texts that are parsed for inline markup, given the lines of the open paragraph. -/
def inlineTexts : List Line → List Token → List Line
  | para, [] => paraText para
  | para, .text line :: ts => inlineTexts (para ++ [line]) ts
  | para, t :: ts => paraText para ++ t.inlineTexts ++ inlineTexts [] ts

/-- The open list items, by their indentation, and whether a paragraph is open. -/
structure Nesting where
  stack : List Nat
  para : Bool

def Nesting.flush (n : Nesting) : Nesting := if n.para then ⟨[], false⟩ else n

def Nesting.step (n : Nesting) : Token → Nesting
  | .text _ => { n with para := true }
  | .blank => n.flush
  | .item indent _ _ =>
    ⟨indent :: n.flush.stack.dropWhile fun i => decide (indent ≤ i), false⟩
  | .code _ _ _ | .heading _ _ | .divider | .table _ | .quote _ => ⟨[], false⟩

/-- The largest number of list items that are open at a time. -/
def deepest : Nesting → List Token → Nat
  | _, [] => 0
  | n, t :: ts => max (n.step t).stack.length (deepest (n.step t) ts)

/-- No inline text has a link, and no list is nested too deep. -/
def Storable (md : String) : Prop :=
  (∀ s ∈ inlineTexts [] (tokens (linesOf md)), findsLink s = false) ∧
    deepest ⟨[], false⟩ (tokens (linesOf md)) ≤ maxDepth + 1

instance (md : String) : Decidable (Storable md) := inferInstanceAs (Decidable (_ ∧ _))

/-! ## What a token adds -/

/-- A block as the builders make it: its content is what the validators can read. -/
structure BuiltHead (head : Head) : Prop where
  id : head.id ≠ ""
  type : head.type ≠ ""
  content : head.type = "table" ∨ head.content = none ∨
    ∃ items, head.content = some (marshalInline items) ∧ ParsedAll items

def nullContent (head : Head) : Bool :=
  match head.content with
  | none => false
  | some json => nullStyles json

/-- What a block of the given texts is: built, without children, and with null styles
exactly where one of the texts has a link. -/
structure Made (mk : String → Block) (texts : List Line) : Prop where
  children : ∀ id, (mk id).children = []
  built : ∀ id, id ≠ "" → ∀ head ∈ headsOf (mk id), BuiltHead head
  null : ∀ id, (headsOf (mk id)).any nullContent = texts.any findsLink

theorem made_inlineBlock {type : String} (htype : type ≠ "") (props : Object) (text : Line) :
    Made (inlineBlock · type props text) [text] where
  children _ := rfl
  built id hid := by
    simp only [inlineBlock, headsOf, heads, forall_mem_singleton]
    exact ⟨hid, htype, .inr (.inr ⟨_, rfl, parsedAll_parseInline text⟩)⟩
  null id := by
    simp [inlineBlock, headsOf, heads, nullContent, nullStyles_parseInline]

theorem made_codeBlock (lang code : Line) : Made (codeBlock · lang code) [] where
  children _ := rfl
  built id hid := by
    simp only [codeBlock, headsOf, heads, forall_mem_singleton]
    refine ⟨hid, by simp, .inr (.inr ⟨_, rfl, ?_, trivial⟩)⟩
    exact parsed_textInline code (by simp)
  null id := by
    have hparsed : ParsedAll [textInline code []] :=
      ⟨parsed_textInline code (by simp), trivial⟩
    simp only [codeBlock, headsOf, any_cons, nullContent,
      nullStyles_marshalInline hparsed]
    rfl

theorem made_dividerBlock : Made dividerBlock [] where
  children _ := rfl
  built id hid := by
    simp only [dividerBlock, headsOf, heads, forall_mem_singleton]
    exact ⟨hid, by simp, .inr (.inl rfl)⟩
  null id := by simp [dividerBlock, headsOf, heads, nullContent]

theorem nullStyles_cellJson (text : Line) : nullStyles (cellJson text) = findsLink text := by
  simp [cellJson, nullStyles, nullStylesMembers, nullStyles_parseInline]

theorem nullStylesAny_map {α : Type} (f : α → Json) (xs : List α) :
    nullStylesAny (xs.map f) = xs.any fun x => nullStyles (f x) := by
  induction xs with
  | nil => rfl
  | cons x xs ih => simp [nullStylesAny, ih]

theorem nullStyles_rowJson (row : List Line) :
    nullStyles (rowJson row) = row.any findsLink := by
  simp [rowJson, nullStyles, nullStylesMembers, nullStylesAny_map, nullStyles_cellJson]

theorem nullStyles_tableJson (rows : List (List Line)) :
    nullStyles (tableJson rows) =
      (rows.map (padRow (columnCount rows))).flatten.any findsLink := by
  have hwidths : ∀ n, nullStylesAny (List.replicate n .null) = false := by
    intro n
    induction n with
    | zero => rfl
    | succ n ih => simp [replicate_succ, nullStylesAny, nullStyles, ih]
  simp only [tableJson, nullStyles, nullStylesMembers, hwidths, nullStylesAny_map,
    nullStyles_rowJson]
  simp

theorem made_tableBlock (rows : List (List Line)) :
    Made (tableBlock · rows) (rows.map (padRow (columnCount rows))).flatten where
  children _ := rfl
  built id hid := by
    simp only [tableBlock, headsOf, heads, forall_mem_singleton]
    exact ⟨hid, by simp, .inl rfl⟩
  null id := by
    simp [tableBlock, headsOf, heads, nullContent, nullStyles_tableJson]

/-! ## What a pass of the loop does -/

variable {texts : List Line}

section

variable {ids : Nat → String}
variable {st : State}

/-- The open items are on the way down to the last block. -/
def State.Hangs (st : State) : Prop := st.stack.length ≤ spine st.roots

/-- What the state says about the nesting. -/
def State.nesting (st : State) : Nesting := ⟨st.stack, decide (st.para ≠ [])⟩

/-- A state that has the given blocks and new ones for the given texts. -/
structure Adds (roots : List Block) (st : State) (texts : List Line) : Prop where
  hangs : st.Hangs
  built : (∀ head ∈ heads roots, BuiltHead head) → ∀ head ∈ heads st.roots, BuiltHead head
  null : (heads st.roots).any nullContent =
    ((heads roots).any nullContent || texts.any findsLink)
  height : ∀ n, 1 ≤ n →
    (height st.roots ≤ n ↔ height roots ≤ n ∧ st.stack.length ≤ n)

theorem State.Hangs.le_height (h : st.Hangs) : st.stack.length ≤ Document.height st.roots :=
  Nat.le_trans h (spine_le_height st.roots)

theorem Adds.refl (h : st.Hangs) : Adds st.roots st [] where
  hangs := h
  built := id
  null := by simp
  height n _ := by
    have := h.le_height
    omega

theorem Adds.trans {st' : State} {texts' : List Line} (h : Adds roots st texts)
    (hle : st.stack.length ≤ Document.height roots) (h' : Adds st.roots st' texts') :
    Adds roots st' (texts ++ texts') where
  hangs := h'.hangs
  built hbuilt := h'.built (h.built hbuilt)
  null := by rw [h'.null, h.null, any_append, Bool.or_assoc]
  height n hn := by
    rw [h'.height n hn, h.height n hn]
    omega

theorem leaf_facts {b : Block} (h : b.children = []) : spineOf b = 1 ∧ heightOf b = 1 := by
  obtain ⟨id, type, props, content, children⟩ := b
  obtain rfl : children = [] := h
  simp [spineOf, spine, heightOf, Document.height]

/-- A new block some levels down, at the end of the stack or with an empty stack. -/
theorem Adds.append (hmade : Made mk texts) {id : String} (hid : id ≠ "") {depth : Nat}
    (hdepth : depth ≤ spine roots) {stack : List Nat}
    (hstack : stack.length = 0 ∧ depth = 0 ∨ stack.length = depth + 1) (para : List Line)
    (fresh : Nat) :
    Adds roots ⟨appendAt depth roots (mk id), stack, para, fresh⟩ texts := by
  obtain ⟨hspine, hheight⟩ := leaf_facts (hmade.children id)
  constructor
  · change stack.length ≤ spine (appendAt depth roots (mk id))
    rw [spine_appendAt hdepth]
    omega
  · intro hbuilt head hhead
    rw [heads_appendAt hdepth, mem_append] at hhead
    rcases hhead with hold | hnew
    · exact hbuilt head hold
    · exact hmade.built id hid head hnew
  · rw [heads_appendAt hdepth, any_append, hmade.null id]
  · intro n hn
    change _ ↔ _ ∧ stack.length ≤ n
    rw [height_appendAt hdepth]
    omega

theorem adds_flushPara (hids : ∀ n, ids n ≠ "") (hst : st.Hangs) :
    Adds st.roots (st.flushPara ids) (paraText st.para) := by
  unfold flushPara paraText
  by_cases hpara : st.para = []
  · simp only [hpara]
    exact .refl hst
  · simp only [hpara]
    exact Adds.append (made_inlineBlock (by simp) [] _) (hids _) (Nat.zero_le _)
      (.inl ⟨rfl, rfl⟩) [] _

theorem flushPara_stack_length_le (st : State) :
    (st.flushPara ids).stack.length ≤ st.stack.length := by
  unfold flushPara
  split
  · exact Nat.le_refl _
  · exact Nat.zero_le _

theorem nesting_flushPara (ids : Nat → String) (st : State) :
    (st.flushPara ids).nesting = st.nesting.flush := by
  unfold flushPara
  by_cases hpara : st.para = []
  · simp [hpara, nesting, Nesting.flush]
  · simp [hpara, nesting, Nesting.flush]

theorem flushPara_le_height (ids : Nat → String) (hst : st.Hangs) :
    (st.flushPara ids).stack.length ≤ Document.height st.roots :=
  Nat.le_trans (flushPara_stack_length_le st) hst.le_height

section

variable (hids : ∀ n, ids n ≠ "") (hst : st.Hangs)

include hids hst

theorem adds_addRoot (hmade : Made mk texts) :
    Adds st.roots (st.addRoot ids mk) (paraText st.para ++ texts) := by
  have hdrawn : (st.draw ids).2.Hangs := hst
  refine (adds_flushPara hids hdrawn).trans (flushPara_le_height ids hdrawn) ?_
  exact Adds.append hmade (hids _) (Nat.zero_le _) (.inl ⟨rfl, rfl⟩) _ _

theorem adds_addQuote (text : Line) :
    Adds st.roots (st.addQuote ids text) (paraText st.para ++ [text]) := by
  refine (adds_flushPara hids hst).trans (flushPara_le_height ids hst) ?_
  exact Adds.append (made_inlineBlock (by simp) [] text) (hids _) (Nat.zero_le _)
    (.inl ⟨rfl, rfl⟩) _ _

theorem adds_addListItem (indent : Nat) (hmade : Made mk texts) :
    Adds st.roots (st.addListItem ids indent mk) (paraText st.para ++ texts) := by
  have hdrawn : (st.draw ids).2.Hangs := hst
  have hflush := adds_flushPara hids hdrawn
  refine hflush.trans (flushPara_le_height ids hdrawn) ?_
  refine Adds.append hmade (hids _) ?_ (.inr rfl) _ _
  exact Nat.le_trans (length_dropWhile_le _ _) hflush.hangs

end

/-- What a token adds to the blocks, given the open paragraph. -/
def addedTexts (para : List Line) : Token → List Line
  | .text _ => []
  | t => paraText para ++ t.inlineTexts

theorem adds_apply (hids : ∀ n, ids n ≠ "") (hst : st.Hangs) (t : Token) :
    Adds st.roots (st.apply ids t) (addedTexts st.para t) := by
  cases t with
  | text line => exact ⟨hst, (Adds.refl hst).built, (Adds.refl hst).null, (Adds.refl hst).height⟩
  | blank =>
    have h := adds_flushPara hids hst
    simpa [addedTexts, Token.inlineTexts, apply] using h
  | code lang lines closed => exact adds_addRoot hids hst (made_codeBlock lang _)
  | heading level s => exact adds_addRoot hids hst (made_inlineBlock (by simp) _ s)
  | divider => exact adds_addRoot hids hst made_dividerBlock
  | table rows => exact adds_addRoot hids hst (made_tableBlock rows)
  | quote lines => exact adds_addQuote hids hst _
  | item indent kind s =>
    refine adds_addListItem hids hst indent (made_inlineBlock ?_ kind.props s)
    cases kind <;> simp [ItemKind.type]

theorem nesting_apply (st : State) (t : Token) :
    (st.apply ids t).nesting = st.nesting.step t := by
  cases t with
  | text line => simp [apply, nesting, Nesting.step]
  | blank => exact nesting_flushPara ids st
  | code | heading | divider | table =>
    simp [apply, addRoot, nesting, Nesting.step]
  | quote lines =>
    simp [apply, addQuote, draw, nesting, Nesting.step]
  | item indent kind s =>
    have hflush := congrArg Nesting.stack (nesting_flushPara ids (st.draw ids).2)
    have hstack : ((st.draw ids).2.flushPara ids).stack = st.nesting.flush.stack := hflush
    simp [apply, addListItem, nesting, Nesting.step, hstack]

theorem inlineTexts_cons (ids : Nat → String) (st : State) (t : Token) (ts : List Token) :
    inlineTexts st.para (t :: ts) =
      addedTexts st.para t ++ inlineTexts (st.apply ids t).para ts := by
  cases t with
  | text line => rfl
  | blank => simp [inlineTexts, addedTexts, apply]
  | code | heading | divider | table =>
    simp [inlineTexts, addedTexts, apply, addRoot]
  | quote lines => simp [inlineTexts, addedTexts, apply, addQuote, draw]
  | item indent kind s => simp [inlineTexts, addedTexts, apply, addListItem]

/-- The blocks at the end of the text. -/
def State.finish (ids : Nat → String) (st : State) (ts : List Token) : List Block :=
  ((ts.foldl (apply ids) st).flushPara ids).roots

/-- What the rest of the text adds. -/
structure Result (roots final : List Block) (texts : List Line) (deep : Nat) : Prop where
  built : (∀ head ∈ heads roots, BuiltHead head) → ∀ head ∈ heads final, BuiltHead head
  null : (heads final).any nullContent =
    ((heads roots).any nullContent || texts.any findsLink)
  height : ∀ n, 1 ≤ n → (height final ≤ n ↔ height roots ≤ n ∧ deep ≤ n)

theorem result_finish (hids : ∀ n, ids n ≠ "") (hst : st.Hangs) (ts : List Token) :
    Result st.roots (st.finish ids ts) (inlineTexts st.para ts) (deepest st.nesting ts) := by
  induction ts generalizing st with
  | nil =>
    have hflush := adds_flushPara hids hst
    have hle := flushPara_le_height ids hst
    refine ⟨hflush.built, hflush.null, fun n hn => ?_⟩
    have hiff := hflush.height n hn
    simp only [finish, foldl_nil, deepest]
    omega
  | cons t ts ih =>
    have hadds := adds_apply hids hst t
    have hrest := ih hadds.hangs
    refine ⟨fun hbuilt => hrest.built (hadds.built hbuilt), ?_, fun n hn => ?_⟩
    · rw [inlineTexts_cons ids, any_append, ← Bool.or_assoc, ← hadds.null]
      exact hrest.null
    · have hiff := hrest.height n hn
      rw [hadds.height n hn, nesting_apply] at hiff
      have hstack : (st.apply ids t).stack = (st.nesting.step t).stack :=
        congrArg Nesting.stack (nesting_apply st t)
      rw [hstack] at hiff
      simp only [deepest, Nat.max_le]
      rw [← and_assoc]
      exact hiff

end

/-! ## The main result -/

/-- The blocks are accepted by both validators in an otherwise valid document, and no
inline item serialises with null styles. -/
def Accepted {β : Type} (rt : Runtime β) (now : Time) (d : DocumentFile)
    (blocks : List Block) : Prop :=
  ({ d with blocks := blocks }).validate rt now = .ok () ∧
    validateBlockNoteStructure blocks = .ok () ∧
    ∀ head ∈ heads blocks, nullContent head = false

/-- Where the content of a built block has no null styles, it is accepted. -/
theorem validateContent_of_built {head : Head} (hbuilt : BuiltHead head)
    (hnull : nullContent head = false) :
    validateContent head.content head.type = .ok () := by
  rcases hbuilt.content with htable | hnone | ⟨items, hitems, hparsed⟩
  · cases hcontent : head.content with
    | none => rfl
    | some json => simp [validateContent, htable]
  · rw [hnone]
    rfl
  · have hlink : items.any isLink = false := by
      rw [← nullStyles_marshalInline hparsed]
      simpa [nullContent, hitems] using hnull
    have hdecode : decodeInline (marshalInline items) = some items :=
      decodeContentItems_encodeItems items
    simp only [hitems, validateContent, hdecode, validateContentSlice_of_not_isLink hparsed hlink]
    split
    · rfl
    · rfl

/-- In an otherwise valid document only the blocks are left to check. -/
theorem validate_blocks {β : Type} {rt : Runtime β} {now : Time}
    (hd : ({ d with blocks := [] }).validate rt now = .ok ()) {blocks : List Block}
    (h : validateBlocks 0 blocks = .ok ()) :
    ({ d with blocks := blocks }).validate rt now = .ok () := by
  simp only [DocumentFile.validate] at hd ⊢
  cases hmeta : wrapError "meta validation failed" (d.docMeta.validate rt now) with
  | error e =>
    rw [hmeta] at hd
    cases hd
  | ok u =>
    rw [hmeta] at hd
    by_cases hkind : kindOf d.kind = documentKindDocument
    · rw [if_pos hkind]
      exact h
    · rw [if_neg hkind]
      rw [if_neg hkind] at hd
      exact hd

/-- The blocks that were built for the texts are accepted exactly where no text has a
link and no list is nested too deep. -/
theorem Result.accepted_iff {β : Type} {rt : Runtime β} {now : Time}
    (hd : ({ d with blocks := [] }).validate rt now = .ok ()) {final : List Block}
    {deep : Nat} (hresult : Result [] final texts deep) :
    Accepted rt now d final ↔
      (∀ s ∈ texts, findsLink s = false) ∧ deep ≤ maxDepth + 1 := by
  have hbuilt := hresult.built (by simp [heads])
  have hheight := hresult.height (maxDepth + 1) (by simp [maxDepth])
  have hnull : (∀ head ∈ heads final, nullContent head = false) ↔
      ∀ s ∈ texts, findsLink s = false := by
    have h := hresult.null
    simp only [heads, any_nil, Bool.false_or] at h
    have hany : ∀ {α : Type} (p : α → Bool) (xs : List α),
        (∀ x ∈ xs, p x = false) ↔ xs.any p = false := by simp
    rw [hany, hany, h]
  have hnamed : Named final :=
    (named_iff final).mpr fun head hhead => ⟨(hbuilt head hhead).id, (hbuilt head hhead).type⟩
  constructor
  · rintro ⟨-, hstructure, hstyles⟩
    have hdeep := ((validateBlockNoteStructure_eq_ok final).mp hstructure).1.2
    exact ⟨hnull.mp hstyles, (hheight.mp hdeep).2⟩
  · rintro ⟨hlinks, hdeep⟩
    have hstyles := hnull.mpr hlinks
    have hblocks : Named final ∧ Document.height final ≤ maxDepth + 1 :=
      ⟨hnamed, hheight.mpr ⟨Nat.zero_le _, hdeep⟩⟩
    refine ⟨validate_blocks hd ((validateBlocks_eq_ok 0 final).mpr hblocks), ?_, hstyles⟩
    refine (validateBlockNoteStructure_eq_ok final).mpr ⟨hblocks, fun b hb => ?_⟩
    have hmem := head_mem_heads hb
    exact validateContent_of_built (hbuilt _ hmem) (hstyles _ hmem)

theorem result_markdownToBlocks {ids : Nat → String} (hids : ∀ n, ids n ≠ "") (md : String) :
    Result [] (markdownToBlocks ids md) (inlineTexts [] (tokens (linesOf md)))
      (deepest ⟨[], false⟩ (tokens (linesOf md))) := by
  have hstart : start.Hangs := Nat.le_refl 0
  have h := result_finish hids hstart (tokens (linesOf md))
  exact h

/-- The importer's blocks are accepted exactly where the text is storable. -/
theorem importer_accepted_iff {β : Type} {rt : Runtime β} {now : Time} {d : DocumentFile}
    (hd : ({ d with blocks := [] }).validate rt now = .ok ()) {ids : Nat → String}
    (hids : ∀ n, ids n ≠ "") (md : String) :
    Accepted rt now d (markdownToBlocks ids md) ↔ Storable md :=
  (result_markdownToBlocks hids md).accepted_iff hd

/-- A document with nothing in it. -/
def emptyDocument : DocumentFile where
  docMeta := ⟨"@notes", "Notes", [], [], 0, 0⟩
  kind := "document"
  scene := none
  blocks := []
  assets := []

theorem importer_accepted_iff_sample :
    Accepted plainRuntime 0 emptyDocument
      (markdownToBlocks (fun _ => "b") "# Plan\n\n- one\n  - **two**") :=
  (importer_accepted_iff (by rfl) (by simp) _).mpr (by decide +kernel)

/-- A list that goes down one level with each line. -/
def staircase (n : Nat) : String :=
  String.ofList ((List.range n).flatMap fun i => List.replicate i ' ' ++ ['-', ' ', 'a', '\n'])

/-- A link has null styles, one without a label or an address is refused, and so is a
list of twenty-two levels. -/
theorem importer_output_rejected :
    validateBlockNoteStructure (markdownToBlocks (fun _ => "b") "[](x)") =
        .error "block 0 content invalid: content[0]: link must have nested content array" ∧
      validateBlockNoteStructure (markdownToBlocks (fun _ => "b") "[a]()") =
        .error "block 0 content invalid: content[0]: link must have href" ∧
      (heads (markdownToBlocks (fun _ => "b") "[a](x)")).any nullContent = true ∧
      (validateBlockNoteStructure (markdownToBlocks (fun _ => "b") (staircase 22))).isOk =
        false := by
  refine ⟨?_, ?_, ?_, ?_⟩
  · rfl
  · rfl
  · decide +kernel
  · decide +kernel

end Yanta.Blocknote
