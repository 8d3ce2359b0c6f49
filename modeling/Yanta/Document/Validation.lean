import Yanta.Document.Parser

/-!
# Validating the block structure

`internal/document/validation.go`: `ValidateBlockNoteStructure` checks every top-level
block as the document's own validation does, and the inline content of the top-level
blocks.
-/

namespace Yanta.Document

open Go

variable {b : BlockNoteBlock} {bs : List BlockNoteBlock}

mutual

/-- The checks of `validateContentSlice` on the item at index `i`. -/
def validateItem (i : Nat) : BlockNoteContent → Except String Unit
  | .mk type _ styles href content =>
    if type = "" then .error ("content[" ++ decimal i ++ "]: type is required")
    else if type = "link" then
      if href = "" then .error ("content[" ++ decimal i ++ "]: link must have href")
      else
        match content with
        | [] =>
          .error ("content[" ++ decimal i ++ "]: link must have nested content array")
        | _ :: _ =>
          wrapError ("content[" ++ decimal i ++ "] nested") (validateContentSlice 0 content)
    else if type = "text" ∧ styles.isNone then
      .error ("content[" ++ decimal i ++ "]: text must have styles map (can be empty)")
    else .ok ()

/-- `validateContentSlice`, `i` being the index of the next item. -/
def validateContentSlice (i : Nat) : List BlockNoteContent → Except String Unit
  | [] => .ok ()
  | item :: items =>
    match validateItem i item with
    | .error e => .error e
    | .ok () => validateContentSlice (i + 1) items

end

/-- `validateContent`. -/
def validateContent (rawContent : Option Json) (blockType : String) : Except String Unit :=
  match rawContent with
  | none => .ok ()
  | some json =>
    if blockType = "table" then .ok ()
    else
      match decodeInline json with
      | none => .error "failed to unmarshal content"
      | some content => validateContentSlice 0 content

/-- The loop of `ValidateBlockNoteStructure`. -/
def validateStructureFrom (i : Nat) : List BlockNoteBlock → Except String Unit
  | [] => .ok ()
  | block :: blocks =>
    match wrapError ("block " ++ decimal i ++ " invalid") (validateBlock 0 block) with
    | .error e => .error e
    | .ok () =>
      match wrapError ("block " ++ decimal i ++ " content invalid")
          (validateContent block.content block.type) with
      | .error e => .error e
      | .ok () => validateStructureFrom (i + 1) blocks

/-- `ValidateBlockNoteStructure`. -/
def validateBlockNoteStructure (blocks : List BlockNoteBlock) : Except String Unit :=
  validateStructureFrom 0 blocks

/-! ## What is accepted -/

mutual

/-- The number of levels of a block. -/
def heightOf : BlockNoteBlock → Nat
  | .mk _ _ _ _ children => height children + 1

def height : List BlockNoteBlock → Nat
  | [] => 0
  | b :: bs => max (heightOf b) (height bs)

end

mutual

/-- Every block of the tree has an id and a type. -/
def NamedBlock : BlockNoteBlock → Prop
  | .mk id type _ _ children => id ≠ "" ∧ type ≠ "" ∧ Named children

def Named : List BlockNoteBlock → Prop
  | [] => True
  | b :: bs => NamedBlock b ∧ Named bs

end

theorem validateChildren_cons_eq_ok {depth i : Nat} :
    validateChildren depth i (b :: bs) = .ok () ↔
      validateBlock depth b = .ok () ∧ validateChildren depth (i + 1) bs = .ok () := by
  rw [validateChildren]
  cases validateBlock depth b <;> simp

theorem validateBlocks_cons_eq_ok {i : Nat} :
    validateBlocks i (b :: bs) = .ok () ↔
      validateBlock 0 b = .ok () ∧ validateBlocks (i + 1) bs = .ok () := by
  rw [validateBlocks]
  cases validateBlock 0 b <;> simp

mutual

theorem validateBlock_eq_ok (depth : Nat) (b : BlockNoteBlock) :
    validateBlock depth b = .ok () ↔
      NamedBlock b ∧ depth + heightOf b ≤ maxDepth + 1 := by
  obtain ⟨id, type, props, content, children⟩ := b
  have hchildren := validateChildren_eq_ok (depth + 1) 0 children
  have hnil : children = [] → height children = 0 := by
    rintro rfl
    rfl
  simp only [validateBlock, NamedBlock, heightOf]
  by_cases hdepth : maxDepth < depth
  · rw [if_pos hdepth]
    refine iff_of_false (by simp) ?_
    rintro ⟨-, hle⟩
    omega
  · have hlevel : children = [] ∨ depth + 1 + height children ≤ maxDepth + 1 ↔
        depth + (height children + 1) ≤ maxDepth + 1 := by
      grind
    split_ifs with hid htype
    · simp [hid]
    · simp [htype]
    · simp [hchildren, hlevel, hid, htype]

/-- Below the limit there may be no children at all. -/
theorem validateChildren_eq_ok (depth i : Nat) (children : List BlockNoteBlock) :
    validateChildren depth i children = .ok () ↔
      Named children ∧ (children = [] ∨ depth + height children ≤ maxDepth + 1) := by
  cases children with
  | nil => simp [validateChildren, Named]
  | cons b bs =>
    have hnil : bs = [] → height bs = 0 := by
      rintro rfl
      rfl
    rw [validateChildren_cons_eq_ok, validateBlock_eq_ok, validateChildren_eq_ok, Named, height]
    grind

end

theorem validateBlocks_eq_ok (i : Nat) (blocks : List BlockNoteBlock) :
    validateBlocks i blocks = .ok () ↔ Named blocks ∧ height blocks ≤ maxDepth + 1 := by
  induction blocks generalizing i with
  | nil => simp [validateBlocks, Named, height]
  | cons b bs ih =>
    rw [validateBlocks_cons_eq_ok, validateBlock_eq_ok, ih, Nat.zero_add, Named, height,
      Nat.max_le, and_and_and_comm]

/-- The structure is accepted where the blocks and the contents of the top-level ones
are; the index that the errors name does not matter. -/
theorem validateStructureFrom_eq_ok (i j : Nat) (blocks : List BlockNoteBlock) :
    validateStructureFrom i blocks = .ok () ↔
      validateBlocks j blocks = .ok () ∧
        ∀ b ∈ blocks, validateContent b.content b.type = .ok () := by
  induction blocks generalizing i j with
  | nil => simp [validateStructureFrom, validateBlocks]
  | cons b bs ih =>
    rw [validateStructureFrom, validateBlocks_cons_eq_ok, List.forall_mem_cons,
      and_and_and_comm, ← ih (i + 1) (j + 1)]
    cases validateBlock 0 b with
    | error e => simp [wrapError]
    | ok u => cases validateContent b.content b.type <;> simp [wrapError]

theorem validateBlockNoteStructure_eq_ok (blocks : List BlockNoteBlock) :
    validateBlockNoteStructure blocks = .ok () ↔
      (Named blocks ∧ height blocks ≤ maxDepth + 1) ∧
        ∀ b ∈ blocks, validateContent b.content b.type = .ok () := by
  rw [validateBlockNoteStructure, validateStructureFrom_eq_ok 0 0, validateBlocks_eq_ok]

end Yanta.Document
