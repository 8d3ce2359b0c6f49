import Yanta.Blocknote.Markdown
import Yanta.Document.Validation

/-!
# Appending to the last block of a level

The parser appends a list item to the children of the last block some levels down. In
the order in which the blocks stand in the text, the new block comes last.
-/

namespace Yanta.Blocknote

open Go Document List

variable {bs : List Block} {depth : Nat}

/-- A block without its children. -/
structure Head where
  id : String
  type : String
  props : Object
  content : Option Json

mutual

/-- The blocks of a tree, in the order of the text. -/
def headsOf : Block → List Head
  | .mk id type props content children => ⟨id, type, props, content⟩ :: heads children

def heads : List Block → List Head
  | [] => []
  | b :: bs => headsOf b ++ heads bs

end

mutual

/-- The number of levels on the way down to the last block. -/
def spineOf : Block → Nat
  | .mk _ _ _ _ children => spine children + 1

def spine : List Block → Nat
  | [] => 0
  | [b] => spineOf b
  | _ :: b :: bs => spine (b :: bs)

end

@[simp] theorem heads_append (bs bs' : List Block) : heads (bs ++ bs') = heads bs ++ heads bs' := by
  induction bs with
  | nil => rfl
  | cons b bs ih => simp [heads, ih]

@[simp] theorem spine_append_singleton (bs : List Block) (b : Block) :
    spine (bs ++ [b]) = spineOf b := by
  induction bs with
  | nil => rfl
  | cons b' bs ih =>
    cases bs with
    | nil => rfl
    | cons b'' bs => exact ih

@[simp] theorem height_append (bs bs' : List Block) :
    height (bs ++ bs') = max (height bs) (height bs') := by
  induction bs with
  | nil => simp [height]
  | cons b bs ih => rw [cons_append, height, height, ih, max_assoc]

/-- One level down, the append goes on in the last block. -/
theorem appendAt_succ (depth : Nat) (init : List Block) (id type : String) (props : Object)
    (content : Option Json) (children : List Block) (b : Block) :
    appendAt (depth + 1) (init ++ [.mk id type props content children]) b =
      init ++ [.mk id type props content (appendAt depth children b)] := by
  simp [appendAt]

theorem exists_last_of_spine (h : depth + 1 ≤ spine bs) :
    ∃ init id type props content children,
      bs = init ++ [.mk id type props content children] ∧ depth ≤ spine children := by
  rcases eq_nil_or_concat' bs with rfl | ⟨init, ⟨id, type, props, content, children⟩, rfl⟩
  · simp [spine] at h
  · rw [spine_append_singleton, spineOf] at h
    exact ⟨init, id, type, props, content, children, rfl, by omega⟩

theorem heads_appendAt (h : depth ≤ spine bs) (b : Block) :
    heads (appendAt depth bs b) = heads bs ++ headsOf b := by
  induction depth generalizing bs with
  | zero => simp [appendAt, heads]
  | succ depth ih =>
    obtain ⟨init, id, type, props, content, children, rfl, hchildren⟩ :=
      exists_last_of_spine h
    rw [appendAt_succ]
    simp [heads, headsOf, ih hchildren]

theorem spine_appendAt (h : depth ≤ spine bs) (b : Block) :
    spine (appendAt depth bs b) = depth + spineOf b := by
  induction depth generalizing bs with
  | zero => simp [appendAt]
  | succ depth ih =>
    obtain ⟨init, id, type, props, content, children, rfl, hchildren⟩ :=
      exists_last_of_spine h
    rw [appendAt_succ, spine_append_singleton, spineOf, ih hchildren]
    omega

theorem height_appendAt (h : depth ≤ spine bs) (b : Block) :
    height (appendAt depth bs b) = max (height bs) (depth + heightOf b) := by
  induction depth generalizing bs with
  | zero => simp [appendAt, height]
  | succ depth ih =>
    obtain ⟨init, id, type, props, content, children, rfl, hchildren⟩ :=
      exists_last_of_spine h
    rw [appendAt_succ, height_append, height_append]
    simp only [height, heightOf, ih hchildren]
    omega

mutual

theorem spineOf_le_heightOf (b : Block) : spineOf b ≤ heightOf b := by
  obtain ⟨id, type, props, content, children⟩ := b
  exact Nat.succ_le_succ (spine_le_height children)

theorem spine_le_height (bs : List Block) : spine bs ≤ height bs := by
  cases bs with
  | nil => exact Nat.le_refl 0
  | cons b bs =>
    have hb := spineOf_le_heightOf b
    have hbs := spine_le_height bs
    cases bs with
    | nil =>
      simp only [spine, height]
      omega
    | cons b' bs =>
      rw [spine, height]
      omega

end

mutual

theorem namedBlock_iff (b : Block) :
    NamedBlock b ↔ ∀ head ∈ headsOf b, head.id ≠ "" ∧ head.type ≠ "" := by
  obtain ⟨id, type, props, content, children⟩ := b
  have hchildren := named_iff children
  simp only [NamedBlock, headsOf, forall_mem_cons, hchildren, and_assoc]

/-- The ids and types are those of the heads. -/
theorem named_iff (bs : List Block) :
    Named bs ↔ ∀ head ∈ heads bs, head.id ≠ "" ∧ head.type ≠ "" := by
  cases bs with
  | nil => simp [Named, heads]
  | cons b bs =>
    have hb := namedBlock_iff b
    have hbs := named_iff bs
    simp only [Named, heads, forall_mem_append, hb, hbs]

end

/-- The head of a top-level block is one of the heads. -/
theorem head_mem_heads {b : Block} (h : b ∈ bs) :
    ⟨b.id, b.type, b.props, b.content⟩ ∈ heads bs := by
  induction bs with
  | nil => simp at h
  | cons b' bs ih =>
    rw [heads, mem_append]
    rcases mem_cons.mp h with rfl | hin
    · obtain ⟨id, type, props, content, children⟩ := b
      exact .inl mem_cons_self
    · exact .inr (ih hin)

end Yanta.Blocknote
