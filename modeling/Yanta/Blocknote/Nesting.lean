import Yanta.Blocknote.Forest
import Yanta.Blocknote.Tokens
import Yanta.Support.Nearest

/-!
# Nesting by indentation

The blocks of a text in source order are the blocks of the forest in pre-order. The
parent of a list item is the nearest list item before it with a smaller indentation,
unless another block stands between them.
-/

namespace Yanta.Blocknote

open Go Support List State Nat

variable {roots bs : List Block} {stack : List Nat}

/-! ## The blocks in source order -/

/-- A block without its id and its children. -/
structure Shape where
  type : String
  props : Object
  content : Option Json

def Head.shape (head : Head) : Shape := ⟨head.type, head.props, head.content⟩

def shapeOf : Block → Shape
  | .mk _ type props content _ => ⟨type, props, content⟩

/-- The shape of a list item. -/
def itemShape (kind : ItemKind) (text : Line) : Shape := shapeOf (itemBlock "" kind text)

/-- The blocks that a token stands for, a list item with its indentation. -/
def Token.emits : Token → List (Option Nat × Shape)
  | .code lang lines _ => [(none, shapeOf (codeBlock "" lang (joinLines '\n' lines)))]
  | .heading level s => [(none, shapeOf (headingBlock "" level s))]
  | .divider => [(none, shapeOf (dividerBlock ""))]
  | .table rows => [(none, shapeOf (tableBlock "" rows))]
  | .quote lines => [(none, shapeOf (quoteBlock "" (joinLines ' ' lines)))]
  | .item indent kind s => [(some indent, itemShape kind s)]
  | .blank => []
  | .text _ => []

/-- The paragraph of some lines, if there are any. -/
def paraBlocks (para : List Line) : List (Option Nat × Shape) :=
  if para = [] then [] else [(none, shapeOf (paragraphBlock "" (joinLines ' ' para)))]

/-- The blocks of a text in the order of its lines, after the lines of an open
paragraph. -/
def sourceBlocks : List Line → List Token → List (Option Nat × Shape)
  | para, [] => paraBlocks para
  | para, .text line :: ts => sourceBlocks (para ++ [line]) ts
  | para, t :: ts => paraBlocks para ++ t.emits ++ sourceBlocks [] ts

/-! ## Parents in a forest -/

mutual

/-- The positions of the parents of a tree's blocks in pre-order; the root is at
position `k` and has the parent `p`. -/
def parentsOf (p : Option Nat) (k : Nat) : Block → List (Option Nat)
  | .mk _ _ _ _ children => p :: parents (some k) (k + 1) children

def parents (p : Option Nat) (k : Nat) : List Block → List (Option Nat)
  | [] => []
  | b :: bs => parentsOf p k b ++ parents p (k + (headsOf b).length) bs

end

mutual

/-- The positions on the way down to the last block. -/
def lastPathOf (k : Nat) : Block → List Nat
  | .mk _ _ _ _ children => k :: lastPath (k + 1) children

def lastPath (k : Nat) : List Block → List Nat
  | [] => []
  | [b] => lastPathOf k b
  | b :: b' :: bs => lastPath (k + (headsOf b).length) (b' :: bs)

end

theorem parents_append (p : Option Nat) (k : Nat) (bs bs' : List Block) :
    parents p k (bs ++ bs') = parents p k bs ++ parents p (k + (heads bs).length) bs' := by
  induction bs generalizing k with
  | nil => simp [parents, heads]
  | cons b bs ih =>
    rw [cons_append, parents, parents, ih, heads, length_append, add_assoc,
      append_assoc]

theorem lastPath_concat (k : Nat) (bs : List Block) (b : Block) :
    lastPath k (bs ++ [b]) = lastPathOf (k + (heads bs).length) b := by
  induction bs generalizing k with
  | nil => rfl
  | cons b' bs ih =>
    have hstep : lastPath k (b' :: bs ++ [b]) =
        lastPath (k + (headsOf b').length) (bs ++ [b]) := by
      cases bs with
      | nil => rfl
      | cons b'' bs => rfl
    rw [hstep, ih, heads, length_append, add_assoc]

/-- The block some levels down on the way to the last block, or the parent of the
forest. -/
def owner (p : Option Nat) (k : Nat) (bs : List Block) : Nat → Option Nat
  | 0 => p
  | depth + 1 => (lastPath k bs)[depth]?

section

variable {b : Block} (hleaf : b.children = [])

include hleaf

theorem parents_appendAt {depth : Nat} (h : depth ≤ spine bs) (p : Option Nat) (k : Nat) :
    parents p k (appendAt depth bs b) = parents p k bs ++ [owner p k bs depth] := by
  induction depth generalizing bs p k with
  | zero =>
    obtain ⟨id, type, props, content, children⟩ := b
    obtain rfl : children = [] := hleaf
    simp [appendAt, parents_append, parents, parentsOf, owner]
  | succ depth ih =>
    obtain ⟨init, id, type, props, content, children, rfl, hchildren⟩ :=
      exists_last_of_spine h
    have howner : owner p k (init ++ [.mk id type props content children]) (depth + 1) =
        owner (some (k + (heads init).length)) (k + (heads init).length + 1) children
          depth := by
      rw [owner, lastPath_concat]
      cases depth with
      | zero => rfl
      | succ depth => rfl
    rw [appendAt_succ, parents_append, parents_append, howner]
    simp [parents, parentsOf, ih hchildren]

theorem lastPath_appendAt {depth : Nat} (h : depth ≤ spine bs) (k : Nat) :
    lastPath k (appendAt depth bs b) =
      (lastPath k bs).take depth ++ [k + (heads bs).length] := by
  induction depth generalizing bs k with
  | zero =>
    obtain ⟨id, type, props, content, children⟩ := b
    obtain rfl : children = [] := hleaf
    simp [appendAt, lastPath_concat, lastPathOf, lastPath]
  | succ depth ih =>
    obtain ⟨init, id, type, props, content, children, rfl, hchildren⟩ :=
      exists_last_of_spine h
    rw [appendAt_succ, lastPath_concat, lastPath_concat, lastPathOf,
      ih hchildren, heads_append]
    simp only [heads, headsOf, append_nil, length_append, length_cons]
    congr 3
    omega

end

/-! ## The state of the parser -/

/-- The blocks so far and the open list items are what the source blocks say. -/
structure Tracks (roots : List Block) (stack : List Nat) (done : List (Option Nat × Shape)) :
    Prop where
  shapes : (heads roots).map Head.shape = done.map Prod.snd
  parents : parents none 0 roots = (nearestAll (done.map Prod.fst).reverse).reverse
  hangs : stack.length ≤ spine roots
  opened : stack = (openEntries (done.map Prod.fst).reverse).map Prod.snd
  path : (openEntries (done.map Prod.fst).reverse).map Prod.fst =
    ((lastPath 0 roots).take stack.length).reverse

variable {done : List (Option Nat × Shape)}

theorem Tracks.length_heads (h : Tracks roots stack done) :
    (heads roots).length = done.length := by
  simpa using congrArg List.length h.shapes

theorem heads_leaf {b : Block} (h : b.children = []) :
    (headsOf b).map Head.shape = [shapeOf b] := by
  obtain ⟨id, type, props, content, children⟩ := b
  obtain rfl : children = [] := h
  rfl

/-- A block that is no list item closes all of them. -/
theorem Tracks.root (h : Tracks roots stack done) {b : Block} (hleaf : b.children = []) :
    Tracks (roots ++ [b]) [] (done ++ [(none, shapeOf b)]) := by
  have happend : roots ++ [b] = appendAt 0 roots b := rfl
  have hreverse : ((done ++ [(none, shapeOf b)]).map Prod.fst).reverse =
      none :: (done.map Prod.fst).reverse := by simp
  constructor
  · rw [heads_append, map_append, h.shapes, map_append, heads, heads, append_nil,
      heads_leaf hleaf]
    rfl
  · rw [happend, parents_appendAt hleaf (zero_le _), h.parents, hreverse, nearestAll,
      reverse_cons]
    rfl
  · exact zero_le _
  · rw [hreverse]
    rfl
  · rw [hreverse]
    rfl

/-- A part of the stack is the part of the path that is as long. -/
theorem map_fst_suffix {opened part : List (Nat × Nat)} {path : List Nat} {n : Nat}
    (h : opened.map Prod.fst = (path.take n).reverse) (hpart : part <:+ opened) :
    part.map Prod.fst = (path.take part.length).reverse := by
  have hmin : opened.length = min n path.length := by
    have := congrArg List.length h
    simpa using this
  have hdrop := suffix_iff_eq_drop.mp hpart
  rw [hdrop, map_drop, h, drop_reverse, take_take]
  congr 2
  simp only [length_take, length_drop]
  omega

/-- A list item hangs on the nearest one with a smaller indentation. -/
theorem Tracks.item (h : Tracks roots stack done) {b : Block} (hleaf : b.children = [])
    (indent : Nat) :
    Tracks (appendAt (stack.dropWhile fun i => decide (indent ≤ i)).length roots b)
      (indent :: stack.dropWhile fun i => decide (indent ≤ i))
      (done ++ [(some indent, shapeOf b)]) := by
  have hreverse : ((done ++ [(some indent, shapeOf b)]).map Prod.fst).reverse =
      some indent :: (done.map Prod.fst).reverse := by simp
  generalize hopened : openEntries (done.map Prod.fst).reverse = opened
  generalize hpart : (opened.dropWhile fun e => decide (indent ≤ e.2)) = part
  have hentries : openEntries ((done ++ [(some indent, shapeOf b)]).map Prod.fst).reverse =
      (done.length, indent) :: part := by
    rw [hreverse, openEntries, hopened, hpart]
    simp
  have hstack : (stack.dropWhile fun i => decide (indent ≤ i)) = part.map Prod.snd := by
    rw [h.opened, hopened, dropWhile_map, ← hpart]
    rfl
  have hpath : part.map Prod.fst = ((lastPath 0 roots).take part.length).reverse := by
    have hall := h.path
    rw [hopened] at hall
    refine map_fst_suffix hall ?_
    rw [← hpart]
    exact dropWhile_suffix _
  have hdepth : part.length ≤ spine roots := by
    have hle := length_dropWhile_le (fun i => decide (indent ≤ i)) stack
    rw [hstack, length_map] at hle
    exact hle.trans h.hangs
  have howner : owner none 0 roots part.length = nearest indent (done.map Prod.fst).reverse := by
    rw [← head?_openEntries, hopened, hpart]
    cases part with
    | nil => rfl
    | cons e part =>
      have htake : (lastPath 0 roots).take (part.length + 1) =
          (part.map Prod.fst).reverse ++ [e.1] := by
        rw [← reverse_cons, ← map_cons, hpath, reverse_reverse, length_cons]
      have hlast := congrArg (fun path => path[part.length]?) htake
      simpa [owner] using hlast
  rw [hstack, length_map]
  constructor
  · rw [heads_appendAt hdepth, map_append, h.shapes, heads_leaf hleaf, map_append]
    rfl
  · rw [parents_appendAt hleaf hdepth, h.parents, hreverse, nearestAll, reverse_cons, howner]
  · rw [spine_appendAt hdepth, length_cons, length_map]
    obtain ⟨id, type, props, content, children⟩ := b
    rw [spineOf]
    omega
  · rw [hentries]
    rfl
  · have hwhole : ((lastPath 0 roots).take part.length ++ [done.length]).take (part.length + 1) =
        (lastPath 0 roots).take part.length ++ [done.length] :=
      take_of_length_le (by simp)
    rw [hentries, lastPath_appendAt hleaf hdepth, h.length_heads, length_cons,
      length_map, map_cons, hpath, zero_add, hwhole, reverse_append]
    rfl

/-! ## Passes of the parser -/

section

variable (ids : Nat → String) {done : List (Option Nat × Shape)}
variable {st : State}

theorem tracks_start : Tracks State.start.roots State.start.stack [] where
  shapes := rfl
  parents := rfl
  hangs := le_refl 0
  opened := rfl
  path := rfl

section

variable (h : Tracks st.roots st.stack done)

include h

theorem Tracks.flushPara :
    Tracks (st.flushPara ids).roots (st.flushPara ids).stack (done ++ paraBlocks st.para) := by
  rw [State.flushPara, paraBlocks]
  split_ifs with hpara
  · rw [append_nil]
    exact h
  · exact h.root rfl

theorem Tracks.addRoot {mk : String → Block} (hleaf : ∀ id, (mk id).children = [])
    (hshape : ∀ id, shapeOf (mk id) = shapeOf (mk "")) :
    Tracks (st.addRoot ids mk).roots (st.addRoot ids mk).stack
      (done ++ (paraBlocks st.para ++ [(none, shapeOf (mk ""))])) := by
  have hdrawn : Tracks (st.draw ids).2.roots (st.draw ids).2.stack done := h
  have hroot := (hdrawn.flushPara ids).root (hleaf (st.draw ids).1)
  rw [hshape, append_assoc] at hroot
  exact hroot

theorem Tracks.addQuote (text : Line) :
    Tracks (st.addQuote ids text).roots (st.addQuote ids text).stack
      (done ++ (paraBlocks st.para ++ [(none, shapeOf (quoteBlock "" text))])) := by
  rw [← append_assoc]
  exact (h.flushPara ids).root rfl

theorem Tracks.addListItem (indent : Nat) (kind : ItemKind) (text : Line) :
    Tracks (st.addListItem ids indent (itemBlock · kind text)).roots
      (st.addListItem ids indent (itemBlock · kind text)).stack
      (done ++ (paraBlocks st.para ++ [(some indent, itemShape kind text)])) := by
  have hdrawn : Tracks (st.draw ids).2.roots (st.draw ids).2.stack done := h
  rw [← append_assoc]
  exact (hdrawn.flushPara ids).item rfl indent

/-- What a pass adds, given the open paragraph. -/
def emitted (para : List Line) : Token → List (Option Nat × Shape)
  | .text _ => []
  | t => paraBlocks para ++ t.emits

theorem Tracks.apply (t : Token) :
    Tracks (st.apply ids t).roots (st.apply ids t).stack (done ++ emitted st.para t) := by
  cases t with
  | text line => simpa [emitted, State.apply] using h
  | blank => simpa [emitted, Token.emits, State.apply] using h.flushPara ids
  | code | heading | divider | table => exact h.addRoot ids (fun _ => rfl) fun _ => rfl
  | quote lines => exact h.addQuote ids _
  | item indent kind s => exact h.addListItem ids indent kind s

end

theorem sourceBlocks_cons (st : State) (t : Token) (ts : List Token) :
    sourceBlocks st.para (t :: ts) =
      emitted st.para t ++ sourceBlocks (st.apply ids t).para ts := by
  cases t with
  | text line => rfl
  | blank => simp [sourceBlocks, emitted, apply]
  | code | heading | divider | table =>
    simp [sourceBlocks, emitted, apply, addRoot]
  | quote lines => simp [sourceBlocks, emitted, apply, addQuote, draw]
  | item indent kind s => simp [sourceBlocks, emitted, apply, addListItem]

/-- All passes and the last flush. -/
theorem Tracks.foldl (h : Tracks st.roots st.stack done) (ts : List Token) :
    Tracks ((ts.foldl (State.apply ids) st).flushPara ids).roots
      ((ts.foldl (State.apply ids) st).flushPara ids).stack
      (done ++ sourceBlocks st.para ts) := by
  induction ts generalizing st done with
  | nil => exact h.flushPara ids
  | cons t ts ih =>
    rw [sourceBlocks_cons ids, ← append_assoc]
    exact ih (h.apply ids t)

theorem tracks_markdownToBlocks (md : String) :
    ∃ stack, Tracks (markdownToBlocks ids md) stack
      (sourceBlocks [] (tokens (linesOf md))) := by
  have hall := tracks_start.foldl ids (tokens (linesOf md))
  rw [nil_append] at hall
  exact ⟨_, hall⟩

end

/-! ## List items -/

def Shape.isListItem (shape : Shape) : Bool :=
  ["bulletListItem", "numberedListItem", "checkListItem"].contains shape.type

/-- The block of a list item's line. -/
def Token.listItem : Token → Option Shape
  | .item _ kind s => some (itemShape kind s)
  | _ => none

theorem filter_paraBlocks (para : List Line) :
    ((paraBlocks para).map Prod.snd).filter Shape.isListItem = [] := by
  rw [paraBlocks]
  split_ifs with hpara
  · rfl
  · rfl

theorem filter_emits (t : Token) :
    (t.emits.map Prod.snd).filter Shape.isListItem = t.listItem.toList := by
  cases t with
  | item indent kind s =>
    cases kind with
    | bullet | numbered | check => rfl
  | _ => rfl

/-- The list blocks of a text are those of its list items. -/
theorem filter_sourceBlocks (para : List Line) (ts : List Token) :
    ((sourceBlocks para ts).map Prod.snd).filter Shape.isListItem =
      ts.filterMap Token.listItem := by
  induction ts generalizing para with
  | nil => exact filter_paraBlocks para
  | cons t ts ih =>
    cases t with
    | text line => exact ih (para ++ [line])
    | _ =>
      simp only [sourceBlocks, map_append, filter_append, filter_paraBlocks,
        filter_emits, ih]
      rfl

end Yanta.Blocknote
