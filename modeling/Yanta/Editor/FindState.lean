import Mathlib.Tactic.Common

/-!
# The state of the find plugin

The plugin recomputes its matches on some transactions and keeps the previous ones
on others. How `findMatches` searches a document is a parameter: the state tracks
the document whatever the search is.
-/

namespace Yanta.Editor.Find

/-- The message a transaction may carry to drive the find plugin. -/
structure FindMeta where
  query : Option String
  caseSensitive : Option Bool
  activeIndex : Option Int

/-- The message only moves the active match. -/
def FindMeta.isNavigationOnly (m : FindMeta) : Bool :=
  m.activeIndex.isSome && m.query.isNone && m.caseSensitive.isNone

/-- A transaction, with the document its steps lead to if it has any. Navigation
messages are sent on transactions without edits. -/
structure Transaction (Doc : Type*) where
  edited : Option Doc
  findMeta : Option FindMeta
  edited_of_navigation : ∀ m ∈ findMeta, m.isNavigationOnly → edited = none

structure FindPluginState (Match : Type*) where
  query : String
  caseSensitive : Bool
  found : List Match
  activeIndex : Int
  decorations : List (Match × String)

/-- The editor: its document and the plugin's state. -/
structure EditorState (Doc Match : Type*) where
  doc : Doc
  find : FindPluginState Match

-- `Int.tmod` is the remainder of the source, with the sign of the dividend.
def wrapIndex (index : Int) (length : Nat) : Int :=
  if length = 0 then -1 else ((index.tmod length) + length).tmod length

variable {Doc Match : Type*}

def buildDecorations (found : List Match) (activeIndex : Int) : List (Match × String) :=
  found.zipIdx.map fun mi =>
    (mi.1, if (mi.2 : Int) = activeIndex then "pm-find-match pm-find-match-active"
      else "pm-find-match")

def emptyState : FindPluginState Match := ⟨"", false, [], -1, []⟩

variable (search : Doc → String → Bool → List Match)

def findMatches (doc : Doc) (query : String) (caseSensitive : Bool) : List Match :=
  if query = "" then [] else search doc query caseSensitive

def computeState (doc : Doc) (query : String) (caseSensitive : Bool)
    (preferredIndex : Int) : FindPluginState Match :=
  let found := if query = "" then [] else findMatches search doc query caseSensitive
  let activeIndex := wrapIndex preferredIndex found.length
  ⟨query, caseSensitive, found, activeIndex, buildDecorations found activeIndex⟩

/-- The plugin's state after a transaction which leads to `doc`. -/
def apply (tr : Transaction Doc) (doc : Doc) (prev : FindPluginState Match) :
    FindPluginState Match :=
  match tr.findMeta with
  | some m =>
    if m.isNavigationOnly then
      let activeIndex := wrapIndex (m.activeIndex.getD 0) prev.found.length
      { prev with
        activeIndex, decorations := buildDecorations prev.found activeIndex }
    else
      computeState search doc (m.query.getD prev.query)
        (m.caseSensitive.getD prev.caseSensitive) (m.activeIndex.getD 0)
  | none =>
    if tr.edited.isSome ∧ prev.query ≠ "" then
      computeState search doc prev.query prev.caseSensitive prev.activeIndex
    else prev

/-- The editor takes a transaction. -/
def step (s : EditorState Doc Match) (tr : Transaction Doc) : EditorState Doc Match :=
  let doc := tr.edited.getD s.doc
  ⟨doc, apply search tr doc s.find⟩

/-- The index is `-1` when nothing is found and points at a match otherwise. -/
def IndexOf (found : List Match) (index : Int) : Prop :=
  (found = [] → index = -1) ∧ (found ≠ [] → 0 ≤ index ∧ index < found.length)

/-- The matches and the active index are those of the current document. -/
def Tracks (s : EditorState Doc Match) : Prop :=
  s.find.found = findMatches search s.doc s.find.query s.find.caseSensitive ∧
    IndexOf s.find.found s.find.activeIndex

theorem indexOf_wrapIndex (found : List Match) (index : Int) :
    IndexOf found (wrapIndex index found.length) := by
  refine ⟨fun h => by simp [wrapIndex, h], fun h => ?_⟩
  have hlength : (0 : Int) < found.length := by simpa [List.length_pos_iff] using h
  have hrem := Int.lt_tmod_of_pos index hlength
  rw [wrapIndex, if_neg (by simpa using h)]
  exact ⟨Int.tmod_nonneg _ (by omega), Int.tmod_lt_of_pos _ hlength⟩

variable {search}

theorem tracks_computeState (doc : Doc) (query : String) (caseSensitive : Bool)
    (index : Int) :
    Tracks search ⟨doc, computeState search doc query caseSensitive index⟩ := by
  refine ⟨?_, indexOf_wrapIndex _ _⟩
  by_cases h : query = "" <;> simp [computeState, findMatches, h]

theorem Tracks.step {s : EditorState Doc Match} (hs : Tracks search s)
    (tr : Transaction Doc) : Tracks search (step search s tr) := by
  rw [Find.step, apply]
  split
  next m hm =>
    split_ifs with hnav
    · -- the matches are kept, and so is the document
      rw [tr.edited_of_navigation m hm hnav]
      exact ⟨hs.1, indexOf_wrapIndex _ _⟩
    · exact tracks_computeState _ _ _ _
  next =>
    split_ifs with hedited
    · exact tracks_computeState _ _ _ _
    · refine ⟨?_, hs.2⟩
      -- without a query there is nothing to find in either document
      rcases not_and_or.mp hedited with hsame | hquery
      · simpa [Option.not_isSome_iff_eq_none.mp hsame] using hs.1
      · simpa [findMatches, not_not.mp hquery] using hs.1

end Yanta.Editor.Find
