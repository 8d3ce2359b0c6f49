import Mathlib.Data.List.Sort
import Yanta.Js.Text

/-!
# Highlighted excerpts

`buildSnippet` of `frontend/src/search-index/snippet.ts` cuts an excerpt out of a text,
escapes it and puts `<mark>` tags around the matched terms. The finder renders the result
as HTML, so no other tag may come out of it.
-/

namespace Yanta.SearchIndex

open Js List

/-- `toLowerCase`, and how a pattern that ignores case compares code units. -/
structure Casing where
  toLowerCase : Text → Text
  canonicalize : CodeUnit → CodeUnit

/-! ## The code -/

def radius : Nat := 70

def headFallback : Nat := 180

def escapeHtml (s : Text) : Text :=
  replaceUnit (unit '\'') (text "&#39;")
    (replaceUnit (unit '"') (text "&quot;")
      (replaceUnit (unit '>') (text "&gt;")
        (replaceUnit (unit '<') (text "&lt;")
          (replaceUnit (unit '&') (text "&amp;") s))))

/-- The text with its white space collapsed. -/
def cleanText (s : Text) : Text := trim (collapseSpace s)

/-- The first position of a term in the lower-case text. -/
def firstPosition (casing : Casing) (lower : Text) (terms : List Text) : Option Nat :=
  terms.foldl
    (fun pos term =>
      if term = [] then pos
      else
        match indexOf lower (casing.toLowerCase term), pos with
        | none, _ => pos
        | some i, none => some i
        | some i, some p => if i < p then some i else some p)
    none

/-- Where the excerpt of a clean text starts and stops. -/
def window (casing : Casing) (clean : Text) (terms : List Text) : Nat × Nat :=
  match firstPosition casing (casing.toLowerCase clean) terms with
  | none => (0, min clean.length headFallback)
  | some pos => (pos - radius, min clean.length (pos + radius * 2))

/-- The excerpt with what is written in front of it and behind it. -/
structure Excerpt where
  front : Text
  body : Text
  back : Text
deriving DecidableEq, Repr

def excerptOf (casing : Casing) (clean : Text) (terms : List Text) : Excerpt :=
  let w := window casing clean terms
  { front := if 0 < w.1 then text "… " else []
    body := slice clean w.1 w.2
    back := if w.2 < clean.length then text " …" else [] }

/-- The terms that are highlighted, longest first. -/
def uniqueTerms (casing : Casing) (terms : List Text) : List Text :=
  (((terms.map fun t => casing.toLowerCase (trim t)).eraseDups).filter
    fun t => 2 ≤ t.length).insertionSort fun a b => b.length ≤ a.length

def mark (m : Text) : Text := text "<mark>" ++ m ++ text "</mark>"

/-- The source of the pattern for the terms. -/
def highlightPattern (terms : List Text) : Text :=
  joinPatterns (terms.map fun t => escapePattern (escapeHtml t))

/-- `buildSnippet`; none if the pattern is refused. -/
def buildSnippet (casing : Casing) (s : Text) (terms : List Text) : Option Text :=
  let clean := cleanText s
  if clean = [] then some []
  else
    let excerpt := excerptOf casing clean terms
    let html := escapeHtml excerpt.body
    let unique := uniqueTerms casing terms
    if unique = [] then some (excerpt.front ++ html ++ excerpt.back)
    else
      (parsePattern (highlightPattern unique)).map fun alternatives =>
        excerpt.front ++ replaceMatches casing.canonicalize alternatives mark html ++
          excerpt.back

/-! ## Escaped texts -/

/-- The HTML text of a code unit. -/
def entity (c : CodeUnit) : Text :=
  if c = unit '&' then text "&amp;"
  else if c = unit '<' then text "&lt;"
  else if c = unit '>' then text "&gt;"
  else if c = unit '"' then text "&quot;"
  else if c = unit '\'' then text "&#39;"
  else [c]

theorem replaceUnit_flatMap (c : CodeUnit) (new : Text) (f : CodeUnit → Text) (s : Text) :
    replaceUnit c new (s.flatMap f) = s.flatMap fun d => replaceUnit c new (f d) := by
  rw [replaceUnit, flatMap_assoc]
  rfl

/-- The replacements one after the other escape each unit once. -/
theorem escapeHtml_eq (s : Text) : escapeHtml s = s.flatMap entity := by
  have hfirst : replaceUnit (unit '&') (text "&amp;") s =
      s.flatMap fun d => if d = unit '&' then text "&amp;" else [d] := rfl
  rw [escapeHtml, hfirst]
  simp only [replaceUnit_flatMap]
  congr 1
  funext c
  by_cases hamp : c = unit '&'
  · rw [hamp]
    decide
  by_cases hlt : c = unit '<'
  · rw [hlt]
    decide
  by_cases hgt : c = unit '>'
  · rw [hgt]
    decide
  by_cases hquot : c = unit '"'
  · rw [hquot]
    decide
  by_cases hapos : c = unit '\''
  · rw [hapos]
    decide
  simp [replaceUnit, entity, hamp, hlt, hgt, hquot]

theorem lt_notMem_escapeHtml (s : Text) : unit '<' ∉ escapeHtml s := by
  rw [escapeHtml_eq, mem_flatMap]
  rintro ⟨c, -, hin⟩
  unfold entity at hin
  split_ifs at hin with h1 h2
  all_goals first | exact absurd hin (by decide) | skip
  exact h2 (mem_singleton.mp hin).symm

/-! ## Marked texts -/

/-- A text with pairs of `<mark>` and `</mark>` that do not contain each other and with no
other `<`, and what is left of it without these tags. -/
inductive Marked : Text → Text → Prop
  | nil : Marked [] []
  | unit {c : CodeUnit} {out plain : Text} (hc : c ≠ Js.unit '<') (h : Marked out plain) :
      Marked (c :: out) (c :: plain)
  | mark {m out plain : Text} (hm : Js.unit '<' ∉ m) (h : Marked out plain) :
      Marked (text "<mark>" ++ m ++ text "</mark>" ++ out) (m ++ plain)

theorem Marked.append {out plain out' plain' : Text} (h : Marked out plain)
    (h' : Marked out' plain') : Marked (out ++ out') (plain ++ plain') := by
  induction h with
  | nil => exact h'
  | unit hc _ ih => exact .unit hc ih
  | mark hm _ ih =>
    have hmark := Marked.mark hm ih
    simpa only [append_assoc] using hmark

theorem marked_self {s : Text} (h : unit '<' ∉ s) : Marked s s := by
  induction s with
  | nil => exact .nil
  | cons c s ih =>
    have hc : c ≠ unit '<' := fun heq => h (heq ▸ mem_cons_self)
    exact .unit hc (ih fun hin => h (mem_cons_of_mem c hin))

/-- Marking matches of a text without tags gives a marked text. -/
theorem marked_replaceMatches (canonicalize : CodeUnit → CodeUnit)
    (alternatives : List Text) {s : Text} (h : unit '<' ∉ s) :
    Marked (replaceMatches canonicalize alternatives mark s) s := by
  have hsegments : ∀ parts : List Segment, unit '<' ∉ parts.flatMap Segment.text →
      Marked (parts.flatMap (Segment.replaced mark)) (parts.flatMap Segment.text) := by
    intro parts
    induction parts with
    | nil => exact fun _ => .nil
    | cons part parts ih =>
      intro hnot
      rw [flatMap_cons, mem_append, not_or] at hnot
      have hrest := ih hnot.2
      cases part with
      | unit c => exact .unit (fun heq => hnot.1 (heq ▸ mem_singleton_self c)) hrest
      | matched m => exact .mark hnot.1 hrest
  have htext := flatMap_segments canonicalize alternatives (s.length + 1) s
  have hmarked := hsegments (segments canonicalize alternatives (s.length + 1) s)
    (by rwa [htext])
  rwa [htext] at hmarked

/-! ## Snippets -/

/-- The escaped excerpt with its ellipses. -/
def plainSnippet (casing : Casing) (s : Text) (terms : List Text) : Text :=
  let clean := cleanText s
  if clean = [] then []
  else
    let excerpt := excerptOf casing clean terms
    excerpt.front ++ excerpt.body.flatMap entity ++ excerpt.back

theorem lt_notMem_ellipses (casing : Casing) (clean : Text) (terms : List Text) :
    unit '<' ∉ (excerptOf casing clean terms).front ∧
      unit '<' ∉ (excerptOf casing clean terms).back := by
  unfold excerptOf
  constructor
  · simp only
    split_ifs <;> decide
  · simp only
    split_ifs <;> decide

/-- The pattern of the terms has their escaped texts as its alternatives. -/
theorem parsePattern_highlightPattern {terms : List Text} (h : terms ≠ []) :
    parsePattern (highlightPattern terms) = some (terms.map escapeHtml) := by
  have hne : terms.map escapeHtml ≠ [] := by simpa using h
  have hjoin := parsePattern_joinPatterns hne
  rwa [map_map] at hjoin

/-- A snippet is built for every text and all terms, and is the escaped excerpt with pairs
of marks in it. -/
theorem buildSnippet_marked (casing : Casing) (s : Text) (terms : List Text) :
    ∃ out, buildSnippet casing s terms = some out ∧
      Marked out (plainSnippet casing s terms) := by
  unfold buildSnippet plainSnippet
  simp only
  by_cases hempty : cleanText s = []
  · rw [if_pos hempty, if_pos hempty]
    exact ⟨[], rfl, .nil⟩
  · rw [if_neg hempty, if_neg hempty, ← escapeHtml_eq]
    obtain ⟨hfront, hback⟩ := lt_notMem_ellipses casing (cleanText s) terms
    have hhtml := lt_notMem_escapeHtml (excerptOf casing (cleanText s) terms).body
    have hparts : ∀ {html}, Marked html
        (escapeHtml (excerptOf casing (cleanText s) terms).body) →
        Marked ((excerptOf casing (cleanText s) terms).front ++ html ++
            (excerptOf casing (cleanText s) terms).back)
          ((excerptOf casing (cleanText s) terms).front ++
            escapeHtml (excerptOf casing (cleanText s) terms).body ++
            (excerptOf casing (cleanText s) terms).back) :=
      fun h => ((marked_self hfront).append h).append (marked_self hback)
    by_cases hunique : uniqueTerms casing terms = []
    · rw [if_pos hunique]
      exact ⟨_, rfl, hparts (marked_self hhtml)⟩
    · rw [if_neg hunique, parsePattern_highlightPattern hunique]
      exact ⟨_, rfl, hparts (marked_replaceMatches _ _ hhtml)⟩

/-- Casing of ASCII letters, for which a match inside an escaped `&` is marked. -/
def asciiCasing : Casing where
  toLowerCase s := s.map fun c => if 65 ≤ c.toNat ∧ c.toNat ≤ 90 then c + 32 else c
  canonicalize c := if 97 ≤ c.toNat ∧ c.toNat ≤ 122 then c - 32 else c

end Yanta.SearchIndex
