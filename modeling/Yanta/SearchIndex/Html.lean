import Yanta.SearchIndex.Snippet

/-!
# What a browser shows of a snippet

A snippet is text with character references and `<mark>` elements. Reading it gives the
characters that are shown, and the marks between them. A tag that stands inside a character
reference keeps it from being read as a whole, so that more than one character is shown for
it.
-/

namespace Yanta.SearchIndex

open Js List

variable {c : CodeUnit}

/-! ## Reading -/

inductive HtmlToken where
  | char (c : CodeUnit)
  | openMark
  | closeMark
deriving DecidableEq, Repr

/-- The character references that can stand in a snippet, longest first. Those that have had
a name in all versions of HTML, and numbers, are also read without their semicolon. -/
def references : List (Text × CodeUnit) :=
  [(text "&amp;", unit '&'), (text "&lt;", unit '<'), (text "&gt;", unit '>'),
    (text "&quot;", unit '"'), (text "&#39;", unit '\''), (text "&amp", unit '&'),
    (text "&lt", unit '<'), (text "&gt", unit '>'), (text "&quot", unit '"'),
    (text "&#39", unit '\''), (text "&#3", 3)]

/-- The token at the start of a text, and how many further units it takes. The null
character is dropped. -/
def nextToken (c : CodeUnit) (s : Text) : Option HtmlToken × Nat :=
  if (text "<mark>").isPrefixOf (c :: s) then (some .openMark, 5)
  else if (text "</mark>").isPrefixOf (c :: s) then (some .closeMark, 6)
  else
    match references.find? fun r => r.1.isPrefixOf (c :: s) with
    | some r => (some (.char r.2), r.1.length - 1)
    | none => if c = 0 then (none, 0) else (some (.char c), 0)

/-- The tokens behind the units that are skipped. -/
def readFrom : Nat → Text → List HtmlToken
  | _, [] => []
  | skip + 1, _ :: s => readFrom skip s
  | 0, c :: s => (nextToken c s).1.toList ++ readFrom (nextToken c s).2 s

def readHtml (s : Text) : List HtmlToken := readFrom 0 s

def HtmlToken.char? : HtmlToken → Option CodeUnit
  | .char c => some c
  | _ => none

/-- The text that is shown. -/
def shownText (tokens : List HtmlToken) : Text := tokens.filterMap HtmlToken.char?

/-- The contents of the `<mark>` elements, with what was read of an open one. -/
def highlights : Option Text → List HtmlToken → List Text
  | _, [] => []
  | none, .openMark :: tokens => highlights (some []) tokens
  | none, .char _ :: tokens => highlights none tokens
  | none, .closeMark :: tokens => highlights none tokens
  | some run, .openMark :: tokens => highlights (some run) tokens
  | some run, .char c :: tokens => highlights (some (run ++ [c])) tokens
  | some run, .closeMark :: tokens => run :: highlights none tokens

/-- A unit that is read as the character it is. -/
def Literal (c : CodeUnit) : Prop := c ≠ unit '&' ∧ c ≠ unit '<' ∧ c ≠ 0

theorem readFrom_append (u s : Text) : readFrom u.length (u ++ s) = readHtml s := by
  induction u with
  | nil => rfl
  | cons c u ih => exact ih

/-- The token of a text that is known to its end. -/
theorem readHtml_token {u s : Text} {token : HtmlToken}
    (h : nextToken c (u ++ s) = (some token, u.length)) :
    readHtml (c :: (u ++ s)) = token :: readHtml s := by
  rw [readHtml, readFrom, h]
  exact congrArg _ (readFrom_append u s)

theorem readHtml_open (s : Text) :
    readHtml (text "<mark>" ++ s) = .openMark :: readHtml s :=
  readHtml_token (c := unit '<') (u := text "mark>") rfl

theorem readHtml_close (s : Text) :
    readHtml (text "</mark>" ++ s) = .closeMark :: readHtml s :=
  readHtml_token (c := unit '<') (u := text "/mark>") rfl

/-- Every reference starts with an ampersand. -/
theorem head_references : ∀ r ∈ references, r.1.head? = some (unit '&') := by decide

theorem readHtml_literal (hc : Literal c) (s : Text) :
    readHtml (c :: s) = .char c :: readHtml s := by
  obtain ⟨hamp, hlt, hnull⟩ := hc
  have hopen : (text "<mark>").isPrefixOf (c :: s) = false := by
    simp [text, List.isPrefixOf, hlt.symm]
  have hclose : (text "</mark>").isPrefixOf (c :: s) = false := by
    simp [text, List.isPrefixOf, hlt.symm]
  have hfind : references.find? (fun r => r.1.isPrefixOf (c :: s)) = none := by
    rw [List.find?_eq_none]
    intro r hr hpre
    obtain ⟨rest, hrest⟩ := isPrefixOf_iff_prefix.mp hpre
    have hhead := head_references r hr
    cases hname : r.1 with
    | nil => simp [hname] at hhead
    | cons d name =>
      rw [hname] at hhead hrest
      rw [List.head?_cons, Option.some.injEq] at hhead
      rw [hhead] at hrest
      exact hamp (List.cons.inj hrest).1.symm
  have hnext : nextToken c s = (some (.char c), 0) := by
    simp only [nextToken, hopen, hclose, hfind, if_neg hnull, Bool.false_eq_true, if_false]
  exact readHtml_token (u := []) hnext

theorem readHtml_literals {u : Text} (hu : ∀ c ∈ u, Literal c) (s : Text) :
    readHtml (u ++ s) = u.map .char ++ readHtml s := by
  induction u with
  | nil => rfl
  | cons c u ih =>
    have hrest := (forall_mem_cons.mp hu).2
    rw [cons_append, readHtml_literal (hu c (by simp)), ih hrest, map_cons, cons_append]

/-- A unit is one of those that are escaped, or is its own entity. -/
theorem entity_cases (c : CodeUnit) :
    c ∈ [unit '&', unit '<', unit '>', unit '"', unit '\''] ∨
      (entity c = [c] ∧ c ≠ unit '&' ∧ c ≠ unit '<') := by
  by_cases hspecial : c ∈ [unit '&', unit '<', unit '>', unit '"', unit '\'']
  · exact Or.inl hspecial
  · right
    simp only [mem_cons, not_mem_nil, or_false, not_or] at hspecial
    obtain ⟨hamp, hlt, hgt, hquot, hapos⟩ := hspecial
    refine ⟨?_, hamp, hlt⟩
    rw [entity, if_neg hamp, if_neg hlt, if_neg hgt, if_neg hquot, if_neg hapos]

/-- An entity is shown as its unit. -/
theorem readHtml_entity (hc : c ≠ 0) (s : Text) :
    readHtml (entity c ++ s) = .char c :: readHtml s := by
  rcases entity_cases c with hspecial | ⟨hself, hamp, hlt⟩
  · simp only [mem_cons, not_mem_nil, or_false] at hspecial
    rcases hspecial with rfl | rfl | rfl | rfl | rfl
    · exact readHtml_token (c := unit '&') (u := text "amp;") rfl
    · exact readHtml_token (c := unit '&') (u := text "lt;") rfl
    · exact readHtml_token (c := unit '&') (u := text "gt;") rfl
    · exact readHtml_token (c := unit '&') (u := text "quot;") rfl
    · exact readHtml_token (c := unit '&') (u := text "#39;") rfl
  · rw [hself]
    exact readHtml_literal ⟨hamp, hlt, hc⟩ s

/-! ## Entities that are cut -/

/-- The proper parts of entities that can stand in front of a tag, with what they show. -/
def cutEntities : List (Text × Text) :=
  [(text "&", text "&"), (text "&a", text "&a"), (text "&am", text "&am"),
    (text "&amp", text "&"), (text "&l", text "&l"), (text "&lt", text "<"),
    (text "&g", text "&g"), (text "&gt", text ">"), (text "&q", text "&q"),
    (text "&qu", text "&qu"), (text "&quo", text "&quo"), (text "&quot", text "\""),
    (text "&#", text "&#"), (text "&#3", [3]), (text "&#39", text "'")]

/-- A cut entity shows something, and does not reach over the tag behind it. -/
theorem readHtml_cutEntity {cut : Text × Text} (h : cut ∈ cutEntities) (s : Text) :
    readHtml (cut.1 ++ unit '<' :: s) = cut.2.map .char ++ readHtml (unit '<' :: s) ∧
      cut.2 ≠ [] := by
  simp only [cutEntities, mem_cons, not_mem_nil, or_false] at h
  rcases h with rfl | rfl | rfl | rfl | rfl | rfl | rfl | rfl | rfl | rfl | rfl | rfl | rfl |
    rfl | rfl
  all_goals exact ⟨rfl, by decide⟩

/-- A part of an entity that stops before its end is one of the cut entities, and what is
missing of it is literal. -/
theorem cut_of_entity {part missing : Text} (hentity : entity c = part ++ missing)
    (hpart : part ≠ []) (hmissing : missing ≠ []) :
    (∃ shown, (part, shown) ∈ cutEntities) ∧ ∀ d ∈ missing, Literal d := by
  rcases entity_cases c with hspecial | ⟨hself, -, -⟩
  · have hinits : (part, missing) ∈ (List.range (entity c).length).map
        (fun n => ((entity c).take n, (entity c).drop n)) := by
      rw [mem_map]
      refine ⟨part.length, ?_, ?_⟩
      · rw [mem_range, hentity, length_append]
        have := length_pos_iff.mpr hmissing
        omega
      · rw [hentity]
        simp
    have hall : ([unit '&', unit '<', unit '>', unit '"', unit '\''].all fun c =>
        ((List.range (entity c).length).map
          (fun n => ((entity c).take n, (entity c).drop n))).all fun p =>
            p.1.isEmpty || ((cutEntities.map Prod.fst).contains p.1 &&
              p.2.all fun d => d != unit '&' && d != unit '<' && d != 0)) = true := by
      decide
    have hcase := all_eq_true.mp (all_eq_true.mp hall c hspecial) _ hinits
    have hne : part.isEmpty = false := by simpa using hpart
    rw [hne, Bool.false_or, Bool.and_eq_true] at hcase
    obtain ⟨hcut, hliteral⟩ := hcase
    refine ⟨?_, ?_⟩
    · rw [contains_iff_mem, mem_map] at hcut
      obtain ⟨⟨_, shown⟩, hmem, rfl⟩ := hcut
      exact ⟨shown, hmem⟩
    · intro d hd
      have hd' := all_eq_true.mp hliteral d hd
      simp only [Bool.and_eq_true, bne_iff_ne] at hd'
      exact ⟨hd'.1.1, hd'.1.2, hd'.2⟩
  · rw [hself] at hentity
    rcases append_eq_singleton_iff.mp hentity.symm with ⟨hnil, -⟩ | ⟨-, hnil⟩
    · exact absurd hnil hpart
    · exact absurd hnil hmissing

/-! ## Texts with tags in them -/

/-- A unit of the escaped text, or a tag. -/
inductive Item where
  | unit (c : CodeUnit)
  | openTag
  | closeTag
deriving DecidableEq, Repr

def Item.html : Item → Text
  | .unit c => [c]
  | .openTag => text "<mark>"
  | .closeTag => text "</mark>"

def Item.unit? : Item → Option CodeUnit
  | .unit c => some c
  | .openTag => none
  | .closeTag => none

/-- The text that is shown for the items. -/
def shownItems (items : List Item) (rest : Text) : Text :=
  shownText (readHtml (items.flatMap Item.html ++ rest))

/-- No tag stands inside an entity of the text. -/
inductive TagsBetween : Text → List Item → Prop
  | nil : TagsBetween [] []
  | tag {body : Text} {item : Item} {items : List Item} (htag : item.unit? = none)
      (h : TagsBetween body items) : TagsBetween body (item :: items)
  | char {body : Text} {items : List Item} (c : CodeUnit) (h : TagsBetween body items) :
      TagsBetween (c :: body) ((entity c).map .unit ++ items)

theorem shownText_append (tokens more : List HtmlToken) :
    shownText (tokens ++ more) = shownText tokens ++ shownText more :=
  filterMap_append

theorem shownText_chars (u : Text) : shownText (u.map .char) = u := by
  rw [shownText, filterMap_map]
  exact filterMap_some

/-- A tag starts with an opening bracket and is not shown. -/
theorem shownItems_tag {item : Item} (htag : item.unit? = none) (items : List Item)
    (rest : Text) :
    shownItems (item :: items) rest = shownItems items rest ∧
      ∃ s, (item :: items).flatMap Item.html ++ rest = unit '<' :: s := by
  cases item with
  | unit c => simp [Item.unit?] at htag
  | openTag =>
    refine ⟨?_, ⟨text "mark>" ++ (items.flatMap Item.html ++ rest), ?_⟩⟩
    · rfl
    · rfl
  | closeTag =>
    refine ⟨?_, ⟨text "/mark>" ++ (items.flatMap Item.html ++ rest), ?_⟩⟩
    · rfl
    · rfl

theorem flatMap_html_units (u : Text) : (u.map Item.unit).flatMap Item.html = u := by
  rw [flatMap_map]
  exact flatMap_singleton' u

theorem shownItems_entity (hc : c ≠ 0) (items : List Item) (rest : Text) :
    shownItems ((entity c).map .unit ++ items) rest = c :: shownItems items rest := by
  rw [shownItems, flatMap_append, flatMap_html_units, append_assoc, readHtml_entity hc]
  rfl

theorem shownItems_literal (hc : Literal c) (items : List Item) (rest : Text) :
    shownItems (.unit c :: items) rest = c :: shownItems items rest := by
  rw [shownItems, flatMap_cons, Item.html, append_assoc, singleton_append,
    readHtml_literal hc]
  rfl

/-- A cut entity shows something before what follows the tag. -/
theorem shownItems_cut {part shown : Text} (hcut : (part, shown) ∈ cutEntities) {item : Item}
    (htag : item.unit? = none) (items : List Item) (rest : Text) :
    (shownItems items rest).length <
      (shownItems (part.map .unit ++ item :: items) rest).length := by
  obtain ⟨hsame, s, hs⟩ := shownItems_tag htag items rest
  obtain ⟨hread, hne⟩ := readHtml_cutEntity hcut s
  have hlength : 0 < shown.length := length_pos_iff.mpr hne
  have hshown : shownItems (part.map .unit ++ item :: items) rest =
      shown ++ shownItems (item :: items) rest := by
    rw [shownItems, flatMap_append, flatMap_html_units, append_assoc, hs, hread,
      shownText_append, shownText_chars, ← hs]
    rfl
  rw [hshown, hsame, length_append]
  omega

end Yanta.SearchIndex
