import Yanta.SearchIndex.ShownText

/-!
# Highlighted terms

What `buildSnippet` owes its reader: the excerpt is shown as it is, and each highlighted run
is an occurrence of a term in it.
-/

namespace Yanta.SearchIndex

open Js List Segment HtmlToken

/-! ## Reading pieces -/

def Piece.tokens : Piece → List HtmlToken
  | .plain c => [.char c]
  | .marked part => .openMark :: (part.map .char ++ [.closeMark])

def Piece.marked? : Piece → Option Text
  | .plain _ => none
  | .marked part => some part

theorem readHtml_escapeHtml {body : Text} (hbody : 0 ∉ body) (s : Text) :
    readHtml (escapeHtml body ++ s) = body.map .char ++ readHtml s := by
  induction body with
  | nil => rfl
  | cons c body ih =>
    have hc : c ≠ 0 := fun h => hbody (by simp [h])
    have hrest : 0 ∉ body := fun h => hbody (by simp [h])
    rw [escapeHtml_cons, append_assoc, readHtml_entity hc, ih hrest, map_cons,
      cons_append]

theorem flatMap_replaced_units (u : Text) :
    (u.map Segment.unit).flatMap (Segment.replaced mark) = u := by
  rw [flatMap_map]
  exact flatMap_singleton' u

/-- The marked pieces are read as what they are. -/
theorem readHtml_pieces {pieces : List Piece} (hnull : 0 ∉ pieces.flatMap Piece.text)
    (s : Text) :
    readHtml ((pieces.flatMap Piece.segments).flatMap (Segment.replaced mark) ++ s) =
      pieces.flatMap Piece.tokens ++ readHtml s := by
  induction pieces with
  | nil => rfl
  | cons piece pieces ih =>
    rw [flatMap_cons, mem_append, not_or] at hnull
    have hrest := ih hnull.2
    rw [flatMap_cons, flatMap_append, flatMap_cons, append_assoc]
    cases piece with
    | plain c =>
      have hc : c ≠ 0 := fun h => hnull.1 (by simp [Piece.text, h])
      rw [Piece.segments, flatMap_replaced_units, readHtml_entity hc, hrest]
      rfl
    | marked part =>
      have hmark : [matched (escapeHtml part)].flatMap (replaced mark) =
          text "<mark>" ++ (escapeHtml part ++ text "</mark>") := by
        simp [replaced, mark]
      have hpart : 0 ∉ part := hnull.1
      rw [Piece.segments, hmark, append_assoc, readHtml_open, append_assoc,
        readHtml_escapeHtml hpart, readHtml_close, hrest, Piece.tokens]
      simp

theorem shownText_pieces (pieces : List Piece) :
    shownText (pieces.flatMap Piece.tokens) = pieces.flatMap Piece.text := by
  induction pieces with
  | nil => rfl
  | cons piece pieces ih =>
    rw [flatMap_cons, shownText_append]
    congr 1
    cases piece with
    | plain c => rfl
    | marked part =>
      have hcons : shownText (.openMark :: (part.map .char ++ [.closeMark])) =
          shownText (part.map .char ++ [.closeMark]) := rfl
      rw [Piece.tokens, hcons, shownText_append, shownText_chars]
      exact append_nil part

theorem highlights_chars (u : Text) (tokens : List HtmlToken) :
    highlights none (u.map .char ++ tokens) = highlights none tokens := by
  induction u with
  | nil => rfl
  | cons c u ih => exact ih

theorem highlights_open (run u : Text) (tokens : List HtmlToken) :
    highlights (some run) (u.map .char ++ .closeMark :: tokens) =
      (run ++ u) :: highlights none tokens := by
  induction u generalizing run with
  | nil =>
    rw [append_nil]
    rfl
  | cons c u ih =>
    have hnext := ih (run ++ [c])
    rw [append_assoc] at hnext
    exact hnext

/-- The contents of the marks are the marked parts. -/
theorem highlights_pieces (pieces : List Piece) (tokens : List HtmlToken) :
    highlights none (pieces.flatMap Piece.tokens ++ tokens) =
      pieces.filterMap Piece.marked? ++ highlights none tokens := by
  induction pieces with
  | nil => rfl
  | cons piece pieces ih =>
    rw [flatMap_cons, append_assoc]
    cases piece with
    | plain c => exact ih
    | marked part =>
      have hopen := highlights_open [] part (pieces.flatMap Piece.tokens ++ tokens)
      rw [ih] at hopen
      have htokens : (Piece.marked part).tokens ++ (pieces.flatMap Piece.tokens ++ tokens) =
          .openMark :: (part.map .char ++
            .closeMark :: (pieces.flatMap Piece.tokens ++ tokens)) := by
        simp [Piece.tokens]
      rw [htokens]
      exact hopen

theorem marked_of_mem {pieces : List Piece} {part : Text}
    (h : part ∈ pieces.filterMap Piece.marked?) :
    .matched (escapeHtml part) ∈ pieces.flatMap Piece.segments ∧
      part <:+: pieces.flatMap Piece.text := by
  obtain ⟨piece, hmem, hpart⟩ := mem_filterMap.mp h
  cases piece with
  | plain c => exact absurd hpart (by simp [Piece.marked?])
  | marked part' =>
    rw [Piece.marked?, Option.some.injEq] at hpart
    subst hpart
    constructor
    · rw [mem_flatMap]
      exact ⟨.marked part', hmem, by simp [Piece.segments]⟩
    · obtain ⟨before, after, rfl⟩ := append_of_mem hmem
      refine ⟨before.flatMap Piece.text, after.flatMap Piece.text, ?_⟩
      simp [Piece.text]

/-! ## Matches up to case -/

/-- How a pattern that ignores case compares code units: ASCII letters by their upper case,
and no other unit as an ASCII one. -/
structure Canonical (canonicalize : CodeUnit → CodeUnit) : Prop where
  ascii : ∀ c, c.toNat < 128 →
    canonicalize c = if 97 ≤ c.toNat ∧ c.toNat ≤ 122 then c - 32 else c
  other : ∀ c, 128 ≤ c.toNat → 128 ≤ (canonicalize c).toNat

/-- A match has one of the alternatives as its text, up to case. -/
theorem matched_of_mem {canonicalize : CodeUnit → CodeUnit} {alternatives : List Text}
    {fuel : Nat} {s m : Text} (h : .matched m ∈ segments canonicalize alternatives fuel s) :
    ∃ a ∈ alternatives, m.map canonicalize = a.map canonicalize := by
  have hfirst : ∀ {s : Text} {n : Nat}, firstMatch canonicalize alternatives s = some n →
      ∃ a ∈ alternatives, (s.take n).map canonicalize = a.map canonicalize := by
    intro s n hn
    rw [firstMatch, Option.map_eq_some_iff] at hn
    obtain ⟨a, ha, rfl⟩ := hn
    refine ⟨a, mem_of_find?_eq_some ha, ?_⟩
    have hpre := List.find?_some ha
    rw [List.isPrefixOf_iff_prefix] at hpre
    have htake := prefix_iff_eq_take.mp hpre
    rw [length_map, ← map_take] at htake
    exact htake.symm
  have hnext : ∀ (next : Text → List Segment) (s : Text), .matched m ∈ nextUnit next s →
      ∃ s', .matched m ∈ next s' := by
    intro next s hmem
    cases s with
    | nil => exact absurd hmem not_mem_nil
    | cons c s =>
      rcases mem_cons.mp hmem with heq | hin
      · exact absurd heq (by simp)
      · exact ⟨s, hin⟩
  induction fuel generalizing s with
  | zero =>
    rw [segments, mem_map] at h
    obtain ⟨c, -, hc⟩ := h
    exact absurd hc (by simp)
  | succ fuel ih =>
    rw [segments] at h
    cases hmatch : firstMatch canonicalize alternatives s with
    | none =>
      rw [hmatch] at h
      obtain ⟨s', hs'⟩ := hnext _ _ h
      exact ih hs'
    | some n =>
      obtain ⟨a, ha, hsame⟩ := hfirst hmatch
      rw [hmatch] at h
      cases n with
      | zero =>
        rcases mem_cons.mp h with heq | hin
        · rw [matched.inj heq]
          exact ⟨a, ha, hsame⟩
        · obtain ⟨s', hs'⟩ := hnext _ _ hin
          exact ih hs'
      | succ n =>
        rcases mem_cons.mp h with heq | hin
        · rw [matched.inj heq]
          exact ⟨a, ha, hsame⟩
        · exact ih hin

section

variable {canonicalize : CodeUnit → CodeUnit} (hcanon : Canonical canonicalize)

include hcanon

theorem Canonical.eq_amp {c : CodeUnit} (h : canonicalize c = unit '&') : c = unit '&' := by
  by_cases hascii : c.toNat < 128
  · rw [hcanon.ascii c hascii] at h
    split_ifs at h with hlower
    · exfalso
      have hnat := congrArg UInt16.toNat h
      rw [UInt16.toNat_sub_of_le] at hnat
      · have h38 : (unit '&').toNat = 38 := by decide
        have h32 : (32 : CodeUnit).toNat = 32 := by decide
        omega
      · rw [UInt16.le_iff_toNat_le]
        have h32 : (32 : CodeUnit).toNat = 32 := by decide
        omega
    · exact h
  · exfalso
    have hother := hcanon.other c (by omega)
    rw [h] at hother
    exact absurd hother (by decide)

/-- The upper case of ASCII letters. -/
def asciiUpper (c : CodeUnit) : CodeUnit :=
  if 97 ≤ c.toNat ∧ c.toNat ≤ 122 then c - 32 else c

/-- The entities of the escaped units, up to case. -/
theorem Canonical.map_entity {c : CodeUnit}
    (hc : c ∈ [unit '&', unit '<', unit '>', unit '"', unit '\'']) :
    (entity c).map canonicalize = (entity c).map asciiUpper := by
  have hall : ([unit '&', unit '<', unit '>', unit '"', unit '\''].all fun c =>
      (entity c).all fun d => d.toNat < 128) = true := by decide
  apply map_congr_left
  intro d hd
  have hd' := all_eq_true.mp (all_eq_true.mp hall c hc) d hd
  exact hcanon.ascii d (by simpa using hd')

omit hcanon in
/-- Two entities that are equal up to case are those of one unit. -/
theorem entity_upper_inj {c d : CodeUnit} {x y : Text}
    (hc : c ∈ [unit '&', unit '<', unit '>', unit '"', unit '\''])
    (hd : d ∈ [unit '&', unit '<', unit '>', unit '"', unit '\''])
    (h : (entity c).map asciiUpper ++ x = (entity d).map asciiUpper ++ y) : c = d := by
  have hall : ([unit '&', unit '<', unit '>', unit '"', unit '\''].all fun c =>
      decide (1 < ((entity c).map asciiUpper).length) &&
        [unit '&', unit '<', unit '>', unit '"', unit '\''].all fun d => c == d ||
          ((entity c).map asciiUpper)[1]? != ((entity d).map asciiUpper)[1]?) = true := by
    decide
  have hcase := all_eq_true.mp hall
  have hpair := hcase c hc
  have hlength := hcase d hd
  rw [Bool.and_eq_true, decide_eq_true_eq] at hpair hlength
  have hsecond : ((entity c).map asciiUpper)[1]? = ((entity d).map asciiUpper)[1]? := by
    have h1 := congrArg (fun l => l[1]?) h
    simp only [List.getElem?_append_left hpair.1, List.getElem?_append_left hlength.1] at h1
    exact h1
  have hchoice := all_eq_true.mp hpair.2 d hd
  rw [hsecond] at hchoice
  simpa using hchoice

/-- An entity that is not its unit starts with an ampersand. -/
theorem Canonical.head_entity {c d : CodeUnit} {x y : Text}
    (hc : c ∈ [unit '&', unit '<', unit '>', unit '"', unit '\''])
    (h : (entity c).map canonicalize ++ x = canonicalize d :: y) : d = unit '&' := by
  have hall : ([unit '&', unit '<', unit '>', unit '"', unit '\''].all fun c =>
      (entity c).head? == some (unit '&')) = true := by decide
  have hhead := all_eq_true.mp hall c hc
  have hamp : canonicalize (unit '&') = unit '&' := by
    rw [hcanon.ascii (unit '&') (by decide)]
    decide
  cases hentity : entity c with
  | nil => exact absurd hentity (entity_ne_nil c)
  | cons e rest =>
    rw [hentity, List.head?_cons, beq_iff_eq, Option.some.injEq] at hhead
    rw [hentity, hhead, map_cons, hamp] at h
    exact hcanon.eq_amp (List.cons.inj h).1.symm

/-- Escaped texts that are equal up to case come from such texts. -/
theorem Canonical.escapeHtml_inj {u v : Text}
    (h : (escapeHtml u).map canonicalize = (escapeHtml v).map canonicalize) :
    u.map canonicalize = v.map canonicalize := by
  have hne : ∀ (c : CodeUnit) (w : Text), (escapeHtml (c :: w)).map canonicalize ≠ [] := by
    intro c w hnil
    rw [escapeHtml_cons, map_append] at hnil
    exact entity_ne_nil c (map_eq_nil_iff.mp (append_eq_nil_iff.mp hnil).1)
  induction u generalizing v with
  | nil =>
    cases v with
    | nil => rfl
    | cons d v => exact absurd h.symm (hne d v)
  | cons c u ih =>
    cases v with
    | nil => exact absurd h (hne c u)
    | cons d v =>
      rw [escapeHtml_cons, escapeHtml_cons, map_append, map_append] at h
      rcases entity_cases c with hc | ⟨hcself, hcamp, -⟩
      · rcases entity_cases d with hd | ⟨hdself, hdamp, -⟩
        · have hupper := h
          rw [hcanon.map_entity hc, hcanon.map_entity hd] at hupper
          have hsame := entity_upper_inj hc hd hupper
          subst hsame
          rw [map_cons, map_cons, ih (append_cancel_left h)]
        · rw [hdself] at h
          exact absurd (hcanon.head_entity hc h) hdamp
      · rw [hcself] at h
        rcases entity_cases d with hd | ⟨hdself, -, -⟩
        · exact absurd (hcanon.head_entity hd h.symm) hcamp
        · rw [hdself] at h
          obtain ⟨hhead, htail⟩ := List.cons.inj h
          rw [map_cons, map_cons, hhead, ih htail]

end

/-! ## Snippets -/

/-- The excerpt that is chosen for a text. -/
def chosenExcerpt (casing : Casing) (s : Text) (terms : List Text) : Excerpt :=
  if cleanText s = [] then ⟨[], [], []⟩ else excerptOf casing (cleanText s) terms

/-- The snippet shows the excerpt with its ellipses, and each highlighted run is an
occurrence of a term in it, up to case and the white space around the term. -/
structure ShowsExcerpt (casing : Casing) (terms : List Text) (excerpt : Excerpt)
    (snippet : Text) : Prop where
  shown : shownText (readHtml snippet) = excerpt.front ++ excerpt.body ++ excerpt.back
  highlighted : ∀ run ∈ highlights none (readHtml snippet), run <:+: excerpt.body ∧
    ∃ term ∈ terms, run.map casing.canonicalize =
      (casing.toLowerCase (trim term)).map casing.canonicalize

/-- The matches of the terms in an escaped excerpt, and what is between them. -/
def termSegments (casing : Casing) (terms : List Text) (body : Text) : List Segment :=
  segments casing.canonicalize ((uniqueTerms casing terms).map escapeHtml)
    ((escapeHtml body).length + 1) (escapeHtml body)

theorem segments_no_alternatives (canonicalize : CodeUnit → CodeUnit) (fuel : Nat) (s : Text) :
    segments canonicalize [] fuel s = s.map .unit := by
  induction fuel generalizing s with
  | zero => rfl
  | succ fuel ih =>
    cases s with
    | nil => rfl
    | cons c s => exact congrArg _ (ih s)

theorem mem_uniqueTerms {casing : Casing} {terms : List Text} {t : Text}
    (h : t ∈ uniqueTerms casing terms) :
    t ≠ [] ∧ ∃ term ∈ terms, t = casing.toLowerCase (trim term) := by
  rw [uniqueTerms, mem_insertionSort, mem_filter, mem_eraseDups, mem_map] at h
  obtain ⟨⟨term, hterm, rfl⟩, hlength⟩ := h
  refine ⟨?_, term, hterm, rfl⟩
  intro hnil
  simp [hnil] at hlength

/-- There is nothing to mark in an empty excerpt. -/
theorem termSegments_nil (casing : Casing) (terms : List Text) :
    termSegments casing terms [] = [] := by
  have hnone : firstMatch casing.canonicalize ((uniqueTerms casing terms).map escapeHtml) [] =
      none := by
    rw [firstMatch, Option.map_eq_none_iff, List.find?_eq_none]
    intro a ha hpre
    obtain ⟨t, ht, rfl⟩ := mem_map.mp ha
    cases t with
    | nil => exact (mem_uniqueTerms ht).1 rfl
    | cons c t =>
      rw [map_nil, isPrefixOf_iff_prefix, prefix_nil, map_eq_nil_iff,
        escapeHtml_cons] at hpre
      exact entity_ne_nil c (append_eq_nil_iff.mp hpre).1
  have hescape : escapeHtml [] = [] := rfl
  rw [termSegments, hescape, segments, hnone]
  rfl

/-- A snippet is the excerpt with its segments marked. -/
theorem buildSnippet_eq (casing : Casing) (s : Text) (terms : List Text) :
    buildSnippet casing s terms =
      some ((chosenExcerpt casing s terms).front ++
        (termSegments casing terms (chosenExcerpt casing s terms).body).flatMap
          (Segment.replaced mark) ++ (chosenExcerpt casing s terms).back) := by
  rw [buildSnippet, chosenExcerpt]
  by_cases hempty : cleanText s = []
  · simp only [if_pos hempty, termSegments_nil]
    rfl
  · simp only [if_neg hempty]
    by_cases hunique : uniqueTerms casing terms = []
    · rw [if_pos hunique, termSegments, hunique, map_nil, segments_no_alternatives,
        flatMap_replaced_units]
    · rw [if_neg hunique, parsePattern_highlightPattern hunique]
      rfl

theorem literal_ellipses (casing : Casing) (s : Text) (terms : List Text) :
    (∀ c ∈ (chosenExcerpt casing s terms).front, Literal c) ∧
      ∀ c ∈ (chosenExcerpt casing s terms).back, Literal c := by
  have hliteral : ∀ {u : Text},
      u.all (fun c => c != unit '&' && c != unit '<' && c != 0) = true →
        ∀ c ∈ u, Literal c := by
    intro u hu c hc
    have hcase := all_eq_true.mp hu c hc
    simp only [Bool.and_eq_true, bne_iff_ne] at hcase
    exact ⟨hcase.1.1, hcase.1.2, hcase.2⟩
  rw [chosenExcerpt, excerptOf]
  split_ifs
  all_goals exact ⟨hliteral rfl, hliteral rfl⟩

/-- The null character is never shown. -/
theorem null_notMem_shownText (skip : Nat) (s : Text) : 0 ∉ shownText (readFrom skip s) := by
  have htoken : ∀ (c : CodeUnit) (s : Text), 0 ∉ shownText (nextToken c s).1.toList := by
    intro c s
    have hreferences : (references.all fun r => r.2 != 0) = true := by decide
    rw [nextToken]
    by_cases hopen : (text "<mark>").isPrefixOf (c :: s) = true
    · simp [hopen, shownText, char?]
    by_cases hclose : (text "</mark>").isPrefixOf (c :: s) = true
    · simp [hopen, hclose, shownText, char?]
    rw [if_neg hopen, if_neg hclose]
    cases hfind : references.find? (fun r => r.1.isPrefixOf (c :: s)) with
    | some r =>
      have hr := all_eq_true.mp hreferences r (mem_of_find?_eq_some hfind)
      simp only [bne_iff_ne] at hr
      simpa [shownText, char?] using hr.symm
    | none =>
      by_cases hc : c = 0
      · simp [shownText, hc]
      · simpa [shownText, char?, hc] using Ne.symm hc
  induction s generalizing skip with
  | nil =>
    cases skip with
    | zero | succ => exact not_mem_nil
  | cons c s ih =>
    cases skip with
    | zero =>
      rw [readFrom, shownText_append, mem_append, not_or]
      exact ⟨htoken c s, ih _⟩
    | succ skip => exact ih skip

/-- A snippet shows its excerpt with occurrences of the terms highlighted if and only if the
excerpt has no null character and every match in the escaped excerpt is the escaped text of a
part of it. -/
theorem buildSnippet_shows_iff (casing : Casing) (hcanon : Canonical casing.canonicalize)
    (s : Text) (terms : List Text) :
    (∃ snippet, buildSnippet casing s terms = some snippet ∧
        ShowsExcerpt casing terms (chosenExcerpt casing s terms) snippet) ↔
      0 ∉ (chosenExcerpt casing s terms).body ∧
        MatchesParts (chosenExcerpt casing s terms).body
          (termSegments casing terms (chosenExcerpt casing s terms).body) := by
  obtain ⟨hfront, hback⟩ := literal_ellipses casing s terms
  rw [buildSnippet_eq]
  generalize chosenExcerpt casing s terms = excerpt at hfront hback ⊢
  have hread : ∀ inner : Text, readHtml (excerpt.front ++ inner ++ excerpt.back) =
      excerpt.front.map .char ++ readHtml (inner ++ excerpt.back) := by
    intro inner
    rw [append_assoc, readHtml_literals hfront]
  have hend : readHtml excerpt.back = excerpt.back.map .char := by
    have h := readHtml_literals hback []
    simpa [readHtml, readFrom] using h
  constructor
  · rintro ⟨snippet, hsnippet, hshows⟩
    rw [← Option.some.inj hsnippet] at hshows
    have hshown := hshows.shown
    rw [hread, shownText_append, shownText_chars, append_assoc] at hshown
    have hitems : shownItems ((termSegments casing terms excerpt.body).flatMap segmentItems)
        excerpt.back = excerpt.body ++ excerpt.back := by
      rw [shownItems, flatMap_segmentItems_html]
      exact append_cancel_left hshown
    have hnull : 0 ∉ excerpt.body := by
      intro hmem
      have hnot := null_notMem_shownText 0 ((termSegments casing terms excerpt.body).flatMap
        (replaced mark) ++ excerpt.back)
      rw [← flatMap_segmentItems_html] at hnot
      apply hnot
      have heq := hitems
      rw [shownItems] at heq
      rw [readHtml] at heq
      rw [heq]
      exact mem_append_left _ hmem
    refine ⟨hnull, matchesParts_of_tagsBetween ?_⟩
    have hunits : unitsOf ((termSegments casing terms excerpt.body).flatMap segmentItems) =
        escapeHtml excerpt.body := by
      rw [unitsOf_segmentItems, termSegments, flatMap_segments]
    refine (body_shown excerpt.back hunits hnull).2 ?_
    rw [hitems, length_append, shownBehind, hend, shownText_chars]
  · rintro ⟨hnull, pieces, hbody, hsegs⟩
    refine ⟨_, rfl, ?_, ?_⟩
    · rw [hread, ← hsegs, readHtml_pieces (hbody ▸ hnull), hend, shownText_append,
        shownText_append, shownText_chars, shownText_chars, shownText_pieces, hbody,
        append_assoc]
    · intro run hrun
      rw [hread, ← hsegs, readHtml_pieces (hbody ▸ hnull), hend, highlights_chars,
        highlights_pieces] at hrun
      have hnone : highlights none (excerpt.back.map .char) = [] := by
        have h := highlights_chars excerpt.back []
        rwa [append_nil] at h
      rw [hnone, append_nil] at hrun
      obtain ⟨hmatched, hpart⟩ := marked_of_mem hrun
      rw [hsegs] at hmatched
      rw [hbody] at hpart
      obtain ⟨a, ha, hsame⟩ := matched_of_mem hmatched
      obtain ⟨t, ht, rfl⟩ := mem_map.mp ha
      obtain ⟨-, term, hterm, rfl⟩ := mem_uniqueTerms ht
      exact ⟨hpart, term, hterm, hcanon.escapeHtml_inj hsame⟩

theorem canonical_asciiCasing : Canonical asciiCasing.canonicalize where
  ascii _ _ := rfl
  other c hc := by
    have hnot : ¬(97 ≤ c.toNat ∧ c.toNat ≤ 122) := by omega
    have hself : asciiCasing.canonicalize c = c := if_neg hnot
    rwa [hself]

theorem buildSnippet_shows_iff_sample :
    Canonical asciiCasing.canonicalize ∧
      ((∃ snippet, buildSnippet asciiCasing (text "fish & chips") [text "Chips"] = some snippet ∧
          ShowsExcerpt asciiCasing [text "Chips"]
            (chosenExcerpt asciiCasing (text "fish & chips") [text "Chips"]) snippet) ↔
        0 ∉ (chosenExcerpt asciiCasing (text "fish & chips") [text "Chips"]).body ∧
          MatchesParts (chosenExcerpt asciiCasing (text "fish & chips") [text "Chips"]).body
            (termSegments asciiCasing [text "Chips"]
              (chosenExcerpt asciiCasing (text "fish & chips") [text "Chips"]).body)) :=
  ⟨canonical_asciiCasing, buildSnippet_shows_iff asciiCasing canonical_asciiCasing _ _⟩

/-- The term `amp` is marked inside the entity of an ampersand, which is then shown as its
source text. -/
theorem term_inside_entity :
    buildSnippet asciiCasing (text "fish & chips") [text "amp"] =
        some (text "fish &<mark>amp</mark>; chips") ∧
      shownText (readHtml (text "fish &<mark>amp</mark>; chips")) =
        text "fish &amp; chips" ∧
      ¬ShowsExcerpt asciiCasing [text "amp"]
        (chosenExcerpt asciiCasing (text "fish & chips") [text "amp"])
        (text "fish &<mark>amp</mark>; chips") := by
  refine ⟨by decide +kernel, by decide +kernel, ?_⟩
  intro h
  exact absurd h.shown (by decide +kernel)

end Yanta.SearchIndex
