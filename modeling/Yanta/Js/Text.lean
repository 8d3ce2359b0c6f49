import Mathlib.Data.List.Infix

/-!
# Texts and literal patterns

JavaScript strings as lists of UTF-16 code units, with the string methods on them, and
regular expressions whose pattern is an alternation of literal texts. A pattern is read
from its source text; a pattern of escaped texts has those texts as its alternatives.
-/

namespace Yanta.Js

open List Option

abbrev CodeUnit := UInt16

abbrev Text := List CodeUnit

/-- The code unit of a character of the basic plane. -/
def unit (c : Char) : CodeUnit := UInt16.ofNat c.toNat

/-- A text of characters of the basic plane. -/
def text (s : String) : Text := s.toList.map unit

/-! ## Methods of strings -/

/-- The white space of `\s` and of `trim`. -/
def isSpace (c : CodeUnit) : Bool :=
  let n := c.toNat
  (9 ≤ n && n ≤ 13) || n == 32 || n == 160 || n == 5760 || (8192 ≤ n && n ≤ 8202) ||
    n == 8232 || n == 8233 || n == 8239 || n == 8287 || n == 12288 || n == 65279

/-- `replace(/\s+/g, " ")`, behind white space or not. -/
def collapseFrom : Bool → Text → Text
  | _, [] => []
  | inside, c :: cs =>
    if isSpace c then if inside then collapseFrom true cs else unit ' ' :: collapseFrom true cs
    else c :: collapseFrom false cs

def collapseSpace (s : Text) : Text := collapseFrom false s

def trim (s : Text) : Text :=
  ((s.dropWhile isSpace).reverse.dropWhile isSpace).reverse

def indexOf (s sub : Text) : Option Nat := s.tails.findIdx? fun tail => sub.isPrefixOf tail

/-- `slice` between two indices that are not negative. -/
def slice (s : Text) (start stop : Nat) : Text := (s.take stop).drop start

/-- `replace` of every occurrence of one code unit. -/
def replaceUnit (c : CodeUnit) (new s : Text) : Text :=
  s.flatMap fun d => if d = c then new else [d]

/-! ## Literal patterns -/

/-- The characters that are not literal in a pattern. -/
def syntaxUnits : Text := text ".*+?^$\x7b\x7d()|[]\\"

/-- The unit in front of the first alternative. -/
def consFirst (c : CodeUnit) : List Text → List Text
  | [] => []
  | alternative :: alternatives => (c :: alternative) :: alternatives

/-- The alternatives of a pattern of literal and escaped characters; none for a pattern
with other operators. -/
def parsePattern : Text → Option (List Text)
  | [] => some [[]]
  | c :: rest =>
    if c = unit '\\' then
      match rest with
      | [] => none
      | d :: rest' =>
        if syntaxUnits.contains d then (parsePattern rest').map (consFirst d) else none
    else if c = unit '|' then (parsePattern rest).map fun more => [] :: more
    else if syntaxUnits.contains c then none
    else (parsePattern rest).map (consFirst c)

/-- The pattern of a literal text. -/
def escapePattern (s : Text) : Text :=
  s.flatMap fun c => if syntaxUnits.contains c then [unit '\\', c] else [c]

/-- The pattern of an alternation. -/
def joinPatterns : List Text → Text
  | [] => []
  | [p] => p
  | p :: ps => p ++ unit '|' :: joinPatterns ps

section

theorem parsePattern_escaped {c : CodeUnit} (h : syntaxUnits.contains c = true)
    (rest : Text) :
    parsePattern (unit '\\' :: c :: rest) = (parsePattern rest).map (consFirst c) := by
  exact if_pos h

theorem parsePattern_literal {c : CodeUnit} (h : syntaxUnits.contains c = false)
    (rest : Text) : parsePattern (c :: rest) = (parsePattern rest).map (consFirst c) := by
  have hslash : c ≠ unit '\\' := by
    rintro rfl
    exact absurd h (by decide)
  have hbar : c ≠ unit '|' := by
    rintro rfl
    exact absurd h (by decide)
  rw [parsePattern.eq_def]
  simp only [if_neg hslash, if_neg hbar, h, Bool.false_eq_true, if_false]

theorem parsePattern_bar (rest : Text) :
    parsePattern (unit '|' :: rest) = (parsePattern rest).map fun more => [] :: more := by
  rw [parsePattern.eq_def]
  rfl

/-- An escaped text is read as the start of the first alternative. -/
theorem parsePattern_escapePattern (s rest : Text) :
    parsePattern (escapePattern s ++ rest) =
      (parsePattern rest).map fun alternatives => s.foldr consFirst alternatives := by
  induction s with
  | nil => simp [escapePattern]
  | cons c s ih =>
    have hcons : escapePattern (c :: s) =
        (if syntaxUnits.contains c then [unit '\\', c] else [c]) ++ escapePattern s := rfl
    rw [hcons]
    cases hsyntax : syntaxUnits.contains c with
    | true =>
      rw [if_pos rfl, append_assoc, cons_append, cons_append,
        nil_append, parsePattern_escaped hsyntax, ih, Option.map_map]
      rfl
    | false =>
      rw [if_neg Bool.false_ne_true, append_assoc, cons_append,
        nil_append, parsePattern_literal hsyntax, ih, Option.map_map]
      rfl

theorem foldr_consFirst (s alternative : Text) (alternatives : List Text) :
    s.foldr consFirst (alternative :: alternatives) = (s ++ alternative) :: alternatives := by
  induction s with
  | nil => rfl
  | cons c s ih => rw [foldr_cons, ih, consFirst, cons_append]

/-- The alternation of escaped texts has the texts as its alternatives. -/
theorem parsePattern_joinPatterns {ss : List Text} (h : ss ≠ []) :
    parsePattern (joinPatterns (ss.map escapePattern)) = some ss := by
  induction ss with
  | nil => exact absurd rfl h
  | cons s ss ih =>
    cases ss with
    | nil =>
      have hnil : parsePattern [] = some [[]] := rfl
      have hone := parsePattern_escapePattern s []
      rw [append_nil, hnil, map_some, foldr_consFirst, append_nil] at hone
      exact hone
    | cons s' ss =>
      have hjoin : joinPatterns ((s :: s' :: ss).map escapePattern) =
          escapePattern s ++ unit '|' :: joinPatterns ((s' :: ss).map escapePattern) := rfl
      rw [hjoin, parsePattern_escapePattern, parsePattern_bar, ih (cons_ne_nil s' ss),
        map_some, map_some, foldr_consFirst, append_nil]

end

/-! ## Replacement -/

/-- The length of the first alternative that the text starts with, up to case. -/
def firstMatch (canonicalize : CodeUnit → CodeUnit) (alternatives : List Text) (s : Text) :
    Option Nat :=
  (alternatives.find? fun a =>
    (a.map canonicalize).isPrefixOf (s.map canonicalize)).map List.length

/-- A part of a text that is searched for matches. -/
inductive Segment where
  | unit (c : CodeUnit)
  | matched (m : Text)
deriving DecidableEq, Repr

def Segment.text : Segment → Text
  | .unit c => [c]
  | .matched m => m

/-- The first unit, and what is found behind it. -/
def nextUnit (next : Text → List Segment) : Text → List Segment
  | [] => []
  | c :: rest => .unit c :: next rest

/-- The matches from left to right and what stands between them. Behind an empty match
the search goes on with the next unit. -/
def segments (canonicalize : CodeUnit → CodeUnit) (alternatives : List Text) :
    Nat → Text → List Segment
  | 0, s => s.map .unit
  | fuel + 1, s =>
    match firstMatch canonicalize alternatives s with
    | none => nextUnit (segments canonicalize alternatives fuel) s
    | some 0 => .matched [] :: nextUnit (segments canonicalize alternatives fuel) s
    | some (n + 1) =>
      .matched (s.take (n + 1)) ::
        segments canonicalize alternatives fuel (s.drop (n + 1))

/-- The segment with its match replaced. -/
def Segment.replaced (replacement : Text → Text) : Segment → Text
  | .unit c => [c]
  | .matched m => replacement m

/-- `replace` of every match. -/
def replaceMatches (canonicalize : CodeUnit → CodeUnit) (alternatives : List Text)
    (replacement : Text → Text) (s : Text) : Text :=
  (segments canonicalize alternatives (s.length + 1) s).flatMap (Segment.replaced replacement)

/-- The segments make up the text. -/
theorem flatMap_segments (canonicalize : CodeUnit → CodeUnit) (alternatives : List Text)
    (fuel : Nat) (s : Text) :
    (segments canonicalize alternatives fuel s).flatMap Segment.text = s := by
  induction fuel generalizing s with
  | zero =>
    rw [segments, flatMap_map]
    exact flatMap_singleton' s
  | succ fuel ih =>
    have hnext : (nextUnit (segments canonicalize alternatives fuel) s).flatMap
        Segment.text = s := by
      cases s with
      | nil => rfl
      | cons c rest =>
        rw [nextUnit, flatMap_cons, ih]
        rfl
    rw [segments]
    cases firstMatch canonicalize alternatives s with
    | none => exact hnext
    | some n =>
      cases n with
      | zero => exact hnext
      | succ n =>
        rw [flatMap_cons, ih]
        exact take_append_drop (n + 1) s

end Yanta.Js
