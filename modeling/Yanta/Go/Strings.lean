import Mathlib.Data.List.Basic
import Mathlib.Data.List.DropRight
import Mathlib.Data.String.Basic
import Mathlib.Tactic.Common

/-!
# The text functions of Go's standard library

Only the functions the modelled packages call are defined. A Go string is a
Lean `String`, so the model speaks about valid UTF-8; `len` counts bytes as Go
does. `unicode.ToLower` is the one table-driven function and is therefore a
parameter of the functions that use it.
-/

namespace Yanta.Go

open List

variable {lower : Char → Char} {sep : List Char} {xs : List (List Char)}

/-- `unicode.IsSpace`. -/
def isSpace (c : Char) : Bool :=
  let n := c.toNat
  (9 ≤ n && n ≤ 13) || n == 0x20 || n == 0x85 || n == 0xA0 || n == 0x1680 ||
    (0x2000 ≤ n && n ≤ 0x200a) || n == 0x2028 || n == 0x2029 || n == 0x202f ||
    n == 0x205f || n == 0x3000

/-- `len(s)`: the number of bytes of the UTF-8 encoding. -/
def len (s : String) : Nat := s.utf8ByteSize

/-- A character takes at least one byte. -/
theorem length_le_len (s : String) : s.length ≤ len s := by
  have hchars : ∀ cs : List Char, cs.length ≤ String.utf8Len cs := by
    intro cs
    induction cs with
    | nil => simp
    | cons c cs ih =>
      have := c.utf8Size_pos
      simp only [length_cons, String.utf8Len_cons]
      omega
  calc
    s.length = s.toList.length := String.length_toList.symm
    _ ≤ String.utf8Len s.toList := hchars _
    _ = len s := by
        rw [← String.utf8ByteSize_ofList, String.ofList_toList, len]

def trimLeftChars (p : Char → Bool) (s : List Char) : List Char :=
  s.dropWhile p

def trimRightChars (p : Char → Bool) (s : List Char) : List Char :=
  (s.reverse.dropWhile p).reverse

def trimSpaceChars (s : List Char) : List Char :=
  trimRightChars isSpace (trimLeftChars isSpace s)

/-- `strings.TrimSpace`. -/
def trimSpace (s : String) : String := String.ofList (trimSpaceChars s.toList)

/-- `strings.ToLower`, for the given `unicode.ToLower`. -/
def toLower (lower : Char → Char) (s : String) : String :=
  String.ofList (s.toList.map lower)

/-! ### Trimming and case -/

theorem trimSpaceChars_idem (s : List Char) :
    trimSpaceChars (trimSpaceChars s) = trimSpaceChars s := by
  have hright :
      List.rdropWhile isSpace (List.rdropWhile isSpace (s.dropWhile isSpace)) =
        List.rdropWhile isSpace (s.dropWhile isSpace) :=
    rdropWhile_idempotent isSpace _
  change List.rdropWhile isSpace
      ((List.rdropWhile isSpace (s.dropWhile isSpace)).dropWhile isSpace) = _
  -- Trimming on the right keeps the first character, which is not a space.
  suffices h : (List.rdropWhile isSpace (s.dropWhile isSpace)).dropWhile isSpace =
      List.rdropWhile isSpace (s.dropWhile isSpace) by
    rw [h]
    exact hright
  cases hl : s.dropWhile isSpace with
  | nil => simp
  | cons a t =>
    have ha : isSpace a = false := by
      have := head_dropWhile_not isSpace
        (show s.dropWhile isSpace ≠ [] by simp [hl])
      simpa [hl] using this
    obtain ⟨r, hr⟩ := rdropWhile_prefix isSpace (l := a :: t)
    cases hd : List.rdropWhile isSpace (a :: t) with
    | nil =>
      have := rdropWhile_eq_nil_iff.mp hd a (by simp)
      simp [ha] at this
    | cons b u =>
      rw [hd] at hr
      have hb : b = a := by simpa using congrArg List.head? hr
      simp [hb, ha]

theorem trimSpaceChars_map
    {f : Char → Char} (hf : ∀ c, isSpace (f c) = isSpace c) (s : List Char) :
    trimSpaceChars (s.map f) = (trimSpaceChars s).map f := by
  have hcomp : isSpace ∘ f = isSpace := funext hf
  simp only [trimSpaceChars, trimLeftChars, trimRightChars, dropWhile_map,
    hcomp, ← map_reverse]

@[simp] theorem trimSpace_trimSpace (s : String) :
    trimSpace (trimSpace s) = trimSpace s := by
  simp [trimSpace, trimSpaceChars_idem]

/-- A character that is no white space stays where a text is trimmed. -/
theorem mem_trimSpace {s : String} {x : Char} (hx : x ∈ s.toList) (hspace : isSpace x = false) :
    x ∈ (trimSpace s).toList := by
  have hdrop : ∀ l : List Char, x ∈ l → x ∈ l.dropWhile isSpace := by
    intro l hl
    rw [← takeWhile_append_dropWhile (p := isSpace) (l := l), mem_append] at hl
    rcases hl with htake | hdrop
    · rw [mem_takeWhile_imp htake] at hspace
      exact absurd hspace.symm Bool.false_ne_true
    · exact hdrop
  rw [trimSpace, String.toList_ofList, trimSpaceChars, trimRightChars, mem_reverse]
  apply hdrop
  rw [mem_reverse]
  exact hdrop _ hx

theorem trimSpace_toLower (hspace : ∀ c, isSpace (lower c) = isSpace c) (s : String) :
    trimSpace (toLower lower s) = toLower lower (trimSpace s) := by
  simp [trimSpace, toLower, trimSpaceChars_map hspace]

theorem toLower_toLower (hlower : ∀ c, lower (lower c) = lower c) (s : String) :
    toLower lower (toLower lower s) = toLower lower s := by
  have hcomp : lower ∘ lower = lower := funext hlower
  simp [toLower, hcomp]

/-- `strings.HasPrefix`. -/
def hasPrefix (s pre : String) : Bool := pre.toList.isPrefixOf s.toList

/-- `strings.HasSuffix`. -/
def hasSuffix (s suf : String) : Bool := suf.toList.isSuffixOf s.toList

/-- `strings.TrimPrefix`. -/
def trimPrefix (s pre : String) : String :=
  if hasPrefix s pre then String.ofList (s.toList.drop pre.toList.length) else s

/-- `strings.TrimSuffix`. -/
def trimSuffix (s suf : String) : String :=
  if hasSuffix s suf then
    String.ofList (s.toList.take (s.toList.length - suf.toList.length))
  else s

/-- The characters of `s` from the first occurrence of `sub` on. -/
def findFrom (sub : List Char) : List Char → Option (List Char)
  | [] => if sub = [] then some [] else none
  | c :: cs => if sub.isPrefixOf (c :: cs) then some (c :: cs) else findFrom sub cs

/-- `strings.Contains`. -/
def contains (s sub : String) : Bool := (findFrom sub.toList s.toList).isSome

/-- `strings.ContainsAny`. -/
def containsAny (s chars : String) : Bool :=
  s.toList.any fun c => chars.toList.contains c

/-- One left-to-right pass replacing the non-overlapping occurrences of `old`;
`fuel` bounds the number of characters read. -/
def replaceAux (old new : List Char) : Nat → List Char → List Char
  | 0, s => s
  | _ + 1, [] => []
  | fuel + 1, c :: cs =>
    if old.isPrefixOf (c :: cs) then
      new ++ replaceAux old new fuel ((c :: cs).drop old.length)
    else c :: replaceAux old new fuel cs

/-- `strings.ReplaceAll` for a nonempty `old`. -/
def replaceAll (s old new : String) : String :=
  String.ofList (replaceAux old.toList new.toList s.toList.length s.toList)

/-- `strings.Split` at a one-character separator. -/
def split (s : String) (sep : Char) : List String :=
  (s.toList.splitOn sep).map String.ofList

/-- `strings.Join`. -/
def join (parts : List String) (sep : String) : String :=
  String.ofList (sep.toList.intercalate (parts.map String.toList))

/-- A joined text has its parts in it. -/
theorem infix_intercalate {x : List Char} (h : x ∈ xs) : x <:+: sep.intercalate xs := by
  induction xs with
  | nil => simp at h
  | cons y ys ih =>
    cases ys with
    | nil =>
      obtain rfl : x = y := by simpa using h
      simp
    | cons z zs =>
      rw [intercalate_cons_cons]
      rcases mem_cons.mp h with rfl | hin
      · rw [append_assoc]
        exact (prefix_append _ _).isInfix
      · exact (ih hin).trans (suffix_append _ _).isInfix

theorem mem_intercalate {c : Char} (h : c ∈ sep.intercalate xs) :
    c ∈ sep ∨ ∃ x ∈ xs, c ∈ x := by
  induction xs with
  | nil => simp at h
  | cons y ys ih =>
    cases ys with
    | nil => exact .inr ⟨y, by simp, by simpa using h⟩
    | cons z zs =>
      rw [intercalate_cons_cons, append_assoc, mem_append, mem_append] at h
      rcases h with hy | hsep | hrest
      · exact .inr ⟨y, by simp, hy⟩
      · exact .inl hsep
      · rcases ih hrest with hsep | ⟨x, hx, hc⟩
        · exact .inl hsep
        · exact .inr ⟨x, mem_cons_of_mem _ hx, hc⟩

/-- `strconv`-style decimal rendering used by `%d`. -/
def decimal (n : Nat) : String := String.ofList (Nat.toDigits 10 n)

/-- `%d` of a number that may be negative. -/
def decimalInt (n : Int) : String :=
  if n < 0 then "-" ++ decimal n.natAbs else decimal n.natAbs

/-- `%q` for the plain identifiers it is applied to. -/
def quote (s : String) : String := "\"" ++ s ++ "\""

/-! ## `path` -/

/-- One path element against the elements kept so far, innermost first. -/
def cleanElement
    (rooted : Bool) (stack : List (List Char)) (elem : List Char) :
    List (List Char) :=
  if elem = [] ∨ elem = ['.'] then stack
  else if elem = ['.', '.'] then
    match stack with
    | [] => if rooted then [] else [elem]
    | top :: rest => if top = ['.', '.'] then elem :: stack else rest
  else elem :: stack

def cleanElements (rooted : Bool) (p : List Char) : List (List Char) :=
  ((p.splitOn '/').foldl (cleanElement rooted) []).reverse

/-- `path.Clean`. -/
def pathClean (p : String) : String :=
  let rooted := hasPrefix p "/"
  let elems := cleanElements rooted p.toList
  if rooted then String.ofList ('/' :: ['/'].intercalate elems)
  else if elems = [] then "."
  else String.ofList (['/'].intercalate elems)

/-- The part of `p` up to and including its last slash (`path.Split`). -/
def pathDirPart (p : String) : String :=
  String.ofList (trimRightChars (fun c => !(c == '/')) p.toList)

/-- `path.Dir`. -/
def pathDir (p : String) : String := pathClean (pathDirPart p)

/-- `path.Base`. -/
def pathBase (p : String) : String :=
  if p.toList = [] then "."
  else
    let body := trimRightChars (fun c => c == '/') p.toList
    if body = [] then "/"
    else String.ofList (body.reverse.takeWhile (fun c => !(c == '/'))).reverse

end Yanta.Go
