import Yanta.Go.Json

/-!
# JSON texts

A printer of JSON values and a parser of JSON texts. The printer writes one of the texts
that spell a value: without white space, with escapes only where the grammar asks for them
and numbers in exponent form. The parser reads the whole grammar, and reading a printed
value gives the value back.
-/

namespace Yanta.Go

open List Option Nat

variable {c : Char} {fuel : Nat}

/-! ## Printing -/

def hexDigit (n : Nat) : Char :=
  if n < 10 then Char.ofNat (48 + n) else Char.ofNat (87 + n)

def escapeChar (c : Char) : List Char :=
  if c = '"' then ['\\', '"']
  else if c = '\\' then ['\\', '\\']
  else if c.toNat < 0x20 then
    ['\\', 'u', '0', '0', hexDigit (c.toNat / 16), hexDigit (c.toNat % 16)]
  else [c]

/-- A string's text after its opening quote. -/
def printString (s : String) : List Char := s.toList.flatMap escapeChar ++ ['"']

def printNumber (mantissa : Int) (exponent : Nat) : List Char :=
  (if mantissa < 0 then ['-'] else []) ++ Nat.toDigits 10 mantissa.natAbs ++
    if exponent = 0 then [] else 'e' :: '-' :: Nat.toDigits 10 exponent

mutual

def Json.print : Json → List Char
  | .null => "null".toList
  | .bool true => "true".toList
  | .bool false => "false".toList
  | .num mantissa exponent => printNumber mantissa exponent
  | .str s => '"' :: printString s
  | .arr [] => ['[', ']']
  | .arr (item :: items) => '[' :: (Json.print item ++ printItems items)
  | .obj [] => ['{', '}']
  | .obj ((key, value) :: members) =>
    '{' :: '"' :: (printString key ++ ':' :: (Json.print value ++ printMembers members))

/-- The items after the first one, and the closing bracket. -/
def printItems : List Json → List Char
  | [] => [']']
  | item :: items => ',' :: (Json.print item ++ printItems items)

/-- The members after the first one, and the closing brace. -/
def printMembers : List (String × Json) → List Char
  | [] => ['}']
  | (key, value) :: members =>
    ',' :: '"' :: (printString key ++ ':' :: (Json.print value ++ printMembers members))

end

/-! ## Parsing -/

def isJsonSpace (c : Char) : Bool := c == ' ' || c == '\t' || c == '\n' || c == '\r'

def skipSpace (text : List Char) : List Char := text.dropWhile isJsonSpace

def hexValue (c : Char) : Option Nat :=
  if c.isDigit then some (c.toNat - 48)
  else if 97 ≤ c.toNat ∧ c.toNat ≤ 102 then some (c.toNat - 87)
  else if 65 ≤ c.toNat ∧ c.toNat ≤ 70 then some (c.toNat - 55)
  else none

/-- The code unit that four hexadecimal digits spell, and what follows them. -/
def parseCodeUnit : List Char → Option (Nat × List Char)
  | a :: b :: c :: d :: rest => do
      let a ← hexValue a
      let b ← hexValue b
      let c ← hexValue c
      let d ← hexValue d
      return (((a * 16 + b) * 16 + c) * 16 + d, rest)
  | _ => none

def simpleEscape (c : Char) : Option Char :=
  if c = '"' ∨ c = '\\' ∨ c = '/' then some c
  else if c = 'b' then some '\x08'
  else if c = 'f' then some '\x0c'
  else if c = 'n' then some '\n'
  else if c = 'r' then some '\r'
  else if c = 't' then some '\t'
  else none

/-- The character of one code unit; one half of a surrogate pair alone is replaced. -/
def charOfUnit (unit : Nat) : Char :=
  if 0xD800 ≤ unit ∧ unit ≤ 0xDFFF then '�' else Char.ofNat unit

/-- The second half of a surrogate pair, written as another escape. -/
def lowSurrogate : List Char → Option (Nat × List Char)
  | '\\' :: 'u' :: rest =>
    match parseCodeUnit rest with
    | some (unit, rest) => if 0xDC00 ≤ unit ∧ unit ≤ 0xDFFF then some (unit, rest) else none
    | none => none
  | _ => none

/-- The character after `\u`. -/
def parseUnicode (text : List Char) : Option (Char × List Char) := do
  let (unit, rest) ← parseCodeUnit text
  if 0xD800 ≤ unit ∧ unit ≤ 0xDBFF then
    match lowSurrogate rest with
    | some (low, rest) =>
      return (Char.ofNat (0x10000 + (unit - 0xD800) * 0x400 + (low - 0xDC00)), rest)
    | none => return (charOfUnit unit, rest)
  else return (charOfUnit unit, rest)

/-- One character of a string, or its closing quote. -/
def parseChar : List Char → Option (Option Char × List Char)
  | [] => none
  | c :: rest =>
    if c = '"' then some (none, rest)
    else if c = '\\' then
      match rest with
      | [] => none
      | e :: rest =>
        if e = 'u' then (parseUnicode rest).map fun (c, rest) => (some c, rest)
        else (simpleEscape e).map fun c => (some c, rest)
    else if c.toNat < 0x20 then none
    else some (some c, rest)

/-- A string after its opening quote. -/
def parseString : Nat → List Char → Option (List Char × List Char)
  | 0, _ => none
  | fuel + 1, text =>
    match parseChar text with
    | none => none
    | some (none, rest) => some ([], rest)
    | some (some c, rest) =>
      (parseString fuel rest).map fun (cs, rest) => (c :: cs, rest)

/-- The digits at the front, at least one of them. -/
def parseDigits (text : List Char) : Option (List Char × List Char) :=
  if text.takeWhile Char.isDigit = [] then none
  else some (text.takeWhile Char.isDigit, text.dropWhile Char.isDigit)

def parseFraction : List Char → Option (List Char × List Char)
  | [] => some ([], [])
  | c :: rest => if c = '.' then parseDigits rest else some ([], c :: rest)

def parseExponent : List Char → Option (Int × List Char)
  | [] => some (0, [])
  | c :: rest =>
    if c = 'e' ∨ c = 'E' then
      match rest with
      | [] => none
      | sign :: rest' =>
        if sign = '-' then
          (parseDigits rest').map fun (ds, rest) => (-(Nat.ofDigitChars 10 ds 0 : Int), rest)
        else if sign = '+' then
          (parseDigits rest').map fun (ds, rest) => ((Nat.ofDigitChars 10 ds 0 : Int), rest)
        else
          (parseDigits rest).map fun (ds, rest) => ((Nat.ofDigitChars 10 ds 0 : Int), rest)
    else some (0, c :: rest)

/-- A number with `scale` digits behind the point. -/
def scaled (negative : Bool) (digits : Nat) (scale : Int) : Json :=
  let mantissa : Int := (digits * 10 ^ (-scale).toNat : Nat)
  .num (if negative then -mantissa else mantissa) scale.toNat

def parseUnsigned (negative : Bool) (text : List Char) : Option (Json × List Char) := do
  let (ints, rest) ← parseDigits text
  if ints.head? = some '0' ∧ ints ≠ ['0'] then none
  let (fraction, rest) ← parseFraction rest
  let (exponent, rest) ← parseExponent rest
  return (scaled negative (Nat.ofDigitChars 10 (ints ++ fraction) 0)
    (fraction.length - exponent), rest)

def parseNumber : List Char → Option (Json × List Char)
  | [] => none
  | c :: rest => if c = '-' then parseUnsigned true rest else parseUnsigned false (c :: rest)

def parseWord (word : String) (value : Json) (text : List Char) :
    Option (Json × List Char) :=
  if word.toList.isPrefixOf text then some (value, text.drop word.toList.length) else none

mutual

def parseValue : Nat → List Char → Option (Json × List Char)
  | 0, _ => none
  | fuel + 1, text =>
    match skipSpace text with
    | [] => none
    | c :: rest =>
      if c = '"' then
        (parseString rest.length rest).map fun (s, rest) => (.str (String.ofList s), rest)
      else if c = '[' then
        if (skipSpace rest).head? = some ']' then some (.arr [], (skipSpace rest).tail)
        else do
          let (item, rest) ← parseValue fuel rest
          let (items, rest) ← parseItems fuel rest
          return (.arr (item :: items), rest)
      else if c = '{' then
        if (skipSpace rest).head? = some '}' then some (.obj [], (skipSpace rest).tail)
        else do
          let (member, rest) ← parseMember fuel rest
          let (members, rest) ← parseMembers fuel rest
          return (.obj (member :: members), rest)
      else if c = 'n' then parseWord "null" .null (c :: rest)
      else if c = 't' then parseWord "true" (.bool true) (c :: rest)
      else if c = 'f' then parseWord "false" (.bool false) (c :: rest)
      else parseNumber (c :: rest)

def parseItems : Nat → List Char → Option (List Json × List Char)
  | 0, _ => none
  | fuel + 1, text =>
    match skipSpace text with
    | [] => none
    | c :: rest =>
      if c = ']' then some ([], rest)
      else if c = ',' then do
        let (item, rest) ← parseValue fuel rest
        let (items, rest) ← parseItems fuel rest
        return (item :: items, rest)
      else none

def parseMember : Nat → List Char → Option ((String × Json) × List Char)
  | 0, _ => none
  | fuel + 1, text =>
    match skipSpace text with
    | [] => none
    | c :: rest =>
      if c = '"' then do
        let (key, rest) ← parseString rest.length rest
        if (skipSpace rest).head? = some ':' then
          let (value, rest) ← parseValue fuel (skipSpace rest).tail
          return ((String.ofList key, value), rest)
        else none
      else none

def parseMembers : Nat → List Char → Option (List (String × Json) × List Char)
  | 0, _ => none
  | fuel + 1, text =>
    match skipSpace text with
    | [] => none
    | c :: rest =>
      if c = '}' then some ([], rest)
      else if c = ',' then do
        let (member, rest) ← parseMember fuel rest
        let (members, rest) ← parseMembers fuel rest
        return (member :: members, rest)
      else none

end

def Json.stringify (value : Json) : String := String.ofList value.print

/-- A text is one value with white space around it. -/
def Json.parse (text : String) : Option Json :=
  match parseValue text.length text.toList with
  | some (value, rest) => if skipSpace rest = [] then some value else none
  | none => none

/-! ## Strings -/

theorem hexValue_hexDigit {n : Nat} (h : n < 16) : hexValue (hexDigit n) = some n := by
  revert n
  decide

theorem parseUnicode_control (h : c.toNat < 0x20) (rest : List Char) :
    parseUnicode ('0' :: '0' :: hexDigit (c.toNat / 16) :: hexDigit (c.toNat % 16) :: rest) =
      some (c, rest) := by
  have hhigh := hexValue_hexDigit (n := c.toNat / 16) (by omega)
  have hlow := hexValue_hexDigit (n := c.toNat % 16) (by omega)
  have hzero : hexValue '0' = some 0 := by decide
  have hunit : charOfUnit c.toNat = c := by
    rw [charOfUnit, if_neg (by omega), Char.ofNat_toNat]
  have hcode : parseCodeUnit
      ('0' :: '0' :: hexDigit (c.toNat / 16) :: hexDigit (c.toNat % 16) :: rest) =
        some (c.toNat, rest) := by
    simp [parseCodeUnit, hhigh, hlow, hzero]
    omega
  have hsurrogate : ¬(0xD800 ≤ c.toNat ∧ c.toNat ≤ 0xDBFF) := by omega
  simp [parseUnicode, hcode, hunit, hsurrogate]

theorem parseChar_escapeChar (c : Char) (rest : List Char) :
    parseChar (escapeChar c ++ rest) = some (some c, rest) := by
  unfold escapeChar
  by_cases hquote : c = '"'
  · simp [hquote, parseChar, simpleEscape]
  by_cases hslash : c = '\\'
  · simp [hslash, parseChar, simpleEscape]
  by_cases hcontrol : c.toNat < 0x20
  · simp [hquote, hslash, hcontrol, parseChar, parseUnicode_control hcontrol]
  · simp [hquote, hslash, hcontrol, parseChar]

theorem parseString_append (cs : List Char) (rest : List Char) (hfuel : cs.length < fuel) :
    parseString fuel (cs.flatMap escapeChar ++ ['"'] ++ rest) = some (cs, rest) := by
  induction cs generalizing fuel with
  | nil =>
    obtain ⟨fuel, rfl⟩ : ∃ f, fuel = f + 1 := ⟨fuel - 1, by omega⟩
    simp [parseString, parseChar]
  | cons c cs ih =>
    rw [length_cons] at hfuel
    obtain ⟨fuel, rfl⟩ : ∃ f, fuel = f + 1 := ⟨fuel - 1, by omega⟩
    have hrest : parseString fuel (cs.flatMap escapeChar ++ ['"'] ++ rest) =
      some (cs, rest) := ih (by omega)
    rw [flatMap_cons, append_assoc, append_assoc, parseString,
      parseChar_escapeChar, ← append_assoc]
    simp only [hrest, map_some]

theorem length_le_flatMap_escapeChar (cs : List Char) :
    cs.length ≤ (cs.flatMap escapeChar).length := by
  induction cs with
  | nil => simp
  | cons c cs ih =>
    have hchar : 1 ≤ (escapeChar c).length := by
      unfold escapeChar
      split_ifs <;> simp
    rw [flatMap_cons, length_append, length_cons]
    omega

/-- A printed string is read back, whatever follows it. -/
theorem parseString_printString (s : String) (rest : List Char) :
    parseString (printString s ++ rest).length (printString s ++ rest) =
      some (s.toList, rest) := by
  apply parseString_append
  have hlength := length_le_flatMap_escapeChar s.toList
  simp only [printString, length_append, length_singleton]
  omega

/-! ## Numbers -/

/-- What follows a number does not continue it. -/
def EndsNumber (rest : List Char) : Prop :=
  ∀ c ∈ rest.head?, c.isDigit = false ∧ c ≠ '.' ∧ c ≠ 'e' ∧ c ≠ 'E'

theorem EndsNumber.nil : EndsNumber [] := by
  intro c hc
  simp at hc

theorem EndsNumber.cons (rest : List Char)
    (h : c.isDigit = false ∧ c ≠ '.' ∧ c ≠ 'e' ∧ c ≠ 'E') : EndsNumber (c :: rest) := by
  intro d hd
  obtain rfl : c = d := by simpa using hd
  exact h

variable {rest : List Char}

theorem parseDigits_toDigits (n : Nat) (hrest : ∀ c ∈ rest.head?, c.isDigit = false) :
    parseDigits (Nat.toDigits 10 n ++ rest) = some (Nat.toDigits 10 n, rest) := by
  have hds : ∀ c ∈ Nat.toDigits 10 n, c.isDigit = true := fun c hc =>
    isDigit_of_mem_toDigits (by decide) (by decide) hc
  have htake : rest.takeWhile Char.isDigit = [] := by
    cases rest with
    | nil => rfl
    | cons c rest => simp [hrest c rfl]
  have hdrop : rest.dropWhile Char.isDigit = rest := by
    cases rest with
    | nil => rfl
    | cons c rest => simp [hrest c rfl]
  rw [parseDigits, takeWhile_append_of_pos hds, dropWhile_append_of_pos hds, htake,
    hdrop, append_nil, if_neg toDigits_ne_nil]

theorem parseExponent_print (exponent : Nat) (hrest : EndsNumber rest) :
    parseExponent ((if exponent = 0 then [] else 'e' :: '-' :: Nat.toDigits 10 exponent) ++
      rest) = some (-(exponent : Int), rest) := by
  by_cases he : exponent = 0
  · cases rest with
    | nil => simp [he, parseExponent]
    | cons c rest =>
      have hc := hrest c rfl
      simp [he, parseExponent, hc]
  · have hdigits := parseDigits_toDigits exponent fun c hc => (hrest c hc).1
    simp [he, parseExponent, hdigits]

theorem head?_toDigits {n : Nat} (h : 0 < n) : (Nat.toDigits 10 n).head? ≠ some '0' := by
  induction n using Nat.strongRecOn with
  | ind n ih =>
    by_cases hn : n < 10
    · have hdigit : ∀ k < 10, 0 < k → Nat.digitChar k ≠ '0' := by decide
      rw [toDigits_of_lt_base hn]
      simpa using hdigit n hn h
    · rw [toDigits_of_base_le (by decide) (by omega)]
      have hdiv := ih (n / 10) (by omega) (by omega)
      rw [List.head?_append_of_ne_nil _ toDigits_ne_nil]
      exact hdiv

theorem parseUnsigned_print (negative : Bool) (n exponent : Nat) (hrest : EndsNumber rest) :
    parseUnsigned negative (Nat.toDigits 10 n ++
      ((if exponent = 0 then [] else 'e' :: '-' :: Nat.toDigits 10 exponent) ++ rest)) =
      some (.num (if negative then -(n : Int) else n) exponent, rest) := by
  have hfollow : ∀ c ∈ ((if exponent = 0 then [] else
      'e' :: '-' :: Nat.toDigits 10 exponent) ++ rest).head?, c.isDigit = false ∧ c ≠ '.' := by
    intro c hc
    by_cases he : exponent = 0
    · have hends := hrest c (by simpa [he] using hc)
      exact ⟨hends.1, hends.2.1⟩
    · obtain rfl : 'e' = c := by simpa [he] using hc
      decide
  have hdigits := parseDigits_toDigits n fun c hc => (hfollow c hc).1
  have hzero : ¬((Nat.toDigits 10 n).head? = some '0' ∧ Nat.toDigits 10 n ≠ ['0']) := by
    rintro ⟨hhead, hne⟩
    rcases Nat.eq_zero_or_pos n with rfl | hpos
    · exact hne rfl
    · exact head?_toDigits hpos hhead
  generalize htail : (if exponent = 0 then [] else
    'e' :: '-' :: Nat.toDigits 10 exponent) ++ rest = tail at *
  have hfraction : parseFraction tail = some ([], tail) := by
    cases tail with
    | nil => rfl
    | cons c tail => simp [parseFraction, (hfollow c rfl).2]
  have hexponent : parseExponent tail = some (-(exponent : Int), rest) := by
    rw [← htail]
    exact parseExponent_print exponent hrest
  simp [parseUnsigned, hdigits, hzero, hfraction, hexponent, scaled]

theorem parseNumber_printNumber (mantissa : Int) (exponent : Nat) (hrest : EndsNumber rest) :
    parseNumber (printNumber mantissa exponent ++ rest) =
      some (.num mantissa exponent, rest) := by
  rw [printNumber, append_assoc, append_assoc]
  by_cases hneg : mantissa < 0
  · rw [if_pos hneg, singleton_append, parseNumber,
      parseUnsigned_print true mantissa.natAbs exponent hrest]
    have habs : -(mantissa.natAbs : Int) = mantissa := by omega
    simp only [if_true, habs]
  · rw [if_neg hneg, nil_append]
    have hplain := parseUnsigned_print false mantissa.natAbs exponent hrest
    have habs : (mantissa.natAbs : Int) = mantissa := by omega
    simp only [habs] at hplain
    cases hdigits : Nat.toDigits 10 mantissa.natAbs with
    | nil => exact absurd hdigits toDigits_ne_nil
    | cons d ds =>
      have hd : d ≠ '-' := by
        rintro rfl
        have hdigit : ('-').isDigit = true := isDigit_of_mem_toDigits (by decide)
          (by decide) (hdigits ▸ mem_cons_self)
        revert hdigit
        decide
      rw [hdigits] at hplain
      rw [cons_append] at hplain ⊢
      rw [parseNumber, if_neg hd]
      exact hplain

/-! ## Values -/

/-- A character that starts no value of another kind and is no white space. -/
def StartsNumber (c : Char) : Prop := c = '-' ∨ c.isDigit = true

theorem startsNumber_printNumber (mantissa : Int) (exponent : Nat) :
    ∃ c text, printNumber mantissa exponent = c :: text ∧ StartsNumber c := by
  by_cases hneg : mantissa < 0
  · exact ⟨'-', _, by simp [printNumber, hneg]; rfl, .inl rfl⟩
  · cases hdigits : Nat.toDigits 10 mantissa.natAbs with
    | nil => exact absurd hdigits toDigits_ne_nil
    | cons d ds =>
      refine ⟨d, _, by simp [printNumber, hneg, hdigits]; rfl, .inr ?_⟩
      exact isDigit_of_mem_toDigits (by decide) (by decide)
        (hdigits ▸ mem_cons_self)

theorem StartsNumber.ne {d : Char} (h : StartsNumber c) (hd : d.isDigit = false)
    (hminus : d ≠ '-') : c ≠ d := by
  rintro rfl
  rcases h with rfl | hdigit
  · exact hminus rfl
  · rw [hd] at hdigit
    exact Bool.false_ne_true hdigit

theorem StartsNumber.isJsonSpace_eq_false (h : StartsNumber c) : isJsonSpace c = false := by
  have hspace : c ≠ ' ' := h.ne (by decide) (by decide)
  have htab : c ≠ '\t' := h.ne (by decide) (by decide)
  have hline : c ≠ '\n' := h.ne (by decide) (by decide)
  have hreturn : c ≠ '\r' := h.ne (by decide) (by decide)
  simp [isJsonSpace, hspace, htab, hline, hreturn]

theorem skipSpace_cons (text : List Char) (h : isJsonSpace c = false) :
    skipSpace (c :: text) = c :: text := by
  simp [skipSpace, h]

open Json

/-- A printed value starts with a character that no bracket or space could be taken for. -/
theorem exists_print_eq_cons (value : Json) :
    ∃ c text, value.print = c :: text ∧ isJsonSpace c = false ∧ c ≠ ']' := by
  cases value with
  | null => exact ⟨'n', _, rfl, by decide, by decide⟩
  | bool b =>
    cases b with
    | false => exact ⟨'f', _, rfl, by decide, by decide⟩
    | true => exact ⟨'t', _, rfl, by decide, by decide⟩
  | num mantissa exponent =>
    obtain ⟨c, text, hprint, hstart⟩ := startsNumber_printNumber mantissa exponent
    exact ⟨c, text, by rw [print, hprint], hstart.isJsonSpace_eq_false,
      hstart.ne (by decide) (by decide)⟩
  | str s => exact ⟨'"', _, rfl, by decide, by decide⟩
  | arr items =>
    cases items with
    | nil | cons => exact ⟨'[', _, rfl, by decide, by decide⟩
  | obj members =>
    cases members with
    | nil | cons => exact ⟨'{', _, rfl, by decide, by decide⟩

/-- What the parsers read back with this much fuel. -/
structure ReadsBack (fuel : Nat) : Prop where
  value : ∀ value rest, value.print.length ≤ fuel → EndsNumber rest →
    parseValue fuel (value.print ++ rest) = some (value, rest)
  items : ∀ items rest, (printItems items).length ≤ fuel →
    parseItems fuel (printItems items ++ rest) = some (items, rest)
  member : ∀ key value rest,
    (printString key ++ ':' :: Json.print value).length < fuel → EndsNumber rest →
    parseMember fuel ('"' :: (printString key ++ ':' :: (value.print ++ rest))) =
      some ((key, value), rest)
  members : ∀ members rest, (printMembers members).length ≤ fuel →
    parseMembers fuel (printMembers members ++ rest) = some (members, rest)

theorem endsNumber_printItems (items : List Json) (rest : List Char) :
    EndsNumber (printItems items ++ rest) := by
  cases items with
  | nil | cons => exact .cons _ (by decide)

theorem endsNumber_printMembers (members : List (String × Json)) (rest : List Char) :
    EndsNumber (printMembers members ++ rest) := by
  cases members with
  | nil | cons => exact .cons _ (by decide)

theorem length_printMembers_pos (members : List (String × Json)) :
    0 < (printMembers members).length := by
  cases members with
  | nil | cons => simp [printMembers]

theorem parseValue_print (ih : ReadsBack fuel) (value : Json)
    (hfuel : value.print.length ≤ fuel + 1) (hrest : EndsNumber rest) :
    parseValue (fuel + 1) (value.print ++ rest) = some (value, rest) := by
  cases value with
  | null => rfl
  | bool b =>
    cases b with
    | false => rfl
    | true => rfl
  | num mantissa exponent =>
    obtain ⟨c, text, hprint, hstart⟩ := startsNumber_printNumber mantissa exponent
    have hnumber := parseNumber_printNumber mantissa exponent hrest
    rw [hprint, cons_append] at hnumber
    rw [print, hprint, cons_append, parseValue,
      skipSpace_cons _ hstart.isJsonSpace_eq_false]
    have hne : ∀ d, d.isDigit = false → d ≠ '-' → c ≠ d := fun d => hstart.ne
    simp [hne, hnumber]
  | str s =>
    have hstring := parseString_printString s rest
    rw [print, cons_append, parseValue, skipSpace_cons _ (by decide)]
    simp only [hstring, if_true, map_some, String.ofList_toList]
  | arr items =>
    cases items with
    | nil => rfl
    | cons item items =>
      obtain ⟨c, text, hprint, hspace, hbracket⟩ := exists_print_eq_cons item
      rw [print, length_cons, length_append] at hfuel
      have hitem := ih.value item (printItems items ++ rest) (by omega)
        (endsNumber_printItems items rest)
      have hitems := ih.items items rest (by omega)
      have hopen : skipSpace (item.print ++ (printItems items ++ rest)) =
          c :: (text ++ (printItems items ++ rest)) := by
        rw [hprint, cons_append, skipSpace_cons _ hspace]
      rw [print, cons_append, parseValue, skipSpace_cons _ (by decide)]
      simp [hopen, hbracket, hitem, hitems]
  | obj members =>
    cases members with
    | nil => rfl
    | cons member members =>
      obtain ⟨key, value⟩ := member
      simp only [print, length_cons, length_append] at hfuel
      have hmember := ih.member key value (printMembers members ++ rest)
        (by simp only [length_append, length_cons]; omega)
        (endsNumber_printMembers members rest)
      have hmembers := ih.members members rest (by omega)
      have hopen : ∀ text, skipSpace ('"' :: text) = '"' :: text := fun text =>
        skipSpace_cons text (by decide)
      simp only [print, cons_append]
      rw [parseValue, skipSpace_cons _ (by decide)]
      simp [hopen, hmember, hmembers]

theorem parseItems_print (ih : ReadsBack fuel) (items : List Json)
    (hfuel : (printItems items).length ≤ fuel + 1) :
    parseItems (fuel + 1) (printItems items ++ rest) = some (items, rest) := by
  cases items with
  | nil => rfl
  | cons item items =>
    rw [printItems, length_cons, length_append] at hfuel
    have hitem := ih.value item (printItems items ++ rest) (by omega)
      (endsNumber_printItems items rest)
    have hitems := ih.items items rest (by omega)
    rw [printItems, cons_append, parseItems, skipSpace_cons _ (by decide)]
    simp [hitem, hitems]

theorem parseMember_print (ih : ReadsBack fuel) (key : String) (value : Json)
    (hfuel : (printString key ++ ':' :: value.print).length < fuel + 1)
    (hrest : EndsNumber rest) :
    parseMember (fuel + 1) ('"' :: (printString key ++ ':' :: (value.print ++ rest))) =
      some ((key, value), rest) := by
  rw [length_append, length_cons] at hfuel
  have hkey := parseString_printString key (':' :: (value.print ++ rest))
  have hvalue := ih.value value rest (by omega) hrest
  have hcolon := skipSpace_cons (c := ':') (value.print ++ rest) (by decide)
  rw [parseMember, skipSpace_cons _ (by decide)]
  simp only [if_true, hkey, hcolon, List.head?_cons, tail_cons, hvalue, bind_eq_bind,
    Option.bind_some, Option.pure_def, String.ofList_toList]

theorem parseMembers_print (ih : ReadsBack fuel) (members : List (String × Json))
    (hfuel : (printMembers members).length ≤ fuel + 1) :
    parseMembers (fuel + 1) (printMembers members ++ rest) = some (members, rest) := by
  cases members with
  | nil => rfl
  | cons member members =>
    obtain ⟨key, value⟩ := member
    simp only [printMembers, length_cons, length_append] at hfuel
    have hmember := ih.member key value (printMembers members ++ rest)
      (by simp only [length_append, length_cons]; omega)
      (endsNumber_printMembers members rest)
    have hmembers := ih.members members rest (by omega)
    simp only [printMembers, cons_append]
    rw [parseMembers, skipSpace_cons _ (by decide)]
    simp [hmember, hmembers]

theorem readsBack (fuel : Nat) : ReadsBack fuel := by
  induction fuel with
  | zero =>
    refine ⟨?_, ?_, ?_, ?_⟩
    · intro value rest hfuel
      obtain ⟨c, text, hprint, -⟩ := exists_print_eq_cons value
      simp [hprint] at hfuel
    · intro items rest hfuel
      cases items <;> simp [printItems] at hfuel
    · intro key value rest hfuel
      exact absurd hfuel (not_lt_zero _)
    · intro members rest hfuel
      have hone := length_printMembers_pos members
      omega
  | succ fuel ih =>
    exact ⟨fun value rest => parseValue_print ih value,
      fun items rest => parseItems_print ih items,
      fun key value rest => parseMember_print ih key value,
      fun members rest => parseMembers_print ih members⟩

/-- Parsing inverts printing. -/
theorem Json.parse_stringify (value : Json) : Json.parse value.stringify = some value := by
  have hvalue := (readsBack value.print.length).value value [] le_rfl .nil
  rw [append_nil] at hvalue
  simp [parse, stringify, hvalue, skipSpace]

theorem Json.parse_empty : Json.parse "" = none := by decide

end Yanta.Go
