import Yanta.Go.Bytes
import Yanta.Go.Strings

/-!
# Standard base64

`base64.StdEncoding` of Go: the padded encoding, its length, and the decoder, which skips
line breaks, wants the padding and ignores the bits that padding leaves over.
-/

namespace Yanta.Go.Base64

open List String

/-- The letter of six bits. -/
def letter (n : Nat) : Char :=
  if n < 26 then Char.ofNat (65 + n)
  else if n < 52 then Char.ofNat (71 + n)
  else if n < 62 then Char.ofNat (n - 4)
  else if n = 62 then '+'
  else '/'

/-- The six bits of a letter. -/
def sextet (c : Char) : Option Nat :=
  if 65 ≤ c.toNat ∧ c.toNat ≤ 90 then some (c.toNat - 65)
  else if 97 ≤ c.toNat ∧ c.toNat ≤ 122 then some (c.toNat - 71)
  else if 48 ≤ c.toNat ∧ c.toNat ≤ 57 then some (c.toNat + 4)
  else if c = '+' then some 62
  else if c = '/' then some 63
  else none

def encode : Bytes → List Char
  | [] => []
  | [a] => [letter (a.toNat / 4), letter (a.toNat % 4 * 16), '=', '=']
  | [a, b] =>
    [letter (a.toNat / 4), letter (a.toNat % 4 * 16 + b.toNat / 16),
      letter (b.toNat % 16 * 4), '=']
  | a :: b :: c :: rest =>
    letter (a.toNat / 4) :: letter (a.toNat % 4 * 16 + b.toNat / 16) ::
      letter (b.toNat % 16 * 4 + c.toNat / 64) :: letter (c.toNat % 64) :: encode rest

/-- The byte of eight bits. -/
def byte (n : Nat) : UInt8 := UInt8.ofNat n

/-- Four letters at a time; only the last four may end in padding. -/
def decode : List Char → Option Bytes
  | [] => some []
  | a :: b :: c :: d :: rest => do
      let a ← sextet a
      let b ← sextet b
      let first := byte (a * 4 + b / 16)
      if c = '=' then
        if d = '=' ∧ rest = [] then some [first] else none
      else do
        let c ← sextet c
        let second := byte (b % 16 * 16 + c / 4)
        if d = '=' then
          if rest = [] then some [first, second] else none
        else do
          let d ← sextet d
          let rest ← decode rest
          return first :: second :: byte (c % 4 * 64 + d) :: rest
  | _ => none

/-- `EncodedLen`. -/
def encodedLen (n : Nat) : Nat := (n + 2) / 3 * 4

/-- `EncodeToString`. -/
def encodeToString (bytes : Bytes) : String := String.ofList (encode bytes)

/-- `DecodeString`. -/
def decodeString (s : String) : Option Bytes :=
  decode (s.toList.filter fun c => c != '\n' && c != '\r')

/-! ## Letters -/

theorem sextet_letter {n : Nat} (h : n < 64) : sextet (letter n) = some n := by
  revert n
  decide

/-- A letter is one byte, and neither padding nor a line break. -/
theorem letter_spec {n : Nat} (h : n < 64) :
    (letter n).utf8Size = 1 ∧ letter n ≠ '=' ∧ letter n ≠ '\n' ∧ letter n ≠ '\r' := by
  revert n
  decide

theorem letter_ne_padding {n : Nat} (h : n < 64) : letter n ≠ '=' := (letter_spec h).2.1

/-- What the encoder writes. -/
def Written (c : Char) : Prop := c.utf8Size = 1 ∧ c ≠ '\n' ∧ c ≠ '\r'

theorem written_letter {n : Nat} (h : n < 64) : Written (letter n) :=
  ⟨(letter_spec h).1, (letter_spec h).2.2⟩

theorem written_padding : Written '=' := by
  refine ⟨?_, ?_, ?_⟩ <;> decide

theorem written_of_mem_encode {bytes : Bytes} {c : Char} (h : c ∈ encode bytes) :
    Written c := by
  fun_induction encode bytes with
  | case1 => simp at h
  | case2 a =>
    have ha := a.toNat_lt
    simp only [mem_cons, not_mem_nil, or_false] at h
    rcases h with rfl | rfl | rfl | rfl
    · exact written_letter (by omega)
    · exact written_letter (by omega)
    · exact written_padding
    · exact written_padding
  | case3 a b =>
    have ha := a.toNat_lt
    have hb := b.toNat_lt
    simp only [mem_cons, not_mem_nil, or_false] at h
    rcases h with rfl | rfl | rfl | rfl
    · exact written_letter (by omega)
    · exact written_letter (by omega)
    · exact written_letter (by omega)
    · exact written_padding
  | case4 a b d rest ih =>
    have ha := a.toNat_lt
    have hb := b.toNat_lt
    have hd := d.toNat_lt
    simp only [mem_cons] at h
    rcases h with rfl | rfl | rfl | rfl | hrest
    · exact written_letter (by omega)
    · exact written_letter (by omega)
    · exact written_letter (by omega)
    · exact written_letter (by omega)
    · exact ih hrest

/-! ## Round trip -/

theorem byte_eq {b : UInt8} {n : Nat} (h : n = b.toNat) : byte n = b := by
  rw [h, byte, UInt8.ofNat_toNat]

section

variable {w x y z : Nat}

theorem decode_one (hw : w < 64) (hx : x < 64) :
    decode [letter w, letter x, '=', '='] = some [byte (w * 4 + x / 16)] := by
  simp [decode, sextet_letter hw, sextet_letter hx]

theorem decode_two (hw : w < 64) (hx : x < 64) (hy : y < 64) :
    decode [letter w, letter x, letter y, '='] =
      some [byte (w * 4 + x / 16), byte (x % 16 * 16 + y / 4)] := by
  simp [decode, sextet_letter hw, sextet_letter hx, sextet_letter hy, letter_ne_padding hy]

theorem decode_three (hw : w < 64) (hx : x < 64) (hy : y < 64) (hz : z < 64)
    {rest : List Char} {bytes : Bytes} (hrest : decode rest = some bytes) :
    decode (letter w :: letter x :: letter y :: letter z :: rest) =
      some (byte (w * 4 + x / 16) :: byte (x % 16 * 16 + y / 4) ::
        byte (y % 4 * 64 + z) :: bytes) := by
  simp [decode, sextet_letter hw, sextet_letter hx, sextet_letter hy, sextet_letter hz,
    letter_ne_padding hy, letter_ne_padding hz, hrest]

end

theorem decode_encode (bytes : Bytes) : decode (encode bytes) = some bytes := by
  fun_induction encode bytes with
  | case1 => rfl
  | case2 a =>
    have ha := a.toNat_lt
    rw [decode_one (by omega) (by omega), byte_eq (b := a) (by omega)]
  | case3 a b =>
    have ha := a.toNat_lt
    have hb := b.toNat_lt
    rw [decode_two (by omega) (by omega) (by omega), byte_eq (b := a) (by omega),
      byte_eq (b := b) (by omega)]
  | case4 a b c rest ih =>
    have ha := a.toNat_lt
    have hb := b.toNat_lt
    have hc := c.toNat_lt
    rw [decode_three (by omega) (by omega) (by omega) (by omega) ih,
      byte_eq (b := a) (by omega), byte_eq (b := b) (by omega),
      byte_eq (b := c) (by omega)]

theorem decodeString_encodeToString (bytes : Bytes) :
    decodeString (encodeToString bytes) = some bytes := by
  have hkeep : (encode bytes).filter (fun c => c != '\n' && c != '\r') = encode bytes := by
    rw [filter_eq_self]
    intro c hc
    have hwritten := written_of_mem_encode hc
    simp [hwritten.2]
  rw [decodeString, encodeToString, toList_ofList, hkeep, decode_encode]

/-! ## Lengths -/

theorem length_encode (bytes : Bytes) : (encode bytes).length = encodedLen bytes.length := by
  fun_induction encode bytes with
  | case1 => rfl
  | case2 | case3 => simp [encodedLen]
  | case4 a b c rest ih =>
    simp only [length_cons, ih, encodedLen]
    omega

theorem utf8Len_eq_length {cs : List Char} (h : ∀ c ∈ cs, Written c) :
    String.utf8Len cs = cs.length := by
  induction cs with
  | nil => rfl
  | cons c cs ih =>
    have hc := (h c mem_cons_self).1
    have hcs := ih (forall_mem_cons.mp h).2
    rw [utf8Len_cons, hc, hcs, length_cons]

theorem len_encodeToString (bytes : Bytes) :
    len (encodeToString bytes) = encodedLen bytes.length := by
  rw [len, encodeToString, utf8ByteSize_ofList,
    utf8Len_eq_length fun c hc => written_of_mem_encode hc, length_encode]

theorem encodedLen_mono {m n : Nat} (h : m ≤ n) : encodedLen m ≤ encodedLen n := by
  unfold encodedLen
  omega

end Yanta.Go.Base64
