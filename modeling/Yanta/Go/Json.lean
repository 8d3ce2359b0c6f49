import Yanta.Go.Strings

/-!
# JSON values and the decoding rules of `encoding/json`

`json.RawMessage` is modelled by the JSON value it spells, so white space and
key escapes inside a raw message are not part of the model. Numbers keep their
decimal mantissa and exponent. The helpers at the end are the rules by which
`json.Unmarshal` assigns one object member to a struct field.
-/

namespace Yanta.Go

inductive Json where
  | null
  | bool (b : Bool)
  | num (mantissa : Int) (exponent : Nat)
  | str (s : String)
  | arr (items : List Json)
  | obj (members : List (String × Json))
deriving Repr

/-- An object, as decoded into `map[string]any`; a nil map is the empty one. -/
abbrev Object := List (String × Json)

/-- Map lookup. A repeated key keeps its last value, as the decoder does. -/
def Object.get? (o : Object) (key : String) : Option Json :=
  (o.reverse.find? fun member => member.1 == key).map Prod.snd

/-- The type assertion `props[key].(string)`. -/
def Object.string? (o : Object) (key : String) : Option String :=
  match o.get? key with
  | some (.str s) => some s
  | _ => none

/-- Simple case folding on the characters that occur in struct field names. -/
def foldChar (c : Char) : Char :=
  if c.toNat = 0x212A then 'k'
  else if c.toNat = 0x17F then 's'
  else if 65 ≤ c.toNat ∧ c.toNat ≤ 90 then Char.ofNat (c.toNat + 32)
  else c

/-- The decoder matches object keys to field names ignoring case. -/
def keyMatches (key field : String) : Bool :=
  key.toList.map foldChar == field.toList

/-- Assign a member to a `string` field: `null` leaves it, other types fail. -/
def decodeString (old : String) : Json → Option String
  | .null => some old
  | .str s => some s
  | _ => none

/-- Assign a member to a `bool` field. -/
def decodeBool (old : Bool) : Json → Option Bool
  | .null => some old
  | .bool b => some b
  | _ => none

end Yanta.Go
