import UiSync.Json.Decimal
import UiSync.Json.Value

/-!
# Writing JSON

Texts are written as bytes, without any space between their parts. In a string only the quote,
the backslash and the control characters below U+0020 are escaped, so escaping works on the
bytes of the string alone.
-/

namespace UiSync.Json

abbrev Bytes := List UInt8

namespace Bytes

/-- the UTF-8 bytes of a text -/
def ofString (s : String) : Bytes := s.toUTF8.data.toList

/-- the text of UTF-8 bytes -/
def toString? (bs : Bytes) : Option String := String.fromUTF8? ⟨bs.toArray⟩

/-- the bytes of characters below U+0080 -/
def ofAscii (cs : List Char) : Bytes := cs.map fun c => UInt8.ofNat c.toNat

end Bytes

namespace Write

/-- the lower-case hexadecimal digit for a number below 16 -/
def hexDigit (n : UInt8) : UInt8 := if n < 10 then 0x30 + n else 0x57 + n

/-- one byte of a string -/
def escaped (b : UInt8) : Bytes :=
  if b = 0x22 then [0x5C, 0x22]
  else if b = 0x5C then [0x5C, 0x5C]
  else if b = 0x08 then [0x5C, 0x62]
  else if b = 0x09 then [0x5C, 0x74]
  else if b = 0x0A then [0x5C, 0x6E]
  else if b = 0x0C then [0x5C, 0x66]
  else if b = 0x0D then [0x5C, 0x72]
  else if b < 0x20 then [0x5C, 0x75, 0x30, 0x30, hexDigit (b / 16), hexDigit (b % 16)]
  else [b]

/-- a string in quotes -/
def string (s : String) : Bytes :=
  0x22 :: ((Bytes.ofString s).flatMap escaped ++ [0x22])

def null : Bytes := [0x6E, 0x75, 0x6C, 0x6C]

def bool : Bool → Bytes
  | true => [0x74, 0x72, 0x75, 0x65]
  | false => [0x66, 0x61, 0x6C, 0x73, 0x65]

/-- the decimal digits of a natural number -/
def nat (n : Nat) : Bytes := Bytes.ofAscii (Nat.toDigits 10 n)

def int (n : Int) : Bytes := if n < 0 then 0x2D :: nat n.natAbs else nat n.natAbs

/-- parts between brackets, separated by commas -/
def enclosed (opening closing : UInt8) (parts : List Bytes) : Bytes :=
  opening :: ([0x2C].intercalate parts ++ [closing])

def array (items : List Bytes) : Bytes := enclosed 0x5B 0x5D items

/-- one member of an object -/
def member (key : String) (value : Bytes) : Bytes := string key ++ 0x3A :: value

def object (members : List (String × Bytes)) : Bytes :=
  enclosed 0x7B 0x7D (members.map fun m => member m.1 m.2)

/-- a number or `null` -/
def optional (write : α → Bytes) : Option α → Bytes
  | none => null
  | some a => write a

end Write

mutual

/-- the text of a value -/
def Value.bytes : Value → Bytes
  | .null => Write.null
  | .bool b => Write.bool b
  | .integer n => Write.int n.val
  | .float x => Bytes.ofAscii x.text.toList
  | .string s => Write.string s
  | .array items => Write.array (Value.itemBytes items)
  | .object members => Write.object (Value.memberBytes members)

/-- the texts of the items of an array -/
def Value.itemBytes : List Value → List Bytes
  | [] => []
  | v :: vs => v.bytes :: itemBytes vs

/-- the keys of an object with the texts of their values -/
def Value.memberBytes : List (String × Value) → List (String × Bytes)
  | [] => []
  | (k, v) :: ms => (k, v.bytes) :: memberBytes ms

end

end UiSync.Json
