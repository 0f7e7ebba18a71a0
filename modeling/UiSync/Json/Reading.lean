import UiSync.Json.Reason
import UiSync.Json.Writer

/-!
# Reading from bytes

A reader takes the bytes still to be read and answers with what it read and the bytes left, or
with a fault. A fault keeps the bytes left where reading stopped, so that its place in the whole
text, a line and a column, can be told at the end (`Fault.place`).

A fault about a whole object or array is `unplaced` at first: its place is only known once the
enclosing bracket has been looked for (`closeArray`, `closeObject`).
-/

namespace UiSync.Json

/-- where a fault stands, relative to the bytes left -/
inductive Spot where
  /-- after the last byte read -/
  | here
  /-- after the byte that was looked at but not read -/
  | next
  /-- not placed yet -/
  | unplaced
  deriving DecidableEq

structure Fault where
  reason : Reason
  /-- the bytes left -/
  rest : Bytes
  spot : Spot
  /-- columns to go back from there -/
  back : Nat

abbrev Reading (α : Type) := Except Fault (α × Bytes)

namespace Fault

def here (reason : Reason) (rest : Bytes) : Fault := ⟨reason, rest, .here, 0⟩
def next (reason : Reason) (rest : Bytes) : Fault := ⟨reason, rest, .next, 0⟩
def unplaced (reason : Reason) (rest : Bytes) : Fault := ⟨reason, rest, .unplaced, 0⟩

/-- the line and the column of a fault in the text that was read -/
def place (f : Fault) (text : Bytes) : Nat × Nat :=
  let read := text.length - f.rest.length
  let stop := match f.spot with
    | .next => min text.length (read + 1)
    | _ => read
  let before := text.take stop
  let column := (before.reverse.takeWhile (· != 0x0A)).length
  (1 + before.count 0x0A, column - f.back)

end Fault

/-! ## Bytes -/

def isBlankByte (b : UInt8) : Bool := b == 0x20 || b == 0x09 || b == 0x0A || b == 0x0D

def isDigitByte (b : UInt8) : Bool := 0x30 ≤ b && b ≤ 0x39

/-- the bytes left after blanks -/
def skipBlanks (s : Bytes) : Bytes := s.dropWhile isBlankByte

/-- reads the given bytes, the rest of a word whose first letter was read -/
def readWord : Bytes → Bytes → Except Fault Bytes
  | [], s => .ok s
  | _ :: _, [] => .error (.here .endInValue [])
  | w :: word, b :: s => if b = w then readWord word s else .error (.here .expectedIdent s)

/-! ## Closing brackets -/

/-- places an unplaced fault after an attempt to close the array it is in -/
def Fault.placeInArray (f : Fault) : Fault :=
  match f.spot with
  | .unplaced =>
    match skipBlanks f.rest with
    | 0x5D :: rest => .here f.reason rest
    | 0x2C :: rest => .here f.reason (skipBlanks rest)
    | rest => .here f.reason rest
  | _ => f

/-- places an unplaced fault after an attempt to close the object it is in -/
def Fault.placeInObject (f : Fault) : Fault :=
  match f.spot with
  | .unplaced =>
    match skipBlanks f.rest with
    | 0x7D :: rest => .here f.reason rest
    | rest => .here f.reason rest
  | _ => f

/-- closes an array after its last expected element -/
def closeArray (inside : Reading α) : Reading α :=
  match inside with
  | .error f => .error f.placeInArray
  | .ok (a, s) =>
    match skipBlanks s with
    | [] => .error (.next .endInList [])
    | 0x5D :: rest => .ok (a, rest)
    | 0x2C :: rest =>
      match skipBlanks rest with
      | 0x5D :: after => .error (.next .trailingComma (0x5D :: after))
      | after => .error (.next .trailingCharacters after)
    | rest => .error (.next .trailingCharacters rest)

/-- closes an object after its last member -/
def closeObject (inside : Reading α) : Reading α :=
  match inside with
  | .error f => .error f.placeInObject
  | .ok (a, s) =>
    match skipBlanks s with
    | [] => .error (.next .endInObject [])
    | 0x7D :: rest => .ok (a, rest)
    | 0x2C :: rest => .error (.next .trailingComma (0x2C :: rest))
    | rest => .error (.next .trailingCharacters rest)

/-! ## Elements and members -/

/-- whether an array goes on after its bracket, or after an element when `first` is false; the
bytes left start with the element, or with the closing bracket -/
def nextElement (first : Bool) (s : Bytes) : Reading Bool :=
  match skipBlanks s with
  | [] => .error (.next .endInList [])
  | 0x5D :: rest => .ok (false, 0x5D :: rest)
  | b :: rest =>
    if first then .ok (true, b :: rest)
    else if b = 0x2C then
      match skipBlanks rest with
      | [] => .error (.next .endInValue [])
      | 0x5D :: after => .error (.next .trailingComma (0x5D :: after))
      | after => .ok (true, after)
    else .error (.next .expectedListEnd (b :: rest))

/-- whether an object goes on after its bracket, or after a member when `first` is false; the
bytes left start after the quote of the key, or with the closing bracket -/
def nextMember (first : Bool) (s : Bytes) : Reading Bool :=
  match skipBlanks s with
  | [] => .error (.next .endInObject [])
  | 0x7D :: rest => .ok (false, 0x7D :: rest)
  | b :: rest =>
    if first then
      if b = 0x22 then .ok (true, rest) else .error (.next .keyNotString (b :: rest))
    else if b = 0x2C then
      match skipBlanks rest with
      | [] => .error (.next .endInValue [])
      | 0x22 :: after => .ok (true, after)
      | 0x7D :: after => .error (.next .trailingComma (0x7D :: after))
      | after => .error (.next .keyNotString after)
    else .error (.next .expectedObjectEnd (b :: rest))

/-- reads the colon between a key and its value -/
def readColon (s : Bytes) : Except Fault Bytes :=
  match skipBlanks s with
  | [] => .error (.next .endInObject [])
  | 0x3A :: rest => .ok rest
  | rest => .error (.next .expectedColon rest)

end UiSync.Json
