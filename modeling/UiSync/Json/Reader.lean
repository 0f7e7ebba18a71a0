import UiSync.Json.Number
import UiSync.Json.Strings

/-!
# Reading values

`readScalar` reads anything but an array or an object; of these it only sees the bracket, which
is left for the caller. Every typed reader is `readScalar` followed by a check of what was read
(`readAs`), so a value of the wrong type is always read to its end before it is refused.

`readValue room` reads any value in which at most `room` arrays and objects are nested. Values
that are not wanted are skipped by a machine with its own stack of brackets (`skipValue`), which
has no such limit.
-/

namespace UiSync.Json

/-! ## Scalars -/

/-- a value as far as its first token tells -/
inductive Scalar where
  | null
  | bool (b : Bool)
  | number (n : Number)
  | string (s : String)
  | array
  | object

def Scalar.found : Scalar → Found
  | null => .null
  | bool b => .bool b
  | number n => n.found
  | string s => .string s
  | array => .sequence
  | object => .map

/-- a value as far as its first token tells -/
def Value.scalar : Value → Scalar
  | .null => .null
  | .bool b => .bool b
  | .integer n => .number (.integer n)
  | .float x => .number (.float x)
  | .string s => .string s
  | .array _ => .array
  | .object _ => .object

/-- reads a scalar; at an opening bracket nothing is read -/
def readScalar (s : Bytes) : Except Fault (Scalar × Bytes) :=
  match skipBlanks s with
  | [] => .error (.next .endInValue [])
  | b :: rest =>
    if b = 0x6E then return (.null, ← readWord [0x75, 0x6C, 0x6C] rest)
    else if b = 0x74 then return (.bool true, ← readWord [0x72, 0x75, 0x65] rest)
    else if b = 0x66 then return (.bool false, ← readWord [0x61, 0x6C, 0x73, 0x65] rest)
    else if b = 0x2D then do
      let (n, rest) ← readNumber true rest
      return (.number n, rest)
    else if isDigitByte b then do
      let (n, rest) ← readNumber false (b :: rest)
      return (.number n, rest)
    else if b = 0x22 then do
      let (text, rest) ← readString rest
      return (.string text, rest)
    else if b = 0x5B then .ok (.array, b :: rest)
    else if b = 0x7B then .ok (.object, b :: rest)
    else .error (.next .expectedValue (b :: rest))

/-- reads a scalar and looks at it through `view` -/
def readAs (view : Scalar → Except Reason α) (s : Bytes) : Except Fault (α × Bytes) := do
  let (scalar, rest) ← readScalar s
  match view scalar with
  | .ok a => .ok (a, rest)
  | .error reason => .error (.here reason rest)

/-- refuses a scalar of the wrong type -/
def Scalar.refuse (expected : String) (x : Scalar) : Except Reason α :=
  .error (.invalidType x.found expected)

/-- a whole number between two bounds -/
def Scalar.intBetween (low high : Int) (expected : String) : Scalar → Except Reason Int
  | .number (.integer n) =>
    if low ≤ n.val ∧ n.val ≤ high then .ok n.val
    else .error (.invalidValue (.integer n.val) expected)
  | x => x.refuse expected

/-- a natural number below `2^bits` -/
def Scalar.natBelow (bits : Nat) (expected : String) (x : Scalar) : Except Reason Nat :=
  (x.intBetween 0 ((1 <<< bits : Nat) - 1) expected).map Int.toNat

def Scalar.asString (x : Scalar) : Except Reason String :=
  match x with
  | .string s => .ok s
  | x => x.refuse "a string"

def Scalar.asBool (x : Scalar) : Except Reason Bool :=
  match x with
  | .bool b => .ok b
  | x => x.refuse "a boolean"

/-- nothing for `null` -/
def Scalar.orNull (view : Scalar → Except Reason α) (x : Scalar) : Except Reason (Option α) :=
  match x with
  | .null => .ok none
  | x => (view x).map some

/-! ## Arrays and objects -/

/-- reads the elements of an array up to its closing bracket, which is left; `read` holds those
read so far, last first -/
def readElements (item : Bytes → Reading α) :
    Nat → Bool → List α → Bytes → Except Fault (List α × Bytes)
  | 0, _, _, s => .error (.next .endInList s)
  | fuel + 1, first, read, s => do
    let (more, s) ← nextElement first s
    if more then
      let (a, s) ← item s
      readElements item fuel false (a :: read) s
    else return (read.reverse, s)

/-- reads an array after its opening bracket -/
def readArray (item : Bytes → Reading α) (s : Bytes) : Reading (List α) :=
  closeArray (readElements item (s.length + 1) true [] s)

/-- reads the members of an object up to its closing bracket, which is left; `member` reads what
follows a key -/
def readMembers (member : σ → String → Bytes → Reading σ) :
    Nat → Bool → σ → Bytes → Except Fault (σ × Bytes)
  | 0, _, _, s => .error (.next .endInObject s)
  | fuel + 1, first, state, s => do
    let (more, s) ← nextMember first s
    if more then
      let (key, s) ← readString s
      let (state, s) ← member state key s
      readMembers member fuel false state s
    else return (state, s)

/-- reads an object after its opening bracket -/
def readObject (member : σ → String → Bytes → Reading σ) (start : σ) (s : Bytes) : Reading σ :=
  closeObject (readMembers member (s.length + 1) true start s)

/-- reads a list, given the reader of its elements -/
def readList (room : Nat) (item : Nat → Bytes → Reading α) (s : Bytes) :
    Except Fault (List α × Bytes) := do
  let (scalar, s) ← readScalar s
  match scalar, room with
  | .array, 0 => .error (.next .recursionLimit s)
  | .array, room + 1 => readArray (item room) s.tail
  | x, _ => .error (.here (.invalidType x.found "a sequence") s)

/-! ## Values -/

/-- reads a member of an object of values -/
def readEntry (value : Bytes → Reading Value) (members : List (String × Value))
    (key : String) (s : Bytes) : Except Fault (List (String × Value) × Bytes) := do
  let (v, s) ← value (← readColon s)
  return (Entries.insert key v members, s)

/-- reads a value in which at most `room` arrays and objects are nested -/
def readValue (room : Nat) (s : Bytes) : Except Fault (Value × Bytes) := do
  let (scalar, s) ← readScalar s
  match scalar with
  | .null => return (.null, s)
  | .bool b => return (.bool b, s)
  | .number n => return (n.value, s)
  | .string text => return (.string text, s)
  | .array =>
    match room with
    | 0 => .error (.next .recursionLimit s)
    | room + 1 =>
      let (items, s) ← readArray (readValue room) s.tail
      return (.array items, s)
  | .object =>
    match room with
    | 0 => .error (.next .recursionLimit s)
    | room + 1 =>
      let (members, s) ← readObject (readEntry (readValue room)) [] s.tail
      return (.object members, s)

/-- reads a member of a map of values -/
def readMapEntry (value : Bytes → Reading Value) (d : Dict String Value) (key : String)
    (s : Bytes) : Except Fault (Dict String Value × Bytes) := do
  let (v, s) ← value (← readColon s)
  return (d.insert key v, s)

/-- reads an object of values as a map -/
def readMap (room : Nat) (s : Bytes) : Except Fault (Dict String Value × Bytes) := do
  let (scalar, s) ← readScalar s
  match scalar, room with
  | .object, 0 => .error (.next .recursionLimit s)
  | .object, room + 1 => readObject (readMapEntry (readValue room)) ∅ s.tail
  | x, _ => .error (.here (.invalidType x.found "a map") s)

/-! ## Skipping -/

inductive Bracket where
  | array
  | object
  deriving DecidableEq

namespace Bracket

def closing : Bracket → UInt8
  | array => 0x5D
  | object => 0x7D

/-- the reason when the text ends inside -/
def atEnd : Bracket → Reason
  | array => .endInList
  | object => .endInObject

/-- the reason when something else than a comma or the closing bracket follows -/
def atOther : Bracket → Reason
  | array => .expectedListEnd
  | object => .expectedObjectEnd

end Bracket

/-- what a skipped value is waiting for -/
inductive Awaiting where
  | value
  | key
  /-- the first element or member, or the closing bracket -/
  | opened
  /-- a comma or the closing bracket -/
  | separator
  deriving DecidableEq

/-- what comes first inside a bracket and after a comma -/
def Bracket.awaits : Bracket → Awaiting
  | array => .value
  | object => .key

/-- skips one scalar or opens one bracket -/
def skipToken (s : Bytes) : Except Fault (Option Bracket × Bytes) :=
  match s with
  | [] => .error (.next .endInValue [])
  | b :: rest =>
    if b = 0x6E then return (none, ← readWord [0x75, 0x6C, 0x6C] rest)
    else if b = 0x74 then return (none, ← readWord [0x72, 0x75, 0x65] rest)
    else if b = 0x66 then return (none, ← readWord [0x61, 0x6C, 0x73, 0x65] rest)
    else if b = 0x2D then return (none, ← skipNumber rest)
    else if isDigitByte b then return (none, ← skipNumber (b :: rest))
    else if b = 0x22 then return (none, ← skipString .plain rest)
    else if b = 0x5B then .ok (some .array, rest)
    else if b = 0x7B then .ok (some .object, rest)
    else .error (.next .expectedValue (b :: rest))

/-- skips a key and its colon -/
def skipKey (s : Bytes) : Except Fault Bytes :=
  match s with
  | [] => .error (.next .endInObject [])
  | b :: rest =>
    if b = 0x22 then do readColon (← skipString .plain rest)
    else .error (.next .keyNotString (b :: rest))

/-- skips to the end of the outermost value; `stack` holds the open brackets, innermost first -/
def skipNested : Nat → Awaiting → List Bracket → Bytes → Except Fault Bytes
  | 0, _, _, s => .error (.next .endInValue s)
  | fuel + 1, .value, stack, s => do
    match ← skipToken (skipBlanks s) with
    | (some bracket, s) => skipNested fuel .opened (bracket :: stack) s
    | (none, s) => skipNested fuel .separator stack s
  | fuel + 1, .key, stack, s => do
    skipNested fuel .value stack (← skipKey (skipBlanks s))
  | _ + 1, .separator, [], s => .ok s
  | _ + 1, .opened, [], s => .ok s
  | fuel + 1, .opened, bracket :: stack, s =>
    match skipBlanks s with
    | [] => .error (.next bracket.atEnd [])
    | b :: rest =>
      if b = bracket.closing then skipNested fuel .separator stack rest
      else skipNested fuel bracket.awaits (bracket :: stack) (b :: rest)
  | fuel + 1, .separator, bracket :: stack, s =>
    match skipBlanks s with
    | [] => .error (.next bracket.atEnd [])
    | b :: rest =>
      if b = 0x2C then skipNested fuel bracket.awaits (bracket :: stack) rest
      else if b = bracket.closing then skipNested fuel .separator stack rest
      else .error (.next bracket.atOther (b :: rest))

/-- skips a value -/
def skipValue (s : Bytes) : Except Fault Bytes :=
  skipNested (2 * s.length + 2) .value [] s

/-! ## Whole texts -/

/-- reads a text that holds one value and nothing after it -/
def readWhole (read : Bytes → Reading α) (text : Bytes) : Except Fault α := do
  let (a, s) ← read text
  match skipBlanks s with
  | [] => .ok a
  | rest => .error (.next .trailingCharacters rest)

end UiSync.Json
