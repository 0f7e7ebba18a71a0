import UiSync.Json.Reader

/-!
# Reading records

A record is written as an object with its fields in any order, other members being skipped, or as
an array of all its fields in order. While it is read its fields are gathered in a draft, a type
of the record's own; `RecordShape.finish` turns the draft into the record or names the first field
that is missing.

A field met twice, a field missing and an array that is too short are faults of the whole
record: they are placed after an attempt to close it.
-/

namespace UiSync.Json

/-- one field of a record with drafts of type `δ` -/
structure FieldReader (δ : Type) where
  name : String
  /-- the draft has this field -/
  isSet : δ → Bool
  /-- reads the field into a draft -/
  read : Nat → δ → Bytes → Reading δ
  /-- what stands for the field when the array form ends before it, if it may -/
  default? : Option (δ → δ)

/-- a field that must be there in the array form -/
def FieldReader.required (name : String) (isSet : δ → Bool) (read : Nat → Bytes → Reading α)
    (set : δ → α → δ) : FieldReader δ where
  name := name
  isSet := isSet
  read room d s := (read room s).map fun (a, s) => (set d a, s)
  default? := none

/-- how a record is read -/
structure RecordShape (δ α : Type) where
  /-- its name in reports -/
  title : String
  fields : List (FieldReader δ)
  /-- the draft without any field -/
  blank : δ
  /-- the record, or the name of the first missing field -/
  finish : δ → Except String α

namespace RecordShape

/-- the array form in reports -/
def arrayTitle (shape : RecordShape δ α) : String :=
  shape.title ++ " with " ++ toString shape.fields.length ++
    (if shape.fields.length = 1 then " element" else " elements")

def field? (shape : RecordShape δ α) (name : String) : Option (FieldReader δ) :=
  shape.fields.find? (·.name == name)

/-- reads fields in order, the first of them number `i` of its record -/
def readInOrder (title : String) (room : Nat) :
    List (FieldReader δ) → Nat → Bool → δ → Bytes → Except Fault (δ × Bytes)
  | [], _, _, d, s => .ok (d, s)
  | f :: fs, i, first, d, s => do
    let (more, s) ← nextElement first s
    if more then
      let (d, s) ← f.read room d s
      readInOrder title room fs (i + 1) false d s
    else
      match f.default? with
      | some set => readInOrder title room fs (i + 1) first (set d) s
      | none => .error (.unplaced (.invalidLength i title) s)

/-- reads what follows a key of the object form -/
def readMember (shape : RecordShape δ α) (room : Nat) (d : δ) (key : String) (s : Bytes) :
    Except Fault (δ × Bytes) :=
  match shape.field? key with
  | none => do return (d, ← skipValue (← readColon s))
  | some f =>
    if f.isSet d then .error (.unplaced (.duplicateField key) s)
    else do f.read room d (← readColon s)

/-- the record of a draft -/
def conclude (shape : RecordShape δ α) (draft : δ × Bytes) : Except Fault (α × Bytes) :=
  match shape.finish draft.1 with
  | .ok a => .ok (a, draft.2)
  | .error name => .error (.unplaced (.missingField name) draft.2)

/-- reads a record in either form -/
def read (shape : RecordShape δ α) (room : Nat) (s : Bytes) : Except Fault (α × Bytes) := do
  let (scalar, s) ← readScalar s
  match scalar, room with
  | .array, 0 => .error (.next .recursionLimit s)
  | .object, 0 => .error (.next .recursionLimit s)
  | .array, room + 1 =>
    closeArray ((readInOrder shape.arrayTitle room shape.fields 0 true shape.blank s.tail).bind
      shape.conclude)
  | .object, room + 1 =>
    closeObject ((readMembers (shape.readMember room) s.length true shape.blank s.tail).bind
      shape.conclude)
  | x, _ => .error (.here (.invalidType x.found shape.title) s)

end RecordShape

end UiSync.Json
