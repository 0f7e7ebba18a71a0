import UiSync.Message.Basic
import UiSync.Shape

/-!
# Field bags

The fields of one component, next to what of them was last sent. A write only notes that its
field was touched; whether anything has to be sent is asked later, by comparing touched fields
with their last sent values (`FieldBag.pendingDiff`). A bag that was never sent, or has to be sent
anew, goes out whole, even when it is empty.
-/

namespace UiSync

open Json

/-- the values of fields by name -/
abbrev Fields := Dict String Value

/-- a write to one field -/
inductive Edit where
  | set (name : String) (value : Value)
  | remove (name : String)

structure FieldBag where
  fields : Fields
  /-- the fields as they were last sent -/
  sent : Fields
  /-- the names written to since then -/
  touched : Dict String Unit
  /-- the number of differences sent so far -/
  version : Nat
  everSent : Bool

/-- a field could not be read or written as some type -/
inductive FieldError where
  | unwritable (field : String) (reason : Reason)
  | wrongType (field : String) (expected : String) (reason : Reason)

def FieldError.message : FieldError → String
  | unwritable field reason =>
    "Field '" ++ field ++ "' could not be serialized: " ++ reason.message
  | wrongType field expected reason =>
    "Field '" ++ field ++ "' does not hold a " ++ expected ++ ": " ++ reason.message

namespace FieldBag

/-- fields with initial values, none of them touched -/
def ofFields (fields : Fields) : FieldBag := ⟨fields, ∅, ∅, 0, false⟩

def empty : FieldBag := ofFields ∅

instance : Inhabited FieldBag := ⟨empty⟩

/-! ## Reading -/

def get? (b : FieldBag) (name : String) : Option Value := b.fields.get? name

/-- false for a field that is missing or no boolean -/
def getBool (b : FieldBag) (name : String) : Bool := ((b.get? name).bind Value.bool?).getD false

def getString? (b : FieldBag) (name : String) : Option String :=
  (b.get? name).bind Value.string?

/-- a field as the given shape, nothing when it is missing -/
def getAs (b : FieldBag) (name : String) (shape : Shape) : Except FieldError (Option Value) :=
  match b.get? name with
  | none => .ok none
  | some v =>
    match shape.check v with
    | .ok seen => .ok (some seen)
    | .error reason => .error (.wrongType name shape.typeName reason)

/-! ## Writing -/

def set (b : FieldBag) (name : String) (value : Value) : FieldBag :=
  { b with fields := b.fields.insert name value, touched := b.touched.insert name () }

/-- removes a field; one that is missing is not touched -/
def remove (b : FieldBag) (name : String) : FieldBag :=
  if b.fields.contains name then
    { b with fields := b.fields.erase name, touched := b.touched.insert name () }
  else b

/-- carries out one edit -/
def edit (b : FieldBag) : Edit → FieldBag
  | .set name value => b.set name value
  | .remove name => b.remove name

/-- sets a field to what writing a value of some type gave -/
def trySet (b : FieldBag) (name : String) (written : Except Reason Value) :
    Except FieldError FieldBag :=
  match written with
  | .ok value => .ok (b.set name value)
  | .error reason => .error (.unwritable name reason)

/-! ## Sending -/

/-- two fields, or missing fields, are the same -/
def sameField : Option Value → Option Value → Bool
  | none, none => true
  | some v, some w => v.same w
  | _, _ => false

/-- the touched fields that differ from what was last sent, `null` for a missing one -/
def changed (b : FieldBag) : Diff :=
  b.touched.filterMap fun name _ =>
    if sameField (b.fields.get? name) (b.sent.get? name) then none
    else some ((b.fields.get? name).getD .null)

/-- what sending now would carry, if anything -/
def pendingDiff (b : FieldBag) : Option Diff :=
  if b.everSent then
    if b.changed.isEmpty then none else some b.changed
  else some b.fields

/-- notes that the fields were sent as they are -/
def commit (b : FieldBag) : FieldBag where
  fields := b.fields
  sent := b.fields
  touched := ∅
  version := if b.pendingDiff.isSome then b.version + 1 else b.version
  everSent := true

/-- forgets what was sent, so that the next send carries every field -/
def forgetSent (b : FieldBag) : FieldBag := { b with sent := ∅, everSent := false }

end FieldBag

end UiSync
