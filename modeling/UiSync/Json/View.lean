import UiSync.Json.Reader

/-!
# Values seen as types

A view reads a value that is already there as some type, or says why it cannot. The reasons are
those of reading a text, without a place. Unlike a text, a value knows the length of an array
from the start: elements left over are counted.
-/

namespace UiSync.Json

abbrev View (α : Type) := Value → Except Reason α

namespace View

variable {α : Type}

def bool : View Bool := fun v => v.scalar.asBool

def string : View String := fun v => v.scalar.asString

/-- an unsigned word -/
def nat (bits : Nat) (expected : String) : View Nat := fun v => v.scalar.natBelow bits expected

/-- a signed word -/
def int (bits : Nat) (expected : String) : View Int := fun v =>
  v.scalar.intBetween (-(1 <<< (bits - 1) : Nat)) ((1 <<< (bits - 1) : Nat) - 1) expected

/-- a double; integers are rounded to one -/
def double : View Double
  | .float x => .ok x
  | .integer n =>
    match Double.ofInt? n.val with
    | some x => .ok x
    | none => .ok Double.zero
  | v => v.scalar.refuse "f64"

def char : View Char
  | .string s =>
    match s.toList with
    | [c] => .ok c
    | _ => .error (.invalidValue (.string s) "a character")
  | v => v.scalar.refuse "a character"

def unit : View Unit
  | .null => .ok ()
  | v => v.scalar.refuse "unit"

/-- nothing for `null` -/
def optional (view : View α) : View (Option α)
  | .null => .ok none
  | v => (view v).map some

def list (view : View α) : View (List α)
  | .array items => items.mapM view
  | v => v.scalar.refuse "a sequence"

/-- elements left over after all that were expected -/
def leftOver (length : Nat) : Reason := .invalidLength length "fewer elements in array"

def pair (fst : View α) (snd : View β) : View (α × β)
  | .array [] => .error (.invalidLength 0 "a tuple of size 2")
  | .array [x] => do
    let _ ← fst x
    .error (.invalidLength 1 "a tuple of size 2")
  | .array (x :: y :: more) => do
    let a ← fst x
    let b ← snd y
    if more.isEmpty then return (a, b) else .error (leftOver (2 + more.length))
  | v => v.scalar.refuse "a tuple of size 2"

def map (view : View α) : View (List (String × α))
  | .object members => members.mapM fun (k, v) => do return (k, ← view v)
  | v => v.scalar.refuse "a map"

/-- one of several names, alone or as the only key of an object with `null` under it -/
def variant (variants : List (String × α)) (expected : String) : View α := fun v =>
  let named (name : String) : Except Reason α :=
    match variants.lookup name with
    | some a => .ok a
    | none => .error (.unknownVariant name expected)
  match v with
  | .string name => named name
  | .object [(name, content)] => do
    let a ← named name
    let _ ← unit content
    return a
  | .object _ => .error (.invalidValue .map "map with a single key")
  | v => v.scalar.refuse "string or map"

/-- a field of a record seen through a view: its name and what its value does to the draft -/
abbrev Field (δ : Type) := String × (δ → Value → Except Reason δ)

/-- takes the items of an array for the fields in order; answers with the fields that were met -/
def takeItems : List (Field δ) → List Value → Nat → δ → Except Reason (δ × Nat)
  | _, [], n, d => .ok (d, n)
  | [], more, n, _ => .error (leftOver (n + more.length))
  | (_, put) :: fields, v :: vs, n, d => do takeItems fields vs (n + 1) (← put d v)

/-- takes the members of an object, ignoring those that are no field -/
def takeMembers (fields : List (Field δ)) (d : δ) : List (String × Value) → Except Reason δ
  | [] => .ok d
  | (key, v) :: members =>
    match fields.lookup key with
    | some put => do takeMembers fields (← put d v) members
    | none => takeMembers fields d members

end View

end UiSync.Json
