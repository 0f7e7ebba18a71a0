import UiSync.Json.Reason
import UiSync.Json.Writer

/-!
# Values written from other types

What becomes of numbers that 64 bits do not hold, doubles that are not finite, bytes, and maps
whose keys are no strings, when they are written as values.
-/

namespace UiSync.Json.Written

/-- a number of any size; only those that 64 bits hold can be written -/
def wide (n : Int) : Except Reason Value :=
  match Integer.ofInt? n with
  | some n => .ok (.integer n)
  | none => .error .numberOutOfRange

/-- a double that is no finite number -/
def notFinite : Except Reason Value := .ok .null

/-- bytes are written as their numbers -/
def bytes (bs : Bytes) : Except Reason Value := .ok (.array (bs.map fun b => .ofNat b.toNat))

/-- a map with keys that are lists -/
def keyedByList : Except Reason Value := .error .keyNotString

/-- a map with numbers as keys, which are written as their digits -/
def keyedByInt (members : List (Int × Value)) : Except Reason Value :=
  .ok (.ofMembers (members.map fun m => (toString m.1, m.2)))

end UiSync.Json.Written
