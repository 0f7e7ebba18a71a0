import UiSync.Dict
import UiSync.Json.Double

/-!
# JSON values

A number is an integer in the range of 64 bits, signed or unsigned, or a finite double; the two
kinds never equal each other. Members of an object are kept in key order, each key once.

`Value.same` is the equality the program compares with: structural, except that the two zeros
of the doubles are equal.
-/

namespace UiSync.Json

/-- an integer some 64-bit type, signed or unsigned, can hold -/
structure Integer where
  val : Int
  lower : -0x8000000000000000 ≤ val
  upper : val < 0x10000000000000000
  deriving DecidableEq

/-- the integer, when 64 bits can hold it -/
def Integer.ofInt? (n : Int) : Option Integer :=
  if h : -0x8000000000000000 ≤ n ∧ n < 0x10000000000000000 then some ⟨n, h.1, h.2⟩ else none

inductive Value where
  | null
  | bool (b : Bool)
  | integer (n : Integer)
  | float (x : Double)
  | string (s : String)
  | array (items : List Value)
  | object (members : List (String × Value))

namespace Value

instance : Inhabited Value := ⟨null⟩

mutual

/-- equality, the two zeros of the doubles being equal -/
def same : Value → Value → Bool
  | null, null => true
  | bool a, bool b => a == b
  | integer m, integer n => m.val == n.val
  | float x, float y => x.same y
  | string s, string t => s == t
  | array xs, array ys => sameItems xs ys
  | object xs, object ys => sameMembers xs ys
  | _, _ => false

/-- the items are the same, place by place -/
def sameItems : List Value → List Value → Bool
  | [], [] => true
  | x :: xs, y :: ys => same x y && sameItems xs ys
  | _, _ => false

/-- the members are the same, place by place -/
def sameMembers : List (String × Value) → List (String × Value) → Bool
  | [], [] => true
  | (k, x) :: xs, (l, y) :: ys => k == l && same x y && sameMembers xs ys
  | _, _ => false

end

/-- a whole number as a value; outside the range of 64 bits there is no such value -/
def ofInt (n : Int) : Value := (Integer.ofInt? n).elim null integer

def ofNat (n : Nat) : Value := ofInt n

/-- an object from members in any order, the last of equal keys winning -/
def ofMembers (members : List (String × Value)) : Value :=
  object (members.foldl (fun es e => Entries.insert e.1 e.2 es) [])

/-! ## Parts -/

def isNull : Value → Bool
  | null => true
  | _ => false

def bool? : Value → Option Bool
  | bool b => some b
  | _ => none

def string? : Value → Option String
  | string s => some s
  | _ => none

/-- the integer, when it fits a signed word of 64 bits -/
def int64? : Value → Option Int
  | integer n => if n.val < 0x8000000000000000 then some n.val else none
  | _ => none

/-- the integer, when it is not negative -/
def nat64? : Value → Option Nat
  | integer n => if 0 ≤ n.val then some n.val.toNat else none
  | _ => none

/-- the value of a member of an object -/
def member? (v : Value) (key : String) : Option Value :=
  match v with
  | object members => Entries.find? key members
  | _ => none

end Value

end UiSync.Json
