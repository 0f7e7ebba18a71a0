import UiSync.Data.Sources
import UiSync.Text.Blank

/-!
# Catalogue items

The items of the demo catalogue, filters on them as data, and how sort orders compare them.
-/

namespace UiSync.Demo

structure Item where
  id : Nat
  name : String
  group : Int
  deriving DecidableEq

/-! ## Filters -/

/-- an item passes when every part that is given holds; `any` holds when it is empty -/
inductive ItemFilter where
  | mk (least most : Option Nat) (start : Option String) (group : Option Int)
      (negated : Option ItemFilter) (all any : List ItemFilter)

namespace ItemFilter

/-- every item passes -/
def everything : ItemFilter := mk none none none none none [] []

instance : Inhabited ItemFilter := ⟨everything⟩

mutual

def accepts : ItemFilter → Item → Bool
  | mk least most start group negated all any, item =>
    (least.map (decide <| · ≤ item.id)).getD true &&
      (most.map (decide <| item.id ≤ ·)).getD true &&
      (start.map (·.toList.isPrefixOf item.name.toList)).getD true &&
      (group.map (· == item.group)).getD true &&
      rejectedBy negated item && acceptedByAll all item &&
      (any.isEmpty || acceptedByAny any item)

/-- the item does not pass the filter, if there is one -/
def rejectedBy : Option ItemFilter → Item → Bool
  | none, _ => true
  | some f, item => !accepts f item

def acceptedByAll : List ItemFilter → Item → Bool
  | [], _ => true
  | f :: fs, item => accepts f item && acceptedByAll fs item

def acceptedByAny : List ItemFilter → Item → Bool
  | [], _ => false
  | f :: fs, item => accepts f item || acceptedByAny fs item

end

/-- items from an identity on -/
def fromId (least : Nat) : ItemFilter := mk (some least) none none none none [] []

/-- items whose name starts like this -/
def nameStarts (start : String) : ItemFilter := mk none none (some start) none none [] []

def both (f g : ItemFilter) : ItemFilter := mk none none none none none [f, g] []

def either (f g : ItemFilter) : ItemFilter := mk none none none none none [] [f, g]

end ItemFilter

/-- a number of digits only -/
def readDigits (cs : List Char) : Option Nat :=
  if cs.isEmpty || !cs.all Char.isDigit then none
  else some (cs.foldl (fun n c => 10 * n + (c.toNat - '0'.toNat)) 0)

/-- the number a text says: blanks around it, a plus sign in front; 0 for anything else, also for
a number that 32 bits do not hold -/
def readLeast (text : String) : Nat :=
  let digits := match Text.trimBlanks text.toList with
    | '+' :: cs => readDigits cs
    | cs => readDigits cs
  (digits.filter (· < 0x100000000)).getD 0

/-! ## Order -/

/-- items compared by a property; one they do not have tells nothing -/
def Item.compareBy : String → Comparator Item
  | "id" => fun a b => compare a.id b.id
  | "name" => fun a b => compare a.name b.name
  | "group" => fun a b => compare a.group b.group
  | _ => fun _ _ => .eq

/-- items compared by the first sort order that tells them apart -/
def Item.compareAll (orders : List SortOrder) : Comparator Item := fun a b =>
  orders.foldr (fun o rest => (o.direction.apply (Item.compareBy o.property a b)).then rest) .eq

end UiSync.Demo
