import UiSync.Json.View

/-!
# Queries

A query says which items a listing asks for: a page, an order and a filter. Sort orders are meant
for providers that pass them on, the comparator for providers that sort items themselves.
-/

namespace UiSync

open Json

inductive SortDirection where
  | ascending
  | descending
  deriving DecidableEq

namespace SortDirection

def reverse : SortDirection → SortDirection
  | ascending => descending
  | descending => ascending

/-- an ordering in this direction -/
def apply : SortDirection → Ordering → Ordering
  | ascending, o => o
  | descending, o => o.swap

def name : SortDirection → String
  | ascending => "ascending"
  | descending => "descending"

def title : SortDirection → String
  | ascending => "Ascending"
  | descending => "Descending"

def view : View SortDirection :=
  View.variant [("ascending", ascending), ("descending", descending)]
    "`ascending` or `descending`"

end SortDirection

/-- a property and a direction to sort by -/
structure SortOrder where
  property : String
  direction : SortDirection
  deriving DecidableEq

namespace SortOrder

structure Draft where
  property : Option String := none
  direction : Option SortDirection := none

def fields : List (View.Field Draft) := [
  ("property", fun d v => (View.string v).map fun a => { d with property := some a }),
  ("direction", fun d v => (SortDirection.view v).map fun a => { d with direction := some a })]

def view : View SortOrder
  | .array items => do
    let (d, n) ← View.takeItems fields items 0 {}
    match d.property, d.direction with
    | some p, some o => return ⟨p, o⟩
    | _, _ => .error (.invalidLength n "struct QuerySortOrder with 2 elements")
  | .object members => do
    let d ← View.takeMembers fields {} members
    match d.property, d.direction with
    | some p, some o => return ⟨p, o⟩
    | none, _ => .error (.missingField "property")
    | some _, none => .error (.missingField "direction")
  | v => v.scalar.refuse "struct QuerySortOrder"

def value (o : SortOrder) : Value :=
  Value.ofMembers [("property", .string o.property), ("direction", .string o.direction.name)]

/-- the order in reports -/
def report (o : SortOrder) : String :=
  "QuerySortOrder \x7b property: " ++ Text.quoted o.property ++ ", direction: " ++
    o.direction.title ++ " \x7d"

end SortOrder

abbrev Comparator (τ : Type) := τ → τ → Ordering

/-- which items are asked for, with filters of type `φ` -/
structure Query (τ φ : Type) where
  offset : Nat
  limit : Nat
  sortOrders : List SortOrder
  comparator : Option (Comparator τ)
  filter : Option φ

namespace Query

/-- the limit of a query for every item -/
def unlimited : Nat := 0xFFFFFFFFFFFFFFFF

/-- every item, unsorted and unfiltered -/
def all : Query τ φ := ⟨0, unlimited, [], none, none⟩

/-- the same page and order with another filter -/
def withFilter (q : Query τ φ) (filter : Option ψ) : Query τ ψ :=
  ⟨q.offset, q.limit, q.sortOrders, q.comparator, filter⟩

/-- the same page and order with the filter converted -/
def mapFilter (q : Query τ φ) (convert : φ → ψ) : Query τ ψ :=
  q.withFilter (q.filter.map convert)

/-- the same order and filter with another page -/
def withRange (q : Query τ φ) (offset limit : Nat) : Query τ φ :=
  { q with offset := offset, limit := limit }

/-- the page of a list that the query asks for -/
def page (q : Query τ φ) (items : List τ) : List τ := (items.drop q.offset).take q.limit

/-- the query in reports, the filter shown by `filter` -/
def report (filter : φ → String) (q : Query τ φ) : String :=
  let shown := match q.filter with
    | none => "None"
    | some f => "Some(" ++ filter f ++ ")"
  "Query \x7b offset: " ++ toString q.offset ++ ", limit: " ++ toString q.limit ++
    ", sort_orders: [" ++ String.intercalate ", " (q.sortOrders.map SortOrder.report) ++
    "], in_memory_sorting: " ++ (if q.comparator.isSome then "true" else "false") ++
    ", filter: " ++ shown ++ " \x7d"

end Query

end UiSync
