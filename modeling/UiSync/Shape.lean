import UiSync.Data.Query
import UiSync.Json.View
import UiSync.MouseEvent

/-!
# Shapes

The types a field or an argument can be asked for by name at run time. A shape checks a value and
answers with the value written back from what was read: a double for any number seen as one, all
ten fields for a mouse event.
-/

namespace UiSync

open Json

inductive Shape where
  | bool
  | unsigned (bits : Nat)
  /-- an unsigned word as wide as an address -/
  | size
  | signed (bits : Nat)
  | double
  | char
  | string
  | unit
  | optionalU32
  | listI64
  | pair
  | mapI64
  | button
  | mouse
  | sequence
  | component
  | session
  | direction
  | sortOrder
  | json

namespace Shape

/-- the type in reports about fields -/
def typeName : Shape → String
  | bool => "bool"
  | unsigned bits => "u" ++ toString bits
  | size => "usize"
  | signed bits => "i" ++ toString bits
  | double => "f64"
  | char => "char"
  | string => "alloc::string::String"
  | unit => "()"
  | optionalU32 => "core::option::Option<u32>"
  | listI64 => "alloc::vec::Vec<i64>"
  | pair => "(alloc::string::String, i64)"
  | mapI64 => "alloc::collections::btree::map::BTreeMap<alloc::string::String, i64>"
  | button => "trellis_shared::context_help::MouseButton"
  | mouse => "trellis_shared::context_help::MouseEventDetails"
  | sequence => "trellis_shared::wrapping_number::SequenceNumber"
  | component => "trellis_shared::types::ComponentId"
  | session => "trellis_server::transaction::session_store::SessionId"
  | direction => "trellis_server::data::query::SortDirection"
  | sortOrder => "trellis_server::data::query::QuerySortOrder"
  | json => "serde_json::value::Value"

/-- a value seen as the shape and written back -/
def check : Shape → View Value
  | bool => fun v => (View.bool v).map .bool
  | unsigned bits => fun v => (View.nat bits ("u" ++ toString bits) v).map .ofNat
  | size => fun v => (View.nat 64 "usize" v).map .ofNat
  | signed bits => fun v => (View.int bits ("i" ++ toString bits) v).map .ofInt
  | double => fun v => (View.double v).map .float
  | char => fun v => (View.char v).map fun c => .string (String.singleton c)
  | string => fun v => (View.string v).map .string
  | unit => fun v => (View.unit v).map fun _ => .null
  | optionalU32 => fun v =>
    (View.optional (View.nat 32 "u32") v).map fun n => n.elim .null .ofNat
  | listI64 => fun v => (View.list (View.int 64 "i64") v).map fun ns => .array (ns.map .ofInt)
  | pair => fun v =>
    (View.pair View.string (View.int 64 "i64") v).map fun (s, n) => .array [.string s, .ofInt n]
  | mapI64 => fun v =>
    (View.map (View.int 64 "i64") v).map fun ms => .object (ms.map fun (k, n) => (k, .ofInt n))
  | button => fun v => (MouseButton.view v).map fun b => .string b.name
  | mouse => fun v => (MouseEvent.view v).map MouseEvent.value
  | sequence => fun v => (View.nat 16 "u16" v).map .ofNat
  | component => fun v => (View.nat 64 "u64" v).map .ofNat
  | session => fun v => (View.string v).map .string
  | direction => fun v => (SortDirection.view v).map fun d => .string d.name
  | sortOrder => fun v => (SortOrder.view v).map SortOrder.value
  | json => .ok

end Shape

end UiSync
