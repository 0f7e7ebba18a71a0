import UiSync.Json.Value
import UiSync.SequenceNumber

/-!
# Messages

A server message carries everything one response cycle tells the client: changes of the tree, the
fields that changed, and calls. A client message carries the invocations made since the one
before, and the number of the last server message that was applied.
-/

namespace UiSync

open Json (Value)

/-- the identity of a component for as long as it is attached -/
structure ComponentId where
  value : Nat
  deriving DecidableEq

namespace ComponentId

instance : Inhabited ComponentId := ⟨⟨0⟩⟩

instance : Ord ComponentId := ⟨fun a b => compare a.value b.value⟩

instance : Std.TransOrd ComponentId where
  eq_swap {a b} := show compare a.value b.value = (compare b.value a.value).swap from
    Std.OrientedCmp.eq_swap
  isLE_trans {a b c} := show (compare a.value b.value).isLE → (compare b.value c.value).isLE →
    (compare a.value c.value).isLE from Std.TransCmp.isLE_trans

instance : Std.LawfulEqOrd ComponentId where
  eq_of_compare {a b} h := by
    cases a
    cases b
    exact congrArg _ (Std.LawfulEqCmp.eq_of_compare (show compare _ _ = _ from h))
  compare_self {a} := show compare a.value a.value = .eq from Std.ReflCmp.compare_self

/-- the identity in reports -/
def text (id : ComponentId) : String := "C" ++ toString id.value

end ComponentId

/-- a change of the tree's structure -/
inductive TreeChange where
  | attached (id : ComponentId) (parent : Option ComponentId) (kind : String)
  | detached (id : ComponentId)

/-- the new values of fields, a removed field being `null` -/
abbrev Diff := Dict String Value

/-- the fields of one component that changed since it was last sent -/
structure FieldChange where
  component : ComponentId
  /-- the version of the component's fields with this change -/
  version : Nat
  diff : Diff

/-- a call from the server to one component's peer at the client -/
structure ClientCall where
  component : ComponentId
  interface : String
  method : String
  args : List Value

/-- a call from the client to the handler of an interface of one component -/
structure Invocation where
  component : ComponentId
  interface : String
  method : String
  args : List Value
  sequence : SequenceNumber

structure ServerMessage where
  sequence : SequenceNumber
  /-- the client forgets its tree and builds it anew from this message -/
  resynchronize : Bool
  hierarchy : List TreeChange
  changes : List FieldChange
  calls : List ClientCall

/-- there is nothing the client has to apply -/
def ServerMessage.isEmpty (m : ServerMessage) : Bool :=
  !m.resynchronize && m.hierarchy.isEmpty && m.changes.isEmpty && m.calls.isEmpty

structure ClientMessage where
  /-- the last server message that was applied -/
  lastResponse : Option SequenceNumber
  invocations : List Invocation

end UiSync
