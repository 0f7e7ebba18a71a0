import UiSync.Json.View

/-!
# Mouse events

The details of a click as the client reports them. Every field may be missing.
-/

namespace UiSync

open Json

inductive MouseButton where
  | left
  | middle
  | right
  deriving DecidableEq

namespace MouseButton

def name : MouseButton → String
  | left => "left"
  | middle => "middle"
  | right => "right"

def view : View MouseButton :=
  View.variant [("left", left), ("middle", middle), ("right", right)]
    "one of `left`, `middle`, `right`"

end MouseButton

structure MouseEvent where
  button : MouseButton := .left
  clientX : Int := 0
  clientY : Int := 0
  relativeX : Int := 0
  relativeY : Int := 0
  altKey : Bool := false
  ctrlKey : Bool := false
  metaKey : Bool := false
  shiftKey : Bool := false
  doubleClick : Bool := false

namespace MouseEvent

private def coordinate : View Int := View.int 32 "i32"

def fields : List (View.Field MouseEvent) := [
  ("button", fun d v => (MouseButton.view v).map fun a => { d with button := a }),
  ("clientX", fun d v => (coordinate v).map fun a => { d with clientX := a }),
  ("clientY", fun d v => (coordinate v).map fun a => { d with clientY := a }),
  ("relativeX", fun d v => (coordinate v).map fun a => { d with relativeX := a }),
  ("relativeY", fun d v => (coordinate v).map fun a => { d with relativeY := a }),
  ("altKey", fun d v => (View.bool v).map fun a => { d with altKey := a }),
  ("ctrlKey", fun d v => (View.bool v).map fun a => { d with ctrlKey := a }),
  ("metaKey", fun d v => (View.bool v).map fun a => { d with metaKey := a }),
  ("shiftKey", fun d v => (View.bool v).map fun a => { d with shiftKey := a }),
  ("doubleClick", fun d v => (View.bool v).map fun a => { d with doubleClick := a })]

def view : View MouseEvent
  | .array items => (View.takeItems fields items 0 {}).map Prod.fst
  | .object members => View.takeMembers fields {} members
  | v => v.scalar.refuse "struct MouseEventDetails"

def value (e : MouseEvent) : Value :=
  Value.ofMembers [("button", .string e.button.name), ("clientX", .ofInt e.clientX),
    ("clientY", .ofInt e.clientY), ("relativeX", .ofInt e.relativeX),
    ("relativeY", .ofInt e.relativeY), ("altKey", .bool e.altKey), ("ctrlKey", .bool e.ctrlKey),
    ("metaKey", .bool e.metaKey), ("shiftKey", .bool e.shiftKey),
    ("doubleClick", .bool e.doubleClick)]

end MouseEvent

end UiSync
