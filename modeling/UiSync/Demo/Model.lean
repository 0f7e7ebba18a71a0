import UiSync.Demo.Listing
import UiSync.Demo.Script
import UiSync.FieldRules

/-!
# Demo components

What the components of the demo interface know besides their fields, and how each is built.
-/

namespace UiSync.Demo

open Json

/-- a scripted component: its hook and the runs of it -/
structure Widget where
  hook : List HookAction
  runs : Nat := 0
  /-- for every run, whether the component was never sent by then -/
  initial : List Bool := []

inductive Model where
  | layout
  | label
  /-- adds two terms; `runs` counts the runs of its hook -/
  | calculator (runs : Nat)
  /-- a text input, with the clicks on its help icon -/
  | textField (clicks : List MouseEvent)
  /-- marks its dependents whenever it is sent -/
  | notifier (dependents : List ComponentId)
  | follower (initial : List Bool)
  | listing (l : Listing)
  | widget (w : Widget)

/-- a component by its kind, fields and model -/
abbrev Part := Component Model

namespace Part

def layout : Part := ⟨"VerticalLayout", .empty, .layout⟩

def label (caption : String) : Part :=
  ⟨"Label", FieldBag.empty.setCaption (some caption), .label⟩

def calculator : Part where
  kind := "SumCalculator"
  fields := ((FieldBag.empty.set "term1" (.ofNat 0)).set "term2" (.ofNat 0)).set "sum" (.ofNat 0)
  model := .calculator 0

def textField (caption : String) : Part where
  kind := "TextField"
  fields := (FieldBag.empty.setCaption (some caption)).set "value" (.string "")
  model := .textField []

def notifier (dependents : List ComponentId) : Part :=
  ⟨"Notifier", .empty, .notifier dependents⟩

def follower : Part := ⟨"Follower", .empty, .follower []⟩

def listing (ownRows : Option (List Row)) (limit : Nat) : Part :=
  ⟨"Listing", .empty, .listing (.ofRows ownRows limit)⟩

/-- a scripted component that was never sent -/
def ofBlueprint : Blueprint → Part
  | .mk kind fields hook => ⟨kind, .ofFields fields, .widget ⟨hook, 0, []⟩⟩

end Part

end UiSync.Demo
