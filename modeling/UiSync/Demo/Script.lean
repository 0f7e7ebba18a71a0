import UiSync.Component.Basic
import UiSync.Shape

/-!
# Scripts

Scripted components do what they are told in data: a list of actions for their hook, and one for
each method of an interface.
-/

namespace UiSync.Demo

open Json

mutual

inductive Action where
  | set (name : String) (value : Value)
  | remove (name : String)
  /-- counts a field up -/
  | increment (name : String)
  | mark (id : ComponentId)
  | markSelf
  | call (interface method : String) (args : List Value)
  /-- asks for a new component, below the component itself unless told otherwise -/
  | attach (parent : Option ComponentId) (component : Blueprint) (setup : Option (List SetupStep))
  /-- asks for a component to go, itself unless told otherwise -/
  | detach (id : Option ComponentId)
  /-- sets a field to an argument of the invocation -/
  | setArg (name : String) (index : Nat) (shape : Shape)
  | fail (message : String)

/-- an action of a hook, carried out for initial or later runs only, and for the first runs
only, if that is said -/
inductive HookAction where
  | mk (action : Action) (onInitial : Option Bool) (maxRuns : Option Nat)

/-- a scripted component to be built -/
inductive Blueprint where
  | mk (kind : String) (fields : Fields) (hook : List HookAction)

/-- work on the session for a component that was attached just now, or for the component that
is named instead -/
inductive SetupStep where
  | register (id : Option ComponentId) (interface : String)
      (methods : List (String × List Action))
  | call (id : Option ComponentId) (interface method : String) (args : List Value)
  | attach (id : Option ComponentId) (component : Blueprint)
  | detach (id : Option ComponentId)
  | mark (id : Option ComponentId)
  | clear (id : Option ComponentId)

end

instance : Inhabited Action := ⟨.markSelf⟩
instance : Inhabited HookAction := ⟨.mk .markSelf none none⟩
instance : Inhabited Blueprint := ⟨.mk "" ∅ []⟩
instance : Inhabited SetupStep := ⟨.mark none⟩

/-- the actions of an interface by method -/
abbrev Methods := List (String × List Action)

/-- the action runs in this run of a hook -/
def HookAction.applies (initial : Bool) (runs : Nat) : HookAction → Bool
  | mk _ onInitial maxRuns =>
    (onInitial.map (· == initial)).getD true && (maxRuns.map (decide <| runs ≤ ·)).getD true

def HookAction.action : HookAction → Action
  | mk action _ _ => action

end UiSync.Demo
