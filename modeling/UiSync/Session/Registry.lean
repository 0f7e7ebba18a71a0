import UiSync.Message.Basic

/-!
# Handlers

The handlers for invocations, by component and interface.
-/

namespace UiSync

/-- handlers of type `η` -/
structure Registry (η : Type) where
  handlers : Dict ComponentId (Dict String η)

namespace Registry

def empty : Registry η := ⟨∅⟩

instance : EmptyCollection (Registry η) := ⟨empty⟩
instance : Inhabited (Registry η) := ⟨empty⟩

/-- the handlers of one component -/
def handlersOf (r : Registry η) (id : ComponentId) : Dict String η := (r.handlers.get? id).getD ∅

def handler? (r : Registry η) (id : ComponentId) (interface : String) : Option η :=
  (r.handlersOf id).get? interface

/-- sets the handler of an interface, replacing the one before -/
def register (r : Registry η) (id : ComponentId) (interface : String) (handler : η) :
    Registry η :=
  ⟨r.handlers.insert id ((r.handlersOf id).insert interface handler)⟩

def unregister (r : Registry η) (id : ComponentId) (interface : String) : Registry η :=
  ⟨r.handlers.modify id fun hs => hs.erase interface⟩

/-- drops every handler of a component that left the tree -/
def removeComponent (r : Registry η) (id : ComponentId) : Registry η := ⟨r.handlers.erase id⟩

def removeAll (r : Registry η) (ids : List ComponentId) : Registry η :=
  ids.foldl removeComponent r

end Registry

end UiSync
