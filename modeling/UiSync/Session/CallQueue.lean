import UiSync.Message.Basic

/-!
# Queued calls

Calls to the client wait for the next response, per component and in the order they were made. A
checkpoint remembers how many there were; rolling back to it drops the calls made since.
-/

namespace UiSync

open Json

structure CallQueue where
  calls : Dict ComponentId (List ClientCall)

/-- how many calls each component had -/
abbrev Checkpoint := Dict ComponentId Nat

namespace CallQueue

def empty : CallQueue := ⟨∅⟩

instance : EmptyCollection CallQueue := ⟨empty⟩
instance : Inhabited CallQueue := ⟨empty⟩

/-- the calls waiting for one component -/
def callsOf (q : CallQueue) (id : ComponentId) : List ClientCall := (q.calls.get? id).getD []

def push (q : CallQueue) (id : ComponentId) (interface method : String) (args : List Value) :
    CallQueue :=
  ⟨q.calls.insert id (q.callsOf id ++ [⟨id, interface, method, args⟩])⟩

def isEmpty (q : CallQueue) : Bool := q.calls.values.all List.isEmpty

def lengthOf (q : CallQueue) (id : ComponentId) : Nat := (q.callsOf id).length

/-- drops what waits for a component that left the tree -/
def removeComponent (q : CallQueue) (id : ComponentId) : CallQueue := ⟨q.calls.erase id⟩

def removeAll (q : CallQueue) (ids : List ComponentId) : CallQueue := ids.foldl removeComponent q

/-- the waiting calls, component after component in the given order -/
def inOrder (q : CallQueue) (order : List ComponentId) : List ClientCall :=
  order.flatMap q.callsOf

def checkpoint (q : CallQueue) : Checkpoint := q.calls.map fun _ cs => cs.length

/-- drops the calls made after the checkpoint -/
def rollback (q : CallQueue) (c : Checkpoint) : CallQueue :=
  ⟨q.calls.filterMap fun id cs =>
    let kept := cs.take ((c.get? id).getD 0)
    if kept.isEmpty then none else some kept⟩

end CallQueue

end UiSync
