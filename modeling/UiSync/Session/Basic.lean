import UiSync.Component.Tree
import UiSync.Session.CallQueue
import UiSync.Session.DirtySet
import UiSync.Session.Registry
import UiSync.Session.SequenceGuard

/-!
# Sessions

A session is everything that is kept in step for one client: the tree, the dirty set, the queued
calls, the handlers, the guard, and the changes of the tree since the last response.

The dirty set, the queue and the registry only ever mention attached components: marking,
calling and registering ask for that, and detaching cleans up (`Session.detach`).
-/

namespace UiSync

open Json

structure Config where
  /-- the passes a cascade may take before the response is given up -/
  maxFinalizePasses : Nat := 64
  /-- the greatest size of an encoded response -/
  maxResponseBytes : Option Nat := none
  /-- the last sequence number may pass the guard again -/
  allowDuplicateSequence : Bool := false

/-- a session whose components have models of type `μ` and handlers of type `η` -/
structure Session (μ η : Type) where
  config : Config
  tree : Tree μ
  dirty : DirtySet
  calls : CallQueue
  registry : Registry η
  guard : SequenceGuard
  /-- the changes of the tree the client was not told yet -/
  hierarchy : List TreeChange
  /-- the number of the last response that was written -/
  lastResponse : Option SequenceNumber
  /-- the next response builds the client's tree anew -/
  resyncPending : Bool

namespace Session

variable {μ η : Type}

/-- a session around its root, which goes out with the first response -/
def ofRoot (root : Component μ) (config : Config) : Session μ η where
  config := config
  tree := Tree.ofRoot root
  dirty := (∅ : DirtySet).mark (Tree.ofRoot root).root
  calls := ∅
  registry := ∅
  guard := SequenceGuard.start config.allowDuplicateSequence
  hierarchy := [.attached (Tree.ofRoot root).root none root.kind]
  lastResponse := none
  resyncPending := false

def root (s : Session μ η) : ComponentId := s.tree.root

/-! ## Structure -/

/-- attaches a component as the last child of `parent`; it is dirty from the start -/
def attach (s : Session μ η) (parent : ComponentId) (component : Component μ) :
    Except TreeError (ComponentId × Session μ η) :=
  match s.tree.attach parent component with
  | .error e => .error e
  | .ok (id, tree) =>
    .ok (id, { s with
      tree := tree
      dirty := s.dirty.mark id
      hierarchy := s.hierarchy ++ [.attached id (some parent) component.kind] })

/-- detaches a component and everything below it, with their marks, calls and handlers -/
def detach (s : Session μ η) (id : ComponentId) : Except TreeError (Session μ η) :=
  match s.tree.detach id with
  | .error e => .error e
  | .ok (removed, tree) =>
    .ok { s with
      tree := tree
      dirty := s.dirty.clearAll removed
      calls := s.calls.removeAll removed
      registry := s.registry.removeAll removed
      hierarchy := s.hierarchy ++ [.detached id] }

/-- changes one component in place, without a mark -/
def update (s : Session μ η) (id : ComponentId) (f : Component μ → Component μ) : Session μ η :=
  { s with tree := s.tree.update id f }

/-! ## Marks -/

/-- marks a component to be sent again; one that is not attached is ignored -/
def mark (s : Session μ η) (id : ComponentId) : Session μ η :=
  if s.tree.contains id then { s with dirty := s.dirty.mark id } else s

def clear (s : Session μ η) (id : ComponentId) : Session μ η :=
  { s with dirty := s.dirty.clear id }

def isDirty (s : Session μ η) (id : ComponentId) : Bool := s.dirty.contains id

/-- the dirty components in the order of the tree -/
def dirtyComponents (s : Session μ η) : List ComponentId :=
  s.tree.preOrder.filter s.dirty.contains

/-! ## Handlers and calls -/

def register (s : Session μ η) (id : ComponentId) (interface : String) (handler : η) :
    Except TreeError (Session μ η) :=
  if s.tree.contains id then
    .ok { s with registry := s.registry.register id interface handler }
  else .error (.notAttached id)

def unregister (s : Session μ η) (id : ComponentId) (interface : String) : Session μ η :=
  { s with registry := s.registry.unregister id interface }

/-- queues a call to the peer of a component -/
def call (s : Session μ η) (id : ComponentId) (interface method : String) (args : List Value) :
    Except TreeError (Session μ η) :=
  if s.tree.contains id then .ok { s with calls := s.calls.push id interface method args }
  else .error (.notAttached id)

/-! ## Starting over -/

/-- the announcement of every attached component, parents before children -/
def announcement (t : Tree μ) : List TreeChange :=
  t.preOrder.filterMap fun id =>
    (t.get? id).map fun c => .attached id (t.parent? id) c.kind

/-- makes the next response build the client's tree anew, with every field -/
def requestResync (s : Session μ η) : Session μ η :=
  { s with
    tree := s.tree.updateAll fun c => { c with fields := c.fields.forgetSent }
    dirty := s.dirty.markAll s.tree.preOrder
    hierarchy := announcement s.tree
    resyncPending := true }

end Session

/-- what components and handlers do: `hook` runs before a component is sent, told whether it
was never sent; `handle` carries out an invocation; `setup` works on the session once a component
asked for by a handler is attached -/
structure Behaviour (μ η σ : Type) where
  hook : ComponentId → Component μ → Bool → Reaction μ σ
  handle : η → Component μ → Invocation → Reaction μ σ × Except InvocationError Unit
  setup : σ → Session μ η → ComponentId → Session μ η × Except TreeError Unit

end UiSync
