import UiSync.FieldBag

/-!
# Replicas

The client's copy of the tree, built from the changes the server announces. It accepts any
sequence of changes, also one no honest server sends: a component may be attached again
elsewhere, or below itself, and then stale child entries stay behind. Detaching removes whatever
is reached over child entries (`Replica.removeAll`), and every step of that either removes a
component or shortens the list of those still to be visited.
-/

namespace UiSync

open Json

/-- the copy of one component -/
structure ReplicaNode where
  kind : String
  parent : Option ComponentId
  children : List ComponentId
  fields : Fields
  version : Nat

structure Replica where
  components : Dict ComponentId ReplicaNode
  root : Option ComponentId

/-- a change that mentions a component the replica does not have -/
inductive ReplicaError where
  | unknownComponent (component : ComponentId)
  | parentNotFound (component parent : ComponentId)
  deriving DecidableEq

def ReplicaError.message : ReplicaError → String
  | unknownComponent component => "Response references unknown component " ++ component.text
  | parentNotFound component parent =>
    "Response attaches " ++ component.text ++ " under unknown parent " ++ parent.text

namespace Replica

def empty : Replica := ⟨∅, none⟩

instance : EmptyCollection Replica := ⟨empty⟩
instance : Inhabited Replica := ⟨empty⟩

def size (r : Replica) : Nat := r.components.size

def isEmpty (r : Replica) : Bool := r.components.isEmpty

def get? (r : Replica) (id : ComponentId) : Option ReplicaNode := r.components.get? id

def field? (r : Replica) (id : ComponentId) (name : String) : Option Value :=
  (r.get? id).bind fun n => n.fields.get? name

def children (r : Replica) (id : ComponentId) : List ComponentId :=
  ((r.get? id).map ReplicaNode.children).getD []

/-! ## Structure -/

/-- a component as it is announced, without fields -/
def blank (kind : String) (parent : Option ComponentId) : ReplicaNode := ⟨kind, parent, [], ∅, 0⟩

def attach (r : Replica) (id : ComponentId) (parent : Option ComponentId) (kind : String) :
    Except ReplicaError Replica :=
  match parent with
  | none => .ok ⟨r.components.insert id (blank kind none), some id⟩
  | some p =>
    match r.components.get? p with
    | none => .error (.parentNotFound id p)
    | some n =>
      let components := r.components.insert p { n with children := n.children ++ [id] }
      .ok { r with components := components.insert id (blank kind (some p)) }

/-- removes the components on the stack and all that is reached from them -/
def removeAll (components : Dict ComponentId ReplicaNode) (stack : List ComponentId) :
    Dict ComponentId ReplicaNode :=
  match stack with
  | [] => components
  | id :: rest =>
    match _h : components.get? id with
    | none => removeAll components rest
    | some n => removeAll (components.erase id) (n.children.reverse ++ rest)
  termination_by (components.size, stack.length)
  decreasing_by
    · exact .right _ (Nat.lt_succ_self _)
    · exact .left _ _ (Dict.size_erase_lt _h)

/-- takes `id` out of the children of a component -/
def dropChild (components : Dict ComponentId ReplicaNode) (parent : Option ComponentId)
    (id : ComponentId) : Dict ComponentId ReplicaNode :=
  match parent with
  | none => components
  | some p => components.modify p fun n => { n with children := n.children.filter (· != id) }

def detach (r : Replica) (id : ComponentId) : Except ReplicaError Replica :=
  match r.components.get? id with
  | none => .error (.unknownComponent id)
  | some n => .ok { r with components := removeAll (dropChild r.components n.parent id) [id] }

def applyTreeChange (r : Replica) : TreeChange → Except ReplicaError Replica
  | .attached id parent kind => r.attach id parent kind
  | .detached id => r.detach id

/-! ## Fields -/

/-- the fields with a difference merged in, `null` removing a field -/
def merge (fields : Fields) (diff : Diff) : Fields :=
  diff.entries.foldl
    (fun fs e => if e.2.isNull then fs.erase e.1 else fs.insert e.1 e.2) fields

def applyFieldChange (r : Replica) (c : FieldChange) : Except ReplicaError Replica :=
  match r.components.get? c.component with
  | none => .error (.unknownComponent c.component)
  | some n =>
    let node := { n with fields := merge n.fields c.diff, version := c.version }
    .ok { r with components := r.components.insert c.component node }

/-- all changes of a message, first of the structure and then of the fields -/
def applyMessage (r : Replica) (m : ServerMessage) : Except ReplicaError Replica := do
  m.changes.foldlM applyFieldChange (← m.hierarchy.foldlM applyTreeChange r)

end Replica

end UiSync
