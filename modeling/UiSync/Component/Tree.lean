import UiSync.Component.Basic

/-!
# The component tree

A tree is a table of nodes, each with its parent and its children in the order they were
attached. Identities are handed out in increasing order and never again, and a component exists
for as long as it is attached.

`Tree.preOrder` walks the tree with an explicit stack: parents before children, children in
order.
-/

namespace UiSync

structure Node (μ : Type) where
  component : Component μ
  parent : Option ComponentId
  children : List ComponentId

structure Tree (μ : Type) where
  nodes : Dict ComponentId (Node μ)
  root : ComponentId
  /-- the identity of the next component -/
  nextId : Nat

/-- a change of the tree that cannot be made -/
inductive TreeError where
  | parentNotFound (parent : ComponentId)
  | notAttached (component : ComponentId)
  | cannotDetachRoot (component : ComponentId)
  deriving DecidableEq

def TreeError.message : TreeError → String
  | parentNotFound parent => "Cannot attach under " ++ parent.text ++ " - parent is not attached"
  | notAttached component => "Component " ++ component.text ++ " is not attached"
  | cannotDetachRoot component =>
    "Component " ++ component.text ++ " is the root and cannot be detached"

namespace Tree

/-- a tree of one component -/
def ofRoot (root : Component μ) : Tree μ where
  nodes := (∅ : Dict ComponentId (Node μ)).insert ⟨1⟩ ⟨root, none, []⟩
  root := ⟨1⟩
  nextId := 2

def contains (t : Tree μ) (id : ComponentId) : Bool := t.nodes.contains id

def size (t : Tree μ) : Nat := t.nodes.size

def isEmpty (t : Tree μ) : Bool := t.nodes.isEmpty

def get? (t : Tree μ) (id : ComponentId) : Option (Component μ) :=
  (t.nodes.get? id).map Node.component

def parent? (t : Tree μ) (id : ComponentId) : Option ComponentId :=
  (t.nodes.get? id).bind Node.parent

def children (t : Tree μ) (id : ComponentId) : List ComponentId :=
  ((t.nodes.get? id).map Node.children).getD []

/-- changes one component in place -/
def update (t : Tree μ) (id : ComponentId) (f : Component μ → Component μ) : Tree μ :=
  { t with nodes := t.nodes.modify id fun n => { n with component := f n.component } }

/-- changes every component in place -/
def updateAll (t : Tree μ) (f : Component μ → Component μ) : Tree μ :=
  { t with nodes := t.nodes.map fun _ n => { n with component := f n.component } }

/-! ## Walking -/

/-- the identities met by a walk that still has the ones on `stack` before it -/
def walk (t : Tree μ) : Nat → List ComponentId → List ComponentId
  | 0, _ => []
  | _ + 1, [] => []
  | fuel + 1, id :: stack => id :: walk t fuel (t.children id ++ stack)

/-- `id` and everything below it, parents before children -/
def subtree (t : Tree μ) (id : ComponentId) : List ComponentId :=
  if t.contains id then t.walk t.size [id] else []

/-- every attached identity, parents before children -/
def preOrder (t : Tree μ) : List ComponentId := t.subtree t.root

/-- `id` and everything below it with their components -/
def descendants (t : Tree μ) (id : ComponentId) : List (ComponentId × Component μ) :=
  (t.subtree id).filterMap fun i => (t.get? i).map (i, ·)

/-! ## Changing the structure -/

/-- adds a component as the last child of `parent` -/
def attach (t : Tree μ) (parent : ComponentId) (component : Component μ) :
    Except TreeError (ComponentId × Tree μ) :=
  match t.nodes.get? parent with
  | none => .error (.parentNotFound parent)
  | some n =>
    let id : ComponentId := ⟨t.nextId⟩
    let nodes := t.nodes.insert parent { n with children := n.children ++ [id] }
    .ok (id, { t with
      nodes := nodes.insert id ⟨component, some parent, []⟩
      nextId := t.nextId + 1 })

/-- takes `id` out of the children of a node -/
def dropChild (nodes : Dict ComponentId (Node μ)) (parent : Option ComponentId)
    (id : ComponentId) : Dict ComponentId (Node μ) :=
  match parent with
  | none => nodes
  | some p => nodes.modify p fun n => { n with children := n.children.filter (· != id) }

/-- removes a component and everything below it; answers with what was removed -/
def detach (t : Tree μ) (id : ComponentId) : Except TreeError (List ComponentId × Tree μ) :=
  if id = t.root then .error (.cannotDetachRoot id)
  else
    match t.nodes.get? id with
    | none => .error (.notAttached id)
    | some n =>
      let removed := t.subtree id
      let nodes := dropChild t.nodes n.parent id
      .ok (removed, { t with nodes := removed.foldl Dict.erase nodes })

end Tree

end UiSync
