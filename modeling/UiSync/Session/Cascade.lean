import UiSync.Session.Basic

/-!
# Settling

Before a response is written, the hook of every dirty component runs, parents before children.
Hooks may mark other components; passes over the tree repeat until no component is dirty, so
everything derived lands in the same response.

A cascade that does not settle within the allowed passes, and a hook that asks for a change of
the tree, give the response up. Every component whose hook ran is then dirty again.
-/

namespace UiSync

inductive CascadeError where
  | overflow (passes stillDirty : Nat)
  | structureChange (component : ComponentId)

def CascadeError.message : CascadeError → String
  | overflow passes stillDirty =>
    "Finalize cascade did not settle after " ++ toString passes ++ " passes; " ++
      toString stillDirty ++ " components still dirty"
  | structureChange component =>
    "Component " ++ component.text ++ " requested a tree change from its finalize hook"

/-- a cascade on its way -/
structure Cascade (μ : Type) where
  tree : Tree μ
  dirty : DirtySet
  calls : CallQueue
  /-- the components whose hooks ran -/
  collected : DirtySet
  /-- the hooks that ran, each run counted -/
  invocations : Nat
  passes : Nat

namespace Cascade

variable {μ η σ : Type}

/-- the dirty components in the order of the tree -/
def pending (c : Cascade μ) : List ComponentId := c.tree.preOrder.filter c.dirty.contains

/-- the components whose hooks ran, in the order of the tree -/
def finalized (c : Cascade μ) : List ComponentId := c.tree.preOrder.filter c.collected.contains

/-- every component whose hook ran is dirty again -/
def giveUp (c : Cascade μ) : Cascade μ :=
  { c with dirty := c.dirty.markAll c.collected.toList }

/-- takes over a mark a hook of `source` made -/
def mark (source : ComponentId) (c : Cascade μ) (target : ComponentId) : Cascade μ :=
  if target = source ∨ !c.tree.contains target then c
  else { c with dirty := c.dirty.mark target }

/-- queues the calls of a component -/
def pushCalls (q : CallQueue) (id : ComponentId) (calls : List PeerCall) : CallQueue :=
  calls.foldl (fun q c => q.push id c.interface c.method c.args) q

/-- the cascade after the reaction of a component, its marks left out -/
def absorb (c : Cascade μ) (id : ComponentId) (r : Reaction μ σ) : Cascade μ :=
  { c with
    tree := c.tree.update id r.apply
    dirty := c.dirty.clear id
    calls := pushCalls c.calls id r.calls
    collected := c.collected.mark id
    invocations := c.invocations + 1 }

/-- runs the hook of a component that is still dirty -/
def runHook (b : Behaviour μ η σ) (c : Cascade μ) (id : ComponentId) :
    Except (CascadeError × Cascade μ) (Cascade μ) :=
  if c.dirty.contains id then
    match c.tree.get? id with
    | none => .ok { c with dirty := c.dirty.clear id }
    | some component =>
      let r := b.hook id component (!component.fields.everSent)
      let c := c.absorb id r
      if r.requests.isEmpty then .ok (r.marks.foldl (mark id) c)
      else .error (.structureChange id, c.giveUp)
  else .ok c

/-- runs the hooks of the given components in order -/
def runPass (b : Behaviour μ η σ) (c : Cascade μ) :
    List ComponentId → Except (CascadeError × Cascade μ) (Cascade μ)
  | [] => .ok c
  | id :: ids =>
    match c.runHook b id with
    | .ok c => c.runPass b ids
    | .error e => .error e

/-- runs passes until nothing is dirty, at most `left` of them -/
def settle (b : Behaviour μ η σ) :
    Nat → Cascade μ → Except (CascadeError × Cascade μ) (Cascade μ)
  | left, c =>
    if c.pending.isEmpty then .ok c
    else
      match left with
      | 0 => .error (.overflow c.passes c.pending.length, c.giveUp)
      | left + 1 =>
        match { c with passes := c.passes + 1 }.runPass b c.pending with
        | .ok c => settle b left c
        | .error e => .error e

/-- the cascade of a session, before its first pass -/
def start (s : Session μ η) : Cascade μ := ⟨s.tree, s.dirty, s.calls, ∅, 0, 0⟩

end Cascade

/-- runs the cascade of a session -/
def Session.finalize (b : Behaviour μ η σ) (s : Session μ η) :
    Except (CascadeError × Cascade μ) (Cascade μ) :=
  (Cascade.start s).settle b s.config.maxFinalizePasses

end UiSync
