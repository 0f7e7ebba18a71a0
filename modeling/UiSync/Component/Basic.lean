import UiSync.FieldBag

/-!
# Components

A component has a kind, which tells the client what to show, a field bag, and a model: whatever
else belongs to it at the server. Its behaviour answers with a `Reaction`, the list of everything
it asks for, and so touches nothing but its own fields and model by itself.
-/

namespace UiSync

open Json

/-- a component with a model of type `μ` -/
structure Component (μ : Type) where
  kind : String
  fields : FieldBag
  model : μ

/-- a change of the tree that a handler asks for; `σ` describes what is done with a component
once it is attached -/
inductive TreeRequest (μ σ : Type) where
  | attach (parent : ComponentId) (component : Component μ) (setup : Option σ)
  | detach (id : ComponentId)

/-- a call to the component's own peer at the client -/
structure PeerCall where
  interface : String
  method : String
  args : List Value

/-- what a component asks for while its hook or a handler runs for it -/
structure Reaction (μ σ : Type) where
  /-- its model from now on -/
  model : μ
  /-- writes to its own fields, in order -/
  edits : List Edit
  /-- calls to its own peer, in order -/
  calls : List PeerCall
  /-- the components to be sent again -/
  marks : List ComponentId
  /-- changes of the tree, in order -/
  requests : List (TreeRequest μ σ)

namespace Reaction

/-- no change -/
def idle (model : μ) : Reaction μ σ := ⟨model, [], [], [], []⟩

/-- the component after its reaction -/
def apply (r : Reaction μ σ) (c : Component μ) : Component μ :=
  { c with fields := r.edits.foldl FieldBag.edit c.fields, model := r.model }

end Reaction

end UiSync
