import UiSync.Message.Encode
import UiSync.Session.Cascade

/-!
# Responses

A response is all or nothing. First the cascade settles, then everything pending is put into one
message. Only when the message could be encoded do the sent fields, the queued calls, the changes
of the tree and the response number move on; otherwise the components that were about to be sent
stay dirty and the calls their hooks made are dropped, as the hooks run again next time.
-/

namespace UiSync

open Json

/-- an encoded response -/
structure Response where
  message : ServerMessage
  payload : Bytes

inductive ResponseError where
  | cascade (error : CascadeError)
  | tooLarge (error : PayloadTooLarge)

def ResponseError.message : ResponseError → String
  | cascade error => "Response aborted: " ++ error.message
  | tooLarge error => "Response aborted: " ++ error.message

namespace Session

variable {μ η σ : Type}

/-- what of a component has to be sent, if anything -/
def changeOf (t : Tree μ) (id : ComponentId) : Option FieldChange :=
  (t.get? id).bind fun c =>
    c.fields.pendingDiff.map fun diff => ⟨id, c.fields.version + 1, diff⟩

/-- the number of the next response -/
def nextSequence (s : Session μ η) : SequenceNumber :=
  (s.lastResponse.map SequenceNumber.next).getD SequenceNumber.first

/-- the session with the effects of its hooks -/
def withCascade (s : Session μ η) (c : Cascade μ) : Session μ η :=
  { s with tree := c.tree, dirty := c.dirty, calls := c.calls }

/-- the message for everything pending once the cascade has settled -/
def pendingMessage (s : Session μ η) (c : Cascade μ) : ServerMessage where
  sequence := s.nextSequence
  resynchronize := s.resyncPending
  hierarchy := s.hierarchy
  changes := c.finalized.filterMap (changeOf c.tree)
  calls := c.calls.inOrder c.tree.preOrder

/-- notes that the fields of the given components were sent -/
def commitFields (t : Tree μ) (ids : List ComponentId) : Tree μ :=
  ids.foldl (fun t id => t.update id fun c => { c with fields := c.fields.commit }) t

/-- the session once its response is on its way -/
def commit (s : Session μ η) (c : Cascade μ) : Session μ η :=
  { s.withCascade c with
    tree := commitFields c.tree c.finalized
    calls := ∅
    hierarchy := []
    resyncPending := false
    lastResponse := some s.nextSequence }

/-- the session when its response could not be sent -/
def giveUp (s : Session μ η) (c : Cascade μ) : Session μ η :=
  { s.withCascade c with
    dirty := c.dirty.markAll c.finalized
    calls := c.calls.rollback s.calls.checkpoint }

/-- writes the next response -/
def respond (b : Behaviour μ η σ) (s : Session μ η) :
    Session μ η × Except ResponseError Response :=
  match s.finalize b with
  | .error (e, c) =>
    ({ s.withCascade c with calls := c.calls.rollback s.calls.checkpoint }, .error (.cascade e))
  | .ok c =>
    let message := s.pendingMessage c
    match message.encode s.config.maxResponseBytes with
    | .ok payload => (s.commit c, .ok ⟨message, payload⟩)
    | .error e => (s.giveUp c, .error (.tooLarge e))

end Session

end UiSync
