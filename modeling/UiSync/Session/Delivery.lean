import UiSync.Session.Cascade

/-!
# Delivering invocations

An invocation passes the guard, is recorded there, and goes to the handler of its component and
interface. What the handler asked for is carried out in a fixed order: its own fields and calls,
its marks, and, if it succeeded, the changes of the tree one after the other until one fails.

A message delivers its invocations in order; one that fails does not stop the others. A client
that reports another response than the last one written is sent everything anew.
-/

namespace UiSync

/-- what became of the invocations of a message -/
structure InvocationReport where
  applied : Nat
  failures : List InvocationError
  /-- the client had missed a response -/
  resynchronized : Bool

def InvocationReport.isClean (r : InvocationReport) : Bool := r.failures.isEmpty

namespace Session

variable {μ η σ : Type}

/-- carries out one change of the tree -/
def applyRequest (b : Behaviour μ η σ) (s : Session μ η) :
    TreeRequest μ σ → Session μ η × Except TreeError Unit
  | .attach parent component setup =>
    match s.attach parent component with
    | .error e => (s, .error e)
    | .ok (id, s) =>
      match setup with
      | none => (s, .ok ())
      | some setup => b.setup setup s id
  | .detach id =>
    match s.detach id with
    | .error e => (s, .error e)
    | .ok s => (s, .ok ())

/-- carries out changes of the tree in order, up to the first that fails -/
def applyRequests (b : Behaviour μ η σ) (s : Session μ η) :
    List (TreeRequest μ σ) → Session μ η × Except TreeError Unit
  | [] => (s, .ok ())
  | r :: rs =>
    match s.applyRequest b r with
    | (s, .ok ()) => s.applyRequests b rs
    | (s, .error e) => (s, .error e)

/-- the session after the reaction of a handler's component, the changes of the tree left out -/
def absorb (s : Session μ η) (id : ComponentId) (r : Reaction μ σ) : Session μ η :=
  r.marks.foldl mark { s.update id r.apply with
    calls := Cascade.pushCalls s.calls id r.calls }

/-- carries out an invocation that passed the guard -/
def dispatch (b : Behaviour μ η σ) (s : Session μ η) (call : Invocation) :
    Session μ η × Except InvocationError Unit :=
  match s.registry.handler? call.component call.interface, s.tree.get? call.component with
  | some handler, some component =>
    let (r, result) := b.handle handler component call
    let s := s.absorb call.component r
    match result with
    | .error e => (s, .error e)
    | .ok () =>
      match s.applyRequests b r.requests with
      | (s, .ok ()) => (s, .ok ())
      | (s, .error e) => (s, .error (.rejected call.component e))
  | _, _ => (s, .error (.unknownTarget call.component call.interface))

/-- delivers one invocation -/
def deliver (b : Behaviour μ η σ) (s : Session μ η) (call : Invocation) :
    Session μ η × Except InvocationError Unit :=
  match s.guard.check call.sequence with
  | .error e => (s, .error e)
  | .ok () => { s with guard := s.guard.record call.sequence }.dispatch b call

/-- the client has missed the last response -/
def missed (s : Session μ η) (seen : Option SequenceNumber) : Bool :=
  match seen with
  | none => false
  | some _ => seen != s.lastResponse

/-- delivers one more invocation and adds its outcome to the report -/
def deliverNext (b : Behaviour μ η σ) (state : Session μ η × InvocationReport)
    (call : Invocation) : Session μ η × InvocationReport :=
  match state.1.deliver b call with
  | (s, .ok ()) => (s, { state.2 with applied := state.2.applied + 1 })
  | (s, .error e) => (s, { state.2 with failures := state.2.failures ++ [e] })

/-- delivers a message -/
def receive (b : Behaviour μ η σ) (s : Session μ η) (m : ClientMessage) :
    Session μ η × InvocationReport :=
  let missed := s.missed m.lastResponse
  let s := if missed then s.requestResync else s
  m.invocations.foldl (deliverNext b) (s, ⟨0, [], missed⟩)

end Session

end UiSync
