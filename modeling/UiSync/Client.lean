import UiSync.Message.Decode
import UiSync.Replica

/-!
# Clients

A client keeps a replica of the server's tree and numbers the invocations it sends. A response is
applied as a whole or not at all. One that is not newer than the last applied one is dropped, and
so is one that does not follow it directly, unless it builds the replica anew.
-/

namespace UiSync

open Json

/-- what became of a response -/
inductive ApplyOutcome where
  | applied
  /-- not newer than the last one -/
  | stale
  /-- responses in between were missed -/
  | outOfSync
  deriving DecidableEq

inductive ClientError where
  | malformed (error : Malformed)
  | replica (error : ReplicaError)

def ClientError.message : ClientError → String
  | malformed error => error.message
  | replica error => error.message

structure Client where
  replica : Replica
  /-- the number of the next invocation -/
  nextSequence : SequenceNumber
  /-- the number of the last response that was applied -/
  lastResponse : Option SequenceNumber
  /-- the invocations for the next request -/
  outgoing : Array Invocation
  /-- the calls received and not taken yet -/
  received : List ClientCall

namespace Client

def new : Client := ⟨∅, .first, none, #[], []⟩

instance : Inhabited Client := ⟨new⟩

/-! ## Outgoing -/

/-- queues an invocation; answers with its number -/
def invoke (c : Client) (component : ComponentId) (interface method : String)
    (args : List Value) : SequenceNumber × Client :=
  (c.nextSequence, { c with
    nextSequence := c.nextSequence.next
    outgoing := c.outgoing.push ⟨component, interface, method, args, c.nextSequence⟩ })

def hasOutgoing (c : Client) : Bool := !c.outgoing.isEmpty

/-- the next request, with every queued invocation -/
def takeRequest (c : Client) : ClientMessage × Client :=
  (⟨c.lastResponse, c.outgoing.toList⟩, { c with outgoing := #[] })

/-! ## Incoming -/

/-- how the number of a message relates to the last response applied -/
def judge (c : Client) (m : ServerMessage) : ApplyOutcome :=
  match c.lastResponse with
  | none => .applied
  | some last =>
    if !m.sequence.isNewerThan last then .stale
    else if !m.resynchronize && m.sequence != last.next then .outOfSync
    else .applied

/-- applies a response -/
def apply (c : Client) (m : ServerMessage) : Client × Except ReplicaError ApplyOutcome :=
  match c.judge m with
  | .applied =>
    match (if m.resynchronize then ∅ else c.replica).applyMessage m with
    | .error e => (c, .error e)
    | .ok replica =>
      ({ c with
        replica := replica
        received := c.received ++ m.calls
        lastResponse := some m.sequence }, .ok .applied)
  | outcome => (c, .ok outcome)

/-- reads and applies an encoded response -/
def receive (c : Client) (payload : Bytes) : Client × Except ClientError ApplyOutcome :=
  match ServerMessage.decode payload with
  | .error e => (c, .error (.malformed e))
  | .ok m =>
    match c.apply m with
    | (c, .ok outcome) => (c, .ok outcome)
    | (c, .error e) => (c, .error (.replica e))

/-- the calls received since they were last taken -/
def takeCalls (c : Client) : List ClientCall × Client := (c.received, { c with received := [] })

end Client

end UiSync
