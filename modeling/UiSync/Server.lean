import UiSync.Message.Decode
import UiSync.Session.Delivery
import UiSync.Session.Response
import UiSync.Transaction.Context

/-!
# Servers

A server keeps a context for every session and answers requests, each in one transaction on its
session. A request that cannot be decoded touches nothing. Ending a session takes its context out
of the table only: a transaction that still holds it goes on, while the next request for the same
identity builds a new session.
-/

namespace UiSync

open Json

/-- what a server is built from: how a session is made, what its components do, and what its
listeners do -/
structure Site (μ η σ ℓ ω : Type) where
  build : SessionId → Config → Session μ η
  behaviour : Behaviour μ η σ
  hooks : Hooks ℓ ω

structure Server (μ η ℓ : Type) where
  config : Config
  /-- the keys of the contexts of the sessions there are -/
  sessions : Dict SessionId Nat
  /-- contexts by key, those of ended sessions as well -/
  contexts : Dict Nat (Context (Session μ η) ℓ)
  /-- the key of the latest context -/
  lastKey : Nat

/-- what came of asking for a transaction -/
inductive Start where
  | started (key : Nat)
  | refused (error : TransactionError)
  | waiting

/-- what came of work in a transaction -/
inductive Access (α : Type) where
  | done (result : α) (report : TransactionReport)
  | refused (error : TransactionError)
  | waiting

inductive RequestError where
  | undecodable (error : Malformed)
  | refused (error : TransactionError)
  | unanswered (error : ResponseError)

def RequestError.message : RequestError → String
  | undecodable error => "Could not decode client request: " ++ error.message
  | refused error => error.message
  | unanswered error => error.message

/-- what a request that was answered came to -/
structure RequestOutcome where
  invocations : InvocationReport
  response : Response
  transaction : TransactionReport

inductive Reply where
  | answered (outcome : RequestOutcome)
  | failed (error : RequestError)
  | waiting

namespace Server

variable {μ η σ ℓ ω α : Type}

def ofConfig (config : Config) : Server μ η ℓ := ⟨config, ∅, ∅, 0⟩

/-! ## Sessions -/

def contains (s : Server μ η ℓ) (id : SessionId) : Bool := s.sessions.contains id

/-- the number of sessions -/
def size (s : Server μ η ℓ) : Nat := s.sessions.size

def isEmpty (s : Server μ η ℓ) : Bool := s.sessions.isEmpty

/-- the context of a session and its key, if there is such a session -/
def context? (s : Server μ η ℓ) (id : SessionId) : Option (Nat × Context (Session μ η) ℓ) :=
  (s.sessions.get? id).bind fun key => (s.contexts.get? key).map (key, ·)

/-- builds a session -/
def create (site : Site μ η σ ℓ ω) (s : Server μ η ℓ) (id : SessionId) :
    Nat × Context (Session μ η) ℓ × Server μ η ℓ :=
  let key := s.lastKey + 1
  let c := Context.ofUi id (site.build id s.config)
  (key, c, { s with
    sessions := s.sessions.insert id key
    contexts := s.contexts.insert key c
    lastKey := key })

/-- the context of a session, which is built on first access -/
def context (site : Site μ η σ ℓ ω) (s : Server μ η ℓ) (id : SessionId) :
    Nat × Context (Session μ η) ℓ × Server μ η ℓ :=
  match s.context? id with
  | some (key, c) => (key, c, s)
  | none => s.create site id

/-- takes a session out of the table -/
def endSession (s : Server μ η ℓ) (id : SessionId) : Server μ η ℓ :=
  { s with sessions := s.sessions.erase id }

def setContext (s : Server μ η ℓ) (key : Nat) (c : Context (Session μ η) ℓ) : Server μ η ℓ :=
  { s with contexts := s.contexts.insert key c }

/-- changes the context of a session, which is built on first access -/
def updateContext (site : Site μ η σ ℓ ω) (s : Server μ η ℓ) (id : SessionId)
    (f : Context (Session μ η) ℓ → Context (Session μ η) ℓ) : Server μ η ℓ :=
  match s.context site id with
  | (key, c, s) => s.setContext key (f c)

/-- changes every session, also those that are held -/
def updateAll (s : Server μ η ℓ) (f : Session μ η → Session μ η) : Server μ η ℓ :=
  { s with contexts := s.contexts.map fun _ c => { c with ui := f c.ui } }

/-! ## Transactions -/

/-- asks for a transaction on a session -/
def start (site : Site μ η σ ℓ ω) (s : Server μ η ℓ) (w : ω) (thread : ThreadId)
    (patience : Patience) (id : SessionId) : ω × Server μ η ℓ × Start :=
  match s.context site id with
  | (key, c, s) =>
    match c.admission thread patience with
    | .refused e => (w, s, .refused e)
    | .waiting => (w, s, .waiting)
    | .free =>
      match c.start site.hooks thread w with
      | (w, c, _) => (w, s.setContext key c, .started key)

/-- ends the transaction on a context, if there is one -/
def finish (site : Site μ η σ ℓ ω) (s : Server μ η ℓ) (w : ω) (key : Nat) :
    ω × Server μ η ℓ × Option TransactionReport :=
  match s.contexts.get? key, (s.contexts.get? key).bind Context.current with
  | some c, some t =>
    match c.finish site.hooks t w with
    | (w, c, report) => (w, s.setContext key c, some report)
  | _, _ => (w, s, none)

/-- works on a session in one transaction -/
def transact (site : Site μ η σ ℓ ω) (s : Server μ η ℓ) (w : ω) (thread : ThreadId)
    (patience : Patience) (id : SessionId) (f : Session μ η → Session μ η × α) :
    ω × Server μ η ℓ × Access α :=
  match s.context site id with
  | (key, c, s) =>
    match c.admission thread patience with
    | .refused e => (w, s, .refused e)
    | .waiting => (w, s, .waiting)
    | .free =>
      match c.transact site.hooks thread w f with
      | (w, c, result, report) => (w, s.setContext key c, .done result report)

/-! ## Requests -/

/-- delivers a message to a session and writes the response -/
def exchange (b : Behaviour μ η σ) (m : ClientMessage) (ui : Session μ η) :
    Session μ η × InvocationReport × Except ResponseError Response :=
  match ui.receive b m with
  | (ui, report) =>
    match ui.respond b with
    | (ui, response) => (ui, report, response)

/-- the reply to a request, from its transaction -/
def replyOf : Access (InvocationReport × Except ResponseError Response) → Reply
  | .done (invocations, .ok response) report => .answered ⟨invocations, response, report⟩
  | .done (_, .error e) _ => .failed (.unanswered e)
  | .refused e => .failed (.refused e)
  | .waiting => .waiting

/-- answers an encoded request -/
def request (site : Site μ η σ ℓ ω) (s : Server μ η ℓ) (w : ω) (thread : ThreadId)
    (patience : Patience) (id : SessionId) (payload : Bytes) : ω × Server μ η ℓ × Reply :=
  match ClientMessage.decode payload with
  | .error e => (w, s, .failed (.undecodable e))
  | .ok m =>
    match s.transact site w thread patience id (exchange site.behaviour m) with
    | (w, s, access) => (w, s, replyOf access)

end Server

end UiSync
