import UiSync.Client
import UiSync.Server

/-!
# Connections

A connection is a client together with the session it talks to. In a round trip the client sends
everything it has queued; the response may be lost on its way back.
-/

namespace UiSync

structure Connection where
  session : SessionId
  client : Client

/-- what a round trip came to -/
inductive RoundTrip where
  /-- the client received the response -/
  | delivered (outcome : RequestOutcome) (applied : Except ClientError ApplyOutcome)
  /-- the response was lost -/
  | lost (outcome : RequestOutcome)
  | failed (error : RequestError)
  | waiting

namespace Connection

variable {μ η σ ℓ ω : Type}

/-- a new client of a session -/
def ofSession (session : SessionId) : Connection := ⟨session, Client.new⟩

/-- sends a request and receives the response, unless it is lost -/
def roundTrip (site : Site μ η σ ℓ ω) (c : Connection) (s : Server μ η ℓ) (w : ω)
    (thread : ThreadId) (loses : Bool) : ω × Server μ η ℓ × Connection × RoundTrip :=
  match c.client.takeRequest with
  | (message, client) =>
    match s.request site w thread .waits c.session message.bytes with
    | (w, s, .waiting) => (w, s, { c with client := client }, .waiting)
    | (w, s, .failed e) => (w, s, { c with client := client }, .failed e)
    | (w, s, .answered outcome) =>
      if loses then (w, s, { c with client := client }, .lost outcome)
      else
        match client.receive outcome.response.payload with
        | (client, applied) => (w, s, { c with client := client }, .delivered outcome applied)

end Connection

end UiSync
