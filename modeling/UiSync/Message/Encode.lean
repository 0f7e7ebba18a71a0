import UiSync.Json.Writer
import UiSync.Message.Basic

/-!
# Writing messages

A message is an object with its fields in a fixed order; a missing parent or last response is
written as `null`. A server message may be bounded in size.
-/

namespace UiSync

open Json

/-- the kinds of message, as reports name them -/
inductive MessageKind where
  | client
  | server
  deriving DecidableEq

def MessageKind.text : MessageKind → String
  | client => "ClientMessage"
  | server => "ServerMessage"

/-- an encoded message is longer than the limit allows -/
structure PayloadTooLarge where
  kind : MessageKind
  size : Nat
  limit : Nat

def PayloadTooLarge.message (e : PayloadTooLarge) : String :=
  "Encoded " ++ e.kind.text ++ " is " ++ toString e.size ++
    " bytes, exceeding the configured limit of " ++ toString e.limit ++ " bytes"

namespace Encode

def id (i : ComponentId) : Bytes := Write.nat i.value

def sequence (s : SequenceNumber) : Bytes := Write.nat s.value.toNat

def args (vs : List Value) : Bytes := Write.array (Value.itemBytes vs)

def treeChange : TreeChange → Bytes
  | .attached i parent kind =>
    Write.object [("type", Write.string "attached"), ("id", id i),
      ("parent", Write.optional id parent), ("kind", Write.string kind)]
  | .detached i => Write.object [("type", Write.string "detached"), ("id", id i)]

def fieldChange (c : FieldChange) : Bytes :=
  Write.object [("component", id c.component), ("version", Write.nat c.version),
    ("diff", Write.object (Value.memberBytes c.diff.entries))]

def clientCall (c : ClientCall) : Bytes :=
  Write.object [("component", id c.component), ("interface", Write.string c.interface),
    ("method", Write.string c.method), ("args", args c.args)]

def invocation (c : Invocation) : Bytes :=
  Write.object [("component", id c.component), ("interface", Write.string c.interface),
    ("method", Write.string c.method), ("args", args c.args), ("sequence", sequence c.sequence)]

end Encode

/-- the text of a server message -/
def ServerMessage.bytes (m : ServerMessage) : Bytes :=
  Write.object [("sequence", Encode.sequence m.sequence),
    ("resynchronize", Write.bool m.resynchronize),
    ("hierarchy", Write.array (m.hierarchy.map Encode.treeChange)),
    ("changes", Write.array (m.changes.map Encode.fieldChange)),
    ("calls", Write.array (m.calls.map Encode.clientCall))]

/-- the text of a client message -/
def ClientMessage.bytes (m : ClientMessage) : Bytes :=
  Write.object [("lastResponse", Write.optional Encode.sequence m.lastResponse),
    ("invocations", Write.array (m.invocations.map Encode.invocation))]

/-- the text of a server message of at most `limit` bytes -/
def ServerMessage.encode (m : ServerMessage) (limit : Option Nat) :
    Except PayloadTooLarge Bytes :=
  let payload := m.bytes
  match limit with
  | none => .ok payload
  | some limit =>
    if payload.length ≤ limit then .ok payload
    else .error ⟨.server, payload.length, limit⟩

end UiSync
