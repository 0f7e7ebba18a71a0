import UiSync.Connection
import UiSync.Demo.Form
import UiSync.Demo.Listeners

/-!
# Demo stages

A server with everything around it: the shared rows, the journal and the named listeners, the
connections, and the sessions that the main thread holds. Other threads hold sessions only while
the main thread goes on with something else.
-/

namespace UiSync.Demo

abbrev PartServer := Server Model Handler Listener

structure Stage where
  /-- how a session is built -/
  build : Config → PartSession
  server : PartServer
  journal : Journal
  /-- the rows that listings share -/
  rows : List Row
  listeners : Dict String Listener
  /-- the serial of the latest listener -/
  lastSerial : Nat
  connections : Dict String Connection
  /-- the keys of the contexts that the main thread holds, latest first -/
  held : List Nat
  /-- how many other threads hold a session -/
  others : Nat

namespace Stage

def mainThread : ThreadId := ⟨0⟩

def ofRows (build : Config → PartSession) (config : Config) (rows : List Row) : Stage :=
  ⟨build, .ofConfig config, ∅, rows, ∅, 0, ∅, [], 0⟩

def site (s : Stage) : Site Model Handler Setup Listener Journal :=
  ⟨fun _ => s.build, behaviour s.rows, hooks⟩

/-- the context of a session, which is built on first access -/
def context (s : Stage) (id : SessionId) : Stage × Context PartSession Listener :=
  match s.server.context s.site id with
  | (_, c, server) => ({ s with server := server }, c)

def updateContext (s : Stage) (id : SessionId)
    (f : Context PartSession Listener → Context PartSession Listener) : Stage :=
  { s with server := s.server.updateContext s.site id f }

/-! ## Requests and work -/

def request (s : Stage) (patience : Patience) (id : SessionId) (payload : Json.Bytes) :
    Stage × Reply :=
  match s.server.request s.site s.journal mainThread patience id payload with
  | (journal, server, reply) => ({ s with journal := journal, server := server }, reply)

def transact (s : Stage) (patience : Patience) (id : SessionId)
    (f : PartSession → PartSession × α) : Stage × Access α :=
  match s.server.transact s.site s.journal mainThread patience id f with
  | (journal, server, access) => ({ s with journal := journal, server := server }, access)

/-! ## Holding sessions -/

/-- starts a transaction for a thread -/
def start (s : Stage) (thread : ThreadId) (patience : Patience) (id : SessionId) : Stage × Start :=
  match s.server.start s.site s.journal thread patience id with
  | (journal, server, start) => ({ s with journal := journal, server := server }, start)

/-- starts a transaction that the main thread holds -/
def hold (s : Stage) (patience : Patience) (id : SessionId) : Stage × Start :=
  match s.start mainThread patience id with
  | (s, .started key) => ({ s with held := key :: s.held }, .started key)
  | (s, start) => (s, start)

/-- starts a transaction that another thread holds -/
def holdElsewhere (s : Stage) (id : SessionId) : Stage × Start :=
  match s.start ⟨s.others + 1⟩ .waits id with
  | (s, .started key) => ({ s with others := s.others + 1 }, .started key)
  | (s, start) => (s, start)

def finish (s : Stage) (key : Nat) : Stage × Option TransactionReport :=
  match s.server.finish s.site s.journal key with
  | (journal, server, report) => ({ s with journal := journal, server := server }, report)

/-- ends the latest transaction that the main thread holds -/
def letGo (s : Stage) : Stage × Option TransactionReport :=
  match s.held with
  | [] => (s, none)
  | key :: held => { s with held := held }.finish key

/-- ends the transaction that another thread holds -/
def letGoElsewhere (s : Stage) (key : Nat) : Stage × Option TransactionReport :=
  { s with others := s.others - 1 }.finish key

/-- the latest transaction that the main thread holds -/
def heldTransaction? (s : Stage) : Option (Transaction Listener) :=
  (s.held.head?.bind s.server.contexts.get?).bind Context.current

/-- works on the session that the main thread took last -/
def workHeld (s : Stage) (f : PartSession → PartSession × α) : Stage × Option α :=
  match s.held.head?.bind fun key => (s.server.contexts.get? key).map (key, ·) with
  | none => (s, none)
  | some (key, c) =>
    match f c.ui with
    | (ui, a) => ({ s with server := s.server.setContext key { c with ui := ui } }, some a)

/-! ## Listeners -/

/-- makes a listener under a name -/
def makeListener (s : Stage) (name : String) (kind : ListenerKind) : Stage :=
  { s with
    listeners := s.listeners.insert name ⟨s.lastSerial + 1, name, kind⟩
    lastSerial := s.lastSerial + 1 }

/-- registers the listener of a name on a session -/
def addListener (s : Stage) (id : SessionId) (name : String) : Stage :=
  match s.listeners.get? name with
  | none => s
  | some l => s.updateContext id (·.addListener l)

/-- takes the listener of a name out of a session; answers whether it was registered there -/
def removeListener (s : Stage) (id : SessionId) (name : String) : Stage × Bool :=
  match s.context id, s.listeners.get? name with
  | (s, _), none => (s, false)
  | (s, c), some l => (s.updateContext id (·.removeListener l), c.listeners.contains l)

/-! ## Rows -/

/-- tells every listing of the shared rows of a change -/
def tellRows (s : Stage) (change : DataChange Row) : Stage :=
  { s with server := s.server.updateAll (observeRows change) }

/-! ## Connections -/

def connect (s : Stage) (name : String) (id : SessionId) : Stage :=
  { s with connections := s.connections.insert name (.ofSession id) }

/-- works on the client of a connection -/
def updateClient (s : Stage) (name : String) (f : Client → Client × α) : Stage × Option α :=
  match s.connections.get? name with
  | none => (s, none)
  | some c =>
    match f c.client with
    | (client, a) =>
      ({ s with connections := s.connections.insert name { c with client := client } }, some a)

def roundTrip (s : Stage) (name : String) (loses : Bool) : Stage × Option RoundTrip :=
  match s.connections.get? name with
  | none => (s, none)
  | some c =>
    match c.roundTrip s.site s.server s.journal mainThread loses with
    | (journal, server, c, trip) =>
      ({ s with
        journal := journal
        server := server
        connections := s.connections.insert name c }, some trip)

end Stage

end UiSync.Demo
