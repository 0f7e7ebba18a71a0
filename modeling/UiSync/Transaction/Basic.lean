/-!
# Transactions

A transaction is one thread's exclusive hold on a session. Listeners registered on the session
are told when it starts, in order, and when it ends, in reverse order. A listener that refuses or
breaks off is noted in the report; the others are told all the same.
-/

namespace UiSync

abbrev SessionId := String

/-- the length of a generated session identity -/
def SessionId.generatedLength : Nat := 24

/-- a thread of the server -/
structure ThreadId where
  value : Nat
  deriving DecidableEq

/-- a start that was refused -/
inductive TransactionError where
  /-- the thread already holds the session and would wait for itself -/
  | reentrant (session : SessionId)
  /-- another thread holds the session and the caller does not wait -/
  | busy (session : SessionId)
  deriving DecidableEq

def TransactionError.message : TransactionError → String
  | reentrant session => "Thread already holds the transaction of session " ++ session
  | busy session => "Session " ++ session ++ " is busy with another transaction"

inductive Phase where
  | starting
  | ending
  deriving DecidableEq

def Phase.name : Phase → String
  | starting => "start"
  | ending => "end"

structure TransactionInfo where
  session : SessionId
  /-- the place of the transaction among those of its session, from 1 -/
  request : Nat
  deriving DecidableEq

/-- what became of telling a listener -/
inductive HookOutcome where
  | done
  | refused (message : String)
  /-- it broke off, with a text unless it gave something else -/
  | brokeOff (text : Option String)

/-- the message of a hook that went wrong -/
def HookOutcome.failure? : HookOutcome → Option String
  | done => none
  | refused message => some message
  | brokeOff text => some (text.getD "listener panicked")

structure ListenerFailure where
  listener : String
  phase : Phase
  message : String
  deriving DecidableEq

def ListenerFailure.text (f : ListenerFailure) : String :=
  "Transaction listener " ++ f.listener ++ " failed on " ++ f.phase.name ++ ": " ++ f.message

structure TransactionReport where
  info : TransactionInfo
  failures : List ListenerFailure
  deriving DecidableEq

def TransactionReport.isClean (r : TransactionReport) : Bool := r.failures.isEmpty

/-- what listeners of type `ℓ` do to a state of type `ω` that they share -/
structure Hooks (ℓ ω : Type) where
  name : ℓ → String
  run : ℓ → Phase → TransactionInfo → ω → ω × HookOutcome

/-- tells one listener; a failure is added to those there are -/
def Hooks.notify (h : Hooks ℓ ω) (phase : Phase) (info : TransactionInfo)
    (s : ω × List ListenerFailure) (listener : ℓ) : ω × List ListenerFailure :=
  match h.run listener phase info s.1 with
  | (w, outcome) =>
    (w, s.2 ++ (outcome.failure?.map fun m => ⟨h.name listener, phase, m⟩).toList)

/-- tells listeners one after the other -/
def Hooks.notifyAll (h : Hooks ℓ ω) (phase : Phase) (info : TransactionInfo)
    (listeners : List ℓ) (s : ω × List ListenerFailure) : ω × List ListenerFailure :=
  listeners.foldl (h.notify phase info) s

end UiSync
