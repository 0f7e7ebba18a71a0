import UiSync.Component.Tree
import UiSync.Json.View

/-!
# Invocations that fail

Why an invocation from the client is not carried out, and how a handler gets at its arguments. A
failure stays with its invocation.
-/

namespace UiSync

open Json

inductive InvocationError where
  | unknownTarget (component : ComponentId) (interface : String)
  | staleSequence (sequence lastApplied : SequenceNumber)
  | unknownMethod (interface method : String)
  | missingArgument (method : String) (index given : Nat)
  | invalidArgument (method : String) (index : Nat) (reason : Reason)
  | wrongComponent (component : ComponentId) (expected : String)
  | failed (component : ComponentId) (interface method message : String)
  /-- a change of the tree the handler asked for could not be made; those before it stay -/
  | rejected (component : ComponentId) (error : TreeError)

def InvocationError.message : InvocationError → String
  | unknownTarget component interface =>
    "No RPC handler for interface '" ++ interface ++ "' on component " ++ component.text
  | staleSequence sequence lastApplied =>
    "Dropped invocation with sequence " ++ toString sequence.value.toNat ++
      ": last applied sequence is " ++ toString lastApplied.value.toNat
  | unknownMethod interface method =>
    "Interface '" ++ interface ++ "' has no method '" ++ method ++ "'"
  | missingArgument method index given =>
    "Argument " ++ toString index ++ " of '" ++ method ++ "' is invalid: expected at least " ++
      toString (index + 1) ++ " arguments, got " ++ toString given
  | invalidArgument method index reason =>
    "Argument " ++ toString index ++ " of '" ++ method ++ "' is invalid: " ++ reason.message
  | wrongComponent component expected =>
    "Component " ++ component.text ++ " is not a " ++ expected
  | failed component interface method message =>
    "Handler for '" ++ interface ++ "." ++ method ++ "' on component " ++ component.text ++
      " failed: " ++ message
  | rejected component error =>
    "Tree change requested by component " ++ component.text ++ " failed: " ++ error.message

/-- an argument of an invocation seen through a view -/
def Invocation.arg (call : Invocation) (view : View α) (index : Nat) :
    Except InvocationError α :=
  match call.args[index]? with
  | none => .error (.missingArgument call.method index call.args.length)
  | some v =>
    match view v with
    | .ok a => .ok a
    | .error reason => .error (.invalidArgument call.method index reason)

end UiSync
