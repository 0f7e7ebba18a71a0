import UiSync.Session.Invoking

/-!
# The sequence guard

Invocations that do not move the sequence forward are refused, so one that is delivered again is
not carried out again. A guard may be told to let the last number pass once more.
-/

namespace UiSync

structure SequenceGuard where
  lastApplied : Option SequenceNumber
  allowDuplicate : Bool

namespace SequenceGuard

def start (allowDuplicate : Bool) : SequenceGuard := ⟨none, allowDuplicate⟩

/-- the number may not pass -/
def isStale (g : SequenceGuard) (sequence last : SequenceNumber) : Bool :=
  sequence.isOlderThan last || (sequence == last && !g.allowDuplicate)

def check (g : SequenceGuard) (sequence : SequenceNumber) : Except InvocationError Unit :=
  match g.lastApplied with
  | none => .ok ()
  | some last =>
    if g.isStale sequence last then .error (.staleSequence sequence last) else .ok ()

def record (g : SequenceGuard) (sequence : SequenceNumber) : SequenceGuard :=
  { g with lastApplied := some sequence }

end SequenceGuard

end UiSync
