import UiSync.Dict
import UiSync.Transaction.Basic

/-!
# Demo listeners

Transaction listeners that keep a record, refuse, break off or count, and what they share: one log
and the counters by listener.
-/

namespace UiSync.Demo

/-- what a scripted hook does after it has written to the log -/
inductive HookScript where
  | passes
  | refuses (message : String)
  | breaksOff (text : Option String)
  deriving DecidableEq

inductive ListenerKind where
  /-- writes to the log -/
  | recording
  /-- refuses every start -/
  | failing
  /-- breaks off at every end -/
  | panicking
  /-- counts open and ended transactions -/
  | counter
  | silent
  /-- refuses every start, without a name of its own -/
  | unnamed
  | scripted (onStart onEnd : HookScript)
  deriving DecidableEq

/-- a listener; `serial` tells apart listeners that were made separately -/
structure Listener where
  serial : Nat
  name : String
  kind : ListenerKind
  deriving DecidableEq

/-- the transactions a counter saw: open now, open at most, and ended -/
structure Count where
  active : Nat := 0
  maxActive : Nat := 0
  completed : Nat := 0

/-- what the listeners share -/
structure Journal where
  /-- latest last -/
  log : List String
  /-- by the serial of the counter -/
  counts : Dict Nat Count

namespace Journal

def empty : Journal := ⟨[], ∅⟩

instance : EmptyCollection Journal := ⟨empty⟩
instance : Inhabited Journal := ⟨empty⟩

def write (j : Journal) (line : String) : Journal := { j with log := j.log ++ [line] }

def count (j : Journal) (serial : Nat) : Count := (j.counts.get? serial).getD {}

def setCount (j : Journal) (serial : Nat) (c : Count) : Journal :=
  { j with counts := j.counts.insert serial c }

end Journal

namespace Count

def started (c : Count) : Count :=
  { c with active := c.active + 1, maxActive := max c.maxActive (c.active + 1) }

def ended (c : Count) : Count :=
  { c with active := c.active - 1, completed := c.completed + 1 }

end Count

def HookScript.outcome : HookScript → HookOutcome
  | passes => .done
  | refuses message => .refused message
  | breaksOff text => .brokeOff text

namespace Listener

/-- the name in reports -/
def reportName (l : Listener) : String :=
  match l.kind with
  | .failing => "failing"
  | .panicking => "panicking"
  | .unnamed => "oracle_driver::server::Unnamed"
  | _ => l.name

/-- the log line of a scripted hook -/
def entry (l : Listener) (phase : Phase) (info : TransactionInfo) : String :=
  l.name ++ ":" ++ phase.name ++ ":" ++ info.session ++ "#" ++ toString info.request

/-- runs a hook of a listener -/
def run (l : Listener) (phase : Phase) (info : TransactionInfo) (j : Journal) :
    Journal × HookOutcome :=
  match l.kind, phase with
  | .recording, _ => (j.write (l.name ++ ":" ++ phase.name), .done)
  | .failing, .starting => (j, .refused "refused to start")
  | .panicking, .ending => (j, .brokeOff (some "end hook exploded"))
  | .counter, .starting => (j.setCount l.serial (j.count l.serial).started, .done)
  | .counter, .ending => (j.setCount l.serial (j.count l.serial).ended, .done)
  | .unnamed, .starting => (j, .refused "unnamed refused")
  | .scripted onStart _, .starting => (j.write (l.entry phase info), onStart.outcome)
  | .scripted _ onEnd, .ending => (j.write (l.entry phase info), onEnd.outcome)
  | _, _ => (j, .done)

end Listener

def hooks : Hooks Listener Journal := ⟨Listener.reportName, Listener.run⟩

end UiSync.Demo
