/-!
# Sequence numbers

Responses and invocations are numbered on a circle of 65536. One number is ahead of another
when it is reached from it by fewer than half a turn of steps forward; at exactly half a turn
the larger number counts as ahead, so of two different numbers exactly one is ahead.
-/

namespace UiSync

/-- a place on the circle of 65536 numbers -/
structure SequenceNumber where
  value : UInt16
  deriving DecidableEq

namespace SequenceNumber

instance : Inhabited SequenceNumber := ⟨⟨0⟩⟩

/-- half a turn -/
def halfTurn : UInt16 := 0x8000

/-- `a` lies ahead of `b` -/
def ahead (a b : UInt16) : Bool :=
  a - b != 0 && (a - b < halfTurn || (a - b == halfTurn && b < a))

/-- the first number of a series -/
def first : SequenceNumber := ⟨0⟩

/-- the number after this one, 0 following 65535 -/
def next (s : SequenceNumber) : SequenceNumber := ⟨s.value + 1⟩

/-- `s` lies ahead of `t` -/
def isNewerThan (s t : SequenceNumber) : Bool := ahead s.value t.value

/-- `t` lies ahead of `s` -/
def isOlderThan (s t : SequenceNumber) : Bool := ahead t.value s.value

/-- the number of the `n`-th element of a series that starts at 0 -/
def ofNat (n : Nat) : SequenceNumber := ⟨UInt16.ofNat n⟩

end SequenceNumber

end UiSync
