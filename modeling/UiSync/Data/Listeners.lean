/-!
# Listeners

Whoever wants to know when data changes registers a listener and gets a key, by which it can be
taken out again. Keys are never handed out twice, so taking one out leaves another registration
of the same listener alone.

A change is told to those that were registered when it came (`Listeners.fire`); what they do to
the list meanwhile counts from the next change on.
-/

namespace UiSync

/-- a change of the data behind a provider -/
inductive DataChange (τ : Type) where
  /-- anything may have changed -/
  | all
  /-- one item was replaced by a new version -/
  | item (version : τ)

structure Listeners (ℓ : Type) where
  /-- the registrations by key, oldest first -/
  entries : List (Nat × ℓ)
  /-- the key of the latest registration -/
  lastKey : Nat

namespace Listeners

def empty : Listeners ℓ := ⟨[], 0⟩

instance : EmptyCollection (Listeners ℓ) := ⟨empty⟩
instance : Inhabited (Listeners ℓ) := ⟨empty⟩

/-- registers a listener; answers with its key -/
def add (ls : Listeners ℓ) (listener : ℓ) : Nat × Listeners ℓ :=
  (ls.lastKey + 1, ⟨ls.entries ++ [(ls.lastKey + 1, listener)], ls.lastKey + 1⟩)

/-- takes a registration out -/
def remove (ls : Listeners ℓ) (key : Nat) : Listeners ℓ :=
  { ls with entries := ls.entries.filter fun e => e.1 != key }

def size (ls : Listeners ℓ) : Nat := ls.entries.length

def isEmpty (ls : Listeners ℓ) : Bool := ls.entries.isEmpty

/-- tells every registered listener, in the order of registration, threading a state -/
def fire (ls : Listeners ℓ) (notify : σ → Nat × ℓ → σ) (s : σ) : σ := ls.entries.foldl notify s

end Listeners

end UiSync
