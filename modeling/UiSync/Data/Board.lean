import UiSync.Data.Window
import UiSync.Dict

/-!
# Boards

A board keeps everything that watches one provider: open windows, each registered as a listener
under its own key, and named listeners, which write down what they are told and may take another
registration out as they do.
-/

namespace UiSync

/-- a listener that keeps a record -/
structure Watcher where
  name : String
  /-- the name of a registration to take out when a change comes -/
  removes : Option String

inductive Subscriber where
  /-- the window that is open under the key of the registration -/
  | window
  | watcher (w : Watcher)

structure Board (τ φ : Type) where
  listeners : Listeners Subscriber
  /-- the open windows by their keys -/
  windows : Dict Nat (Window τ φ)
  /-- the keys of windows by their names -/
  windowKeys : Dict String Nat
  /-- the keys of watchers by their names -/
  watcherKeys : Dict String Nat
  /-- what watchers were told, latest last -/
  told : List (String × DataChange τ)

namespace Board

variable {τ φ : Type}

def empty : Board τ φ := ⟨∅, ∅, ∅, ∅, []⟩

instance : EmptyCollection (Board τ φ) := ⟨empty⟩
instance : Inhabited (Board τ φ) := ⟨empty⟩

/-! ## Watchers -/

/-- registers a watcher; an earlier one of its name stays registered without a name -/
def watch (b : Board τ φ) (w : Watcher) : Board τ φ :=
  let (key, listeners) := b.listeners.add (.watcher w)
  { b with listeners := listeners, watcherKeys := b.watcherKeys.insert w.name key }

/-- takes out the registration of a name, if there is one -/
def unwatch (b : Board τ φ) (name : String) : Board τ φ :=
  match b.watcherKeys.get? name with
  | none => b
  | some key =>
    { b with listeners := b.listeners.remove key, watcherKeys := b.watcherKeys.erase name }

/-! ## Windows -/

def close (b : Board τ φ) (name : String) : Board τ φ :=
  match b.windowKeys.get? name with
  | none => b
  | some key =>
    { b with
      listeners := b.listeners.remove key
      windows := b.windows.erase key
      windowKeys := b.windowKeys.erase name }

/-- opens a window, closing an earlier one of its name -/
def openWindow (b : Board τ φ) (name : String) (query : Query τ φ) : Board τ φ :=
  let (key, listeners) := b.listeners.add .window
  let opened := { b with listeners := listeners, windows := b.windows.insert key (.ofQuery query) }
  { opened.close name with windowKeys := (opened.close name).windowKeys.insert name key }

def window? (b : Board τ φ) (name : String) : Option (Window τ φ) :=
  (b.windowKeys.get? name).bind b.windows.get?

def updateWindow (b : Board τ φ) (name : String) (f : Window τ φ → Window τ φ) : Board τ φ :=
  match b.windowKeys.get? name with
  | none => b
  | some key => { b with windows := b.windows.modify key f }

/-! ## Changes -/

/-- tells one subscriber of a change -/
def notify (same : τ → τ → Bool) (change : DataChange τ) (b : Board τ φ)
    (entry : Nat × Subscriber) : Board τ φ :=
  match entry.2 with
  | .window => { b with windows := b.windows.modify entry.1 (Window.observe same change) }
  | .watcher w =>
    let noted := { b with told := b.told ++ [(w.name, change)] }
    (w.removes.map noted.unwatch).getD noted

/-- tells everyone who watches of a change -/
def fire (b : Board τ φ) (same : τ → τ → Bool) (change : DataChange τ) : Board τ φ :=
  b.listeners.fire (notify same change) b

end Board

end UiSync
