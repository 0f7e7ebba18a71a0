import UiSync.Message.Basic

/-!
# Dirty sets

The components of a session that have to be sent again.
-/

namespace UiSync

structure DirtySet where
  members : Dict ComponentId Unit

namespace DirtySet

def empty : DirtySet := ⟨∅⟩

instance : EmptyCollection DirtySet := ⟨empty⟩
instance : Inhabited DirtySet := ⟨empty⟩

def contains (d : DirtySet) (id : ComponentId) : Bool := d.members.contains id

def mark (d : DirtySet) (id : ComponentId) : DirtySet := ⟨d.members.insert id ()⟩

def clear (d : DirtySet) (id : ComponentId) : DirtySet := ⟨d.members.erase id⟩

def markAll (d : DirtySet) (ids : List ComponentId) : DirtySet := ids.foldl mark d

def clearAll (d : DirtySet) (ids : List ComponentId) : DirtySet := ids.foldl clear d

/-- the members, ascending -/
def toList (d : DirtySet) : List ComponentId := d.members.keys

def size (d : DirtySet) : Nat := d.members.size

def isEmpty (d : DirtySet) : Bool := d.members.isEmpty

end DirtySet

end UiSync
