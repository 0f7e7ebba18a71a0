import UiSync.Component.Basic
import UiSync.Data.Sources
import UiSync.Data.Window

/-!
# Listings

A listing shows one page of rows through a window and may have an editor open for a row. Its rows
are its own or those that listings share; the shared ones change while sessions run.
-/

namespace UiSync.Demo

open Json

structure Row where
  id : Nat
  label : String
  deriving DecidableEq

/-- rows numbered from 1 -/
def numberedRows (count : Nat) : List Row :=
  (List.range count).map fun i => ⟨i + 1, "Row " ++ toString (i + 1)⟩

/-- shared rows, which keep their identity when they are relabelled -/
def sharedSource (rows : List Row) : ListSource Row := .ofItems rows fun a b => a.id == b.id

abbrev RowQuery := Query Row (Row → Bool)

structure Listing where
  /-- the rows of its own, if it does not show the shared ones -/
  ownRows : Option (List Row)
  window : Window Row (Row → Bool)
  /-- the editor, a child component -/
  editor : Option ComponentId

namespace Listing

/-- a listing of the first page of its own or of the shared rows -/
def ofRows (ownRows : Option (List Row)) (limit : Nat) : Listing :=
  ⟨ownRows, .ofQuery (Query.all.withRange 0 limit), none⟩

def source (shared : List Row) (l : Listing) : ListSource Row :=
  match l.ownRows with
  | some rows => .ofItems rows fun a b => a == b
  | none => sharedSource shared

/-- the listing with its page loaded -/
def load (shared : List Row) (l : Listing) : Listing :=
  { l with window := l.window.load (l.source shared).provider }

/-- what a loaded listing shows -/
def edits (l : Listing) : List Edit := [
  .set "rows" (.array (l.window.items.map fun row => .string row.label)),
  .set "size" (.ofNat l.window.size)]

/-- the listing once it was told of a change of the shared rows -/
def observe (change : DataChange Row) (l : Listing) : Listing :=
  match l.ownRows with
  | some _ => l
  | none => { l with window := l.window.observe (fun a b => a.id == b.id) change }

end Listing

end UiSync.Demo
