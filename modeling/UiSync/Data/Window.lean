import UiSync.Data.Listeners
import UiSync.Data.Provider

/-!
# Windows

A window caches one page of a provider's items. It asks the provider only when it is read while
stale. A change of everything makes it stale; a new version of one item replaces the cached one in
its place.
-/

namespace UiSync

structure Window (τ φ : Type) where
  query : Query τ φ
  /-- the page, as it was last loaded -/
  items : List τ
  size : Nat
  /-- the page has to be loaded again before it is read -/
  stale : Bool

namespace Window

/-- a window that was never read -/
def ofQuery (query : Query τ φ) : Window τ φ := ⟨query, [], 0, true⟩

/-- puts a new version in the place of the first item it is a version of -/
def replaceFirst (same : τ → τ → Bool) (version : τ) : List τ → List τ
  | [] => []
  | item :: items =>
    if same item version then version :: items else item :: replaceFirst same version items

/-- the window once it was told of a change -/
def observe (same : τ → τ → Bool) (change : DataChange τ) (w : Window τ φ) : Window τ φ :=
  match change with
  | .all => { w with stale := true }
  | .item version => { w with items := replaceFirst same version w.items }

/-- the window when it is read: a stale one loads its page -/
def load (w : Window τ φ) (p : Provider τ φ) : Window τ φ :=
  if w.stale then ⟨w.query, p.fetch w.query, p.size w.query, false⟩ else w

def setQuery (w : Window τ φ) (query : Query τ φ) : Window τ φ :=
  { w with query := query, stale := true }

def setRange (w : Window τ φ) (offset limit : Nat) : Window τ φ :=
  w.setQuery (w.query.withRange offset limit)

end Window

end UiSync
