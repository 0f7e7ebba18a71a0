import UiSync.Data.Provider

/-!
# Sources

A list source filters, sorts and pages a list by itself: the order of the query comes first, the
configured order decides between items equal under it, and items equal under both keep their
places. A callback source passes queries on and only cuts pages that came back too long.
-/

namespace UiSync

/-- a filter that may be missing lets everything through -/
def passes {τ : Type} (filter : Option (τ → Bool)) (item : τ) : Bool :=
  (filter.map fun f => f item).getD true

/-- items compared by a comparator that may be missing -/
def orderBy {τ : Type} (comparator : Option (Comparator τ)) : Comparator τ :=
  comparator.getD fun _ _ => .eq

structure ListSource (τ : Type) where
  items : List τ
  /-- the order of items that are equal under the order of a query -/
  comparator : Option (Comparator τ)
  filter : Option (τ → Bool)
  sameItem : τ → τ → Bool

namespace ListSource

def ofItems (items : List τ) (sameItem : τ → τ → Bool) : ListSource τ :=
  ⟨items, none, none, sameItem⟩

/-- the items that pass both filters, as they stand in the list -/
def matching (s : ListSource τ) (q : Query τ (τ → Bool)) : List τ :=
  (s.items.filter (passes s.filter)).filter (passes q.filter)

/-- the order a query's items are sorted in -/
def order (s : ListSource τ) (q : Query τ (τ → Bool)) : Comparator τ := fun a b =>
  (orderBy q.comparator a b).then (orderBy s.comparator a b)

def fetch (s : ListSource τ) (q : Query τ (τ → Bool)) : List τ :=
  q.page ((s.matching q).mergeSort fun a b => (s.order q a b).isLE)

def provider (s : ListSource τ) : Provider τ (τ → Bool) where
  inMemory := true
  size q := (s.matching q).length
  fetch := s.fetch
  sameItem := s.sameItem

/-! ## Settings -/

def setComparator (s : ListSource τ) (comparator : Option (Comparator τ)) : ListSource τ :=
  { s with comparator := comparator }

def setFilter (s : ListSource τ) (filter : Option (τ → Bool)) : ListSource τ :=
  { s with filter := filter }

/-- items have to pass this filter as well -/
def addFilter (s : ListSource τ) (filter : τ → Bool) : ListSource τ :=
  s.setFilter (some fun item => passes s.filter item && filter item)

def clearFilters (s : ListSource τ) : ListSource τ := s.setFilter none

end ListSource

structure CallbackSource (τ φ : Type) where
  fetch : Query τ φ → List τ
  count : Query τ φ → Nat
  sameItem : τ → τ → Bool

/-- a page that came back too long is cut to the limit -/
def CallbackSource.provider (s : CallbackSource τ φ) : Provider τ φ where
  inMemory := false
  size := s.count
  fetch q := (s.fetch q).take q.limit
  sameItem := s.sameItem

end UiSync
