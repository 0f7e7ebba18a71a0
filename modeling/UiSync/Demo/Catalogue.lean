import UiSync.Data.Board
import UiSync.Demo.Item

/-!
# The demo catalogue

Live items behind a provider of one of several kinds, with a board of everything that watches it.
Changing the items is silent; changing a setting refreshes everything.
-/

namespace UiSync.Demo

/-- which property makes two values versions of one item -/
inductive Identity where
  | byId
  | byName
  | byValue

def Identity.same : Identity → Item → Item → Bool
  | byId, a, b => a.id == b.id
  | byName, a, b => a.name == b.name
  | byValue, a, b => a == b

/-- how the filter of a query and the configured filter become one when both are there -/
inductive Combination where
  | all
  | any
  /-- the filter of the query wins -/
  | query

def Combination.combine : Combination → Option ItemFilter → Option ItemFilter → Option ItemFilter
  | _, none, g => g
  | _, f, none => f
  | query, some f, some _ => some f
  | all, some f, some g => some (f.both g)
  | any, some f, some g => some (f.either g)

/-- what providers are made from -/
structure Stock where
  items : List Item
  identity : Identity
  /-- by how much a callback overfills its pages -/
  extra : Nat
  combination : Combination
  /-- the order and filter of a list source -/
  comparator : Option (Comparator Item) := none
  filter : Option (Item → Bool) := none
  /-- the filter configured in a wrapper -/
  configured : Option ItemFilter := none

namespace Stock

def listSource (s : Stock) : ListSource Item :=
  ⟨s.items, s.comparator, s.filter, s.identity.same⟩

/-- the stock with a setting of its list source changed -/
def updateList (s : Stock) (f : ListSource Item → ListSource Item) : Stock :=
  { s with comparator := (f s.listSource).comparator, filter := (f s.listSource).filter }

/-- the items a query lets through -/
def matching (s : Stock) (q : Query Item ItemFilter) : List Item :=
  s.items.filter (passes (q.filter.map ItemFilter.accepts))

/-- callbacks that sort by the sort orders and overfill the page -/
def callbackSource (s : Stock) : CallbackSource Item ItemFilter where
  fetch q :=
    let sorted := (s.matching q).mergeSort fun a b => (Item.compareAll q.sortOrders a b).isLE
    (sorted.drop q.offset).take (min (q.limit + s.extra) Query.unlimited)
  count q := (s.matching q).length
  sameItem := s.identity.same

/-! ## Providers -/

def list (s : Stock) : Provider Item (Item → Bool) := s.listSource.provider

def callback (s : Stock) : Provider Item ItemFilter := s.callbackSource.provider

def convertedList (s : Stock) : Provider Item ItemFilter := s.list.converted ItemFilter.accepts

def convertedCallback (s : Stock) : Provider Item String :=
  s.callback.converted fun text => ItemFilter.fromId (readLeast text)

def configurableList (s : Stock) : Provider Item Unit := s.convertedList.configured s.configured

def configurableCallback (s : Stock) : Provider Item Unit := s.callback.configured s.configured

def combinedList (s : Stock) : Provider Item ItemFilter :=
  s.convertedList.combined s.combination.combine s.configured

def combinedCallback (s : Stock) : Provider Item ItemFilter :=
  s.callback.combined s.combination.combine s.configured

def stacked (s : Stock) : Provider Item String := s.combinedCallback.converted ItemFilter.nameStarts

end Stock

/-- a stock and everything that watches it -/
structure Catalogue (φ : Type) where
  stock : Stock
  board : Board Item φ

namespace Catalogue

variable {φ : Type}

/-- tells everyone of a change -/
def fire (c : Catalogue φ) (change : DataChange Item) : Catalogue φ :=
  { c with board := c.board.fire c.stock.identity.same change }

/-- changes a setting, which refreshes everything -/
def reconfigure (c : Catalogue φ) (f : Stock → Stock) : Catalogue φ :=
  { c with stock := f c.stock }.fire .all

/-- changes the items without telling anyone -/
def updateItems (c : Catalogue φ) (f : List Item → List Item) : Catalogue φ :=
  { c with stock := { c.stock with items := f c.stock.items } }

/-- the catalogue with a window loaded, and that window -/
def readWindow (c : Catalogue φ) (provider : Stock → Provider Item φ) (name : String) :
    Catalogue φ × Option (Window Item φ) :=
  let board := c.board.updateWindow name (·.load (provider c.stock))
  ({ c with board := board }, board.window? name)

/-- takes what watchers were told -/
def takeTold (c : Catalogue φ) : List (String × DataChange Item) × Catalogue φ :=
  (c.board.told, { c with board := { c.board with told := [] } })

end Catalogue

end UiSync.Demo
