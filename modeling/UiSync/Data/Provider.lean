import UiSync.Data.Query

/-!
# Providers

A provider answers queries with filters of type `φ` for items of type `τ`. Wrapping one makes a
provider for another type of filter: every wrapper changes the filter of a query and nothing else.
-/

namespace UiSync

structure Provider (τ φ : Type) where
  /-- the provider filters and sorts by itself, over a list -/
  inMemory : Bool
  /-- how many items the filter of a query lets through, on all pages together -/
  size : Query τ φ → Nat
  /-- the items on the page of a query -/
  fetch : Query τ φ → List τ
  /-- two values are versions of one item -/
  sameItem : τ → τ → Bool

namespace Provider

/-- a provider asked through a change of the filter -/
def refilter (p : Provider τ φ) (filter : Option ψ → Option φ) : Provider τ ψ where
  inMemory := p.inMemory
  size q := p.size (q.withFilter (filter q.filter))
  fetch q := p.fetch (q.withFilter (filter q.filter))
  sameItem := p.sameItem

/-- every filter is converted -/
def converted (p : Provider τ φ) (convert : ψ → φ) : Provider τ ψ :=
  p.refilter (Option.map convert)

/-- the filter of a query is combined with one that is configured -/
def combined (p : Provider τ φ) (combine : Option ψ → Option χ → Option φ)
    (configured : Option χ) : Provider τ ψ :=
  p.refilter fun filter => combine filter configured

/-- the configured filter stands in for the filter of a query -/
def configured (p : Provider τ φ) (filter : Option φ) : Provider τ Unit :=
  p.combined (fun _ c => c) filter

end Provider

end UiSync
