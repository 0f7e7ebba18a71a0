import UiSync.Demo.Catalogue
import UiSync.Proofs.Data.Paging

/-!
# Wrapped providers

Any number of wrappers around a provider (`Layers`) change the filter of a query, from the outside
in, and hand everything else of it on (`Layers.wrap_eq`).  So counting, fetching and paging through
the outermost one is counting, fetching and paging through the provider inside, with another filter.

A list source keeps one configured filter.  Whatever is set, added and cleared, it lets through what
passes every filter that was set or added and not replaced since
(`ListSource.passes_adjustAll_iff`).  Both together are `transparent_conjoined`.
-/

namespace UiSync

variable {τ φ ψ : Type}

/-! ## Layers -/

/-- wrappers around a provider with filters of type `φ`, the outermost one first -/
inductive Layers (φ : Type) : Type → Type 1 where
  | bare : Layers φ φ
  | converted {ψ χ : Type} (convert : ψ → χ) (inner : Layers φ χ) : Layers φ ψ
  | configured {χ : Type} (filter : Option χ) (inner : Layers φ χ) : Layers φ Unit
  | combined {ψ χ κ : Type} (combine : Option ψ → Option κ → Option χ) (chosen : Option κ)
      (inner : Layers φ χ) : Layers φ ψ

namespace Layers

def wrap {ψ : Type} (p : Provider τ φ) : Layers φ ψ → Provider τ ψ
  | bare => p
  | converted convert inner => (inner.wrap p).converted convert
  | configured filter inner => (inner.wrap p).configured filter
  | combined combine chosen inner => (inner.wrap p).combined combine chosen

def filter {ψ : Type} : Layers φ ψ → Option ψ → Option φ
  | bare, f => f
  | converted convert inner, f => inner.filter (f.map convert)
  | configured filter inner, _ => inner.filter filter
  | combined combine chosen inner, f => inner.filter (combine f chosen)

/-- layers change the filter of a query and nothing else -/
theorem wrap_eq (l : Layers φ ψ) (p : Provider τ φ) : l.wrap p = p.refilter l.filter := by
  induction l with
  | bare => rfl
  | converted convert inner ih =>
    show (inner.wrap p).converted convert = _
    rw [ih]
    rfl
  | configured filter inner ih =>
    show (inner.wrap p).configured filter = _
    rw [ih]
    rfl
  | combined combine chosen inner ih =>
    show (inner.wrap p).combined combine chosen = _
    rw [ih]
    rfl

/-- the stack over the callbacks of the demo -/
example (s : Demo.Stock) : s.stacked =
    (converted Demo.ItemFilter.nameStarts
      (combined s.combination.combine s.configured bare)).wrap s.callback := rfl

end Layers

/-! ## Paging through layers -/

namespace Provider

/-- paging through any query comes to an end and to as many items as are counted -/
def Consistent (p : Provider τ φ) : Prop :=
  ∀ q size, 0 < size → ∃ pages, p.Pages q size 0 pages ∧ pages.flatten.length = p.size q

theorem Pages.refilter {p : Provider τ φ} {filter : Option ψ → Option φ} {q : Query τ ψ}
    {size offset : Nat} {pages : List (List τ)}
    (h : p.Pages (q.withFilter (filter q.filter)) size offset pages) :
    (p.refilter filter).Pages q size offset pages := by
  induction h with
  | last hshort => exact .last hshort
  | more hfull _ ih => exact .more hfull ih

theorem Consistent.refilter {p : Provider τ φ} (h : p.Consistent) (filter : Option ψ → Option φ) :
    (p.refilter filter).Consistent := by
  intro q size hsize
  obtain ⟨pages, hpages, hlength⟩ := h (q.withFilter (filter q.filter)) size hsize
  exact ⟨pages, hpages.refilter, hlength⟩

end Provider

/-! ## The filter of a list source -/

inductive FilterChange (τ : Type) where
  | set (filter : Option (τ → Bool))
  | add (filter : τ → Bool)
  | clear

/-- `f` was set or added, and since then nothing was set or cleared -/
def InForce (changes : List (FilterChange τ)) (f : τ → Bool) : Prop :=
  ∃ before change after, changes = before ++ change :: after ∧
    (change = .set (some f) ∨ change = .add f) ∧ ∀ later ∈ after, ∃ g, later = .add g

theorem inForce_concat_iff {changes : List (FilterChange τ)} {change : FilterChange τ}
    {f : τ → Bool} : InForce (changes ++ [change]) f ↔
      (change = .set (some f) ∨ change = .add f) ∨ (∃ g, change = .add g) ∧ InForce changes f := by
  constructor
  · rintro ⟨before, kept, after, he, hkept, hafter⟩
    rcases concat_eq_append_cons he with ⟨-, rfl, -⟩ | ⟨rest, rfl, hchanges⟩
    · exact .inl hkept
    · exact .inr ⟨hafter change (by simp), before, kept, rest, hchanges, hkept,
        fun later hlater => hafter later (List.mem_append_left _ hlater)⟩
  · rintro (hchange | ⟨hadd, before, kept, after, rfl, hkept, hafter⟩)
    · exact ⟨changes, change, [], rfl, hchange, fun later hlater => by cases hlater⟩
    · refine ⟨before, kept, after ++ [change], by simp, hkept, fun later hlater => ?_⟩
      rcases List.mem_append.1 hlater with hmem | hmem
      · exact hafter later hmem
      · rw [List.mem_singleton.1 hmem]
        exact hadd

namespace ListSource

def adjust (s : ListSource τ) : FilterChange τ → ListSource τ
  | .set filter => s.setFilter filter
  | .add filter => s.addFilter filter
  | .clear => s.clearFilters

def adjustAll (s : ListSource τ) (changes : List (FilterChange τ)) : ListSource τ :=
  changes.foldl adjust s

variable {s : ListSource τ} {changes : List (FilterChange τ)}

theorem adjustAll_concat (change : FilterChange τ) :
    s.adjustAll (changes ++ [change]) = (s.adjustAll changes).adjust change := by
  rw [adjustAll, List.foldl_append]
  rfl

/-- the filter a source came with counts as set -/
theorem passes_adjustAll_iff {item : τ} : passes (s.adjustAll changes).filter item = true ↔
    ∀ f, InForce (.set s.filter :: changes) f → f item = true := by
  induction changes using List.reverseRecOn with
  | nil =>
    have hnil (f : τ → Bool) : InForce [.set s.filter] f ↔ s.filter = some f := by
      rw [← List.nil_append [FilterChange.set s.filter], inForce_concat_iff]
      simp
    simp only [hnil]
    exact passes_iff
  | append_singleton changes change ih =>
    rw [adjustAll_concat, ← List.cons_append]
    simp only [inForce_concat_iff]
    cases change with
    | set filter =>
      simp only [FilterChange.set.injEq, reduceCtorEq, or_false, exists_false, false_and]
      exact passes_iff
    | add g =>
      have hadded : passes ((s.adjustAll changes).adjust (.add g)).filter item =
          (passes (s.adjustAll changes).filter item && g item) := rfl
      rw [hadded, Bool.and_eq_true, ih]
      constructor
      · rintro ⟨hforce, hg⟩ f (hf | ⟨-, hf⟩)
        · obtain rfl : g = f := by simpa using hf
          exact hg
        · exact hforce f hf
      · intro h
        exact ⟨fun f hf => h f (.inr ⟨⟨g, rfl⟩, hf⟩), h g (.inl (.inr rfl))⟩
    | clear =>
      simp only [reduceCtorEq, or_false, exists_false, false_and, false_imp_iff, implies_true, iff_true]
      rfl

/-- changes of the filter change nothing else -/
theorem adjustAll_eq : s.adjustAll changes = s.setFilter (s.adjustAll changes).filter := by
  induction changes using List.reverseRecOn with
  | nil => rfl
  | append_singleton changes change ih =>
    rw [adjustAll_concat, ih]
    cases change <;> rfl

/-- filters that let the same through are the same to a query -/
theorem matching_setFilter_congr {f g : Option (τ → Bool)} (h : ∀ item, passes f item = passes g item)
    (q : Query τ (τ → Bool)) : (s.setFilter f).matching q = (s.setFilter g).matching q := by
  have hfilter : passes f = passes g := funext h
  show (s.items.filter (passes f)).filter _ = (s.items.filter (passes g)).filter _
  rw [hfilter]

structure Conjoins (s : ListSource τ) (changes : List (FilterChange τ)) : Prop where
  passes_iff : ∀ item, passes (s.adjustAll changes).filter item = true ↔
    ∀ f, InForce (.set s.filter :: changes) f → f item = true
  /-- so the source answers as with a single filter that stands for them all -/
  answers : ∀ g : τ → Bool,
    (∀ item, g item = true ↔ ∀ f, InForce (.set s.filter :: changes) f → f item = true) →
      (s.adjustAll changes).provider.size = (s.setFilter (some g)).provider.size ∧
        (s.adjustAll changes).provider.fetch = (s.setFilter (some g)).provider.fetch

theorem conjoins (s : ListSource τ) (changes : List (FilterChange τ)) : s.Conjoins changes := by
  refine ⟨fun item => passes_adjustAll_iff, fun g hg => ?_⟩
  have hpasses (item : τ) : passes (s.adjustAll changes).filter item = passes (some g) item := by
    rw [Bool.eq_iff_iff, passes_adjustAll_iff, ← hg]
    rfl
  have hmatching := matching_setFilter_congr (s := s) hpasses
  rw [adjustAll_eq]
  constructor
  · funext q
    exact congrArg List.length (hmatching q)
  · funext q
    show q.page (List.mergeSort _ _) = q.page (List.mergeSort _ _)
    rw [hmatching]
    rfl

end ListSource

/-! ## Both together -/

/-- a provider inside layers answers with the filter that the layers make, and pages as it did -/
structure Layers.Transparent (l : Layers φ ψ) (p : Provider τ φ) : Prop where
  size : ∀ q, (l.wrap p).size q =
    p.size ⟨q.offset, q.limit, q.sortOrders, q.comparator, l.filter q.filter⟩
  fetch : ∀ q, (l.wrap p).fetch q =
    p.fetch ⟨q.offset, q.limit, q.sortOrders, q.comparator, l.filter q.filter⟩
  consistent : p.Consistent → (l.wrap p).Consistent

/-- Layers around a provider are transparent, and the filters configured at a list source, which
may stand inside them, are conjoined. -/
theorem transparent_conjoined (l : Layers φ ψ) (p : Provider τ φ) (s : ListSource τ)
    (changes : List (FilterChange τ)) : l.Transparent p ∧ s.Conjoins changes := by
  refine ⟨⟨fun q => ?_, fun q => ?_, fun h => ?_⟩, s.conjoins changes⟩
  · rw [l.wrap_eq p]
    rfl
  · rw [l.wrap_eq p]
    rfl
  · rw [l.wrap_eq p]
    exact h.refilter l.filter

end UiSync
