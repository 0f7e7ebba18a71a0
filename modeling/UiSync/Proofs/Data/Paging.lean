import UiSync.Data.Sources
import UiSync.Proofs.Lists

/-!
# Pages of a list source

A list source filters, sorts and cuts.  What it sorts into is said without sorting
(`ListSource.Lists`): the items that pass both filters, each at its place in the list, in the order
of the query, then in the configured order, then by place.  There is one such list
(`ListSource.lists_iff`), whatever page is asked for.

Pages are read one after the other until one is short (`Provider.Pages`).  Counting, cutting and
paging through all agree with that one list (`ListSource.agrees`).
-/

namespace UiSync

open Std

variable {τ φ : Type}

/-! ## Comparators -/

section
variable {α β : Type}

/-- things are ordered as what they are mapped to -/
theorem transCmp_on (f : α → β) (cmp : β → β → Ordering) [TransCmp cmp] :
    TransCmp fun a b => cmp (f a) (f b) where
  eq_swap := OrientedCmp.eq_swap
  isLE_trans := TransCmp.isLE_trans

theorem transCmp_orderBy {comparator : Option (Comparator τ)}
    (h : ∀ c, comparator = some c → TransCmp c) : TransCmp (orderBy comparator) := by
  cases comparator with
  | none =>
    exact {
      eq_swap := rfl
      isLE_trans := fun _ _ => rfl }
  | some c => exact h c rfl

end

/-! ## Listings -/

namespace ListSource

variable (s : ListSource τ) (q : Query τ (τ → Bool))

/-- an item and its place in the list come before another one: by the order of the query, then by
the configured order, then by place -/
def Precedes (a b : τ × Nat) : Prop :=
  orderBy q.comparator a.1 b.1 = .lt ∨ orderBy q.comparator a.1 b.1 = .eq ∧
    (orderBy s.comparator a.1 b.1 = .lt ∨ orderBy s.comparator a.1 b.1 = .eq ∧ a.2 < b.2)

/-- the item stands at its place in the list and passes both filters -/
def Admits (a : τ × Nat) : Prop :=
  s.items[a.2]? = some a.1 ∧ (∀ f, s.filter = some f → f a.1 = true) ∧
    ∀ f, q.filter = some f → f a.1 = true

/-- `listed` holds what is admitted, each place once, in order -/
def Lists (listed : List τ) : Prop :=
  ∃ placed : List (τ × Nat), (∀ a, a ∈ placed ↔ s.Admits q a) ∧
    placed.Pairwise (s.Precedes q) ∧ placed.map Prod.fst = listed

def listing : List τ := (s.matching q).mergeSort fun a b => (s.order q a b).isLE

theorem fetch_withRange (offset limit : Nat) :
    s.fetch (q.withRange offset limit) = ((s.listing q).drop offset).take limit := rfl

theorem size_withRange (offset limit : Nat) :
    s.provider.size (q.withRange offset limit) = (s.listing q).length :=
  (List.length_mergeSort (s.matching q)).symm

def admitted : List (τ × Nat) :=
  s.items.zipIdx.filter fun a => passes q.filter a.1 && passes s.filter a.1

/-- the order of a listing as a comparison, which no two places are equal under -/
def placing : Comparator (τ × Nat) :=
  compareLex (fun a b => s.order q a.1 b.1) (compareOn Prod.snd)

variable {s q}

theorem passes_iff {filter : Option (τ → Bool)} {item : τ} :
    passes filter item = true ↔ ∀ f, filter = some f → f item = true := by
  cases filter <;> simp [passes]

theorem mem_admitted {a : τ × Nat} : a ∈ s.admitted q ↔ s.Admits q a := by
  rw [admitted, List.mem_filter, List.mem_zipIdx_iff_getElem?, Bool.and_eq_true, passes_iff,
    passes_iff, and_comm (a := ∀ f, q.filter = some f → f a.1 = true)]
  rfl

theorem map_fst_admitted : (s.admitted q).map Prod.fst = s.matching q := by
  have hfst := List.filter_map (f := Prod.fst) (l := s.items.zipIdx)
    (p := fun item => passes q.filter item && passes s.filter item)
  rw [List.zipIdx_map_fst] at hfst
  rw [matching, List.filter_filter, hfst]
  rfl

/-- places go up along the list -/
theorem pairwise_admitted : (s.admitted q).Pairwise fun a b => a.2 < b.2 := by
  have hplaces : (s.items.zipIdx.map Prod.snd).Pairwise (· < ·) := by
    rw [List.zipIdx_map_snd]
    exact List.pairwise_lt_range' 1
  exact (List.pairwise_map.1 hplaces).filter _

theorem precedes_iff {a b : τ × Nat} : s.Precedes q a b ↔ s.placing q a b = .lt := by
  have hplace : compareOn Prod.snd a b = .lt ↔ a.2 < b.2 := Nat.compare_eq_lt
  rw [placing, compareLex, Ordering.then_eq_lt, order, Ordering.then_eq_lt, Ordering.then_eq_eq,
    hplace, Precedes]
  tauto

section
variable (hq : ∀ c, q.comparator = some c → TransCmp c)
  (hs : ∀ c, s.comparator = some c → TransCmp c)
include hq hs

theorem transCmp_order : TransCmp (s.order q) := by
  have hquery := transCmp_orderBy hq
  have hconfigured := transCmp_orderBy hs
  exact inferInstanceAs (TransCmp (compareLex (orderBy q.comparator) (orderBy s.comparator)))

theorem transCmp_placing : TransCmp (s.placing q) := by
  have horder := transCmp_order hq hs
  have hitems := transCmp_on (Prod.fst : τ × Nat → τ) (s.order q)
  exact inferInstanceAs (TransCmp (compareLex (fun a b => s.order q a.1 b.1)
    (compareOn (Prod.snd : τ × Nat → Nat))))

theorem asymm_precedes {a b : τ × Nat} (h : s.Precedes q a b) : ¬ s.Precedes q b a := by
  have hplacing := transCmp_placing hq hs
  have hswap : s.placing q b a = (s.placing q a b).swap := OrientedCmp.eq_swap
  rw [precedes_iff] at h ⊢
  rw [hswap, h]
  decide

end

/-- sorting by the order alone keeps the places of what is equal under it -/
theorem map_fst_placed : ((s.admitted q).mergeSort fun a b => (s.placing q a b).isLE).map Prod.fst =
    s.listing q := by
  have hcompare : (s.admitted q).Pairwise fun a b =>
      (s.placing q a b).isLE = (s.order q a.1 b.1).isLE := by
    refine pairwise_admitted.imp fun {a b} hlt => ?_
    have hplace : compareOn Prod.snd a b = .lt := Nat.compare_eq_lt.2 hlt
    rw [placing, compareLex, hplace]
    cases hc : s.order q a.1 b.1 <;> rfl
  have hmap := map_mergeSort_of_pairwise (f := Prod.fst)
    (s := fun x y => (s.order q x y).isLE) hcompare
  rw [hmap, map_fst_admitted]
  rfl

section
variable (hq : ∀ c, q.comparator = some c → TransCmp c)
  (hs : ∀ c, s.comparator = some c → TransCmp c)
include hq hs

theorem lists_listing : s.Lists q (s.listing q) := by
  have hplacing := transCmp_placing hq hs
  let placed := (s.admitted q).mergeSort fun a b => (s.placing q a b).isLE
  have hperm : placed.Perm (s.admitted q) := List.mergeSort_perm _ _
  have hsorted : placed.Pairwise fun a b => (s.placing q a b).isLE = true :=
    List.pairwise_mergeSort (fun a b c => TransCmp.isLE_trans) (fun a b => by
      have hswap : s.placing q b a = (s.placing q a b).swap := OrientedCmp.eq_swap
      rw [hswap]
      cases s.placing q a b <;> rfl) _
  have hplaces : placed.Pairwise fun a b => a.2 ≠ b.2 :=
    hperm.symm.pairwise (pairwise_admitted.imp fun h => Nat.ne_of_lt h) Ne.symm
  refine ⟨placed, fun a => hperm.mem_iff.trans mem_admitted, ?_, map_fst_placed⟩
  refine (hsorted.and hplaces).imp fun {a b} ⟨hle, hne⟩ => precedes_iff.2 ?_
  cases hc : s.placing q a b with
  | lt => rfl
  | eq =>
    -- equal in the order and at one place
    have heq : compareOn Prod.snd a b = .eq := (Ordering.then_eq_eq.1 hc).2
    exact absurd (Nat.compare_eq_eq.1 heq) hne
  | gt =>
    rw [hc] at hle
    cases hle

theorem lists_iff {listed : List τ} : s.Lists q listed ↔ listed = s.listing q := by
  refine ⟨?_, fun h => h ▸ lists_listing hq hs⟩
  rintro ⟨placed, hmem, hordered, rfl⟩
  obtain ⟨placed', hmem', hordered', hlisting⟩ := lists_listing hq hs
  have hnodup {l : List (τ × Nat)} (hl : l.Pairwise (s.Precedes q)) : l.Nodup := by
    refine hl.imp fun {a b} hab => ?_
    rintro rfl
    exact asymm_precedes hq hs hab hab
  have hperm : placed.Perm placed' :=
    (List.perm_ext_iff_of_nodup (hnodup hordered) (hnodup hordered')).2 fun a =>
      (hmem a).trans (hmem' a).symm
  rw [← hlisting, List.Perm.eq_of_pairwise (fun a b _ _ hab hba =>
    absurd hba (asymm_precedes hq hs hab)) hordered hordered' hperm]

end

end ListSource

/-! ## Pages -/

namespace Provider

/-- the pages of `size` items from `offset` on, up to the first that is short -/
inductive Pages (p : Provider τ φ) (q : Query τ φ) (size : Nat) : Nat → List (List τ) → Prop
  | last {offset : Nat} : (p.fetch (q.withRange offset size)).length < size →
      Pages p q size offset [p.fetch (q.withRange offset size)]
  | more {offset : Nat} {pages : List (List τ)} :
      (p.fetch (q.withRange offset size)).length = size → Pages p q size (offset + size) pages →
        Pages p q size offset (p.fetch (q.withRange offset size) :: pages)

namespace Pages

variable {p : Provider τ φ} {q : Query τ φ} {size offset : Nat} {pages : List (List τ)}

theorem unique (h : p.Pages q size offset pages) {pages' : List (List τ)}
    (h' : p.Pages q size offset pages') : pages' = pages := by
  induction h generalizing pages' with
  | last hshort =>
    cases h' with
    | last _ => rfl
    | more hfull _ => omega
  | more hfull _ ih =>
    cases h' with
    | last hshort => omega
    | more _ hrest => rw [ih hrest]

/-- the pages of a provider that cuts them from one list are the rest of that list -/
theorem of_slices {all : List τ} (hsize : 0 < size) (h : ∀ offset,
    p.fetch (q.withRange offset size) = (all.drop offset).take size) (offset : Nat) :
    ∃ pages, p.Pages q size offset pages ∧ pages.flatten = all.drop offset := by
  induction hleft : all.length - offset using Nat.strong_induction_on generalizing offset with
  | _ left ih =>
    have hlength : (p.fetch (q.withRange offset size)).length = min size left := by
      rw [h, List.length_take, List.length_drop, hleft]
    rcases Nat.lt_or_ge left size with hshort | hfull
    · refine ⟨_, .last (by omega), ?_⟩
      rw [List.flatten_singleton, h, List.take_of_length_le]
      rw [List.length_drop]
      omega
    · obtain ⟨pages, hpages, hflatten⟩ := ih (left - size) (by omega) (offset + size) (by omega)
      refine ⟨_, .more (by omega) hpages, ?_⟩
      rw [List.flatten_cons, hflatten, h, ← List.drop_drop, List.take_append_drop]

end Pages

end Provider

/-! ## Agreement -/

namespace ListSource

structure Agrees (s : ListSource τ) (q : Query τ (τ → Bool)) (all : List τ) : Prop where
  /-- it is the one list of what is admitted, in order -/
  lists_iff : ∀ listed, s.Lists q listed ↔ listed = all
  size : ∀ offset limit, s.provider.size (q.withRange offset limit) = all.length
  fetch : ∀ offset limit,
    s.provider.fetch (q.withRange offset limit) = (all.drop offset).take limit
  /-- paging comes to an end and has gone through the whole list -/
  pages : ∀ size, 0 < size → ∃ pages,
    (∀ pages', s.provider.Pages q size 0 pages' ↔ pages' = pages) ∧ pages.flatten = all

/-- What a list source answers without a limit is the list it counts, cuts and pages through, for a
list that memory holds and comparators that order what they compare. -/
theorem agrees {s : ListSource τ} {q : Query τ (τ → Bool)}
    (hlength : s.items.length ≤ Query.unlimited)
    (hq : ∀ c, q.comparator = some c → TransCmp c)
    (hs : ∀ c, s.comparator = some c → TransCmp c) :
    s.Agrees q (s.provider.fetch (q.withRange 0 Query.unlimited)) := by
  have hfetch (offset limit : Nat) : s.provider.fetch (q.withRange offset limit) =
      ((s.listing q).drop offset).take limit := fetch_withRange s q offset limit
  have hall : s.provider.fetch (q.withRange 0 Query.unlimited) = s.listing q := by
    rw [hfetch, List.drop_zero, List.take_of_length_le]
    refine Nat.le_trans ?_ hlength
    rw [listing, List.length_mergeSort, matching, List.filter_filter]
    exact List.length_filter_le _ _
  rw [hall]
  refine ⟨fun listed => lists_iff hq hs, size_withRange s q, hfetch, fun size hsize => ?_⟩
  obtain ⟨pages, hpages, hflatten⟩ :=
    Provider.Pages.of_slices (p := s.provider) hsize (fun offset => hfetch offset size) 0
  refine ⟨pages, fun pages' => ⟨hpages.unique, fun h => h ▸ hpages⟩, ?_⟩
  rw [hflatten, List.drop_zero]

/-- pairs below nine, those with the greater second number first -/
def pairs : ListSource (Nat × Nat) where
  items := [(2, 1), (1, 4), (1, 5), (9, 0), (2, 0), (1, 5)]
  comparator := some fun a b => compareOn Prod.snd b a
  filter := some fun a => a.1 < 9
  sameItem := (· == ·)

def byFirst : Query (Nat × Nat) (Nat × Nat → Bool) where
  offset := 0
  limit := Query.unlimited
  sortOrders := []
  comparator := some (compareOn Prod.fst)
  filter := some fun a => a.2 != 0

theorem agrees_pairs : pairs.items.length ≤ Query.unlimited ∧
    (∀ c, byFirst.comparator = some c → TransCmp c) ∧
    (∀ c, pairs.comparator = some c → TransCmp c) ∧
    pairs.provider.fetch (byFirst.withRange 0 Query.unlimited) = [(1, 5), (1, 5), (1, 4), (2, 1)] ∧
    pairs.Agrees byFirst [(1, 5), (1, 5), (1, 4), (2, 1)] := by
  have hlength : pairs.items.length ≤ Query.unlimited := by decide
  have hq : ∀ c, byFirst.comparator = some c → TransCmp c := by
    intro c hc
    obtain rfl := Option.some.inj hc
    infer_instance
  have hs : ∀ c, pairs.comparator = some c → TransCmp c := by
    intro c hc
    obtain rfl := Option.some.inj hc
    exact inferInstanceAs (TransCmp fun a b => compareOn (Prod.snd : Nat × Nat → Nat) b a)
  have hfetch : pairs.provider.fetch (byFirst.withRange 0 Query.unlimited) =
      [(1, 5), (1, 5), (1, 4), (2, 1)] := by cbv
  exact ⟨hlength, hq, hs, hfetch, hfetch ▸ agrees hlength hq hs⟩

end ListSource

end UiSync
