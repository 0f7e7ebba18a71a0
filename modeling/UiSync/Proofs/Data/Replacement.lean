import UiSync.Data.Window
import UiSync.Proofs.Data.Paging

/-!
# One item replaced

An item of a list source is replaced by a new version that passes the same filters and is ordered
like the old one (`ListSource.Replaces`).  Then filtering, sorting and cutting do the same as
before, so a page of the new list is the old page with the new version in the place of the old one
(`ListSource.Replaces.fetch`).
-/

namespace UiSync

variable {τ φ : Type}

namespace Window

variable {same : τ → τ → Bool} {v : τ}

/-- the new version for everything it is a version of -/
def renew (same : τ → τ → Bool) (v item : τ) : τ := if same item v then v else item

theorem renew_same {item : τ} (h : same item v = true) : renew same v item = v := by
  rw [renew, if_pos h]

theorem renew_other {item : τ} (h : same item v = false) : renew same v item = item := by
  rw [renew, if_neg (by rw [h]; decide)]

theorem map_renew_of_absent {l : List τ} (h : ∀ item ∈ l, same item v = false) :
    l.map (renew same v) = l := by
  rw [List.map_congr_left fun item hitem => renew_other (h item hitem), List.map_id']

/-- where only one item can be replaced, replacing the first one is replacing all -/
theorem replaceFirst_eq_map {l : List τ}
    (h : l.Pairwise fun a b => ¬ (same a v = true ∧ same b v = true)) :
    replaceFirst same v l = l.map (renew same v) := by
  induction l with
  | nil => rfl
  | cons item l ih =>
    obtain ⟨halone, hrest⟩ := List.pairwise_cons.1 h
    rw [replaceFirst, List.map_cons]
    cases hitem : same item v with
    | false => rw [if_neg (by decide), renew_other hitem, ih hrest]
    | true =>
      have habsent : ∀ other ∈ l, same other v = false := fun other hother =>
        Bool.eq_false_iff.2 fun hv => halone other hother ⟨hitem, hv⟩
      rw [if_pos rfl, renew_same hitem, map_renew_of_absent habsent]

theorem replaceFirst_of_absent {l : List τ} (h : ∀ item ∈ l, same item v = false) :
    replaceFirst same v l = l := by
  rw [replaceFirst_eq_map, map_renew_of_absent h]
  refine List.pairwise_of_forall_mem_list fun a ha b _ hab => ?_
  rw [h a ha] at hab
  cases hab.1

end Window

namespace ListSource

def withItems (s : ListSource τ) (items : List τ) : ListSource τ := { s with items := items }

/-- `v` replaces the item `old` between `before` and `after`, and a query does not tell them
apart -/
structure Replaces (s : ListSource τ) (q : Query τ (τ → Bool)) (before : List τ) (old v : τ)
    (after : List τ) : Prop where
  items : s.items = before ++ old :: after
  version : s.sameItem old v = true
  /-- the items with the new version have pairwise different identities -/
  distinct : (before ++ v :: after).Pairwise fun a b =>
    s.sameItem a b = false ∧ s.sameItem b a = false
  passes : passes s.filter v = passes s.filter old ∧ passes q.filter v = passes q.filter old
  /-- the new version compares to every other item as the old one did -/
  order : ∀ other ∈ before ++ after, ∀ comparator ∈ [q.comparator, s.comparator],
    orderBy comparator v other = orderBy comparator old other ∧
      orderBy comparator other v = orderBy comparator other old

namespace Replaces

open Window

variable {s : ListSource τ} {q : Query τ (τ → Bool)} {before after : List τ} {old v : τ}

theorem others (h : s.Replaces q before old v after) :
    ∀ other ∈ before ++ after, s.sameItem other v = false := by
  obtain ⟨-, hafter, hbefore⟩ := List.pairwise_append.1 h.distinct
  intro other hother
  rcases List.mem_append.1 hother with hmem | hmem
  · exact (hbefore other hmem v List.mem_cons_self).1
  · exact ((List.pairwise_cons.1 hafter).1 other hmem).2

theorem map_items (h : s.Replaces q before old v after) :
    s.items.map (renew s.sameItem v) = before ++ v :: after := by
  have hbefore := map_renew_of_absent fun item hitem => h.others item (List.mem_append_left _ hitem)
  have hafter := map_renew_of_absent fun item hitem => h.others item (List.mem_append_right _ hitem)
  rw [h.items, List.map_append, List.map_cons, hbefore, hafter, renew_same h.version]

theorem cases (h : s.Replaces q before old v after) {item : τ} (hitem : item ∈ s.items) :
    item ∈ before ++ after ∧ renew s.sameItem v item = item ∨
      item = old ∧ renew s.sameItem v item = v := by
  rw [h.items, List.mem_append, List.mem_cons] at hitem
  rcases hitem with hmem | rfl | hmem
  · have hother := List.mem_append_left after hmem
    exact .inl ⟨hother, renew_other (h.others item hother)⟩
  · exact .inr ⟨rfl, renew_same h.version⟩
  · have hother := List.mem_append_right before hmem
    exact .inl ⟨hother, renew_other (h.others item hother)⟩

theorem passes_renew (h : s.Replaces q before old v after) {item : τ} (hitem : item ∈ s.items) :
    UiSync.passes s.filter (renew s.sameItem v item) = UiSync.passes s.filter item ∧
      UiSync.passes q.filter (renew s.sameItem v item) = UiSync.passes q.filter item := by
  rcases h.cases hitem with ⟨-, hrenew⟩ | ⟨rfl, hrenew⟩
  · rw [hrenew]
    exact ⟨rfl, rfl⟩
  · rw [hrenew]
    exact h.passes

theorem matching (h : s.Replaces q before old v after) :
    (s.withItems (before ++ v :: after)).matching q =
      (s.matching q).map (renew s.sameItem v) := by
  have hs : (s.items.filter (UiSync.passes s.filter ∘ renew s.sameItem v)) =
      s.items.filter (UiSync.passes s.filter) :=
    List.filter_congr fun item hitem => (h.passes_renew hitem).1
  have hq : (s.items.filter (UiSync.passes s.filter)).filter
      (UiSync.passes q.filter ∘ renew s.sameItem v) = s.matching q :=
    List.filter_congr fun item hitem => (h.passes_renew (List.mem_filter.1 hitem).1).2
  show ((before ++ v :: after).filter (UiSync.passes s.filter)).filter (UiSync.passes q.filter) = _
  rw [← h.map_items, List.filter_map, hs, List.filter_map, hq]

/-- the new version is a version of one item only -/
theorem alone (h : s.Replaces q before old v after) :
    s.items.Pairwise fun a b => ¬ (s.sameItem a v = true ∧ s.sameItem b v = true) := by
  rw [h.items, List.pairwise_middle fun hab => hab ∘ And.symm, List.pairwise_cons]
  refine ⟨fun other hother hboth => ?_,
    List.pairwise_of_forall_mem_list fun a ha b _ hboth => ?_⟩
  · rw [h.others other hother] at hboth
    cases hboth.2
  · rw [h.others a ha] at hboth
    cases hboth.1

/-- the order of earlier items with later ones stays as it was -/
theorem pairwise_order (h : s.Replaces q before old v after) : s.items.Pairwise fun a b =>
    s.order q (renew s.sameItem v a) (renew s.sameItem v b) = s.order q a b := by
  have hquery := fun other hother => h.order other hother q.comparator List.mem_cons_self
  have hconfigured := fun other hother =>
    h.order other hother s.comparator (List.mem_cons_of_mem _ List.mem_cons_self)
  refine h.alone.imp_of_mem fun {a b} ha hb halone => ?_
  rcases h.cases ha with ⟨hother, hrenew⟩ | ⟨rfl, hrenew⟩
  · rcases h.cases hb with ⟨-, hrenew'⟩ | ⟨rfl, hrenew'⟩
    · rw [hrenew, hrenew']
    · rw [hrenew, hrenew', ListSource.order, (hquery a hother).2, (hconfigured a hother).2]
      rfl
  · rcases h.cases hb with ⟨hother, hrenew'⟩ | ⟨rfl, -⟩
    · rw [hrenew, hrenew', ListSource.order, (hquery b hother).1, (hconfigured b hother).1]
      rfl
    · exact absurd ⟨h.version, h.version⟩ halone

theorem sublist_matching : (s.matching q).Sublist s.items :=
  List.filter_sublist.trans List.filter_sublist

theorem listing (h : s.Replaces q before old v after) :
    (s.withItems (before ++ v :: after)).listing q = (s.listing q).map (renew s.sameItem v) := by
  have hpairwise : (s.matching q).Pairwise fun a b => (s.order q a b).isLE =
      (s.order q (renew s.sameItem v a) (renew s.sameItem v b)).isLE :=
    (h.pairwise_order.sublist sublist_matching).imp fun horder => by rw [horder]
  have hsort := map_mergeSort_of_pairwise (s := fun a b => (s.order q a b).isLE) hpairwise
  rw [ListSource.listing, ListSource.listing, h.matching, hsort]
  rfl

/-- the page of the new list is the old page with the new version in its place -/
theorem fetch (h : s.Replaces q before old v after) :
    (s.withItems (before ++ v :: after)).fetch q = replaceFirst s.sameItem v (s.fetch q) := by
  have hperm : (s.listing q).Perm (s.matching q) := List.mergeSort_perm _ _
  have halone : (s.listing q).Pairwise fun a b =>
      ¬ (s.sameItem a v = true ∧ s.sameItem b v = true) :=
    hperm.symm.pairwise (h.alone.sublist sublist_matching) fun hab => hab ∘ And.symm
  have hpage : (s.fetch q).Sublist (s.listing q) :=
    (List.take_sublist _ _).trans (List.drop_sublist _ _)
  rw [replaceFirst_eq_map (halone.sublist hpage)]
  show q.page ((s.withItems (before ++ v :: after)).listing q) = (q.page (s.listing q)).map _
  rw [h.listing, Query.page, Query.page, List.map_take, List.map_drop]

theorem size (h : s.Replaces q before old v after) :
    (s.withItems (before ++ v :: after)).provider.size q = s.provider.size q := by
  show ((s.withItems (before ++ v :: after)).matching q).length = (s.matching q).length
  rw [h.matching, List.length_map]

end Replaces

end ListSource

end UiSync
