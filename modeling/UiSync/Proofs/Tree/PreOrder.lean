import UiSync.Proofs.Tree.WellFormed

/-!
# The walk over a tree

`Tree.Lists t ids out` says that `out` lists everything below `ids`, a component before what is
below it, children in order: the recursive traversal that the walk with a stack carries out
(`Tree.Lists.walk_eq`).  In a well-formed tree every forest has a listing
(`Tree.WellFormed.exists_lists`), it has no repetition, and it holds exactly what lies below the
roots of the forest; so the walk is never cut short by its bound.

Detaching removes one listing from the table (`Tree.WellFormed.detached`) and keeps the tree
well-formed.
-/

namespace UiSync

variable {μ : Type}

namespace Tree

/-- `out` is everything at or below `ids`, parents before children -/
inductive Lists (t : Tree μ) : List ComponentId → List ComponentId → Prop
  | nil : Lists t [] []
  | cons {id : ComponentId} {ids below rest : List ComponentId} :
      Lists t (t.children id) below → Lists t ids rest → Lists t (id :: ids) (id :: (below ++ rest))

namespace Lists

variable {t : Tree μ}

theorem append {xs ys a b : List ComponentId} (hx : Lists t xs a) (hy : Lists t ys b) :
    Lists t (xs ++ ys) (a ++ b) := by
  induction hx with
  | nil => exact hy
  | cons hb hr _ ih =>
    rw [List.cons_append, List.cons_append, List.append_assoc]
    exact .cons hb ih

/-- the walk lists the forest on its stack, as far as its bound allows -/
theorem walk_eq {ids out : List ComponentId} (h : Lists t ids out) (fuel : Nat) :
    t.walk fuel ids = out.take fuel := by
  induction fuel generalizing ids out with
  | zero => rw [walk, List.take_zero]
  | succ fuel ih =>
    cases h with
    | nil => rfl
    | cons hb hr => rw [walk, ih (hb.append hr), List.take_succ_cons]

theorem mem_iff {ids out : List ComponentId} (h : Lists t ids out) (x : ComponentId) :
    x ∈ out ↔ ∃ id ∈ ids, t.Under id x := by
  induction h with
  | nil => simp
  | @cons id ids below rest hb hr ihb ihr =>
    rw [List.mem_cons, List.mem_append, ihb, ihr, ← or_assoc, ← under_iff]
    simp

end Lists

namespace WellFormed

variable {t : Tree μ}

/-- forests deep enough to be exhausted by `k` have listings -/
private theorem exists_lists_of_depth (h : t.WellFormed) (k : Nat) :
    ∀ ids : List ComponentId, (∀ id ∈ ids, t.contains id = true ∧ t.nextId - id.value ≤ k) →
      ∃ out, Lists t ids out := by
  induction k with
  | zero =>
    intro ids hids
    cases ids with
    | nil => exact ⟨[], .nil⟩
    | cons id ids =>
      obtain ⟨hc, hk⟩ := hids id (List.mem_cons_self ..)
      obtain ⟨n, hn⟩ := contains_iff.1 hc
      have hlt := h.fresh id n hn
      omega
  | succ k ih =>
    intro ids hids
    induction ids with
    | nil => exact ⟨[], .nil⟩
    | cons id ids ihs =>
      obtain ⟨rest, hrest⟩ := ihs fun x hx => hids x (List.mem_cons_of_mem _ hx)
      obtain ⟨hc, hk⟩ := hids id (List.mem_cons_self ..)
      obtain ⟨n, hn⟩ := contains_iff.1 hc
      have hfresh := h.fresh id n hn
      obtain ⟨below, hbelow⟩ := ih (t.children id) fun c hcm => by
        have hlt := h.lt_of_mem_children hcm
        exact ⟨h.contains_child hcm, by omega⟩
      exact ⟨_, .cons hbelow hrest⟩

theorem exists_lists (h : t.WellFormed) (ids : List ComponentId)
    (hids : ∀ id ∈ ids, t.contains id = true) : ∃ out, Lists t ids out :=
  h.exists_lists_of_depth t.nextId ids fun id hid => ⟨hids id hid, Nat.sub_le ..⟩

/-- the components of a forest below different, unrelated roots are listed once each -/
theorem nodup_of_lists (h : t.WellFormed) {ids out : List ComponentId} (hl : Lists t ids out)
    (hd : ids.Pairwise fun a b => ∀ x, t.Under a x → ¬ t.Under b x) : out.Nodup := by
  induction hl with
  | nil => exact List.nodup_nil
  | @cons id ids below rest hb hr ihb ihr =>
    obtain ⟨hid, hids⟩ := List.pairwise_cons.1 hd
    have hbelow : below.Nodup := by
      apply ihb
      refine List.Pairwise.imp_of_mem ?_ (h.nodup_children id)
      intro a b ha hb hne x hx
      exact h.not_under_siblings ha hb hne hx
    have hfirst : id ∉ below := by
      intro hm
      obtain ⟨c, hc, hci⟩ := (hb.mem_iff id).1 hm
      have h₁ := h.lt_of_mem_children hc
      have h₂ := h.le_of_under hci
      omega
    have hother : ∀ x, t.Under id x → x ∉ rest := by
      intro x hx hm
      obtain ⟨j, hj, hjx⟩ := (hr.mem_iff x).1 hm
      exact hid j hj x hx hjx
    refine List.nodup_cons.2 ⟨?_, ?_⟩
    · rw [List.mem_append, not_or]
      exact ⟨hfirst, hother id .refl⟩
    · refine List.nodup_append.2 ⟨hbelow, ihr hids, ?_⟩
      intro x hx y hy hxy
      obtain ⟨c, hc, hcx⟩ := (hb.mem_iff x).1 hx
      exact hother x (under_iff.2 (.inr ⟨c, hc, hcx⟩)) (hxy ▸ hy)

/-- the walk from a component lists all that is below it -/
theorem lists_subtree (h : t.WellFormed) {id : ComponentId} (hc : t.contains id = true) :
    Lists t [id] (t.subtree id) ∧ (t.subtree id).Nodup := by
  obtain ⟨out, hout⟩ := h.exists_lists [id] fun x hx => List.mem_singleton.1 hx ▸ hc
  have hnodup := h.nodup_of_lists hout (List.pairwise_singleton _ _)
  have hsize : out.length ≤ t.size := Dict.length_le_size hnodup fun x hx => by
    obtain ⟨j, hj, hjx⟩ := (hout.mem_iff x).1 hx
    exact contains_iff.1 (h.contains_under (List.mem_singleton.1 hj ▸ hc) hjx)
  have heq : t.subtree id = out := by
    rw [subtree, if_pos hc, hout.walk_eq, List.take_of_length_le hsize]
  exact heq ▸ ⟨hout, hnodup⟩

theorem mem_subtree (h : t.WellFormed) {id : ComponentId} (hc : t.contains id = true)
    (x : ComponentId) : x ∈ t.subtree id ↔ t.Under id x := by
  rw [(h.lists_subtree hc).1.mem_iff]
  simp

theorem lists_preOrder (h : t.WellFormed) : Lists t [t.root] t.preOrder :=
  (h.lists_subtree h.contains_root).1

theorem nodup_preOrder (h : t.WellFormed) : t.preOrder.Nodup :=
  (h.lists_subtree h.contains_root).2

theorem mem_preOrder (h : t.WellFormed) (x : ComponentId) :
    x ∈ t.preOrder ↔ t.contains x = true := by
  rw [preOrder, h.mem_subtree h.contains_root]
  exact ⟨h.contains_under h.contains_root, h.under_root x⟩

end WellFormed

/-! ## Detaching -/

/-- the table after detaching `id`, look-up by look-up -/
structure Detached (t t' : Tree μ) (removed : List ComponentId) (id : ComponentId) : Prop where
  root : t'.root = t.root
  nextId : t'.nextId = t.nextId
  attached : t.contains id = true
  notRoot : id ≠ t.root
  mem_removed : ∀ x, x ∈ removed ↔ t.Under id x
  gone : ∀ x, t.Under id x → t'.nodes.get? x = none
  kept : ∀ x, ¬ t.Under id x → t'.nodes.get? x =
    (t.nodes.get? x).map fun n => { n with children := n.children.filter (· != id) }

/-- taking `id` out of one list of children takes it out of all of them -/
theorem WellFormed.get?_dropChild {t : Tree μ} (h : t.WellFormed) {id x : ComponentId} {n : Node μ}
    (hn : t.nodes.get? id = some n) (hr : id ≠ t.root) :
    (dropChild t.nodes n.parent id).get? x =
      (t.nodes.get? x).map fun m => { m with children := m.children.filter (· != id) } := by
  obtain ⟨p, k, hp, hk, hid⟩ := h.parent id n hn hr
  rw [hp]
  show (t.nodes.modify p _).get? x = _
  by_cases hx : x = p
  · subst hx
    rw [Dict.get?_modify_self]
  · rw [Dict.get?_modify_of_ne hx]
    cases hm : t.nodes.get? x with
    | none => rfl
    | some m =>
      have hnot : id ∉ m.children := fun hc => hx (h.parent_unique
        (mem_children_iff.2 ⟨m, hm, hc⟩) (mem_children_iff.2 ⟨k, hk, hid⟩))
      have hfilter : m.children.filter (· != id) = m.children := by
        rw [List.filter_eq_self]
        intro c hc
        rw [bne_iff_ne]
        rintro rfl
        exact hnot hc
      rw [Option.map_some, hfilter]

theorem WellFormed.detached {t t' : Tree μ} (h : t.WellFormed) {id : ComponentId}
    {removed : List ComponentId} (hd : t.detach id = .ok (removed, t')) :
    Detached t t' removed id := by
  unfold detach at hd
  split at hd
  · cases hd
  · next hr =>
    split at hd
    · cases hd
    · next n hn =>
      simp only [Except.ok.injEq, Prod.mk.injEq] at hd
      obtain ⟨rfl, rfl⟩ := hd
      have hc : t.contains id = true := contains_iff.2 ⟨n, hn⟩
      refine ⟨rfl, rfl, hc, hr, h.mem_subtree hc, ?_, ?_⟩
      · intro x hx
        exact Dict.get?_eraseAll_of_mem ((h.mem_subtree hc x).2 hx) _
      · intro x hx
        rw [← h.get?_dropChild hn hr]
        exact Dict.get?_eraseAll_of_notMem (fun hm => hx ((h.mem_subtree hc x).1 hm)) _

namespace Detached

variable {t t' : Tree μ} {removed : List ComponentId} {id : ComponentId}

/-- what is left is an old component that is not below the detached one -/
theorem cases (h : Detached t t' removed id) {x : ComponentId} {m : Node μ}
    (hm : t'.nodes.get? x = some m) :
    ¬ t.Under id x ∧ ∃ n, t.nodes.get? x = some n ∧
      m = { n with children := n.children.filter (· != id) } := by
  have hx : ¬ t.Under id x := by
    intro hu
    rw [h.gone x hu] at hm
    cases hm
  rw [h.kept x hx, Option.map_eq_some_iff] at hm
  obtain ⟨n, hn, rfl⟩ := hm
  exact ⟨hx, n, hn, rfl⟩

theorem kept_some (h : Detached t t' removed id) {x : ComponentId} {n : Node μ}
    (hn : t.nodes.get? x = some n) (hx : ¬ t.Under id x) :
    t'.nodes.get? x = some { n with children := n.children.filter (· != id) } := by
  rw [h.kept x hx, hn]
  rfl

theorem get? (h : Detached t t' removed id) {x : ComponentId} {c : Component μ}
    (hc : t'.get? x = some c) : t.get? x = some c := by
  obtain ⟨m, hm, rfl⟩ := get?_eq_some_iff.1 hc
  obtain ⟨-, n, hn, rfl⟩ := h.cases hm
  exact get?_eq_some_iff.2 ⟨n, hn, rfl⟩

theorem contains (h : Detached t t' removed id) {x : ComponentId} (hx : t'.contains x = true) :
    t.contains x = true ∧ x ∉ removed := by
  obtain ⟨m, hm⟩ := contains_iff.1 hx
  obtain ⟨hu, n, hn, -⟩ := h.cases hm
  exact ⟨contains_iff.2 ⟨n, hn⟩, fun hr => hu ((h.mem_removed x).1 hr)⟩

theorem wellFormed (h : Detached t t' removed id) (hw : t.WellFormed) : t'.WellFormed := by
  constructor
  · obtain ⟨r, hr, hrp⟩ := hw.root
    have hu : ¬ t.Under id t.root := fun hu => h.notRoot (hw.eq_root_of_under hu)
    rw [h.root]
    exact ⟨_, h.kept_some hr hu, hrp⟩
  · intro p m c hm hc
    obtain ⟨hu, n, hn, rfl⟩ := h.cases hm
    obtain ⟨hcn, hne⟩ := List.mem_filter.1 hc
    obtain ⟨k, hk, hkp⟩ := hw.child p n c hn hcn
    have huc := hw.not_under_child (mem_children_iff.2 ⟨n, hn, hcn⟩) (bne_iff_ne.1 hne) hu
    exact ⟨_, h.kept_some hk huc, hkp⟩
  · intro x m hm hne
    obtain ⟨hu, n, hn, rfl⟩ := h.cases hm
    obtain ⟨p, k, hp, hk, hx⟩ := hw.parent x n hn (h.root ▸ hne)
    have hup : ¬ t.Under id p := fun hup => hu (hup.tail (mem_children_iff.2 ⟨k, hk, hx⟩))
    have hxid : x ≠ id := by
      rintro rfl
      exact hu .refl
    refine ⟨p, _, hp, h.kept_some hk hup, ?_⟩
    exact List.mem_filter.2 ⟨hx, bne_iff_ne.2 hxid⟩
  · intro p m hm
    obtain ⟨-, n, hn, rfl⟩ := h.cases hm
    exact (hw.increasing p n hn).sublist (List.filter_sublist.cons_cons p)
  · intro x m hm
    obtain ⟨-, n, hn, -⟩ := h.cases hm
    exact h.nextId ▸ hw.fresh x n hn

end Detached

end Tree

end UiSync
