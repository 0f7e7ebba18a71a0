import UiSync.Proofs.Tree.PreOrder

/-!
# The order of the walk

The walk over a tree follows its structure alone (`Tree.SameShape.preOrder`), and it comes to a
component before it comes to anything below it (`Tree.WellFormed.pairwise_preOrder`).

`Tree.Built` are the trees there are: one component to begin with, then attaching, detaching and
changing components in place.  All of them are well-formed.
-/

namespace UiSync

variable {μ : Type}

namespace Tree

/-! ## One listing for each forest -/

namespace Lists

variable {t u : Tree μ}

theorem unique {ids a b : List ComponentId} (ha : Lists t ids a) (hb : Lists t ids b) : a = b := by
  induction ha generalizing b with
  | nil =>
    cases hb
    rfl
  | cons _ _ ihb ihr =>
    cases hb with
    | cons hb' hr' => rw [ihb hb', ihr hr']

theorem congr {ids out : List ComponentId} (h : Lists t ids out)
    (hc : ∀ id, u.children id = t.children id) : Lists u ids out := by
  induction h with
  | nil => exact .nil
  | cons _ _ ihb ihr =>
    rw [← hc] at ihb
    exact .cons ihb ihr

/-- what is listed later is not above what is listed earlier, when the roots have nothing in
common -/
theorem pairwise_not_under (hw : t.WellFormed) {ids out : List ComponentId} (h : Lists t ids out)
    (hd : ids.Pairwise fun a b => ∀ x, t.Under a x → ¬ t.Under b x) :
    out.Pairwise fun a b => ¬ t.Under b a := by
  induction h with
  | nil => exact .nil
  | @cons id ids below rest hb hr ihb ihr =>
    obtain ⟨hid, hids⟩ := List.pairwise_cons.1 hd
    have hbelow : below.Pairwise fun a b => ¬ t.Under b a := by
      apply ihb
      refine List.Pairwise.imp_of_mem ?_ (hw.nodup_children id)
      intro a b ha hb hne x hx
      exact hw.not_under_siblings ha hb hne hx
    -- everything in `rest` lies below another root, which shares nothing with `id`
    have hother : ∀ y ∈ rest, ∀ x, t.Under id x → ¬ t.Under y x := by
      intro y hy x hx hyx
      obtain ⟨j, hj, hjy⟩ := (hr.mem_iff y).1 hy
      exact hid j hj x hx (hjy.trans hyx)
    refine List.pairwise_cons.2 ⟨fun y hy hyid => ?_, ?_⟩
    · rcases List.mem_append.1 hy with hy | hy
      · obtain ⟨c, hc, hcy⟩ := (hb.mem_iff y).1 hy
        have h₁ := hw.lt_of_mem_children hc
        have h₂ := hw.le_of_under (hcy.trans hyid)
        omega
      · exact hother y hy id .refl hyid
    · refine List.pairwise_append.2 ⟨hbelow, ihr hids, fun x hx y hy => ?_⟩
      obtain ⟨c, hc, hcx⟩ := (hb.mem_iff x).1 hx
      exact hother y hy x (under_iff.2 (.inr ⟨c, hc, hcx⟩))

end Lists

/-! ## The walk over all components -/

theorem SameShape.children {t u : Tree μ} (h : SameShape t u) (id : ComponentId) :
    u.children id = t.children id := by
  have he := congrArg (Option.map Prod.snd) (h.nodes id)
  rw [Option.map_map, Option.map_map] at he
  exact congrArg (fun ids => ids.getD []) he

theorem SameShape.preOrder {t u : Tree μ} (h : SameShape t u) (hw : t.WellFormed) :
    u.preOrder = t.preOrder := by
  have hu := (h.wellFormed hw).lists_preOrder
  rw [h.root] at hu
  exact hu.unique (hw.lists_preOrder.congr h.children)

namespace WellFormed

variable {t : Tree μ}

/-- parents come before what is below them -/
theorem pairwise_preOrder (h : t.WellFormed) : t.preOrder.Pairwise fun a b => ¬ t.Under b a :=
  h.lists_preOrder.pairwise_not_under h (List.pairwise_singleton _ _)

theorem length_preOrder_le (h : t.WellFormed) : t.preOrder.length ≤ t.size :=
  Dict.length_le_size h.nodup_preOrder fun x hx => contains_iff.1 ((h.mem_preOrder x).1 hx)

end WellFormed

/-! ## The trees there are -/

inductive Built : Tree μ → Prop
  | ofRoot (root : Component μ) : Built (Tree.ofRoot root)
  | attach {t t' : Tree μ} {parent id : ComponentId} {c : Component μ} :
      Built t → t.attach parent c = .ok (id, t') → Built t'
  | detach {t t' : Tree μ} {id : ComponentId} {removed : List ComponentId} :
      Built t → t.detach id = .ok (removed, t') → Built t'
  | update {t : Tree μ} (id : ComponentId) (f : Component μ → Component μ) :
      Built t → Built (t.update id f)
  | updateAll {t : Tree μ} (f : Component μ → Component μ) : Built t → Built (t.updateAll f)

theorem Built.wellFormed {t : Tree μ} (h : t.Built) : t.WellFormed := by
  induction h with
  | ofRoot root => exact wellFormed_ofRoot root
  | attach _ ha ih => exact ih.attach ha
  | detach _ hd ih => exact (ih.detached hd).wellFormed ih
  | update id f _ ih => exact (sameShape_update _ id f).wellFormed ih
  | updateAll f _ ih => exact (sameShape_updateAll _ f).wellFormed ih

end Tree

end UiSync
