import UiSync.Component.Tree
import UiSync.Proofs.FieldBag

/-!
# Well-formed trees

The table of a tree records its structure twice, as parents and as children.  `Tree.WellFormed`
says that the two agree and that identities increase from a parent to its children and along
them; so nothing lies below itself, and two siblings have nothing in common
(`Tree.WellFormed.not_under_siblings`).

A tree of one component is well-formed, and attaching and changing components in place keep it
so; detaching is treated with the walk that it uses.
-/

namespace UiSync

variable {μ σ : Type}

namespace Tree

/-- parents and children agree, and identities increase downwards and along the children -/
structure WellFormed (t : Tree μ) : Prop where
  root : ∃ n, t.nodes.get? t.root = some n ∧ n.parent = none
  child : ∀ p n c, t.nodes.get? p = some n → c ∈ n.children →
    ∃ m, t.nodes.get? c = some m ∧ m.parent = some p
  parent : ∀ id n, t.nodes.get? id = some n → id ≠ t.root →
    ∃ p m, n.parent = some p ∧ t.nodes.get? p = some m ∧ id ∈ m.children
  increasing : ∀ p n, t.nodes.get? p = some n →
    (p :: n.children).Pairwise fun a b => a.value < b.value
  fresh : ∀ id n, t.nodes.get? id = some n → id.value < t.nextId

/-- `b` is `a` or lies below it -/
def Under (t : Tree μ) : ComponentId → ComponentId → Prop :=
  Relation.ReflTransGen fun p c => c ∈ t.children p

/-! ## Reading the table -/

theorem contains_iff {t : Tree μ} {id : ComponentId} :
    t.contains id = true ↔ ∃ n, t.nodes.get? id = some n := Dict.contains_iff

theorem children_eq {t : Tree μ} {id : ComponentId} {n : Node μ}
    (h : t.nodes.get? id = some n) : t.children id = n.children := by
  rw [children, h]
  rfl

theorem mem_children_iff {t : Tree μ} {p c : ComponentId} :
    c ∈ t.children p ↔ ∃ n, t.nodes.get? p = some n ∧ c ∈ n.children := by
  cases h : t.nodes.get? p with
  | none => simp [children, h]
  | some n => simp [children, h]

theorem get?_eq_some_iff {t : Tree μ} {id : ComponentId} {c : Component μ} :
    t.get? id = some c ↔ ∃ n, t.nodes.get? id = some n ∧ n.component = c :=
  Option.map_eq_some_iff

theorem contains_iff_get? {t : Tree μ} {id : ComponentId} :
    t.contains id = true ↔ ∃ c, t.get? id = some c := by
  constructor
  · intro h
    obtain ⟨n, hn⟩ := contains_iff.1 h
    exact ⟨_, get?_eq_some_iff.2 ⟨n, hn, rfl⟩⟩
  · rintro ⟨c, hc⟩
    obtain ⟨n, hn, -⟩ := get?_eq_some_iff.1 hc
    exact contains_iff.2 ⟨n, hn⟩

theorem under_iff {t : Tree μ} {a x : ComponentId} :
    t.Under a x ↔ x = a ∨ ∃ c ∈ t.children a, t.Under c x := by
  rw [Under, Relation.ReflTransGen.cases_head_iff, eq_comm]

namespace WellFormed

variable {t : Tree μ}

/-! ## Below one another -/

theorem contains_child (h : t.WellFormed) {p c : ComponentId} (hc : c ∈ t.children p) :
    t.contains c = true := by
  obtain ⟨n, hn, hm⟩ := mem_children_iff.1 hc
  obtain ⟨m, hm, -⟩ := h.child p n c hn hm
  exact contains_iff.2 ⟨m, hm⟩

theorem contains_under (h : t.WellFormed) {a x : ComponentId} (ha : t.contains a = true)
    (hx : t.Under a x) : t.contains x = true := by
  induction hx with
  | refl => exact ha
  | tail _ hc _ => exact h.contains_child hc

theorem contains_root (h : t.WellFormed) : t.contains t.root = true := by
  obtain ⟨n, hn, -⟩ := h.root
  exact contains_iff.2 ⟨n, hn⟩

theorem lt_of_mem_children (h : t.WellFormed) {p c : ComponentId} (hc : c ∈ t.children p) :
    p.value < c.value := by
  obtain ⟨n, hn, hm⟩ := mem_children_iff.1 hc
  exact (List.pairwise_cons.1 (h.increasing p n hn)).1 c hm

theorem le_of_under (h : t.WellFormed) {a x : ComponentId} (hx : t.Under a x) :
    a.value ≤ x.value := by
  induction hx with
  | refl => exact le_refl _
  | tail _ hc ih => exact le_trans ih (h.lt_of_mem_children hc).le

theorem nodup_children (h : t.WellFormed) (p : ComponentId) : (t.children p).Nodup := by
  cases hp : t.nodes.get? p with
  | none => simp [children, hp]
  | some n =>
    rw [children_eq hp]
    exact (List.pairwise_cons.1 (h.increasing p n hp)).2.imp fun hlt he => by
      rw [he] at hlt
      exact lt_irrefl _ hlt

/-- a component is a child of one component only -/
theorem parent_unique (h : t.WellFormed) {p q c : ComponentId} (hp : c ∈ t.children p)
    (hq : c ∈ t.children q) : p = q := by
  obtain ⟨n, hn, hcn⟩ := mem_children_iff.1 hp
  obtain ⟨m, hm, hcm⟩ := mem_children_iff.1 hq
  obtain ⟨x, hx, hxp⟩ := h.child p n c hn hcn
  obtain ⟨y, hy, hyq⟩ := h.child q m c hm hcm
  rw [hx] at hy
  obtain rfl := Option.some.inj hy
  exact Option.some.inj (hxp.symm.trans hyq)

theorem root_notMem_children (h : t.WellFormed) (p : ComponentId) : t.root ∉ t.children p := by
  intro hc
  obtain ⟨n, hn, hcn⟩ := mem_children_iff.1 hc
  obtain ⟨m, hm, hmp⟩ := h.child p n _ hn hcn
  obtain ⟨r, hr, hrp⟩ := h.root
  rw [hr] at hm
  obtain rfl := Option.some.inj hm
  rw [hrp] at hmp
  cases hmp

theorem eq_root_of_under (h : t.WellFormed) {a : ComponentId} (ha : t.Under a t.root) :
    a = t.root := by
  rcases Relation.ReflTransGen.cases_tail ha with he | ⟨p, -, hc⟩
  · exact he.symm
  · exact absurd hc (h.root_notMem_children p)

/-- of two components above a third one, one is above the other -/
theorem under_total (h : t.WellFormed) {a b x : ComponentId} (ha : t.Under a x)
    (hb : t.Under b x) : t.Under a b ∨ t.Under b a := by
  induction ha with
  | refl => exact .inr hb
  | tail hay hyx ih =>
    rcases Relation.ReflTransGen.cases_tail hb with he | ⟨z, hbz, hzx⟩
    · subst he
      exact .inl (hay.tail hyx)
    · obtain rfl := h.parent_unique hyx hzx
      exact ih hbz

/-- a component other than the root reaches nothing but itself among the children of its parent -/
theorem eq_of_under_siblings (h : t.WellFormed) {p a b : ComponentId} (ha : a ∈ t.children p)
    (hb : b ∈ t.children p) (hab : t.Under a b) : a = b := by
  rcases Relation.ReflTransGen.cases_tail hab with he | ⟨z, haz, hzb⟩
  · exact he.symm
  · obtain rfl := h.parent_unique hb hzb
    have h₁ := h.le_of_under haz
    have h₂ := h.lt_of_mem_children ha
    omega

/-- two siblings have nothing in common -/
theorem not_under_siblings (h : t.WellFormed) {p a b x : ComponentId} (ha : a ∈ t.children p)
    (hb : b ∈ t.children p) (hne : a ≠ b) (hax : t.Under a x) : ¬ t.Under b x := by
  intro hbx
  rcases h.under_total hax hbx with hab | hba
  · exact hne (h.eq_of_under_siblings ha hb hab)
  · exact hne (h.eq_of_under_siblings hb ha hba).symm

/-- a child other than `a` is below `a` only when its parent is -/
theorem not_under_child (h : t.WellFormed) {a p c : ComponentId} (hc : c ∈ t.children p)
    (hne : c ≠ a) (hp : ¬ t.Under a p) : ¬ t.Under a c := by
  intro hu
  rcases Relation.ReflTransGen.cases_tail hu with he | ⟨q, hq, hqc⟩
  · exact hne he
  · exact hp (h.parent_unique hqc hc ▸ hq)

/-- everything attached lies below the root -/
theorem under_root (h : t.WellFormed) (x : ComponentId) (hx : t.contains x = true) :
    t.Under t.root x := by
  induction hv : x.value using Nat.strongRecOn generalizing x with
  | _ v ih =>
    obtain ⟨n, hn⟩ := contains_iff.1 hx
    by_cases hr : x = t.root
    · rw [hr]
      exact .refl
    · obtain ⟨p, m, -, hm, hxm⟩ := h.parent x n hn hr
      have hc : x ∈ t.children p := mem_children_iff.2 ⟨m, hm, hxm⟩
      have hlt := h.lt_of_mem_children hc
      exact (ih p.value (by omega) p (contains_iff.2 ⟨m, hm⟩) rfl).tail hc

end WellFormed

/-! ## Trees with the same structure -/

/-- the two trees differ in their components only, and there in the same places -/
structure SameShape (t u : Tree μ) : Prop where
  root : u.root = t.root
  nextId : u.nextId = t.nextId
  nodes : ∀ id, (u.nodes.get? id).map (fun n => (n.parent, n.children)) =
    (t.nodes.get? id).map fun n => (n.parent, n.children)

namespace SameShape

variable {t u : Tree μ}

theorem get?_some (h : SameShape t u) {id : ComponentId} {n : Node μ}
    (hn : t.nodes.get? id = some n) :
    ∃ m, u.nodes.get? id = some m ∧ m.parent = n.parent ∧ m.children = n.children := by
  have he := h.nodes id
  rw [hn, Option.map_some, Option.map_eq_some_iff] at he
  obtain ⟨m, hm, hp⟩ := he
  exact ⟨m, hm, (Prod.mk.inj hp).1, (Prod.mk.inj hp).2⟩

theorem refl (t : Tree μ) : SameShape t t := ⟨rfl, rfl, fun _ => rfl⟩

theorem trans {v : Tree μ} (h : SameShape t u) (h' : SameShape u v) : SameShape t v :=
  ⟨h'.root.trans h.root, h'.nextId.trans h.nextId, fun id => (h'.nodes id).trans (h.nodes id)⟩

theorem contains (h : SameShape t u) (id : ComponentId) : u.contains id = t.contains id := by
  have he := congrArg Option.isSome (h.nodes id)
  rwa [Option.isSome_map, Option.isSome_map] at he

theorem symm (h : SameShape t u) : SameShape u t :=
  ⟨h.root.symm, h.nextId.symm, fun id => (h.nodes id).symm⟩

theorem wellFormed (h : SameShape t u) (hw : t.WellFormed) : u.WellFormed where
  root := by
    obtain ⟨n, hn, hp⟩ := hw.root
    obtain ⟨m, hm, hmp, -⟩ := h.get?_some hn
    exact ⟨m, h.root ▸ hm, hmp.trans hp⟩
  child := by
    intro p m c hm hc
    obtain ⟨n, hn, -, hnc⟩ := h.symm.get?_some hm
    obtain ⟨k, hk, hkp⟩ := hw.child p n c hn (hnc ▸ hc)
    obtain ⟨l, hl, hlp, -⟩ := h.get?_some hk
    exact ⟨l, hl, hlp.trans hkp⟩
  parent := by
    intro id m hm hne
    obtain ⟨n, hn, hnp, -⟩ := h.symm.get?_some hm
    obtain ⟨p, k, hkp, hk, hid⟩ := hw.parent id n hn (h.root ▸ hne)
    obtain ⟨l, hl, -, hlc⟩ := h.get?_some hk
    exact ⟨p, l, hnp ▸ hkp, hl, hlc ▸ hid⟩
  increasing := by
    intro p m hm
    obtain ⟨n, hn, -, hnc⟩ := h.symm.get?_some hm
    exact hnc ▸ hw.increasing p n hn
  fresh := by
    intro id m hm
    obtain ⟨n, hn, -⟩ := h.symm.get?_some hm
    exact h.nextId ▸ hw.fresh id n hn

end SameShape

/-! ## Changing components in place -/

theorem get?_update_self (t : Tree μ) (id : ComponentId) (f : Component μ → Component μ) :
    (t.update id f).nodes.get? id =
      (t.nodes.get? id).map fun n => { n with component := f n.component } :=
  Dict.get?_modify_self ..

theorem get?_update_of_ne {id x : ComponentId} (h : x ≠ id) (t : Tree μ)
    (f : Component μ → Component μ) : (t.update id f).nodes.get? x = t.nodes.get? x :=
  Dict.get?_modify_of_ne h ..

theorem sameShape_update (t : Tree μ) (id : ComponentId) (f : Component μ → Component μ) :
    SameShape t (t.update id f) := by
  refine ⟨rfl, rfl, fun x => ?_⟩
  by_cases h : x = id
  · subst h
    rw [get?_update_self, Option.map_map]
    rfl
  · rw [get?_update_of_ne h]

theorem get?_updateAll (t : Tree μ) (f : Component μ → Component μ) (x : ComponentId) :
    (t.updateAll f).nodes.get? x =
      (t.nodes.get? x).map fun n => { n with component := f n.component } :=
  Dict.get?_map ..

theorem get?_component_updateAll (t : Tree μ) (f : Component μ → Component μ) (x : ComponentId) :
    (t.updateAll f).get? x = (t.get? x).map f := by
  rw [get?, get?_updateAll, get?, Option.map_map, Option.map_map]
  rfl

theorem sameShape_updateAll (t : Tree μ) (f : Component μ → Component μ) :
    SameShape t (t.updateAll f) := by
  refine ⟨rfl, rfl, fun x => ?_⟩
  rw [get?_updateAll, Option.map_map]
  rfl

/-- every component after a change in place is an old one or the changed one -/
theorem get?_update_cases {t : Tree μ} {id x : ComponentId} {f : Component μ → Component μ}
    {c : Component μ} (h : (t.update id f).get? x = some c) :
    t.get? x = some c ∨ ∃ d, t.get? x = some d ∧ c = f d := by
  by_cases hx : x = id
  · subst hx
    rw [get?, get?_update_self, Option.map_map, Option.map_eq_some_iff] at h
    obtain ⟨n, hn, rfl⟩ := h
    exact .inr ⟨n.component, get?_eq_some_iff.2 ⟨n, hn, rfl⟩, rfl⟩
  · rw [get?, get?_update_of_ne hx] at h
    exact .inl h

theorem get?_component_update_self (t : Tree μ) (id : ComponentId)
    (f : Component μ → Component μ) : (t.update id f).get? id = (t.get? id).map f := by
  rw [get?, get?_update_self, get?, Option.map_map, Option.map_map]
  rfl

theorem get?_component_update_of_ne {id x : ComponentId} (h : x ≠ id) (t : Tree μ)
    (f : Component μ → Component μ) : (t.update id f).get? x = t.get? x := by
  rw [get?, get?_update_of_ne h, get?]

/-! ## One component -/

theorem get?_ofRoot (root : Component μ) :
    (ofRoot root).nodes.get? ⟨1⟩ = some ⟨root, none, []⟩ := Dict.get?_insert_self ..

theorem eq_of_get?_ofRoot {root : Component μ} {id : ComponentId} {n : Node μ}
    (h : (ofRoot root).nodes.get? id = some n) : id = ⟨1⟩ ∧ n = ⟨root, none, []⟩ := by
  by_cases hid : id = ⟨1⟩
  · subst hid
    rw [get?_ofRoot] at h
    exact ⟨rfl, (Option.some.inj h).symm⟩
  · rw [ofRoot, Dict.get?_insert_of_ne hid] at h
    cases h

theorem wellFormed_ofRoot (root : Component μ) : (ofRoot root).WellFormed := by
  constructor
  · exact ⟨_, get?_ofRoot root, rfl⟩
  · intro p n c hn hc
    obtain ⟨-, rfl⟩ := eq_of_get?_ofRoot hn
    cases hc
  · intro id n hn hne
    exact absurd (eq_of_get?_ofRoot hn).1 hne
  · intro p n hn
    obtain ⟨-, rfl⟩ := eq_of_get?_ofRoot hn
    exact List.pairwise_singleton _ _
  · intro id n hn
    obtain ⟨rfl, -⟩ := eq_of_get?_ofRoot hn
    show 1 < 2
    omega

/-! ## Attaching -/

/-- what attaching does to the table: the parent gains a last child, which is a new leaf -/
theorem attach_ok {t t' : Tree μ} {parent id : ComponentId} {c : Component μ}
    (h : t.attach parent c = .ok (id, t')) :
    ∃ n, t.nodes.get? parent = some n ∧ id = ⟨t.nextId⟩ ∧ t' = { t with
      nodes := (t.nodes.insert parent { n with children := n.children ++ [id] }).insert id
        ⟨c, some parent, []⟩
      nextId := t.nextId + 1 } := by
  unfold attach at h
  split at h
  · cases h
  · next n hn =>
    simp only [Except.ok.injEq, Prod.mk.injEq] at h
    obtain ⟨rfl, rfl⟩ := h
    exact ⟨n, hn, rfl, rfl⟩

/-- the table after attaching `c` as `id` under `p`, look-up by look-up -/
structure Attached (t t' : Tree μ) (p id : ComponentId) (c : Component μ) (n : Node μ) :
    Prop where
  parent : t.nodes.get? p = some n
  root : t'.root = t.root
  new : t'.nodes.get? id = some ⟨c, some p, []⟩
  above : t'.nodes.get? p = some { n with children := n.children ++ [id] }
  others : ∀ x, x ≠ id → x ≠ p → t'.nodes.get? x = t.nodes.get? x
  unused : t.nodes.get? id = none
  idEq : id = ⟨t.nextId⟩
  nextId : t'.nextId = t.nextId + 1

theorem WellFormed.attached {t t' : Tree μ} {p id : ComponentId} {c : Component μ}
    (hw : t.WellFormed) (h : t.attach p c = .ok (id, t')) : ∃ n, Attached t t' p id c n := by
  obtain ⟨n, hn, rfl, rfl⟩ := attach_ok h
  have hlt := hw.fresh p n hn
  have hne : p ≠ ⟨t.nextId⟩ := by
    rintro rfl
    exact lt_irrefl _ hlt
  refine ⟨n, hn, rfl, Dict.get?_insert_self .., ?_, ?_, ?_, rfl, rfl⟩
  · rw [Dict.get?_insert_of_ne hne, Dict.get?_insert_self]
  · intro x hx hp
    rw [Dict.get?_insert_of_ne hx, Dict.get?_insert_of_ne hp]
  · cases hx : t.nodes.get? ⟨t.nextId⟩ with
    | none => rfl
    | some m => exact absurd (hw.fresh _ m hx) (lt_irrefl _)

namespace Attached

variable {t t' : Tree μ} {p id : ComponentId} {c : Component μ} {n : Node μ}

/-- every old node stays, the parent with one more child -/
theorem kept (h : Attached t t' p id c n) {x : ComponentId} {m : Node μ}
    (hm : t.nodes.get? x = some m) :
    ∃ m', t'.nodes.get? x = some m' ∧ m'.parent = m.parent ∧ ∀ y ∈ m.children, y ∈ m'.children := by
  by_cases hp : x = p
  · subst hp
    rw [h.parent] at hm
    obtain rfl := Option.some.inj hm
    exact ⟨_, h.above, rfl, fun y hy => List.mem_append_left _ hy⟩
  · have hx : x ≠ id := by
      rintro rfl
      rw [h.unused] at hm
      cases hm
    exact ⟨m, (h.others x hx hp).trans hm, rfl, fun y hy => hy⟩

/-- a node is the new leaf or an old node, the parent with one more child -/
theorem cases (h : Attached t t' p id c n) {x : ComponentId} {m : Node μ}
    (hm : t'.nodes.get? x = some m) :
    x = id ∧ m = ⟨c, some p, []⟩ ∨ ∃ m₀, t.nodes.get? x = some m₀ ∧ m.component = m₀.component ∧
      m.parent = m₀.parent ∧ (m.children = m₀.children ∨
        x = p ∧ m.children = m₀.children ++ [id]) := by
  by_cases hx : x = id
  · subst hx
    rw [h.new] at hm
    exact .inl ⟨rfl, (Option.some.inj hm).symm⟩
  · by_cases hp : x = p
    · subst hp
      rw [h.above] at hm
      obtain rfl := Option.some.inj hm
      exact .inr ⟨n, h.parent, rfl, rfl, .inr ⟨rfl, rfl⟩⟩
    · rw [h.others x hx hp] at hm
      exact .inr ⟨m, hm, rfl, rfl, .inl rfl⟩

theorem child (h : Attached t t' p id c n) (hw : t.WellFormed) {q x : ComponentId} {m : Node μ}
    (hm : t'.nodes.get? q = some m) (hx : x ∈ m.children) :
    ∃ k, t'.nodes.get? x = some k ∧ k.parent = some q := by
  rcases h.cases hm with ⟨-, rfl⟩ | ⟨m₀, hm₀, -, -, hc⟩
  · cases hx
  · have hold : x ∈ m₀.children → ∃ k, t'.nodes.get? x = some k ∧ k.parent = some q := by
      intro hx₀
      obtain ⟨k, hk, hkp⟩ := hw.child q m₀ x hm₀ hx₀
      obtain ⟨k', hk', hp', -⟩ := h.kept hk
      exact ⟨k', hk', hp'.trans hkp⟩
    rcases hc with hc | ⟨rfl, hc⟩
    · exact hold (hc ▸ hx)
    · rw [hc] at hx
      rcases List.mem_append.1 hx with hx | hx
      · exact hold hx
      · obtain rfl := List.mem_singleton.1 hx
        exact ⟨_, h.new, rfl⟩

theorem increasing (h : Attached t t' p id c n) (hw : t.WellFormed) {q : ComponentId} {m : Node μ}
    (hm : t'.nodes.get? q = some m) :
    (q :: m.children).Pairwise fun a b => a.value < b.value := by
  rcases h.cases hm with ⟨-, rfl⟩ | ⟨m₀, hm₀, -, -, hc | ⟨rfl, hc⟩⟩
  · exact List.pairwise_singleton _ _
  · exact hc ▸ hw.increasing q m₀ hm₀
  · rw [hc, ← List.cons_append, List.pairwise_append]
    refine ⟨hw.increasing q m₀ hm₀, List.pairwise_singleton _ _, ?_⟩
    intro x hx y hy
    obtain rfl := List.mem_singleton.1 hy
    rw [h.idEq]
    rcases List.mem_cons.1 hx with rfl | hx
    · exact hw.fresh _ m₀ hm₀
    · obtain ⟨k, hk, -⟩ := hw.child q m₀ x hm₀ hx
      exact hw.fresh x k hk

end Attached

theorem WellFormed.attach {t t' : Tree μ} {p id : ComponentId} {c : Component μ}
    (hw : t.WellFormed) (h : t.attach p c = .ok (id, t')) : t'.WellFormed := by
  obtain ⟨n, ha⟩ := hw.attached h
  constructor
  · obtain ⟨r, hr, hrp⟩ := hw.root
    obtain ⟨r', hr', hp, -⟩ := ha.kept hr
    exact ⟨r', ha.root ▸ hr', hp.trans hrp⟩
  · intro q m x hm hx
    exact ha.child hw hm hx
  · intro x m hm hne
    rcases ha.cases hm with ⟨rfl, rfl⟩ | ⟨m₀, hm₀, -, hp, -⟩
    · exact ⟨p, _, rfl, ha.above, List.mem_append_right _ (List.mem_singleton.2 rfl)⟩
    · obtain ⟨q, k, hkq, hk, hxk⟩ := hw.parent x m₀ hm₀ (ha.root ▸ hne)
      obtain ⟨k', hk', -, hsub⟩ := ha.kept hk
      exact ⟨q, k', hp.trans hkq, hk', hsub x hxk⟩
  · intro q m hm
    exact ha.increasing hw hm
  · intro x m hm
    rw [ha.nextId]
    rcases ha.cases hm with ⟨rfl, -⟩ | ⟨m₀, hm₀, -⟩
    · rw [ha.idEq]
      exact Nat.lt_succ_self _
    · exact Nat.lt_succ_of_lt (hw.fresh x m₀ hm₀)

end Tree

end UiSync
