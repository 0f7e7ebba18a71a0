import UiSync.Proofs.Replica.Removal
import UiSync.Proofs.Tree.PreOrder
import UiSync.Session.Basic

/-!
# A replica that mirrors a tree

`Replica.Mirrors view r t` says that a replica shows a tree: the same root, the same components
with the same kinds, parents and children in the same order, and for each component the fields
that are not `null` among those `view` picks from its field bag.  `FieldBag.sent` picks what was
committed, `FieldBag.fields` what the component holds now.

The relation is kept by telling the replica of an attached component (`Mirrors.attach`) and of a
detached one (`Mirrors.detach`).  Replaying the announcement of a whole tree to an empty replica
gives a mirror with blank fields (`mirrors_announcement`).
-/

namespace UiSync

open FieldBag

variable {μ : Type}

/-- the copy shows the component with the fields that `view` picks -/
structure ReplicaNode.Copies (view : FieldBag → Fields) (n : ReplicaNode) (m : Node μ) :
    Prop where
  kind : n.kind = m.component.kind
  parent : n.parent = m.parent
  children : n.children = m.children
  fields : SameFields n.fields (visible (view m.component.fields))

namespace Replica

/-- the replica shows the tree with the fields that `view` picks -/
structure Mirrors (view : FieldBag → Fields) (r : Replica) (t : Tree μ) : Prop where
  root : r.root = some t.root
  nodes : ∀ id, Option.Rel (ReplicaNode.Copies view) (r.components.get? id) (t.nodes.get? id)

def blankView : FieldBag → Fields := fun _ => ∅

def withChild (r : Replica) (p : ComponentId) (n : ReplicaNode) (id : ComponentId)
    (kind : String) : Replica where
  components := (r.components.insert p { n with children := n.children ++ [id] }).insert id
    (blank kind (some p))
  root := r.root

theorem attach_below {r : Replica} {p : ComponentId} {n : ReplicaNode}
    (h : r.components.get? p = some n) (id : ComponentId) (kind : String) :
    r.attach id (some p) kind = .ok (r.withChild p n id kind) := by
  simp only [attach, h]
  rfl

theorem get?_withChild_new {r : Replica} {p id : ComponentId} {n : ReplicaNode} {kind : String} :
    (r.withChild p n id kind).components.get? id = some (blank kind (some p)) :=
  Dict.get?_insert_self ..

theorem get?_withChild_parent {r : Replica} {p id : ComponentId} {n : ReplicaNode} {kind : String}
    (h : p ≠ id) :
    (r.withChild p n id kind).components.get? p =
      some { n with children := n.children ++ [id] } := by
  rw [withChild, Dict.get?_insert_of_ne h, Dict.get?_insert_self]

theorem get?_withChild_of_ne {r : Replica} {p id x : ComponentId} {n : ReplicaNode}
    {kind : String} (hid : x ≠ id) (hp : x ≠ p) :
    (r.withChild p n id kind).components.get? x = r.components.get? x := by
  rw [withChild, Dict.get?_insert_of_ne hid, Dict.get?_insert_of_ne hp]

theorem detach_known {r : Replica} {id : ComponentId} {n : ReplicaNode}
    (h : r.components.get? id = some n) :
    r.detach id = .ok { r with
      components := removeAll (dropChild r.components n.parent id) [id] } := by
  simp only [detach, h]

namespace Mirrors

variable {view view' : FieldBag → Fields} {r : Replica} {t t' : Tree μ}

theorem get?_some (h : Mirrors view r t) {id : ComponentId} {m : Node μ}
    (hm : t.nodes.get? id = some m) :
    ∃ n, r.components.get? id = some n ∧ n.Copies view m := by
  have hn := h.nodes id
  rw [hm] at hn
  cases hr : r.components.get? id with
  | none =>
    rw [hr] at hn
    cases hn
  | some n =>
    rw [hr] at hn
    cases hn with
    | some hc => exact ⟨n, rfl, hc⟩

theorem get?_none (h : Mirrors view r t) {id : ComponentId} (hm : t.nodes.get? id = none) :
    r.components.get? id = none := by
  have hn := h.nodes id
  rw [hm] at hn
  cases hr : r.components.get? id with
  | none => rfl
  | some n =>
    rw [hr] at hn
    cases hn

/-- another tree of the same shape, its kinds and picked fields the same -/
theorem congr (h : Mirrors view r t) (hs : Tree.SameShape t t')
    (hc : ∀ id c, t.get? id = some c → ∃ c', t'.get? id = some c' ∧ c'.kind = c.kind ∧
      SameFields (visible (view c.fields)) (visible (view' c'.fields))) :
    Mirrors view' r t' := by
  refine ⟨hs.root ▸ h.root, fun id => ?_⟩
  cases hm : t.nodes.get? id with
  | none =>
    have hm' : t'.nodes.get? id = none := by
      have := hs.nodes id
      rw [hm] at this
      exact Option.map_eq_none_iff.1 this
    rw [h.get?_none hm, hm']
    exact .none
  | some m =>
    obtain ⟨n, hn, hcopy⟩ := h.get?_some hm
    obtain ⟨m', hm', hp, hch⟩ := hs.get?_some hm
    obtain ⟨c', hc', hk, hf⟩ := hc id m.component (Tree.get?_eq_some_iff.2 ⟨m, hm, rfl⟩)
    obtain ⟨m'', hm'', rfl⟩ := Tree.get?_eq_some_iff.1 hc'
    rw [hm'] at hm''
    obtain rfl := Option.some.inj hm''
    rw [hn, hm']
    exact .some ⟨hcopy.kind.trans hk.symm, hcopy.parent.trans hp.symm,
      hcopy.children.trans hch.symm, hcopy.fields.trans hf⟩

/-! ## Attaching -/

theorem attach {p id : ComponentId} {c : Component μ} (h : Mirrors FieldBag.sent r t)
    (hw : t.WellFormed) (ha : t.attach p c = .ok (id, t')) (hc : c.fields.Unsent) :
    ∃ r', r.attach id (some p) c.kind = .ok r' ∧ Mirrors FieldBag.sent r' t' := by
  obtain ⟨m, hm⟩ := hw.attached ha
  obtain ⟨n, hn, hcopy⟩ := h.get?_some hm.parent
  have hne : p ≠ id := by
    rintro rfl
    have := hm.parent
    rw [hm.unused] at this
    cases this
  refine ⟨_, attach_below hn id c.kind, h.root.trans (congrArg some hm.root.symm), fun x => ?_⟩
  by_cases hx : x = id
  · subst hx
    rw [get?_withChild_new, hm.new]
    refine .some ⟨rfl, rfl, rfl, ?_⟩
    show SameFields ∅ (visible c.fields.sent)
    rw [hc.sent]
    exact SameFields.refl _
  · by_cases hxp : x = p
    · subst hxp
      rw [get?_withChild_parent hx, hm.above]
      refine .some ⟨hcopy.kind, hcopy.parent, ?_, hcopy.fields⟩
      show n.children ++ [id] = m.children ++ [id]
      rw [hcopy.children]
    · rw [get?_withChild_of_ne hx hxp, hm.others x hx hxp]
      exact h.nodes x

/-! ## Detaching -/

theorem get?_dropChild (h : Mirrors view r t) (hw : t.WellFormed) {id x : ComponentId}
    {n : Node μ} (hn : t.nodes.get? id = some n) (hr : id ≠ t.root) :
    (dropChild r.components n.parent id).get? x = (r.components.get? x).map
      fun m => { m with children := m.children.filter (· != id) } := by
  obtain ⟨p, k, hp, hk, hid⟩ := hw.parent id n hn hr
  rw [hp]
  show (r.components.modify p _).get? x = _
  by_cases hx : x = p
  · subst hx
    rw [Dict.get?_modify_self]
  · rw [Dict.get?_modify_of_ne hx]
    cases hm : t.nodes.get? x with
    | none =>
      rw [h.get?_none hm]
      rfl
    | some m =>
      obtain ⟨m', hm', hcopy⟩ := h.get?_some hm
      have hnot : id ∉ m'.children := by
        rw [hcopy.children]
        exact fun hc => hx (hw.parent_unique (Tree.mem_children_iff.2 ⟨m, hm, hc⟩)
          (Tree.mem_children_iff.2 ⟨k, hk, hid⟩))
      have hfilter : m'.children.filter (· != id) = m'.children := by
        rw [List.filter_eq_self]
        intro c hc
        rw [bne_iff_ne]
        rintro rfl
        exact hnot hc
      rw [hm', Option.map_some, hfilter]

theorem child_iff (h : Mirrors view r t) (hw : t.WellFormed) {p c : ComponentId} :
    r.Child p c ↔ c ∈ t.children p := by
  rw [Tree.mem_children_iff]
  constructor
  · rintro ⟨k, -, hk, hc, -⟩
    cases hm : t.nodes.get? p with
    | none =>
      rw [h.get?_none hm] at hk
      cases hk
    | some m =>
      obtain ⟨k', hk', hcopy⟩ := h.get?_some hm
      rw [hk] at hk'
      obtain rfl := Option.some.inj hk'
      exact ⟨m, rfl, hcopy.children ▸ hc⟩
  · rintro ⟨m, hm, hc⟩
    obtain ⟨k, hk, hcopy⟩ := h.get?_some hm
    obtain ⟨m', hm', -⟩ := hw.child p m c hm hc
    obtain ⟨k', hk', -⟩ := h.get?_some hm'
    exact ⟨k, k', hk, hcopy.children ▸ hc, hk'⟩

/-- what the replica removes is what lies below the detached component in the tree -/
theorem reached_iff (h : Mirrors view r t) (hw : t.WellFormed) {id x : ComponentId} {n : Node μ}
    (hn : t.nodes.get? id = some n) :
    Reached (dropChild r.components n.parent id) [id] x ↔ t.Under id x := by
  obtain ⟨k, hk, -⟩ := h.get?_some hn
  have hchild : r.Child = fun p c => c ∈ t.children p :=
    funext fun p => funext fun c => propext (h.child_iff hw)
  rw [reached_dropChild_iff hk, Below, hchild]
  rfl

theorem detach {id : ComponentId} {removed : List ComponentId} (h : Mirrors view r t)
    (hw : t.WellFormed) (hd : t.detach id = .ok (removed, t')) :
    ∃ r', r.detach id = .ok r' ∧ Mirrors view r' t' := by
  have hdet := hw.detached hd
  obtain ⟨m, hm⟩ := Tree.contains_iff.1 hdet.attached
  obtain ⟨n, hn, hcopy⟩ := h.get?_some hm
  refine ⟨_, detach_known hn, h.root.trans (congrArg some hdet.root.symm), fun x => ?_⟩
  rw [hcopy.parent]
  by_cases hx : t.Under id x
  · rw [hdet.gone x hx, get?_removeAll_of_reached ((h.reached_iff hw hm).2 hx)]
    exact .none
  · rw [get?_removeAll_of_not_reached (mt (h.reached_iff hw hm).1 hx),
      h.get?_dropChild hw hm hdet.notRoot, hdet.kept x hx]
    cases hk : t.nodes.get? x with
    | none =>
      rw [h.get?_none hk]
      exact .none
    | some k =>
      obtain ⟨l, hl, hcopy'⟩ := h.get?_some hk
      rw [hl]
      refine .some ⟨hcopy'.kind, hcopy'.parent, ?_, hcopy'.fields⟩
      show l.children.filter _ = k.children.filter _
      rw [hcopy'.children]

end Mirrors

/-! ## Announcing a whole tree -/

def announce (t : Tree μ) (ids : List ComponentId) : List TreeChange :=
  ids.filterMap fun id => (t.get? id).map fun c => .attached id (t.parent? id) c.kind

theorem announcement_eq (t : Tree μ) : Session.announcement t = announce t t.preOrder := rfl

theorem announce_cons {t : Tree μ} {id : ComponentId} {m : Node μ} (hm : t.nodes.get? id = some m)
    (ids : List ComponentId) :
    announce t (id :: ids) = .attached id m.parent m.component.kind :: announce t ids := by
  simp [announce, Tree.get?, Tree.parent?, hm]

theorem announce_append (t : Tree μ) (xs ys : List ComponentId) :
    announce t (xs ++ ys) = announce t xs ++ announce t ys := List.filterMap_append ..

def blankCopy (m : Node μ) : ReplicaNode := ⟨m.component.kind, m.parent, m.children, ∅, 0⟩

/-- `r'` is `r` with the listing `out` of the forest `ids` below `p`, whose copy was `n` -/
structure Grown (t : Tree μ) (r r' : Replica) (p : ComponentId) (n : ReplicaNode)
    (ids out : List ComponentId) : Prop where
  root : r'.root = r.root
  parent : r'.components.get? p = some { n with children := n.children ++ ids }
  listed : ∀ x ∈ out, r'.components.get? x = (t.nodes.get? x).map blankCopy
  others : ∀ x, x ∉ out → x ≠ p → r'.components.get? x = r.components.get? x

theorem Grown.nil {t : Tree μ} {r : Replica} {p : ComponentId} {n : ReplicaNode}
    (h : r.components.get? p = some n) : Grown t r r p n [] [] := by
  refine ⟨rfl, ?_, fun x hx => absurd hx List.not_mem_nil, fun x _ _ => rfl⟩
  rw [h, List.append_nil]

/-- first a root, then what is below it, then the rest of the forest -/
theorem Grown.cons {t : Tree μ} {r r₂ r₃ : Replica} {p id : ComponentId} {n : ReplicaNode}
    {m : Node μ} {ids below rest : List ComponentId} (hm : t.nodes.get? id = some m)
    (hmp : m.parent = some p) (hnodup : (id :: (below ++ rest)).Nodup)
    (hp : p ∉ id :: (below ++ rest))
    (h₂ : Grown t (r.withChild p n id m.component.kind) r₂ id (blank m.component.kind (some p))
      (t.children id) below)
    (h₃ : Grown t r₂ r₃ p { n with children := n.children ++ [id] } ids rest) :
    Grown t r r₃ p n (id :: ids) (id :: (below ++ rest)) := by
  obtain ⟨hid, hnd⟩ := List.nodup_cons.1 hnodup
  obtain ⟨-, -, hdisj⟩ := List.nodup_append.1 hnd
  rw [List.mem_append, not_or] at hid
  rw [List.mem_cons, List.mem_append, not_or, not_or] at hp
  obtain ⟨hpid, hpbelow, -⟩ := hp
  constructor
  · exact h₃.root.trans h₂.root
  · rw [h₃.parent, List.append_assoc]
    rfl
  · intro x hx
    rcases List.mem_cons.1 hx with rfl | hx
    · rw [h₃.others x hid.2 (Ne.symm hpid), h₂.parent, hm, Option.map_some, blankCopy, hmp,
        ← Tree.children_eq hm]
      rfl
    · rcases List.mem_append.1 hx with hxb | hxr
      · have hxp : x ≠ p := fun he => hpbelow (he ▸ hxb)
        have hxr : x ∉ rest := fun hxr => hdisj x hxb x hxr rfl
        rw [h₃.others x hxr hxp, h₂.listed x hxb]
      · exact h₃.listed x hxr
  · intro x hx hxp
    rw [List.mem_cons, List.mem_append, not_or, not_or] at hx
    obtain ⟨hxid, hxb, hxr⟩ := hx
    rw [h₃.others x hxr hxp, h₂.others x hxb hxid, get?_withChild_of_ne hxid hxp]

/-- announcing the listing of a forest adds it -/
theorem foldlM_announce {t : Tree μ} (hw : t.WellFormed) {ids out : List ComponentId}
    (hl : Tree.Lists t ids out) (hnodup : out.Nodup) :
    ∀ (p : ComponentId) (r : Replica) (n : ReplicaNode), (∀ id ∈ ids, id ∈ t.children p) →
      r.components.get? p = some n → p ∉ out → (∀ x ∈ out, r.components.get? x = none) →
      ∃ r', (announce t out).foldlM applyTreeChange r = .ok r' ∧ Grown t r r' p n ids out := by
  induction hl with
  | nil => exact fun p r n _ hp _ _ => ⟨r, rfl, .nil hp⟩
  | @cons id ids below rest hb hr ihb ihr =>
    intro p r n hids hp hpout hfresh
    obtain ⟨hidout, hnd⟩ := List.nodup_cons.1 hnodup
    obtain ⟨hbelow, hrest, hdisj⟩ := List.nodup_append.1 hnd
    have hidp : id ∈ t.children p := hids id (List.mem_cons_self ..)
    obtain ⟨k, hk, hidk⟩ := Tree.mem_children_iff.1 hidp
    obtain ⟨m, hm, hmp⟩ := hw.child p k id hk hidk
    have hpid : p ≠ id := fun he => hpout (he ▸ List.mem_cons_self ..)
    -- the root of the first tree is announced before everything else in the listing
    have hother : ∀ x ∈ below ++ rest,
        (r.withChild p n id m.component.kind).components.get? x = none := by
      intro x hx
      have hxid : x ≠ id := fun he => hidout (he ▸ hx)
      have hxp : x ≠ p := fun he => hpout (he ▸ List.mem_cons_of_mem _ hx)
      rw [get?_withChild_of_ne hxid hxp]
      exact hfresh x (List.mem_cons_of_mem _ hx)
    obtain ⟨r₂, hfold₂, h₂⟩ := ihb hbelow id _ (blank m.component.kind (some p))
      (fun c hc => hc) get?_withChild_new (fun hid => hidout (List.mem_append_left _ hid))
      fun x hx => hother x (List.mem_append_left _ hx)
    have hp₂ : r₂.components.get? p = some { n with children := n.children ++ [id] } := by
      have hpbelow : p ∉ below := fun hx =>
        hpout (List.mem_cons_of_mem _ (List.mem_append_left _ hx))
      rw [h₂.others p hpbelow hpid, get?_withChild_parent hpid]
    have hrest₂ : ∀ x ∈ rest, r₂.components.get? x = none := by
      intro x hx
      have hxid : x ≠ id := fun he => hidout (he ▸ List.mem_append_right _ hx)
      have hxb : x ∉ below := fun hxb => hdisj x hxb x hx rfl
      rw [h₂.others x hxb hxid]
      exact hother x (List.mem_append_right _ hx)
    obtain ⟨r₃, hfold₃, h₃⟩ := ihr hrest p r₂ _ (fun c hc => hids c (List.mem_cons_of_mem _ hc))
      hp₂ (fun hx => hpout (List.mem_cons_of_mem _ (List.mem_append_right _ hx))) hrest₂
    refine ⟨r₃, ?_, .cons hm hmp hnodup hpout h₂ h₃⟩
    rw [announce_cons hm, announce_append, List.foldlM_cons, hmp]
    show (r.attach id (some p) m.component.kind >>= _) = _
    rw [attach_below hp]
    show (announce t below ++ announce t rest).foldlM applyTreeChange _ = _
    rw [List.foldlM_append, hfold₂]
    exact hfold₃

/-- a replica built from the announcement of a tree mirrors its structure -/
theorem mirrors_announcement {t : Tree μ} (hw : t.WellFormed) :
    ∃ r, (Session.announcement t).foldlM applyTreeChange ∅ = .ok r ∧ Mirrors blankView r t := by
  obtain ⟨m, hm, hmp⟩ := hw.root
  have hnodup := hw.nodup_preOrder
  have hmem := hw.mem_preOrder
  have hlist := hw.lists_preOrder
  rw [announcement_eq]
  generalize t.preOrder = order at hnodup hmem hlist
  cases hlist with
  | @cons _ _ below rest hb hrest =>
    cases hrest
    rw [List.append_nil] at hnodup hmem ⊢
    obtain ⟨hroot, hbelow⟩ := List.nodup_cons.1 hnodup
    let r₀ : Replica :=
      ⟨(∅ : Replica).components.insert t.root (blank m.component.kind none), some t.root⟩
    have hother : ∀ x, x ≠ t.root → r₀.components.get? x = none := fun x hx =>
      Dict.get?_insert_of_ne hx ..
    obtain ⟨r, hfold, hgrown⟩ := foldlM_announce hw hb hbelow t.root r₀
      (blank m.component.kind none) (fun c hc => hc) (Dict.get?_insert_self ..) hroot
      fun x hx => hother x fun he => hroot (he ▸ hx)
    refine ⟨r, ?_, hgrown.root, fun x => ?_⟩
    · rw [announce_cons hm, hmp]
      exact hfold
    · have hcopy : ∀ k : Node μ, (blankCopy k).Copies blankView k := fun k =>
        ⟨rfl, rfl, rfl, SameFields.refl _⟩
      by_cases hx : x = t.root
      · subst hx
        have hmc : m = ⟨m.component, none, t.children t.root⟩ := by
          rw [Tree.children_eq hm, ← hmp]
        rw [hgrown.parent, hm, hmc]
        exact .some (hcopy _)
      · by_cases hxb : x ∈ below
        · rw [hgrown.listed x hxb]
          cases t.nodes.get? x with
          | none => exact .none
          | some k => exact .some (hcopy k)
        · have hnone : t.nodes.get? x = none := by
            cases hk : t.nodes.get? x with
            | none => rfl
            | some k =>
              rcases List.mem_cons.1 ((hmem x).2 (Tree.contains_iff.2 ⟨k, hk⟩)) with he | he
              · exact absurd he hx
              · exact absurd he hxb
          rw [hgrown.others x hxb hx, hother x hx, hnone]
          exact .none

/-- a replica that was told of the root of a new tree mirrors it -/
theorem mirrors_ofRoot (root : Component μ) (h : root.fields.Unsent) :
    ∃ r, applyTreeChange ∅ (.attached (Tree.ofRoot root).root none root.kind) = .ok r ∧
      Mirrors FieldBag.sent r (Tree.ofRoot root) := by
  refine ⟨_, rfl, rfl, fun id => ?_⟩
  by_cases hid : id = ⟨1⟩
  · subst hid
    rw [Tree.ofRoot, Dict.get?_insert_self, Dict.get?_insert_self]
    refine .some ⟨rfl, rfl, rfl, ?_⟩
    rw [h.sent]
    exact SameFields.refl _
  · rw [Tree.ofRoot, Dict.get?_insert_of_ne hid, Dict.get?_insert_of_ne hid]
    exact .none

end Replica

/-! ## Reading a mirror -/

def Tree.field? (t : Tree μ) (id : ComponentId) (name : String) : Option Json.Value :=
  (t.get? id).bind fun c => c.fields.get? name

namespace Replica.Mirrors

variable {view : FieldBag → Fields} {r : Replica} {t : Tree μ}

theorem children (h : Mirrors view r t) (id : ComponentId) : r.children id = t.children id := by
  unfold Replica.children Replica.get? Tree.children
  cases hm : t.nodes.get? id with
  | none => rw [h.get?_none hm, Option.map_none, Option.map_none]
  | some m =>
    obtain ⟨n, hn, hcopy⟩ := h.get?_some hm
    rw [hn, Option.map_some, Option.map_some, hcopy.children]

/-- a mirror of the fields shows every field but for `null` -/
theorem field? (h : Mirrors FieldBag.fields r t) (id : ComponentId) (name : String) :
    sameField (r.field? id name) (visibleField (t.field? id name)) = true := by
  unfold Replica.field? Replica.get? Tree.field? Tree.get?
  cases hm : t.nodes.get? id with
  | none =>
    rw [h.get?_none hm]
    rfl
  | some m =>
    obtain ⟨n, hn, hcopy⟩ := h.get?_some hm
    have hname := hcopy.fields name
    rw [get?_visible] at hname
    rw [hn]
    exact hname

/-- texts and integers are shown as they are -/
theorem field?_eq (h : Mirrors FieldBag.fields r t) {id : ComponentId} {name : String}
    (hv : ∀ v, t.field? id name = some v → v.Sharp) : r.field? id name = t.field? id name := by
  have hsame := h.field? id name
  cases ht : t.field? id name with
  | none =>
    rw [ht] at hsame
    exact sameField_none_right.1 hsame
  | some v =>
    have hsharp := hv v ht
    have hshown : visibleField (some v) = some v := by
      simp [visibleField, Option.filter, hsharp.isNull]
    rw [ht, hshown] at hsame
    cases hr : r.field? id name with
    | none =>
      rw [hr] at hsame
      cases hsame
    | some w =>
      rw [hr] at hsame
      exact congrArg some (hsharp.eq hsame)

end Replica.Mirrors

end UiSync
