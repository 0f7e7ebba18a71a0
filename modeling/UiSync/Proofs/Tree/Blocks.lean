import UiSync.Proofs.Tree.Runs

/-!
# Blocks of the pre-order

Everything at or below a component stands in one block of every listing that comes to it.  Where a
tree changes in the children of one component only, the new listing of that component takes the
place of the old one, and nothing else moves (`Tree.Lists.replace`).

So attaching puts the new component right behind the block of its parent (`Tree.Inserts`), and
detaching takes one block out (`Tree.Cuts`); of the other components, neither touches more than the
one list of children.
-/

namespace UiSync

variable {μ : Type}

namespace Tree

variable {t t' u : Tree μ}

/-! ## Listings in parts -/

theorem notMem_block {before block after : List ComponentId} {x : ComponentId}
    (h : (before ++ block ++ after).Nodup) (hx : x ∈ before ++ after) : x ∉ block := by
  rw [List.append_assoc] at h
  obtain ⟨-, hrest, hbefore⟩ := List.nodup_append.1 h
  obtain ⟨-, -, hafter⟩ := List.nodup_append.1 hrest
  intro hblock
  rcases List.mem_append.1 hx with hx | hx
  · exact hbefore x hx x (List.mem_append_left _ hblock) rfl
  · exact hafter x hblock x hx rfl

theorem Lists.split {xs ys out : List ComponentId} (h : Lists t (xs ++ ys) out) :
    ∃ a b, out = a ++ b ∧ Lists t xs a ∧ Lists t ys b := by
  induction xs generalizing out with
  | nil => exact ⟨[], out, rfl, .nil, h⟩
  | cons x xs ih =>
    rw [List.cons_append] at h
    cases h with
    | @cons _ _ below rest hb hr =>
      obtain ⟨a, b, rfl, ha, hy⟩ := ih hr
      exact ⟨x :: (below ++ a), b, by simp, .cons hb ha, hy⟩

theorem Lists.singleton {x : ComponentId} {below : List ComponentId}
    (h : Lists t (t.children x) below) : Lists t [x] (x :: below) := by
  have hx : Lists t [x] (x :: (below ++ [])) := .cons h .nil
  rwa [List.append_nil] at hx

/-- the listing of `q` is one block of a listing that comes to `q`, and the only part of it that
depends on the children of `q` -/
theorem Lists.replace {ids out : List ComponentId} {q : ComponentId} (h : Lists t ids out)
    (hq : q ∈ out) (hn : out.Nodup) (hu : ∀ x, x ≠ q → u.children x = t.children x) :
    ∃ before block after, out = before ++ block ++ after ∧ Lists t [q] block ∧
      ∀ block', Lists u [q] block' → Lists u ids (before ++ block' ++ after) := by
  have hsame {ids out : List ComponentId} (h : Lists t ids out) (hout : q ∉ out) :
      Lists u ids out := h.congr_of_mem fun x hx => hu x fun he => hout (he ▸ hx)
  induction h with
  | nil => cases hq
  | @cons x ids below rest hb hr ihb ihr =>
    obtain ⟨hx, hrest⟩ := List.nodup_cons.1 hn
    rw [List.mem_append, not_or] at hx
    obtain ⟨hnb, hnr, hdisj⟩ := List.nodup_append.1 hrest
    rcases List.mem_cons.1 hq with rfl | hq
    · refine ⟨[], q :: below, rest, by simp, hb.singleton, fun block' h' => ?_⟩
      exact h'.append (hsame hr hx.2)
    · rcases List.mem_append.1 hq with hq | hq
      · obtain ⟨before, block, after, rfl, hblock, hnew⟩ := ihb hq hnb
        have hqr : q ∉ rest := fun hm => hdisj q hq q hm rfl
        have hxq : x ≠ q := fun he => hx.1 (he ▸ hq)
        refine ⟨x :: before, block, after ++ rest, by simp, hblock, fun block' h' => ?_⟩
        have hbelow := hnew block' h'
        rw [← hu x hxq] at hbelow
        have hall : Lists u (x :: ids) (x :: ((before ++ block' ++ after) ++ rest)) :=
          .cons hbelow (hsame hr hqr)
        simpa using hall
      · obtain ⟨before, block, after, rfl, hblock, hnew⟩ := ihr hq hnr
        have hqb : q ∉ below := fun hm => hdisj q hm q hq rfl
        have hxq : x ≠ q := fun he => hx.2 (he ▸ hq)
        refine ⟨x :: (below ++ before), block, after, by simp, hblock, fun block' h' => ?_⟩
        have hbelow := hsame hb hqb
        rw [← hu x hxq] at hbelow
        have hall : Lists u (x :: ids) (x :: (below ++ (before ++ block' ++ after))) :=
          .cons hbelow (hnew block' h')
        simpa using hall

theorem WellFormed.lists_below (h : t.WellFormed) {id : ComponentId}
    (hc : t.contains id = true) :
    ∃ below, t.subtree id = id :: below ∧ id ∉ below ∧ Lists t (t.children id) below := by
  obtain ⟨hblock, hnodup⟩ := h.lists_subtree hc
  cases hsub : t.subtree id with
  | nil =>
    rw [hsub] at hblock
    cases hblock
  | cons x below =>
    rw [hsub] at hblock hnodup
    cases hblock with
    | @cons _ _ below _ hb hr =>
      cases hr
      rw [List.append_nil] at hnodup
      exact ⟨below, by rw [List.append_nil], (List.nodup_cons.1 hnodup).1, hb⟩

/-- where the children of `q` alone change, so does its block of the pre-order -/
theorem WellFormed.preOrder_replace (h : t.WellFormed) {q : ComponentId}
    (hq : t.contains q = true) (hroot : u.root = t.root)
    (hu : ∀ x, x ≠ q → u.children x = t.children x) :
    ∃ before after, t.preOrder = before ++ t.subtree q ++ after ∧
      ∀ block, Lists u [q] block → Lists u [u.root] (before ++ block ++ after) := by
  obtain ⟨before, block, after, hout, hblock, hnew⟩ :=
    h.lists_preOrder.replace ((h.mem_preOrder q).2 hq) h.nodup_preOrder hu
  obtain rfl := hblock.unique (h.lists_subtree hq).1
  exact ⟨before, after, hout, hroot ▸ hnew⟩

/-! ## Attaching -/

/-- `t'` is `t` with `c` put in as `id`, the last child of `p` -/
structure Inserts (t t' : Tree μ) (p id : ComponentId) (c : Component μ) : Prop where
  root : t'.root = t.root
  unused : t.contains id = false
  /-- `t.subtree p` is the recursive traversal from `p` on -/
  block : Lists t [p] (t.subtree p)
  order : ∃ before after, t.preOrder = before ++ t.subtree p ++ after ∧
    t'.preOrder = before ++ t.subtree p ++ id :: after
  new : t'.get? id = some c ∧ t'.parent? id = some p ∧ t'.children id = []
  siblings : t'.children p = t.children p ++ [id]
  others : ∀ x, x ≠ id → t'.get? x = t.get? x ∧ t'.parent? x = t.parent? x ∧
    (x ≠ p → t'.children x = t.children x)

namespace Attached

variable {p id : ComponentId} {c : Component μ} {n : Node μ}

theorem children_parent (h : Attached t t' p id c n) : t'.children p = t.children p ++ [id] := by
  rw [children_eq h.above, children_eq h.parent]

theorem children_new (h : Attached t t' p id c n) : t'.children id = [] := children_eq h.new

theorem children_of_ne (h : Attached t t' p id c n) {x : ComponentId} (hx : x ≠ p) :
    t'.children x = t.children x := by
  by_cases hid : x = id
  · have hold : t.children id = [] := by simp [children, h.unused]
    rw [hid, h.children_new, hold]
  · rw [children, h.others x hid hx, children]

theorem get?_parent?_of_ne (h : Attached t t' p id c n) {x : ComponentId} (hx : x ≠ id) :
    t'.get? x = t.get? x ∧ t'.parent? x = t.parent? x := by
  by_cases hp : x = p
  · subst hp
    simp [get?, parent?, h.above, h.parent]
  · simp [get?, parent?, h.others x hx hp]

theorem order (h : Attached t t' p id c n) (hw : t.WellFormed) (hw' : t'.WellFormed) :
    ∃ before after, t.preOrder = before ++ t.subtree p ++ after ∧
      t'.preOrder = before ++ t.subtree p ++ id :: after := by
  have hp : t.contains p = true := contains_iff.2 ⟨n, h.parent⟩
  obtain ⟨before, after, hold, hnew⟩ :=
    hw.preOrder_replace hp h.root fun x hx => h.children_of_ne hx
  refine ⟨before, after, hold, ?_⟩
  obtain ⟨below, hsub, hpb, hbelow⟩ := hw.lists_below hp
  have hleaf : Lists t' [id] [id] := Lists.singleton (by
    rw [h.children_new]
    exact .nil)
  -- below `p` nothing changes but that the leaf `id` comes last
  have hgrown : Lists t' (t'.children p) (below ++ [id]) := by
    rw [h.children_parent]
    have hsame : Lists t' (t.children p) below :=
      hbelow.congr_of_mem fun x hx => h.children_of_ne fun he => hpb (he ▸ hx)
    exact hsame.append hleaf
  have horder := hw'.lists_preOrder_iff.1 (hnew _ hgrown.singleton)
  rw [← horder, hsub]
  simp

end Attached

theorem WellFormed.inserts (h : t.WellFormed) {p id : ComponentId} {c : Component μ}
    (ha : t.attach p c = .ok (id, t')) : Inserts t t' p id c := by
  obtain ⟨n, hatt⟩ := h.attached ha
  have hp : t.contains p = true := contains_iff.2 ⟨n, hatt.parent⟩
  constructor
  case root => exact hatt.root
  case unused => simp [contains, Dict.contains, hatt.unused]
  case block => exact (h.lists_subtree hp).1
  case order => exact hatt.order h (h.attach ha)
  case new => exact ⟨by simp [get?, hatt.new], by simp [parent?, hatt.new], hatt.children_new⟩
  case siblings => exact hatt.children_parent
  case others =>
    intro x hx
    obtain ⟨hget, hparent⟩ := hatt.get?_parent?_of_ne hx
    exact ⟨hget, hparent, fun hxp => hatt.children_of_ne hxp⟩

/-! ## Detaching -/

/-- `t'` is `t` without `removed`, the block of `id` -/
structure Cuts (t t' : Tree μ) (removed : List ComponentId) (id : ComponentId) : Prop where
  root : t'.root = t.root
  /-- `removed` is the recursive traversal from `id` on -/
  block : Lists t [id] removed
  order : ∃ before after, t.preOrder = before ++ removed ++ after ∧ t'.preOrder = before ++ after
  gone : ∀ x ∈ removed, t'.contains x = false
  parent : ∃ p older younger, t.parent? id = some p ∧ p ∉ removed ∧
    t.children p = older ++ id :: younger ∧ t'.children p = older ++ younger
  others : ∀ x, x ∉ removed → t'.get? x = t.get? x ∧ t'.parent? x = t.parent? x ∧
    (t.parent? id ≠ some x → t'.children x = t.children x)

theorem WellFormed.exists_parent (h : t.WellFormed) {id : ComponentId}
    (hc : t.contains id = true) (hr : id ≠ t.root) :
    ∃ p older younger, t.parent? id = some p ∧ t.children p = older ++ id :: younger ∧
      (older ++ id :: younger).filter (· != id) = older ++ younger := by
  obtain ⟨n, hn⟩ := contains_iff.1 hc
  obtain ⟨p, m, hp, hm, hid⟩ := h.parent id n hn hr
  obtain ⟨older, younger, hsplit⟩ := List.append_of_mem hid
  have hchildren : t.children p = older ++ id :: younger := by rw [children_eq hm, hsplit]
  refine ⟨p, older, younger, by simp [parent?, hn, hp], hchildren, ?_⟩
  have hnodup := h.nodup_children p
  rw [hchildren] at hnodup
  obtain ⟨hold, hyoung⟩ := List.nodup_middle.1 hnodup |> List.nodup_cons.1
  rw [List.mem_append, not_or] at hold
  have hkeep {xs : List ComponentId} (hx : id ∉ xs) : xs.filter (· != id) = xs :=
    List.filter_eq_self.2 fun x hm => bne_iff_ne.2 fun he => hx (he ▸ hm)
  simp [hkeep hold.1, hkeep hold.2]

namespace Detached

variable {removed : List ComponentId} {id : ComponentId}

theorem children_kept (h : Detached t t' removed id) {x : ComponentId} (hx : x ∉ removed) :
    t'.children x = (t.children x).filter (· != id) := by
  rw [children, h.kept x fun hu => hx ((h.mem_removed x).2 hu), children]
  cases t.nodes.get? x with
  | none => rfl
  | some n => rfl

theorem children_kept_of_ne (h : Detached t t' removed id) (hw : t.WellFormed)
    {x p : ComponentId} (hx : x ∉ removed) (hp : id ∈ t.children p) (hne : x ≠ p) :
    t'.children x = t.children x := by
  rw [h.children_kept hx, List.filter_eq_self]
  intro c hc
  rw [bne_iff_ne]
  rintro rfl
  exact hne (hw.parent_unique hc hp)

theorem get?_parent?_kept (h : Detached t t' removed id) {x : ComponentId} (hx : x ∉ removed) :
    t'.get? x = t.get? x ∧ t'.parent? x = t.parent? x := by
  have hkept := h.kept x fun hu => hx ((h.mem_removed x).2 hu)
  cases hn : t.nodes.get? x with
  | none => simp [Tree.get?, parent?, hkept, hn]
  | some n => simp [Tree.get?, parent?, hkept, hn]

theorem order (h : Detached t t' removed id) (hw : t.WellFormed) (hblock : Lists t [id] removed) :
    ∃ before after, t.preOrder = before ++ removed ++ after ∧ t'.preOrder = before ++ after := by
  obtain ⟨p, older, younger, hparent, hchildren, hfilter⟩ := hw.exists_parent h.attached h.notRoot
  have hid : id ∈ t.children p := hchildren ▸ List.mem_append_right _ (List.mem_cons_self ..)
  have hp : t.contains p = true := by
    obtain ⟨n, hn, -⟩ := mem_children_iff.1 hid
    exact contains_iff.2 ⟨n, hn⟩
  -- the link from `p` goes first; the rest of the table is as before, but for `removed`
  have hunlink : ∀ x, x ≠ p → (t.unlink id).children x = t.children x := by
    intro x hx
    rw [hw.children_unlink h.notRoot, List.filter_eq_self]
    intro c hc
    rw [bne_iff_ne]
    rintro rfl
    exact hx (hw.parent_unique hc hid)
  have hroot : (t.unlink id).root = t.root := by
    unfold unlink
    split
    · rfl
    · rfl
  obtain ⟨before, after, hold, hnew⟩ := hw.preOrder_replace hp hroot hunlink
  obtain ⟨below, hsub, hpb, hbelow⟩ := hw.lists_below hp
  rw [hchildren] at hbelow
  obtain ⟨left, rest, rfl, hleft, hrest⟩ := hbelow.split
  have hrest : Lists t ([id] ++ younger) rest := hrest
  obtain ⟨cut, right, rfl, hcut, hright⟩ := hrest.split
  obtain rfl := hcut.unique hblock
  have hsame {ids out : List ComponentId} (hl : Lists t ids out) (hout : p ∉ out) :
      Lists (t.unlink id) ids out :=
    hl.congr_of_mem fun x hx => hunlink x fun he => hout (he ▸ hx)
  simp only [List.mem_append, not_or] at hpb
  have hkept : Lists (t.unlink id) ((t.unlink id).children p) (left ++ right) := by
    rw [hw.children_unlink h.notRoot, hchildren, hfilter]
    exact (hsame hleft hpb.1).append (hsame hright hpb.2.2)
  have hlisted := hnew _ hkept.singleton
  have hold : t.preOrder = (before ++ p :: left) ++ cut ++ (right ++ after) := by
    simp [hold, hsub]
  have hnodup := hw.nodup_preOrder
  rw [hold] at hnodup
  -- what is left is disjoint from what was removed, and there the two tables agree
  have htable : Lists t' [t'.root] (before ++ p :: (left ++ right) ++ after) := by
    rw [h.root, ← hroot]
    refine hlisted.congr_of_mem fun x hx => ?_
    have hcut : x ∉ cut := notMem_block hnodup (by simpa using hx)
    rw [h.children_kept hcut, hw.children_unlink h.notRoot]
  have horder := (h.wellFormed hw).lists_preOrder_iff.1 htable
  refine ⟨before ++ p :: left, right ++ after, hold, ?_⟩
  rw [← horder]
  simp

end Detached

theorem WellFormed.cuts (h : t.WellFormed) {id : ComponentId} {removed : List ComponentId}
    (hd : t.detach id = .ok (removed, t')) : Cuts t t' removed id := by
  have hdet := h.detached hd
  have hblock : Lists t [id] removed := by
    rw [(detach_removed hd).1]
    exact (h.lists_subtree hdet.attached).1
  obtain ⟨p, older, younger, hparent, hchildren, hfilter⟩ :=
    h.exists_parent hdet.attached hdet.notRoot
  have hid : id ∈ t.children p := by simp [hchildren]
  -- nothing below `id` is above it
  have hp : p ∉ removed := fun hm => by
    have h₁ := h.le_of_under ((hdet.mem_removed p).1 hm)
    have h₂ := h.lt_of_mem_children hid
    omega
  constructor
  case root => exact hdet.root
  case block => exact hblock
  case order => exact hdet.order h hblock
  case gone =>
    intro x hx
    simp [contains, Dict.contains, hdet.gone x ((hdet.mem_removed x).1 hx)]
  case parent =>
    refine ⟨p, older, younger, hparent, hp, hchildren, ?_⟩
    rw [hdet.children_kept hp, hchildren, hfilter]
  case others =>
    intro x hx
    obtain ⟨hget, hpar⟩ := hdet.get?_parent?_kept hx
    refine ⟨hget, hpar, fun hne => hdet.children_kept_of_ne h hx hid ?_⟩
    rintro rfl
    exact hne hparent

/-! ## Any tree there is -/

theorem Built.performAll (h : t.Built) (calls : List (Call μ)) : (t.performAll calls).1.Built := by
  induction calls generalizing t with
  | nil => exact h
  | cons call calls ih =>
    refine ih (t := (t.perform call).1) ?_
    rcases perform_cases t call with ⟨p, c, id, t', -, ha, he⟩ | ⟨id, removed, t', -, hd, he⟩ |
      ⟨e, he⟩
    · rw [he]
      exact h.attach ha
    · rw [he]
      exact h.detach hd
    · rw [he]
      exact h

/-- attaching puts the new component right behind the block of its parent in the pre-order, and
detaching answers with the block of the component, in that order, and takes it out; both leave
every other component, its parent and its children as they are, but for one list of children -/
theorem block_edits (h : t.Built) :
    (∀ p c id t', t.attach p c = .ok (id, t') → Inserts t t' p id c) ∧
    ∀ id removed t', t.detach id = .ok (removed, t') → Cuts t t' removed id :=
  ⟨fun _ _ _ _ ha => h.wellFormed.inserts ha, fun _ _ _ hd => h.wellFormed.cuts hd⟩

def notedTwice : Tree Unit :=
  ((ofRoot ⟨"Page", .empty, ()⟩).performAll [.attach ⟨1⟩ ⟨"Note", .empty, ()⟩,
    .attach ⟨1⟩ ⟨"Note", .empty, ()⟩, .attach ⟨2⟩ ⟨"Badge", .empty, ()⟩]).1

theorem block_edits_notes :
    notedTwice.Built ∧ notedTwice.preOrder = [⟨1⟩, ⟨2⟩, ⟨4⟩, ⟨3⟩] ∧
    (∃ t', notedTwice.attach ⟨2⟩ ⟨"Badge", .empty, ()⟩ = .ok (⟨5⟩, t') ∧
      t'.preOrder = [⟨1⟩, ⟨2⟩, ⟨4⟩, ⟨5⟩, ⟨3⟩] ∧
      Inserts notedTwice t' ⟨2⟩ ⟨5⟩ ⟨"Badge", .empty, ()⟩) ∧
    ∃ t', notedTwice.detach ⟨2⟩ = .ok ([⟨2⟩, ⟨4⟩], t') ∧ t'.preOrder = [⟨1⟩, ⟨3⟩] ∧
      Cuts notedTwice t' [⟨2⟩, ⟨4⟩] ⟨2⟩ := by
  have hbuilt : notedTwice.Built := (Built.ofRoot _).performAll _
  obtain ⟨hattach, hdetach⟩ := block_edits hbuilt
  exact ⟨hbuilt, rfl, ⟨_, rfl, rfl, hattach _ _ _ _ rfl⟩, ⟨_, rfl, rfl, hdetach _ _ _ rfl⟩⟩

end Tree

end UiSync
