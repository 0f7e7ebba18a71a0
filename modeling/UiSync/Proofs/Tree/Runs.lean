import UiSync.Proofs.Tree.Order

/-!
# Trees over any run of calls

A tree is built from one component by calls that attach and detach, some of which are refused
(`Tree.performAll`).  However the run went, parents, children and the table agree, identities are
handed out once, and the loop with the stack comes to an end, having visited what the recursive
traversal lists (`Tree.Consistent`, `Tree.consistent_performAll`).

`Walk.Turn` is one turn of that loop.  Detaching walks over a table from which the link of the
parent was already taken out (`Tree.unlink`), which changes nothing below the detached component.
-/

namespace UiSync

variable {μ : Type}

/-! ## The loop of the walk -/

/-- a walk on its way: what is still on the stack, and what was visited -/
structure Walk where
  stack : List ComponentId
  visited : List ComponentId

namespace Walk

open Relation

/-- the component on top of the stack is visited, and its children take its place -/
inductive Turn (t : Tree μ) : Walk → Walk → Prop
  | visit (id : ComponentId) (stack visited : List ComponentId) :
      Turn t ⟨id :: stack, visited⟩ ⟨t.children id ++ stack, visited ++ [id]⟩

variable {t : Tree μ}

theorem rightUnique_turn (t : Tree μ) : Relator.RightUnique (Turn t) := by
  intro w w₁ w₂ h₁ h₂
  cases h₁
  cases h₂
  rfl

theorem turns_of_lists {ids out : List ComponentId} (h : Tree.Lists t ids out)
    (stack visited : List ComponentId) :
    ReflTransGen (Turn t) ⟨ids ++ stack, visited⟩ ⟨stack, visited ++ out⟩ := by
  induction h generalizing stack visited with
  | nil =>
    rw [List.append_nil]
    exact .refl
  | @cons id ids below rest _ _ ihb ihr =>
    have hfirst : Turn t ⟨id :: (ids ++ stack), visited⟩
        ⟨t.children id ++ (ids ++ stack), visited ++ [id]⟩ := .visit id (ids ++ stack) visited
    have hbelow := ihb (ids ++ stack) (visited ++ [id])
    have hrest := ihr stack (visited ++ [id] ++ below)
    have hout : visited ++ [id] ++ below ++ rest = visited ++ id :: (below ++ rest) := by
      rw [List.append_assoc, List.append_assoc, List.singleton_append]
    rw [hout] at hrest
    exact .head hfirst (hbelow.trans hrest)

/-- wherever the loop has got to, it goes on to its end, and there everything was visited -/
theorem ends_of_lists {ids out : List ComponentId} (h : Tree.Lists t ids out) {w : Walk}
    (hw : ReflTransGen (Turn t) ⟨ids, []⟩ w) : ReflTransGen (Turn t) w ⟨[], out⟩ := by
  have hend := turns_of_lists h [] []
  rw [List.append_nil, List.nil_append] at hend
  rcases ReflTransGen.total_of_right_unique (rightUnique_turn t) hw hend with hon | hback
  · exact hon
  · -- nothing follows the end, so `w` is the end
    rcases ReflTransGen.cases_head hback with he | ⟨w', hturn, -⟩
    · rw [← he]
    · cases hturn

end Walk

namespace Tree

/-! ## One listing for each forest, and attach order -/

theorem WellFormed.lists_preOrder_iff {t : Tree μ} (h : t.WellFormed) {order : List ComponentId} :
    Lists t [t.root] order ↔ order = t.preOrder :=
  ⟨fun hl => hl.unique h.lists_preOrder, fun he => he ▸ h.lists_preOrder⟩

theorem Lists.congr_of_mem {t u : Tree μ} {ids out : List ComponentId} (h : Lists t ids out)
    (hc : ∀ id ∈ out, u.children id = t.children id) : Lists u ids out := by
  induction h with
  | nil => exact .nil
  | @cons id ids below rest _ _ ihb ihr =>
    have hb := ihb fun x hx => hc x (List.mem_cons_of_mem _ (List.mem_append_left _ hx))
    have hr := ihr fun x hx => hc x (List.mem_cons_of_mem _ (List.mem_append_right _ hx))
    rw [← hc id (List.mem_cons_self ..)] at hb
    exact .cons hb hr

/-- the identities below `n`, in the order in which they are handed out -/
def handed (n : Nat) : List ComponentId := (List.range' 1 (n - 1)).map ComponentId.mk

theorem mem_handed {n : Nat} {id : ComponentId} : id ∈ handed n ↔ 1 ≤ id.value ∧ id.value < n := by
  rw [handed, List.mem_map]
  constructor
  · rintro ⟨i, hi, rfl⟩
    have hi := List.mem_range'_1.1 hi
    show 1 ≤ i ∧ i < n
    omega
  · rintro ⟨h₁, hn⟩
    exact ⟨id.value, List.mem_range'_1.2 (by omega), rfl⟩

theorem handed_succ {n : Nat} (h : 1 ≤ n) : handed (n + 1) = handed n ++ [⟨n⟩] := by
  obtain ⟨k, rfl⟩ : ∃ k, n = k + 1 := ⟨n - 1, by omega⟩
  have hn : k + 1 + 1 - 1 = k + 1 := rfl
  rw [handed, handed, hn, List.range'_1_concat, List.map_append, Nat.add_sub_cancel,
    Nat.add_comm 1 k]
  rfl

theorem pairwise_handed (n : Nat) : (handed n).Pairwise fun a b => a.value < b.value :=
  List.pairwise_map.2 List.pairwise_lt_range'

theorem nodup_of_pairwise_lt {ids : List ComponentId}
    (h : ids.Pairwise fun a b => a.value < b.value) : ids.Nodup :=
  h.imp fun hlt he => by
    rw [he] at hlt
    exact lt_irrefl _ hlt

/-- identities in increasing order stand in the order in which they were handed out -/
theorem sublist_handed {n : Nat} {ids : List ComponentId}
    (h : ids.Pairwise fun a b => a.value < b.value) (hids : ∀ id ∈ ids, id ∈ handed n) :
    ids.Sublist (handed n) := by
  have : Std.Antisymm fun a b : ComponentId => a.value < b.value :=
    ⟨fun _ _ hab hba => absurd hab (lt_asymm hba)⟩
  have hsub : ids.Subperm (handed n) := List.subperm_of_subset (nodup_of_pairwise_lt h) hids
  exact List.sublist_of_subperm_of_pairwise hsub h (pairwise_handed n)

/-! ## The walk of detaching -/

/-- the tree while `id` is being detached: its parent does not list it any more -/
def unlink (t : Tree μ) (id : ComponentId) : Tree μ :=
  match t.nodes.get? id with
  | none => t
  | some n => { t with nodes := dropChild t.nodes n.parent id }

theorem WellFormed.children_unlink {t : Tree μ} (h : t.WellFormed) {id : ComponentId}
    (hr : id ≠ t.root) (x : ComponentId) :
    (t.unlink id).children x = (t.children x).filter (· != id) := by
  cases hn : t.nodes.get? id with
  | none =>
    have hnot : id ∉ t.children x := fun hc => by
      obtain ⟨n, hid⟩ := contains_iff.1 (h.contains_child hc)
      rw [hn] at hid
      cases hid
    have hfilter : (t.children x).filter (· != id) = t.children x :=
      List.filter_eq_self.2 fun c hc => bne_iff_ne.2 fun he => hnot (he ▸ hc)
    rw [hfilter, unlink, hn]
  | some n =>
    have hget := h.get?_dropChild (x := x) hn hr
    rw [children, unlink, hn]
    show ((Dict.get? (dropChild t.nodes n.parent id) x).map Node.children).getD [] = _
    rw [hget, children]
    cases t.nodes.get? x with
    | none => rfl
    | some m => rfl

/-- below the detached component nothing is missing yet -/
theorem WellFormed.lists_unlink {t : Tree μ} (h : t.WellFormed) {id : ComponentId}
    (hr : id ≠ t.root) (hc : t.contains id = true) : Lists (t.unlink id) [id] (t.subtree id) := by
  refine (h.lists_subtree hc).1.congr_of_mem fun x hx => ?_
  have hunder := (h.mem_subtree hc x).1 hx
  rw [h.children_unlink hr, List.filter_eq_self]
  intro c hcx
  have h₁ := h.le_of_under hunder
  have h₂ := h.lt_of_mem_children hcx
  rw [bne_iff_ne]
  rintro rfl
  omega

theorem detach_removed {t t' : Tree μ} {id : ComponentId} {removed : List ComponentId}
    (h : t.detach id = .ok (removed, t')) :
    removed = t.subtree id ∧ id ≠ t.root ∧ t.contains id = true := by
  unfold detach at h
  split at h
  · cases h
  · next hr =>
    split at h
    · cases h
    · next n hn =>
      simp only [Except.ok.injEq, Prod.mk.injEq] at h
      exact ⟨h.1.symm, hr, contains_iff.2 ⟨n, hn⟩⟩

/-! ## Runs of calls -/

inductive Call (μ : Type) where
  | attach (parent : ComponentId) (component : Component μ)
  | detach (id : ComponentId)

def Call.isAttach : Call μ → Bool
  | .attach _ _ => true
  | .detach _ => false

inductive Answer where
  | attached (id : ComponentId)
  | detached (removed : List ComponentId)
  | refused (error : TreeError)

def Answer.handed? : Answer → Option ComponentId
  | .attached id => some id
  | _ => none

def perform (t : Tree μ) : Call μ → Tree μ × Answer
  | .attach parent component =>
    match t.attach parent component with
    | .ok (id, t') => (t', .attached id)
    | .error e => (t, .refused e)
  | .detach id =>
    match t.detach id with
    | .ok (removed, t') => (t', .detached removed)
    | .error e => (t, .refused e)

def performAll (t : Tree μ) : List (Call μ) → Tree μ × List Answer
  | [] => (t, [])
  | call :: calls =>
    let next := (t.perform call).1.performAll calls
    (next.1, (t.perform call).2 :: next.2)

/-- what one call can do -/
theorem perform_cases (t : Tree μ) (call : Call μ) :
    (∃ parent c id t', call = .attach parent c ∧ t.attach parent c = .ok (id, t') ∧
      t.perform call = (t', .attached id)) ∨
    (∃ id removed t', call = .detach id ∧ t.detach id = .ok (removed, t') ∧
      t.perform call = (t', .detached removed)) ∨
    ∃ e, t.perform call = (t, .refused e) := by
  cases call with
  | attach parent c =>
    cases h : t.attach parent c with
    | error e => exact .inr (.inr ⟨e, by rw [perform, h]⟩)
    | ok r => exact .inl ⟨parent, c, r.1, r.2, rfl, h, by rw [perform, h]⟩
  | detach id =>
    cases h : t.detach id with
    | error e => exact .inr (.inr ⟨e, by rw [perform, h]⟩)
    | ok r => exact .inr (.inl ⟨id, r.1, r.2, rfl, h, by rw [perform, h]⟩)

/-! ## What every run keeps -/

/-- a tree after some calls: well-formed, and its identities are among those handed out -/
structure Kept (t : Tree μ) : Prop where
  wellFormed : t.WellFormed
  known : ∀ id, t.contains id = true → 1 ≤ id.value
  nextId : 1 ≤ t.nextId

theorem kept_ofRoot (root : Component μ) : (ofRoot root).Kept := by
  refine ⟨wellFormed_ofRoot root, fun id hid => ?_, ?_⟩
  · obtain ⟨n, hn⟩ := contains_iff.1 hid
    rw [(eq_of_get?_ofRoot hn).1]
  · show 1 ≤ 2
    omega

theorem Kept.attach {t t' : Tree μ} (h : t.Kept) {parent id : ComponentId} {c : Component μ}
    (ha : t.attach parent c = .ok (id, t')) :
    t'.Kept ∧ id = ⟨t.nextId⟩ ∧ t'.nextId = t.nextId + 1 := by
  obtain ⟨n, hatt⟩ := h.wellFormed.attached ha
  refine ⟨⟨h.wellFormed.attach ha, fun x hx => ?_, ?_⟩, hatt.idEq, hatt.nextId⟩
  · obtain ⟨m, hm⟩ := contains_iff.1 hx
    rcases hatt.cases hm with ⟨rfl, -⟩ | ⟨m₀, hm₀, -⟩
    · rw [hatt.idEq]
      exact h.nextId
    · exact h.known x (contains_iff.2 ⟨m₀, hm₀⟩)
  · rw [hatt.nextId]
    exact Nat.le_add_left 1 _

theorem Kept.detach {t t' : Tree μ} (h : t.Kept) {id : ComponentId} {removed : List ComponentId}
    (hd : t.detach id = .ok (removed, t')) : t'.Kept ∧ t'.nextId = t.nextId := by
  have hdet := h.wellFormed.detached hd
  refine ⟨⟨hdet.wellFormed h.wellFormed, fun x hx => h.known x (hdet.contains hx).1, ?_⟩,
    hdet.nextId⟩
  rw [hdet.nextId]
  exact h.nextId

/-- one call keeps a tree well-formed; the identities handed out so far grow by what it answers,
and by one only when it attaches -/
theorem Kept.perform {t : Tree μ} (h : t.Kept) (call : Call μ) :
    (t.perform call).1.Kept ∧
      handed (t.perform call).1.nextId = handed t.nextId ++ (t.perform call).2.handed?.toList ∧
      (t.perform call).1.nextId ≤ t.nextId + [call].countP Call.isAttach := by
  rcases perform_cases t call with ⟨p, c, id, t', rfl, ha, he⟩ | ⟨id, removed, t', rfl, hd, he⟩ |
    ⟨e, he⟩
  · obtain ⟨hk, hid, hn⟩ := h.attach ha
    rw [he]
    refine ⟨hk, ?_, ?_⟩
    · show handed t'.nextId = handed t.nextId ++ [id]
      rw [hn, hid, handed_succ h.nextId]
    · show t'.nextId ≤ t.nextId + 1
      rw [hn]
  · obtain ⟨hk, hn⟩ := h.detach hd
    rw [he]
    refine ⟨hk, ?_, ?_⟩
    · show handed t'.nextId = handed t.nextId ++ []
      rw [hn, List.append_nil]
    · show t'.nextId ≤ t.nextId + 0
      rw [hn, Nat.add_zero]
  · rw [he]
    exact ⟨h, (List.append_nil _).symm, Nat.le_add_right ..⟩

theorem Kept.performAll {t : Tree μ} (h : t.Kept) (calls : List (Call μ)) :
    (t.performAll calls).1.Kept ∧
      handed (t.performAll calls).1.nextId =
        handed t.nextId ++ (t.performAll calls).2.filterMap Answer.handed? ∧
      (t.performAll calls).1.nextId ≤ t.nextId + calls.countP Call.isAttach := by
  induction calls generalizing t with
  | nil => exact ⟨h, (List.append_nil _).symm, le_refl _⟩
  | cons call calls ih =>
    obtain ⟨hk, hhanded, hnext⟩ := h.perform call
    obtain ⟨hk', hhanded', hnext'⟩ := ih hk
    refine ⟨hk', ?_, ?_⟩
    · show handed ((t.perform call).1.performAll calls).1.nextId = _
      rw [hhanded', hhanded, List.append_assoc]
      -- what is handed out from here on: by this call, and by the others
      congr 1
      show _ = ((t.perform call).2 :: ((t.perform call).1.performAll calls).2).filterMap _
      rw [← List.singleton_append, List.filterMap_append]
      cases h : (t.perform call).2.handed? with
      | none => simp [h]
      | some id => simp [h]
    · show ((t.perform call).1.performAll calls).1.nextId ≤ _
      rw [← List.singleton_append, List.countP_append]
      omega

/-! ## Consistent trees -/

open Relation in
/-- the table, the parents and the children of a tree agree, and the walk lists it; `handed` are
the identities that were handed out, in order -/
structure Consistent (t : Tree μ) (handed : List ComponentId) : Prop where
  root : ∃ n, t.nodes.get? t.root = some n ∧ n.parent = none
  /-- its parent lists a component once, and no other component lists it -/
  listed : ∀ id n, t.nodes.get? id = some n → id ≠ t.root → ∃ p, n.parent = some p ∧
    t.contains p = true ∧ (t.children p).count id = 1 ∧ ∀ q, q ≠ p → id ∉ t.children q
  present : ∀ p, ∀ c ∈ t.children p, t.contains c = true
  /-- children stand in the order in which they were attached -/
  inOrder : ∀ p, (t.children p).Sublist handed
  known : ∀ id, t.contains id = true → id ∈ handed
  fresh : ∀ id ∈ handed, id.value < t.nextId
  once : handed.Nodup
  /-- wherever the loop of the walk has got to, it goes on to its end -/
  ends : ∀ w, ReflTransGen (Walk.Turn t) ⟨[t.root], []⟩ w →
    ReflTransGen (Walk.Turn t) w ⟨[], t.preOrder⟩
  /-- what the walk lists is the recursive traversal -/
  traversal : ∀ order, Lists t [t.root] order ↔ order = t.preOrder
  visited : t.preOrder.Nodup ∧ ∀ id, id ∈ t.preOrder ↔ t.contains id = true

theorem Kept.consistent {t : Tree μ} (h : t.Kept) : t.Consistent (handed t.nextId) := by
  have hw := h.wellFormed
  have hknown : ∀ id, t.contains id = true → id ∈ handed t.nextId := by
    intro id hid
    obtain ⟨n, hn⟩ := contains_iff.1 hid
    exact mem_handed.2 ⟨h.known id hid, hw.fresh id n hn⟩
  constructor
  case root =>
    exact hw.root
  case listed =>
    intro id n hn hne
    obtain ⟨p, m, hp, hm, hid⟩ := hw.parent id n hn hne
    have hchild : id ∈ t.children p := mem_children_iff.2 ⟨m, hm, hid⟩
    refine ⟨p, hp, contains_iff.2 ⟨m, hm⟩, ?_, fun q hq hc => hq (hw.parent_unique hc hchild)⟩
    exact List.count_eq_one_of_mem (hw.nodup_children p) hchild
  case present =>
    intro p c hc
    exact hw.contains_child hc
  case inOrder =>
    intro p
    refine sublist_handed ?_ fun c hc => hknown c (hw.contains_child hc)
    cases hn : t.nodes.get? p with
    | none =>
      rw [children, hn]
      exact .nil
    | some n =>
      rw [children_eq hn]
      exact (List.pairwise_cons.1 (hw.increasing p n hn)).2
  case known =>
    exact hknown
  case fresh =>
    intro id hid
    exact (mem_handed.1 hid).2
  case once =>
    exact nodup_of_pairwise_lt (pairwise_handed t.nextId)
  case ends =>
    intro w hw'
    exact Walk.ends_of_lists hw.lists_preOrder hw'
  case traversal =>
    intro order
    exact hw.lists_preOrder_iff
  case visited =>
    exact ⟨hw.nodup_preOrder, hw.mem_preOrder⟩

/-- after any run of calls on a new tree: its identities are the first and those that were answered,
and they stay below `2 ^ 64` while fewer than `2 ^ 64 - 2` calls attach; a refused call changes
nothing; and what detaching removes is what the loop visits while the detached component is no
longer linked -/
theorem consistent_performAll (root : Component μ) (calls : List (Call μ)) :
    let t := ((ofRoot root).performAll calls).1
    let answers := ((ofRoot root).performAll calls).2
    t.Consistent (⟨1⟩ :: answers.filterMap Answer.handed?) ∧
    t.nextId ≤ calls.countP Call.isAttach + 2 ∧
    (∀ call e, (t.perform call).2 = .refused e → (t.perform call).1 = t) ∧
    ∀ id removed t', t.perform (.detach id) = (t', .detached removed) →
      ∀ w, Relation.ReflTransGen (Walk.Turn (t.unlink id)) ⟨[id], []⟩ w →
        Relation.ReflTransGen (Walk.Turn (t.unlink id)) w ⟨[], removed⟩ := by
  intro t answers
  obtain ⟨hk, hhanded, hnext⟩ := (kept_ofRoot root).performAll calls
  have hids : handed t.nextId = ⟨1⟩ :: answers.filterMap Answer.handed? := hhanded
  refine ⟨hids ▸ hk.consistent, ?_, fun call e he => ?_, fun id removed t' hp w hw => ?_⟩
  · rw [Nat.add_comm]
    exact hnext
  · rcases perform_cases t call with ⟨_, _, _, _, -, -, h⟩ | ⟨_, _, _, -, -, h⟩ | ⟨_, h⟩
    · rw [h] at he
      cases he
    · rw [h] at he
      cases he
    · rw [h]
  · rcases perform_cases t (.detach id) with ⟨_, _, _, _, h, -⟩ | ⟨_, removed', _, h, hd, hp'⟩ |
      ⟨_, hp'⟩
    · cases h
    · cases h
      rw [hp'] at hp
      cases hp
      obtain ⟨rfl, hr, hc⟩ := detach_removed hd
      exact Walk.ends_of_lists (hk.wellFormed.lists_unlink hr hc) hw
    · rw [hp'] at hp
      cases hp

end Tree

end UiSync
