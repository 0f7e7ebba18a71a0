import UiSync.Proofs.Dict
import UiSync.Replica

/-!
# What a removal reaches

Removing a stack of components from a replica takes away exactly those that are reached from the
stack over child entries, whatever the entries are (`Replica.get?_removeAll_of_reached`,
`Replica.get?_removeAll_of_not_reached`); what is left is not changed.  A component that is detached
is taken out of the child list of its parent first, which changes nothing about what it reaches
(`Replica.reached_dropChild_iff`).
-/

namespace UiSync

open Relation

def ReplicaNode.without (n : ReplicaNode) (id : ComponentId) : ReplicaNode :=
  { n with children := n.children.filter (· != id) }

namespace Replica

/-- the component is there and is reached from the stack over child entries -/
inductive Reached (components : Dict ComponentId ReplicaNode) (stack : List ComponentId) :
    ComponentId → Prop
  | start {id : ComponentId} {n : ReplicaNode} :
      id ∈ stack → components.get? id = some n → Reached components stack id
  | child {id c : ComponentId} {n m : ReplicaNode} :
      Reached components stack id → components.get? id = some n → c ∈ n.children →
        components.get? c = some m → Reached components stack c

variable {components : Dict ComponentId ReplicaNode} {stack rest : List ComponentId}
  {id x : ComponentId} {n : ReplicaNode}

theorem Reached.present (h : Reached components stack x) : ∃ m, components.get? x = some m := by
  cases h with
  | start _ hm => exact ⟨_, hm⟩
  | child _ _ _ hm => exact ⟨_, hm⟩

theorem Reached.mono {stack' : List ComponentId} (hsub : stack ⊆ stack')
    (h : Reached components stack x) : Reached components stack' x := by
  induction h with
  | start hm hn => exact .start (hsub hm) hn
  | child _ hn hc hm ih => exact .child ih hn hc hm

theorem not_reached_nil : ¬ Reached components [] x := by
  intro h
  induction h with
  | start hm => cases hm
  | child _ _ _ _ ih => exact ih

theorem reached_cons_of_none (hid : components.get? id = none)
    (h : Reached components (id :: rest) x) : Reached components rest x := by
  induction h with
  | start hm hn =>
    rcases List.mem_cons.1 hm with rfl | hm
    · rw [hid] at hn
      cases hn
    · exact .start hm hn
  | child _ hn hc hm ih => exact .child ih hn hc hm

/-- reaching over a component that is taken away starts again at its children -/
theorem reached_cons_of_some (hid : components.get? id = some n) :
    Reached components (id :: rest) x ↔
      x = id ∨ Reached (components.erase id) (n.children.reverse ++ rest) x := by
  constructor
  · intro h
    induction h with
    | @start y k hm hk =>
      by_cases hy : y = id
      · exact .inl hy
      · have hk' : (components.erase id).get? y = some k := by rwa [Dict.get?_erase_of_ne hy]
        have hrest : y ∈ rest := (List.mem_cons.1 hm).resolve_left hy
        exact .inr (.start (List.mem_append_right _ hrest) hk')
    | @child y c k m _ hk hc hm ih =>
      by_cases hci : c = id
      · exact .inl hci
      · have hm' : (components.erase id).get? c = some m := by rwa [Dict.get?_erase_of_ne hci]
        refine .inr ?_
        rcases ih with rfl | ih
        · rw [hid] at hk
          obtain rfl := Option.some.inj hk
          exact .start (List.mem_append_left _ (List.mem_reverse.2 hc)) hm'
        · have hy : y ≠ id := by
            rintro rfl
            obtain ⟨k', hk'⟩ := ih.present
            rw [Dict.get?_erase_self] at hk'
            cases hk'
          exact .child ih (by rwa [Dict.get?_erase_of_ne hy]) hc hm'
  · rintro (rfl | h)
    · exact .start (List.mem_cons_self ..) hid
    · -- what the smaller table holds, the larger one holds as well
      have hsub : ∀ {y k}, (components.erase id).get? y = some k → components.get? y = some k := by
        intro y k hk
        by_cases hy : y = id
        · rw [hy, Dict.get?_erase_self] at hk
          cases hk
        · rwa [Dict.get?_erase_of_ne hy] at hk
      induction h with
      | start hm hk =>
        rcases List.mem_append.1 hm with hm | hm
        · exact .child (.start (List.mem_cons_self ..) hid) hid (List.mem_reverse.1 hm) (hsub hk)
        · exact .start (List.mem_cons_of_mem _ hm) (hsub hk)
      | child _ hk hc hm ih => exact .child ih (hsub hk) hc (hsub hm)

/-! ## The loop of the removal -/

/-- a component that is gone already is passed over -/
theorem removeAll_cons_of_none (hid : components.get? id = none) (rest : List ComponentId) :
    removeAll components (id :: rest) = removeAll components rest := by
  rw [removeAll]
  split
  · rfl
  · next m hm =>
    rw [hid] at hm
    cases hm

/-- the children of a component that is there take its place -/
theorem removeAll_cons_of_some (hid : components.get? id = some n) (rest : List ComponentId) :
    removeAll components (id :: rest) =
      removeAll (components.erase id) (n.children.reverse ++ rest) := by
  rw [removeAll]
  split
  · next hn =>
    rw [hid] at hn
    cases hn
  · next m hm =>
    rw [hid] at hm
    rw [Option.some.inj hm]

theorem get?_removeAll_of_not_reached (h : ¬ Reached components stack x) :
    (removeAll components stack).get? x = components.get? x := by
  induction components, stack using removeAll.induct with
  | case1 components => rw [removeAll]
  | case2 components id rest hid ih =>
    rw [removeAll_cons_of_none hid]
    exact ih fun hr => h (hr.mono (List.subset_cons_self ..))
  | case3 components id rest m hid ih =>
    obtain ⟨hne, hr⟩ := not_or.1 (mt (reached_cons_of_some hid).2 h)
    rw [removeAll_cons_of_some hid, ih hr, Dict.get?_erase_of_ne hne]

theorem get?_removeAll_of_reached (h : Reached components stack x) :
    (removeAll components stack).get? x = none := by
  induction components, stack using removeAll.induct with
  | case1 components => exact absurd h not_reached_nil
  | case2 components id rest hid ih =>
    rw [removeAll_cons_of_none hid]
    exact ih (reached_cons_of_none hid h)
  | case3 components id rest m hid ih =>
    rw [removeAll_cons_of_some hid]
    by_cases hr : Reached (components.erase id) (m.children.reverse ++ rest) x
    · exact ih hr
    · obtain rfl := ((reached_cons_of_some hid).1 h).resolve_right hr
      rw [get?_removeAll_of_not_reached hr, Dict.get?_erase_self]

/-! ## Below a component -/

theorem get?_dropChild_parent (p id : ComponentId) :
    (dropChild components (some p) id).get? p = (components.get? p).map (·.without id) :=
  Dict.get?_modify_self ..

theorem get?_dropChild_of_ne {parent : Option ComponentId} {x : ComponentId}
    (h : parent ≠ some x) (id : ComponentId) :
    (dropChild components parent id).get? x = components.get? x := by
  cases parent with
  | none => rfl
  | some p => exact Dict.get?_modify_of_ne (fun hx => h (congrArg some hx.symm)) ..

theorem get?_dropChild_cases (parent : Option ComponentId) (id x : ComponentId) :
    (dropChild components parent id).get? x = components.get? x ∨
      (dropChild components parent id).get? x = (components.get? x).map (·.without id) := by
  by_cases hx : parent = some x
  · subst hx
    exact .inr (get?_dropChild_parent x id)
  · exact .inl (get?_dropChild_of_ne hx id)

/-- every component is still there, with every child but one -/
theorem exists_get?_dropChild (parent : Option ComponentId) (id : ComponentId)
    (h : components.get? x = some n) : ∃ n', (dropChild components parent id).get? x = some n' ∧
      ∀ c ∈ n.children, c ≠ id → c ∈ n'.children := by
  rcases get?_dropChild_cases parent id x with hx | hx
  · exact ⟨n, hx.trans h, fun c hc _ => hc⟩
  · rw [h, Option.map_some] at hx
    exact ⟨_, hx, fun c hc hne => List.mem_filter.2 ⟨hc, bne_iff_ne.2 hne⟩⟩

/-- and there is nothing new -/
theorem exists_of_get?_dropChild {parent : Option ComponentId} {n' : ReplicaNode}
    (h : (dropChild components parent id).get? x = some n') :
    ∃ n, components.get? x = some n ∧ n'.children ⊆ n.children := by
  rcases get?_dropChild_cases parent id x with hx | hx
  · exact ⟨n', hx.symm.trans h, fun c hc => hc⟩
  · obtain ⟨n, hn, rfl⟩ := Option.map_eq_some_iff.1 (hx.symm.trans h)
    exact ⟨n, hn, fun c hc => (List.mem_filter.1 hc).1⟩

def Child (r : Replica) (id c : ComponentId) : Prop :=
  ∃ n m, r.components.get? id = some n ∧ c ∈ n.children ∧ r.components.get? c = some m

/-- `x` is reached from `id` over child lists of components that are there -/
def Below (r : Replica) (id x : ComponentId) : Prop := ReflTransGen r.Child id x

/-- without its entry in the child list of its parent, a component reaches what it reached with it -/
theorem reached_dropChild_iff {r : Replica} (hid : r.components.get? id = some n)
    (parent : Option ComponentId) :
    Reached (dropChild r.components parent id) [id] x ↔ r.Below id x := by
  constructor
  · intro hx
    induction hx with
    | start hmem _ =>
      obtain rfl := List.mem_singleton.1 hmem
      exact .refl
    | child _ hy hc hm ih =>
      obtain ⟨k, hk, hsub⟩ := exists_of_get?_dropChild hy
      obtain ⟨l, hl, -⟩ := exists_of_get?_dropChild hm
      exact ih.tail ⟨k, l, hk, hsub hc, hl⟩
  · obtain ⟨n', hn', -⟩ := exists_get?_dropChild parent id hid
    have hstart : Reached (dropChild r.components parent id) [id] id :=
      .start (List.mem_singleton_self id) hn'
    intro hx
    induction hx with
    | refl => exact hstart
    | @tail y x _ hyx ih =>
      obtain ⟨k, l, hk, hc, hl⟩ := hyx
      obtain ⟨k', hk', hsub⟩ := exists_get?_dropChild parent id hk
      obtain ⟨l', hl', -⟩ := exists_get?_dropChild parent id hl
      -- the entry that was taken out leads back to the start
      rcases eq_or_ne x id with rfl | hne
      · exact hstart
      · exact .child ih hk' (hsub x hc hne) hl'

end Replica

end UiSync
