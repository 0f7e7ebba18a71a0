import UiSync.Proofs.Session.GivingUp

/-!
# Updates of different components

Between two responses, components are edited, marked and cleared, and calls to them are queued
(`Update`).  Each of these reads and writes what the session holds under one identity
(`Session.slot`), so what a series of updates leaves of a component depends on the updates of that
component alone (`slot_carryOutAll`).  Updates of different components may therefore change places,
and the response and the session after it are the same (`Session.respond_reordered`).

Nothing in writing a response depends on the order in which marks or calls came in across components:
calls are put in the order of the tree, and giving up marks the components whose hooks ran, in
whatever order they are gone through (`Cascade.giveUp_of_perm`).
-/

namespace UiSync

open Json (Value)

variable {μ η σ : Type}

/-! ## Updates -/

inductive Update where
  | edit (e : Edit)
  | mark
  | clear
  | call (interface method : String) (args : List Value)

/-- the updates `ops` in another order, those of each component in the same -/
def Reordered (ops ops' : List (ComponentId × Update)) : Prop :=
  ∀ id, ops.filter (fun op => op.1 = id) = ops'.filter (fun op => op.1 = id)

/-- what a session holds under one identity -/
structure Slot (μ : Type) where
  node : Option (Node μ)
  dirty : Option Unit
  calls : Option (List ClientCall)

def Slot.carryOut (id : ComponentId) (k : Slot μ) : Update → Slot μ
  | .edit e => { k with node := k.node.map fun n =>
      { n with component := { n.component with fields := n.component.fields.edit e } } }
  | .mark => if k.node.isSome then { k with dirty := some () } else k
  | .clear => { k with dirty := none }
  | .call interface method args =>
    if k.node.isSome then
      { k with calls := some (k.calls.getD [] ++ [⟨id, interface, method, args⟩]) }
    else k

namespace Session

/-- a call to a component that is not attached is refused -/
def carryOut (s : Session μ η) : ComponentId × Update → Session μ η
  | (id, .edit e) => s.update id fun c => { c with fields := c.fields.edit e }
  | (id, .mark) => s.mark id
  | (id, .clear) => s.clear id
  | (id, .call interface method args) =>
    match s.call id interface method args with
    | .ok s => s
    | .error _ => s

def carryOutAll (s : Session μ η) (ops : List (ComponentId × Update)) : Session μ η :=
  ops.foldl carryOut s

def slot (s : Session μ η) (id : ComponentId) : Slot μ :=
  ⟨s.tree.nodes.get? id, s.dirty.members.get? id, s.calls.calls.get? id⟩

/-- the two sessions agree but for what they hold under identities -/
def SameRest (s s' : Session μ η) : Prop :=
  s' = { s with tree := { s.tree with nodes := s'.tree.nodes }, dirty := s'.dirty,
                calls := s'.calls }

variable {s s' s'' : Session μ η}

theorem SameRest.trans (h : SameRest s s') (h' : SameRest s' s'') : SameRest s s'' := by
  unfold SameRest at h h' ⊢
  rw [h', h]

/-- a session is what it holds under identities, and the rest -/
theorem SameRest.ext (h : SameRest s s') (h' : SameRest s s'')
    (hslot : ∀ id, s'.slot id = s''.slot id) : s' = s'' := by
  have hnodes : s'.tree.nodes = s''.tree.nodes :=
    Dict.ext_get? fun id => congrArg Slot.node (hslot id)
  have hmembers : s'.dirty.members = s''.dirty.members :=
    Dict.ext_get? fun id => congrArg Slot.dirty (hslot id)
  have hcalls : s'.calls.calls = s''.calls.calls :=
    Dict.ext_get? fun id => congrArg Slot.calls (hslot id)
  have hdirty : s'.dirty = s''.dirty := congrArg DirtySet.mk hmembers
  have hqueue : s'.calls = s''.calls := congrArg CallQueue.mk hcalls
  unfold SameRest at h h'
  rw [h, h', hnodes, hdirty, hqueue]

/-! ## One update -/

theorem carryOut_call_cases (s : Session μ η) (id : ComponentId) (interface method : String)
    (args : List Value) : s.carryOut (id, .call interface method args) = s ∨
      s.carryOut (id, .call interface method args) =
        { s with calls := s.calls.push id interface method args } := by
  rw [carryOut, call]
  split
  · next hc =>
    split at hc
    · exact .inr (Except.ok.inj hc).symm
    · cases hc
  · exact .inl rfl

theorem sameRest_carryOut (s : Session μ η) (op : ComponentId × Update) :
    SameRest s (s.carryOut op) := by
  obtain ⟨id, u⟩ := op
  cases u with
  | edit | clear => rfl
  | mark =>
    show SameRest s (s.mark id)
    rcases mark_cases s id with he | he
    · rw [he]
      rfl
    · rw [he]
      rfl
  | call interface method args =>
    rcases carryOut_call_cases s id interface method args with he | he
    · rw [he]
      rfl
    · rw [he]
      rfl

theorem contains_eq_isSome (s : Session μ η) (id : ComponentId) :
    s.tree.contains id = (s.slot id).node.isSome := rfl

theorem slot_carryOut_self (s : Session μ η) (id : ComponentId) (u : Update) :
    (s.carryOut (id, u)).slot id = (s.slot id).carryOut id u := by
  cases u with
  | edit e =>
    have hnode : (s.carryOut (id, .edit e)).tree.nodes.get? id = _ :=
      Tree.get?_update_self s.tree id fun c => { c with fields := c.fields.edit e }
    rw [slot, hnode]
    rfl
  | mark =>
    show (s.mark id).slot id = _
    rw [mark, Slot.carryOut, ← contains_eq_isSome]
    split
    · show Slot.mk _ ((s.dirty.members.insert id ()).get? id) _ = _
      rw [Dict.get?_insert_self]
      rfl
    · rfl
  | clear =>
    show Slot.mk _ ((s.dirty.members.erase id).get? id) _ = _
    rw [Dict.get?_erase_self]
    rfl
  | call interface method args =>
    rw [Slot.carryOut, ← contains_eq_isSome, carryOut, call]
    by_cases hid : s.tree.contains id = true
    · rw [if_pos hid, if_pos hid]
      show Slot.mk _ _ ((s.calls.calls.insert id _).get? id) = _
      rw [Dict.get?_insert_self]
      rfl
    · rw [if_neg hid, if_neg hid]

theorem slot_carryOut_of_ne {id x : ComponentId} (h : x ≠ id) (s : Session μ η) (u : Update) :
    (s.carryOut (id, u)).slot x = s.slot x := by
  cases u with
  | edit e =>
    have hnode : (s.carryOut (id, .edit e)).tree.nodes.get? x = s.tree.nodes.get? x :=
      Tree.get?_update_of_ne h s.tree fun c => { c with fields := c.fields.edit e }
    rw [slot, hnode]
    rfl
  | mark =>
    show (s.mark id).slot x = _
    rcases mark_cases s id with he | he
    · rw [he]
    · rw [he]
      show Slot.mk _ ((s.dirty.members.insert id ()).get? x) _ = _
      rw [Dict.get?_insert_of_ne h]
      rfl
  | clear =>
    show Slot.mk _ ((s.dirty.members.erase id).get? x) _ = _
    rw [Dict.get?_erase_of_ne h]
    rfl
  | call interface method args =>
    rcases carryOut_call_cases s id interface method args with he | he
    · rw [he]
    · rw [he]
      show Slot.mk _ _ ((s.calls.calls.insert id _).get? x) = _
      rw [Dict.get?_insert_of_ne h]
      rfl

/-! ## Any number of updates -/

theorem sameRest_carryOutAll (ops : List (ComponentId × Update)) (s : Session μ η) :
    SameRest s (s.carryOutAll ops) := by
  induction ops generalizing s with
  | nil => rfl
  | cons op ops ih => exact (sameRest_carryOut s op).trans (ih (s.carryOut op))

/-- what is held under an identity depends on the updates of its component only -/
theorem slot_carryOutAll (ops : List (ComponentId × Update)) (s : Session μ η) (id : ComponentId) :
    (s.carryOutAll ops).slot id =
      (ops.filter fun op => op.1 = id).foldl (fun k op => k.carryOut id op.2) (s.slot id) := by
  induction ops generalizing s with
  | nil => rfl
  | cons op ops ih =>
    obtain ⟨x, u⟩ := op
    show ((s.carryOut (x, u)).carryOutAll ops).slot id = _
    rw [ih]
    by_cases hx : x = id
    · subst hx
      rw [slot_carryOut_self, List.filter_cons_of_pos (by simp), List.foldl_cons]
    · rw [slot_carryOut_of_ne fun he => hx he.symm, List.filter_cons_of_neg (by simpa using hx)]

/-- Updates in another order, those of each component in the same, lead to the same session; so the
response is the same error or the same message and payload, and the session is the same after it. -/
theorem respond_reordered {ops ops' : List (ComponentId × Update)} (h : Reordered ops ops')
    (s : Session μ η) (b : Behaviour μ η σ) : s.carryOutAll ops = s.carryOutAll ops' ∧
      (s.carryOutAll ops).respond b = (s.carryOutAll ops').respond b := by
  have hsame : s.carryOutAll ops = s.carryOutAll ops' := by
    refine (sameRest_carryOutAll ops s).ext (sameRest_carryOutAll ops' s) fun id => ?_
    rw [slot_carryOutAll, slot_carryOutAll, h id]
  exact ⟨hsame, by rw [hsame]⟩

theorem respond_reordered_awaited : ∃ ops ops' : List (ComponentId × Update),
    ops ≠ ops' ∧ Reordered ops ops' ∧ awaited.carryOutAll ops = awaited.carryOutAll ops' ∧
      (awaited.carryOutAll ops).respond announcing = (awaited.carryOutAll ops').respond announcing := by
  have h : Reordered
      [(⟨1⟩, .edit (.set "title" (.string "Hi"))), (⟨2⟩, .clear), (⟨2⟩, .mark),
        (⟨1⟩, .call "View" "open" [])]
      [(⟨2⟩, .clear), (⟨1⟩, .edit (.set "title" (.string "Hi"))), (⟨1⟩, .call "View" "open" []),
        (⟨2⟩, .mark)] := by
    intro id
    by_cases h₁ : (⟨1⟩ : ComponentId) = id
    · subst h₁
      rfl
    · by_cases h₂ : (⟨2⟩ : ComponentId) = id
      · subst h₂
        rfl
      · simp [h₁, h₂]
  exact ⟨_, _, by simp, h, respond_reordered h awaited announcing⟩

end Session

/-! ## The order of marks when a response is given up -/

theorem DirtySet.markAll_perm {ids ids' : List ComponentId} (h : ids.Perm ids') (d : DirtySet) :
    d.markAll ids = d.markAll ids' := by
  have hmembers : ∀ x, (d.markAll ids).members.get? x = (d.markAll ids').members.get? x := by
    intro x
    have hiff : (d.markAll ids).contains x = true ↔ (d.markAll ids').contains x = true := by
      rw [contains_markAll, contains_markAll, h.mem_iff]
    have hsome : ((d.markAll ids).members.get? x).isSome =
        ((d.markAll ids').members.get? x).isSome := Bool.eq_iff_iff.2 hiff
    cases h₁ : (d.markAll ids).members.get? x <;> cases h₂ : (d.markAll ids').members.get? x <;>
      simp_all
  exact congrArg DirtySet.mk (Dict.ext_get? hmembers)

theorem Cascade.giveUp_of_perm {c : Cascade μ} {order : List ComponentId}
    (h : order.Perm c.collected.toList) :
    { c with dirty := c.dirty.markAll order } = c.giveUp := by
  rw [giveUp, DirtySet.markAll_perm h]

end UiSync
