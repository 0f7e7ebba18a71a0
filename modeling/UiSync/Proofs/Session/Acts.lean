import UiSync.Proofs.Tree.WellFormed
import UiSync.Session.Basic

/-!
# Operations on a session

Between two responses a session changes by operations on its tree, its marks, its calls, its
handlers and its guard (`Session.Act`).  Components are edited in place (`Tree.Edited`), which keeps
the structure of the tree and what was sent of it; no operation changes which response was the last,
or takes back a request to begin anew (`Acts.kept`).
-/

namespace UiSync

open FieldBag

variable {μ η : Type}

/-! ## Marks -/

namespace DirtySet

theorem contains_mark (d : DirtySet) (id x : ComponentId) :
    (d.mark id).contains x = true ↔ x = id ∨ d.contains x = true := by
  rw [contains, mark, contains, Dict.contains_iff, Dict.contains_iff]
  by_cases h : x = id
  · subst h
    rw [Dict.get?_insert_self]
    simp
  · rw [Dict.get?_insert_of_ne h]
    simp [h]

theorem contains_clear_of_ne {id x : ComponentId} (h : x ≠ id) (d : DirtySet) :
    (d.clear id).contains x = d.contains x := by
  rw [contains, clear, contains, Dict.contains, Dict.contains, Dict.get?_erase_of_ne h]

theorem contains_clear_self (d : DirtySet) (id : ComponentId) :
    (d.clear id).contains id = false := by
  rw [contains, clear, Dict.contains, Dict.get?_erase_self]
  rfl

theorem contains_markAll (d : DirtySet) (ids : List ComponentId) (x : ComponentId) :
    (d.markAll ids).contains x = true ↔ x ∈ ids ∨ d.contains x = true := by
  induction ids generalizing d with
  | nil => simp [markAll]
  | cons id ids ih =>
    have hfold : d.markAll (id :: ids) = (d.mark id).markAll ids := rfl
    rw [hfold, ih, contains_mark, List.mem_cons, or_assoc, or_left_comm]

theorem contains_clearAll_of_notMem {ids : List ComponentId} {x : ComponentId} (h : x ∉ ids)
    (d : DirtySet) : (d.clearAll ids).contains x = d.contains x := by
  induction ids generalizing d with
  | nil => rfl
  | cons id ids ih =>
    rw [List.mem_cons, not_or] at h
    have hfold : d.clearAll (id :: ids) = (d.clear id).clearAll ids := rfl
    rw [hfold, ih h.2, contains_clear_of_ne h.1]

end DirtySet

/-! ## Edits -/

namespace Component

def revise (edits : List Edit) (model : μ) (c : Component μ) : Component μ :=
  { c with fields := edits.foldl FieldBag.edit c.fields, model := model }

/-- `d` is `c` with other fields, nothing of which was sent -/
structure Edited (c d : Component μ) : Prop where
  kind : d.kind = c.kind
  sent : d.fields.sent = c.fields.sent
  everSent : d.fields.everSent = c.fields.everSent
  tracked : c.fields.Tracked → d.fields.Tracked

theorem Edited.refl (c : Component μ) : c.Edited c := ⟨rfl, rfl, rfl, fun h => h⟩

theorem Edited.trans {c d e : Component μ} (h : c.Edited d) (h' : d.Edited e) : c.Edited e :=
  ⟨h'.kind.trans h.kind, h'.sent.trans h.sent, h'.everSent.trans h.everSent,
    fun ht => h'.tracked (h.tracked ht)⟩

theorem edited_revise (edits : List Edit) (model : μ) (c : Component μ) :
    c.Edited (c.revise edits model) :=
  ⟨rfl, sent_edits edits c.fields, everSent_edits edits c.fields, fun h => h.edits edits⟩

end Component

namespace Tree

/-- `u` is `t` with components edited in place -/
structure Edited (t u : Tree μ) : Prop where
  shape : SameShape t u
  components : ∀ id c, t.get? id = some c → ∃ d, u.get? id = some d ∧ c.Edited d

namespace Edited

variable {t u v : Tree μ}

theorem refl (t : Tree μ) : Edited t t := ⟨.refl t, fun _ c hc => ⟨c, hc, .refl c⟩⟩

theorem trans (h : Edited t u) (h' : Edited u v) : Edited t v := by
  refine ⟨h.shape.trans h'.shape, fun id c hc => ?_⟩
  obtain ⟨d, hd, hcd⟩ := h.components id c hc
  obtain ⟨e, he, hde⟩ := h'.components id d hd
  exact ⟨e, he, hcd.trans hde⟩

theorem before (h : Edited t u) {id : ComponentId} {d : Component μ} (hd : u.get? id = some d) :
    ∃ c, t.get? id = some c ∧ c.Edited d := by
  obtain ⟨m, hm, -⟩ := get?_eq_some_iff.1 hd
  obtain ⟨n, hn, -⟩ := h.shape.symm.get?_some hm
  have hc : t.get? id = some n.component := get?_eq_some_iff.2 ⟨n, hn, rfl⟩
  obtain ⟨d', hd', hcd⟩ := h.components id _ hc
  rw [hd] at hd'
  obtain rfl := Option.some.inj hd'
  exact ⟨_, hc, hcd⟩

end Edited

theorem edited_update {f : Component μ → Component μ}
    (hf : ∀ c : Component μ, c.Edited (f c)) (t : Tree μ) (id : ComponentId) :
    Edited t (t.update id f) := by
  refine ⟨sameShape_update t id f, fun x c hc => ?_⟩
  by_cases hx : x = id
  · subst hx
    rw [get?_component_update_self, hc]
    exact ⟨f c, rfl, hf c⟩
  · rw [get?_component_update_of_ne hx]
    exact ⟨c, hc, .refl c⟩

theorem edited_updateAll {f : Component μ → Component μ}
    (hf : ∀ c : Component μ, c.Edited (f c)) (t : Tree μ) : Edited t (t.updateAll f) := by
  refine ⟨sameShape_updateAll t f, fun x c hc => ⟨f c, ?_, hf c⟩⟩
  rw [get?_component_updateAll, hc]
  rfl

def Tracked (t : Tree μ) : Prop := ∀ id c, t.get? id = some c → c.fields.Tracked

theorem Edited.allTracked {t u : Tree μ} (h : Edited t u) (ht : t.Tracked) : u.Tracked := by
  intro id d hd
  obtain ⟨c, hc, hcd⟩ := h.before hd
  exact hcd.tracked (ht id c hc)

end Tree

namespace Session

/-! ## Operations -/

/-- one operation on a session, `clears` allowing to take a mark away; components are new when
they are attached -/
inductive Act (clears : Bool) : Session μ η → Session μ η → Prop
  | attach {s s' : Session μ η} {parent id : ComponentId} {c : Component μ} :
      c.fields.Unsent → s.attach parent c = .ok (id, s') → Act clears s s'
  | detach {s s' : Session μ η} {id : ComponentId} : s.detach id = .ok s' → Act clears s s'
  | edit {s : Session μ η} (id : ComponentId) (edits : List Edit) (model : μ) :
      Act clears s (s.update id (Component.revise edits model))
  | mark {s : Session μ η} (id : ComponentId) : Act clears s (s.mark id)
  | clear {s : Session μ η} (id : ComponentId) : clears = true → Act clears s (s.clear id)
  | call {s s' : Session μ η} {id : ComponentId} {interface method : String}
      {args : List Json.Value} : s.call id interface method args = .ok s' → Act clears s s'
  | register {s s' : Session μ η} {id : ComponentId} {interface : String} {handler : η} :
      s.register id interface handler = .ok s' → Act clears s s'
  | unregister {s : Session μ η} (id : ComponentId) (interface : String) :
      Act clears s (s.unregister id interface)
  | resync {s : Session μ η} : Act clears s s.requestResync
  | pass {s : Session μ η} (n : SequenceNumber) :
      Act clears s { s with guard := s.guard.record n }

def Acts (clears : Bool) : Session μ η → Session μ η → Prop := Relation.ReflTransGen (Act clears)

variable {clears : Bool} {s s' : Session μ η}

theorem attach_ok {parent id : ComponentId} {c : Component μ}
    (h : s.attach parent c = .ok (id, s')) : ∃ t', s.tree.attach parent c = .ok (id, t') ∧
      s' = { s with tree := t', dirty := s.dirty.mark id,
                    hierarchy := s.hierarchy ++ [.attached id (some parent) c.kind] } := by
  unfold attach at h
  split at h
  · cases h
  · next id' t' ht =>
    simp only [Except.ok.injEq, Prod.mk.injEq] at h
    obtain ⟨rfl, rfl⟩ := h
    exact ⟨t', ht, rfl⟩

theorem detach_ok {id : ComponentId} (h : s.detach id = .ok s') :
    ∃ removed t', s.tree.detach id = .ok (removed, t') ∧
      s' = { s with tree := t', dirty := s.dirty.clearAll removed,
                    calls := s.calls.removeAll removed, registry := s.registry.removeAll removed,
                    hierarchy := s.hierarchy ++ [.detached id] } := by
  unfold detach at h
  split at h
  · cases h
  · next removed t' ht =>
    simp only [Except.ok.injEq] at h
    exact ⟨removed, t', ht, h.symm⟩

theorem exists_attach {parent : ComponentId} (hp : s.tree.contains parent = true)
    (c : Component μ) : ∃ id s', s.attach parent c = .ok (id, s') := by
  obtain ⟨n, hn⟩ := Tree.contains_iff.1 hp
  have hattach : ∃ id t', s.tree.attach parent c = .ok (id, t') := by
    simp only [Tree.attach, hn]
    exact ⟨_, _, rfl⟩
  obtain ⟨id, t', ht⟩ := hattach
  simp only [attach, ht]
  exact ⟨_, _, rfl⟩

theorem exists_detach {id : ComponentId} (hc : s.tree.contains id = true)
    (hr : id ≠ s.tree.root) : ∃ s', s.detach id = .ok s' := by
  obtain ⟨n, hn⟩ := Tree.contains_iff.1 hc
  have hdetach : ∃ removed t', s.tree.detach id = .ok (removed, t') := by
    simp only [Tree.detach, if_neg hr, hn]
    exact ⟨_, _, rfl⟩
  obtain ⟨removed, t', ht⟩ := hdetach
  simp only [detach, ht]
  exact ⟨_, rfl⟩

theorem call_ok {id : ComponentId} {interface method : String} {args : List Json.Value}
    (h : s.call id interface method args = .ok s') :
    s' = { s with calls := s.calls.push id interface method args } := by
  unfold call at h
  split at h
  · exact (Except.ok.inj h).symm
  · cases h

theorem register_ok {id : ComponentId} {interface : String} {handler : η}
    (h : s.register id interface handler = .ok s') :
    s' = { s with registry := s.registry.register id interface handler } := by
  unfold register at h
  split at h
  · exact (Except.ok.inj h).symm
  · cases h

theorem mark_cases (s : Session μ η) (id : ComponentId) :
    s.mark id = s ∨ s.mark id = { s with dirty := s.dirty.mark id } := by
  unfold mark
  split
  · exact .inr rfl
  · exact .inl rfl

/-! ## What operations leave alone -/

/-- nothing was written, and a request to begin anew was not taken back -/
structure Kept (s s' : Session μ η) : Prop where
  lastResponse : s'.lastResponse = s.lastResponse
  config : s'.config = s.config
  pending : s.resyncPending = true → s'.resyncPending = true

theorem Kept.refl (s : Session μ η) : Kept s s := ⟨rfl, rfl, fun h => h⟩

theorem Kept.trans {s₁ s₂ s₃ : Session μ η} (h : Kept s₁ s₂) (h' : Kept s₂ s₃) : Kept s₁ s₃ :=
  ⟨h'.lastResponse.trans h.lastResponse, h'.config.trans h.config,
    fun hp => h'.pending (h.pending hp)⟩

theorem Act.kept (ha : Act clears s s') : Kept s s' := by
  cases ha with
  | attach _ ha =>
    obtain ⟨t', -, rfl⟩ := attach_ok ha
    exact ⟨rfl, rfl, fun h => h⟩
  | detach hd =>
    obtain ⟨removed, t', -, rfl⟩ := detach_ok hd
    exact ⟨rfl, rfl, fun h => h⟩
  | mark id =>
    rcases mark_cases s id with he | he
    · rw [he]
      exact .refl s
    · rw [he]
      exact ⟨rfl, rfl, fun h => h⟩
  | call hc =>
    rw [call_ok hc]
    exact ⟨rfl, rfl, fun h => h⟩
  | register hr =>
    rw [register_ok hr]
    exact ⟨rfl, rfl, fun h => h⟩
  | resync => exact ⟨rfl, rfl, fun _ => rfl⟩
  | edit | clear | unregister | pass => exact ⟨rfl, rfl, fun h => h⟩

theorem Acts.kept (ha : Acts clears s s') : Kept s s' := by
  induction ha with
  | refl => exact .refl s
  | tail _ hs ih => exact ih.trans hs.kept

end Session

end UiSync
