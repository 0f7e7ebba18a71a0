import UiSync.Proofs.Session.Settling
import UiSync.Proofs.Session.Tracking
import UiSync.Session.Response

/-!
# What a response tells

Applying a response that could be written takes the replica a session keeps track of to a mirror
of what was sent with it (`Tracks.respond_ok`); one that could not be written leaves the session
with the same replica to catch up (`Tracks.respond_error`).

When everything attached was due, what was sent is everything (`Due.upToDate`).
-/

namespace UiSync

open FieldBag

variable {μ η σ : Type}

/-- the replica after a message, begun anew when the message says so -/
def Replica.follow (r : Replica) (m : ServerMessage) : Except ReplicaError Replica :=
  (if m.resynchronize then ∅ else r).applyMessage m

theorem Replica.applyMessage_ok {r r₁ r₂ : Replica} {m : ServerMessage}
    (h₁ : m.hierarchy.foldlM applyTreeChange r = .ok r₁)
    (h₂ : m.changes.foldlM applyFieldChange r₁ = .ok r₂) : r.applyMessage m = .ok r₂ := by
  rw [applyMessage, h₁]
  exact h₂

/-- a message that begins anew leads to the same replica from anywhere -/
theorem Replica.follow_resynchronize {m : ServerMessage} (h : m.resynchronize = true)
    (r r₀ : Replica) : r.follow m = r₀.follow m := by
  rw [follow, if_pos h, follow, if_pos h]

/-- what was sent of every component shows what it holds -/
def Tree.UpToDate (t : Tree μ) : Prop :=
  ∀ id c, t.get? id = some c → SameFields (visible c.fields.sent) (visible c.fields.fields)

namespace Session

variable {b : Behaviour μ η σ} {r : Replica} {s s' : Session μ η}

/-! ## Committing fields -/

def commitAt (t : Tree μ) (id : ComponentId) : Tree μ :=
  t.update id fun c => { c with fields := c.fields.commit }

theorem commitFields_cons (t : Tree μ) (id : ComponentId) (ids : List ComponentId) :
    commitFields t (id :: ids) = commitFields (commitAt t id) ids := rfl

theorem get?_commitAt_self (t : Tree μ) (id : ComponentId) : (commitAt t id).get? id =
    (t.get? id).map fun c => { c with fields := c.fields.commit } :=
  Tree.get?_component_update_self ..

theorem get?_commitAt_of_ne {id x : ComponentId} (h : x ≠ id) (t : Tree μ) :
    (commitAt t id).get? x = t.get? x := Tree.get?_component_update_of_ne h ..

theorem sameShape_commitAt (t : Tree μ) (id : ComponentId) : Tree.SameShape t (commitAt t id) :=
  Tree.sameShape_update t id _

theorem sameShape_commitFields (ids : List ComponentId) (t : Tree μ) :
    Tree.SameShape t (commitFields t ids) := by
  induction ids generalizing t with
  | nil => exact .refl t
  | cons id ids ih => exact (sameShape_commitAt t id).trans (ih (commitAt t id))

theorem tracked_commitAt {t : Tree μ} (h : t.Tracked) (id : ComponentId) :
    (commitAt t id).Tracked := by
  intro x d hd
  rcases Tree.get?_update_cases hd with hx | ⟨c, -, rfl⟩
  · exact h x d hx
  · exact tracked_commit c.fields

theorem tracked_commitFields (ids : List ComponentId) {t : Tree μ} (h : t.Tracked) :
    (commitFields t ids).Tracked := by
  induction ids generalizing t with
  | nil => exact h
  | cons id ids ih => exact ih (tracked_commitAt h id)

theorem get?_commitFields_of_notMem {ids : List ComponentId} {x : ComponentId} (h : x ∉ ids)
    (t : Tree μ) : (commitFields t ids).get? x = t.get? x := by
  induction ids generalizing t with
  | nil => rfl
  | cons id ids ih =>
    rw [List.mem_cons, not_or] at h
    rw [commitFields_cons, ih h.2, get?_commitAt_of_ne h.1]

theorem get?_commitFields_of_mem {ids : List ComponentId} (hn : ids.Nodup) {x : ComponentId}
    (h : x ∈ ids) (t : Tree μ) : (commitFields t ids).get? x =
      (t.get? x).map fun c => { c with fields := c.fields.commit } := by
  induction ids generalizing t with
  | nil => cases h
  | cons id ids ih =>
    obtain ⟨hid, hids⟩ := List.nodup_cons.1 hn
    rw [commitFields_cons]
    rcases List.mem_cons.1 h with rfl | hx
    · rw [get?_commitFields_of_notMem hid, get?_commitAt_self]
    · have hne : x ≠ id := fun he => hid (he ▸ hx)
      rw [ih hids hx, get?_commitAt_of_ne hne]

theorem changeOf_commitAt {id x : ComponentId} (h : x ≠ id) (t : Tree μ) :
    changeOf (commitAt t id) x = changeOf t x := by
  rw [changeOf, get?_commitAt_of_ne h, changeOf]

/-! ## Telling of fields -/

/-- nothing is told of a component whose fields were sent as they are -/
theorem mirrors_unchanged {t : Tree μ} (h : r.Mirrors FieldBag.sent t) (ht : t.Tracked)
    {id : ComponentId} {c : Component μ} (hc : t.get? id = some c)
    (hd : c.fields.pendingDiff = none) : r.Mirrors FieldBag.sent (commitAt t id) := by
  refine h.congr (sameShape_commitAt t id) fun x d hx => ?_
  by_cases hid : x = id
  · subst hid
    rw [hc] at hx
    obtain rfl := Option.some.inj hx
    refine ⟨{ c with fields := c.fields.commit }, ?_, rfl, ?_⟩
    · show (commitAt t x).get? x = _
      rw [get?_commitAt_self, hc]
      rfl
    · exact ((ht x c hc).sameFields_of_pendingDiff_none hd).visible
  · exact ⟨d, (get?_commitAt_of_ne hid t).trans hx, rfl, SameFields.refl _⟩

/-- a component whose fields differ from what was sent is told of the difference -/
theorem mirrors_changed {t : Tree μ} (h : r.Mirrors FieldBag.sent t) (ht : t.Tracked)
    {id : ComponentId} {c : Component μ} (hc : t.get? id = some c) {diff : Diff}
    (hd : c.fields.pendingDiff = some diff) (version : Nat) :
    ∃ r', r.applyFieldChange ⟨id, version, diff⟩ = .ok r' ∧
      r'.Mirrors FieldBag.sent (commitAt t id) := by
  obtain ⟨m, hm, rfl⟩ := Tree.get?_eq_some_iff.1 hc
  obtain ⟨n, hn, hcopy⟩ := h.get?_some hm
  let n' : ReplicaNode := { n with fields := Replica.merge n.fields diff, version := version }
  refine ⟨{ r with components := r.components.insert id n' }, ?_, h.root, fun x => ?_⟩
  · simp only [Replica.applyFieldChange, hn]
    rfl
  · by_cases hx : x = id
    · subst hx
      rw [Dict.get?_insert_self, commitAt, Tree.get?_update_self, hm]
      refine .some ⟨hcopy.kind, hcopy.parent, hcopy.children, ?_⟩
      exact (ht x _ hc).merge_pendingDiff hd hcopy.fields
    · rw [Dict.get?_insert_of_ne hx, commitAt, Tree.get?_update_of_ne hx]
      exact h.nodes x

/-- the changes of several components turn a mirror of what was sent into one of what is now -/
theorem mirrors_changes {ids : List ComponentId} (hn : ids.Nodup) {t : Tree μ} (ht : t.Tracked)
    (hids : ∀ id ∈ ids, t.contains id = true) (h : r.Mirrors FieldBag.sent t) :
    ∃ r', (ids.filterMap (changeOf t)).foldlM Replica.applyFieldChange r = .ok r' ∧
      r'.Mirrors FieldBag.sent (commitFields t ids) := by
  induction ids generalizing t r with
  | nil => exact ⟨r, rfl, h⟩
  | cons id ids ih =>
    obtain ⟨hid, hnids⟩ := List.nodup_cons.1 hn
    obtain ⟨c, hc⟩ := Tree.contains_iff_get?.1 (hids id (List.mem_cons_self ..))
    have ht' : (commitAt t id).Tracked := tracked_commitAt ht id
    have hids' : ∀ x ∈ ids, (commitAt t id).contains x = true := by
      intro x hx
      rw [(sameShape_commitAt t id).contains x]
      exact hids x (List.mem_cons_of_mem _ hx)
    -- all changes are taken from the tree before any commit, which does not change the others
    have hrest : ids.filterMap (changeOf t) = ids.filterMap (changeOf (commitAt t id)) := by
      refine List.filterMap_congr fun x hx => ?_
      have hne : x ≠ id := fun he => hid (he ▸ hx)
      rw [changeOf_commitAt hne]
    rw [commitFields_cons, List.filterMap_cons]
    cases hd : c.fields.pendingDiff with
    | none =>
      have hnone : changeOf t id = none := by
        rw [changeOf, hc, Option.bind_some, hd]
        rfl
      simp only [hnone, hrest]
      exact ih hnids ht' hids' (mirrors_unchanged h ht hc hd)
    | some diff =>
      have hsome : changeOf t id = some ⟨id, c.fields.version + 1, diff⟩ := by
        rw [changeOf, hc, Option.bind_some, hd]
        rfl
      obtain ⟨r₁, hr₁, h₁⟩ := mirrors_changed h ht hc hd (c.fields.version + 1)
      obtain ⟨r₂, hr₂, h₂⟩ := ih hnids ht' hids' h₁
      refine ⟨r₂, ?_, h₂⟩
      simp only [hsome, hrest]
      rw [List.foldlM_cons, hr₁]
      exact hr₂

/-! ## Writing a response -/

theorem respond_ok {response : Response} (h : s.respond b = (s', .ok response)) :
    ∃ c, s.finalize b = .ok c ∧ s' = s.commit c ∧ response.message = s.pendingMessage c := by
  unfold respond at h
  split at h
  · cases h
  · next c hc =>
    dsimp only at h
    split at h
    · cases h
      exact ⟨c, hc, rfl, rfl⟩
    · cases h

/-- nothing but a limit of its size keeps a settled cascade from being sent -/
theorem respond_of_finalize {c : Cascade μ} (hc : s.finalize b = .ok c)
    (hl : s.config.maxResponseBytes = none) : s.respond b =
      (s.commit c, .ok ⟨s.pendingMessage c, (s.pendingMessage c).bytes⟩) := by
  simp only [respond, hc, ServerMessage.encode, hl]

/-- a session whose hooks mark nothing can always be written -/
theorem respond_quiet (hb : b.Quiet) (hw : s.tree.WellFormed)
    (hl : s.config.maxResponseBytes = none) (hp : 0 < s.config.maxFinalizePasses) :
    ∃ s' response, s.respond b = (s', .ok response) := by
  obtain ⟨left, hleft⟩ : ∃ left, s.config.maxFinalizePasses = left + 1 :=
    ⟨s.config.maxFinalizePasses - 1, by omega⟩
  obtain ⟨c, hc⟩ := Cascade.settle_quiet hb (c := Cascade.start s) hw left
  rw [← hleft] at hc
  exact ⟨_, _, respond_of_finalize hc hl⟩

/-- a response that could not be written leaves the changes of the tree waiting -/
theorem respond_error {e : ResponseError} (h : s.respond b = (s', .error e)) :
    Tree.Edited s.tree s'.tree ∧ s'.hierarchy = s.hierarchy ∧
      s'.resyncPending = s.resyncPending ∧ s'.lastResponse = s.lastResponse := by
  have hadv := Cascade.advances_settle b s.config.maxFinalizePasses (Cascade.start s)
  unfold respond finalize at h
  split at h
  · next e' c hc =>
    rw [hc] at hadv
    cases h
    exact ⟨hadv.edited, rfl, rfl, rfl⟩
  · next c hc =>
    rw [hc] at hadv
    dsimp only at h
    split at h
    · cases h
    · cases h
      exact ⟨hadv.edited, rfl, rfl, rfl⟩

/-- the tree as a settled cascade leaves it -/
theorem edited_of_finalize {c : Cascade μ} (h : s.finalize b = .ok c) :
    Tree.Edited s.tree c.tree := by
  have hadv := Cascade.advances_settle b s.config.maxFinalizePasses (Cascade.start s)
  rw [← finalize, h] at hadv
  exact hadv.edited

theorem sameShape_respond (s : Session μ η) (b : Behaviour μ η σ) :
    Tree.SameShape s.tree (s.respond b).1.tree := by
  cases hr : s.respond b with
  | mk s' outcome =>
    cases outcome with
    | ok response =>
      obtain ⟨c, hc, rfl, -⟩ := respond_ok hr
      exact (edited_of_finalize hc).shape.trans (sameShape_commitFields c.finalized c.tree)
    | error e => exact (respond_error hr).1.shape

theorem Tracks.respond_ok (h : Tracks r s) {response : Response}
    (hr : s.respond b = (s', .ok response)) :
    ∃ r', r.follow response.message = .ok r' ∧ r'.Mirrors FieldBag.sent s'.tree ∧
      Tracks r' s' := by
  obtain ⟨c, hc, rfl, hm⟩ := Session.respond_ok hr
  have hedit := edited_of_finalize hc
  have hw : c.tree.WellFormed := hedit.shape.wellFormed h.wellFormed
  have ht : c.tree.Tracked := hedit.allTracked h.tracked
  have hids : ∀ id ∈ c.finalized, c.tree.contains id = true :=
    fun id hid => ((Cascade.mem_finalized_iff hw id).1 hid).1
  obtain ⟨r₁, hr₁, h₁⟩ := h.replayed
  obtain ⟨r₂, hr₂, h₂⟩ :=
    mirrors_changes (Cascade.nodup_finalized hw) ht hids (h₁.edited hedit)
  refine ⟨r₂, ?_, h₂, ?_⟩
  · rw [Replica.follow, hm]
    exact Replica.applyMessage_ok hr₁ hr₂
  · have hshape := sameShape_commitFields c.finalized c.tree
    exact ⟨hshape.wellFormed hw, tracked_commitFields _ ht, r₂, rfl, h₂⟩

theorem Tracks.respond_error (h : Tracks r s) {e : ResponseError}
    (hr : s.respond b = (s', .error e)) : Tracks r s' := by
  obtain ⟨hedit, hh, hp, -⟩ := Session.respond_error hr
  exact h.edited hedit hh hp

theorem RootKnown.respond (h : RootKnown s) : RootKnown (s.respond b).1 := by
  cases hr : s.respond b with
  | mk s' outcome =>
    cases outcome with
    | ok response =>
      obtain ⟨c, -, rfl, -⟩ := Session.respond_ok hr
      intro _ _ id kind hm
      cases hm
    | error e =>
      obtain ⟨-, hh, hp, hl⟩ := Session.respond_error hr
      intro hlast hpend id kind hm
      exact h (hl ▸ hlast) (hp ▸ hpend) id kind (hh ▸ hm)

/-- everything due was sent as it is now -/
theorem Due.upToDate (h : Due s) (hw : s.tree.WellFormed) {response : Response}
    (hr : s.respond b = (s', .ok response)) : s'.tree.UpToDate := by
  obtain ⟨c, hc, rfl, -⟩ := Session.respond_ok hr
  have hedit := edited_of_finalize hc
  have hwc : c.tree.WellFormed := hedit.shape.wellFormed hw
  intro id d hd
  have hid : s.tree.contains id = true := by
    have hcontains := (sameShape_commitFields c.finalized c.tree).contains id
    rw [hedit.shape.contains id] at hcontains
    exact hcontains.symm.trans (Tree.contains_iff_get?.2 ⟨_, hd⟩)
  have hmem : id ∈ c.finalized := Cascade.mem_finalized_of_dirty hc hw hid (h.dirty id hid)
  have hget := get?_commitFields_of_mem (Cascade.nodup_finalized hwc) hmem c.tree
  change (commitFields c.tree c.finalized).get? id = some d at hd
  rw [hget, Option.map_eq_some_iff] at hd
  obtain ⟨c', -, rfl⟩ := hd
  exact SameFields.refl _

end Session

/-! ## What is shown and what is there -/

/-- a mirror of what was sent shows the tree as it is exactly when that was everything -/
theorem Replica.Mirrors.fields_iff {r : Replica} {t : Tree μ} (h : r.Mirrors FieldBag.sent t) :
    r.Mirrors FieldBag.fields t ↔ t.UpToDate := by
  constructor
  · intro hf id c hc
    obtain ⟨m, hm, rfl⟩ := Tree.get?_eq_some_iff.1 hc
    obtain ⟨n, hn, hcopy⟩ := h.get?_some hm
    obtain ⟨n', hn', hcopy'⟩ := hf.get?_some hm
    rw [hn] at hn'
    obtain rfl := Option.some.inj hn'
    exact hcopy.fields.symm.trans hcopy'.fields
  · intro hu
    exact h.congr (.refl t) fun id c hc => ⟨c, hc, rfl, hu id c hc⟩

end UiSync
