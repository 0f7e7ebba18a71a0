import UiSync.Proofs.Replica.Mirrors
import UiSync.Proofs.Session.Acts

/-!
# Keeping track of a replica

`Session.Tracks r s` says that a session knows what a replica `r` is missing: replaying the changes
of the tree that wait for the next response turns `r`, or an empty replica when everything is sent
anew, into a mirror of what was sent of the tree.  It is kept by everything that happens to a
session between two responses (`Tracks.acts`).

`Session.Due s` says that the next response is told to send every attached component.  It is kept
as long as no mark is taken away (`Due.acts`).
-/

namespace UiSync

open FieldBag

variable {μ η : Type}

theorem Replica.Mirrors.edited {r : Replica} {t u : Tree μ} (h : r.Mirrors FieldBag.sent t)
    (he : Tree.Edited t u) : r.Mirrors FieldBag.sent u := by
  refine h.congr he.shape fun id c hc => ?_
  obtain ⟨d, hd, hcd⟩ := he.components id c hc
  refine ⟨d, hd, hcd.kind, ?_⟩
  rw [hcd.sent]
  exact SameFields.refl _

namespace Session

variable {clears : Bool} {r : Replica} {s s' : Session μ η}

/-! ## The replica a session keeps track of -/

/-- the replica the next response is applied to -/
def base (r : Replica) (s : Session μ η) : Replica := if s.resyncPending then ∅ else r

/-- the session knows what `r` is missing -/
structure Tracks (r : Replica) (s : Session μ η) : Prop where
  wellFormed : s.tree.WellFormed
  tracked : s.tree.Tracked
  replayed : ∃ r', s.hierarchy.foldlM Replica.applyTreeChange (base r s) = .ok r' ∧
    r'.Mirrors FieldBag.sent s.tree

namespace Tracks

theorem attach {parent id : ComponentId} {c : Component μ} (h : Tracks r s)
    (hc : c.fields.Unsent) (ha : s.attach parent c = .ok (id, s')) : Tracks r s' := by
  obtain ⟨t', ht, rfl⟩ := attach_ok ha
  obtain ⟨n, hn⟩ := h.wellFormed.attached ht
  obtain ⟨r₁, hr₁, hm⟩ := h.replayed
  obtain ⟨r₂, hr₂, hm₂⟩ := hm.attach h.wellFormed ht hc
  refine ⟨h.wellFormed.attach ht, fun x d hd => ?_, r₂, ?_, hm₂⟩
  · obtain ⟨m, hm', rfl⟩ := Tree.get?_eq_some_iff.1 hd
    rcases hn.cases hm' with ⟨-, rfl⟩ | ⟨m₀, hm₀, hcomp, -⟩
    · exact hc.tracked
    · rw [hcomp]
      exact h.tracked x _ (Tree.get?_eq_some_iff.2 ⟨m₀, hm₀, rfl⟩)
  · show (s.hierarchy ++ [_]).foldlM Replica.applyTreeChange (base r s) = _
    rw [List.foldlM_append, hr₁]
    show Replica.applyTreeChange r₁ _ >>= pure = _
    rw [Replica.applyTreeChange, hr₂]
    rfl

theorem detach {id : ComponentId} (h : Tracks r s) (hd : s.detach id = .ok s') :
    Tracks r s' := by
  obtain ⟨removed, t', ht, rfl⟩ := detach_ok hd
  have hdet := h.wellFormed.detached ht
  obtain ⟨r₁, hr₁, hm⟩ := h.replayed
  obtain ⟨r₂, hr₂, hm₂⟩ := hm.detach h.wellFormed ht
  refine ⟨hdet.wellFormed h.wellFormed, fun x c hc => h.tracked x c (hdet.get? hc), r₂, ?_, hm₂⟩
  show (s.hierarchy ++ [_]).foldlM Replica.applyTreeChange (base r s) = _
  rw [List.foldlM_append, hr₁]
  show Replica.applyTreeChange r₁ _ >>= pure = _
  rw [Replica.applyTreeChange, hr₂]
  rfl

/-- another tree whose components were edited, the waiting changes the same -/
theorem edited (h : Tracks r s) (he : Tree.Edited s.tree s'.tree)
    (hh : s'.hierarchy = s.hierarchy) (hp : s'.resyncPending = s.resyncPending) :
    Tracks r s' := by
  obtain ⟨r₁, hr₁, hm⟩ := h.replayed
  refine ⟨he.shape.wellFormed h.wellFormed, he.allTracked h.tracked, r₁, ?_, hm.edited he⟩
  rw [hh, base, hp]
  exact hr₁

/-- starting over forgets what was sent, and announces the tree as it is: whatever was sent before,
from now on the session knows what any replica is missing -/
theorem requestResync (hw : s.tree.WellFormed) (r : Replica) : Tracks r s.requestResync := by
  obtain ⟨r₁, hr₁, hm⟩ := Replica.mirrors_announcement hw
  have hshape := Tree.sameShape_updateAll s.tree fun c => { c with fields := c.fields.forgetSent }
  -- nothing counts as sent any more, which is what a freshly announced replica shows
  have hget : ∀ x, s.requestResync.tree.get? x =
      (s.tree.get? x).map fun c => { c with fields := c.fields.forgetSent } :=
    fun x => Tree.get?_component_updateAll ..
  refine ⟨hshape.wellFormed hw, fun x d hd => ?_, r₁, hr₁, hm.congr hshape ?_⟩
  · rw [hget, Option.map_eq_some_iff] at hd
    obtain ⟨c, -, rfl⟩ := hd
    exact tracked_forgetSent c.fields
  · intro id c hc
    refine ⟨{ c with fields := c.fields.forgetSent }, ?_, rfl, SameFields.refl _⟩
    show s.requestResync.tree.get? id = _
    rw [hget, hc]
    rfl

theorem act (h : Tracks r s) (ha : Act clears s s') : Tracks r s' := by
  cases ha with
  | attach hc ha => exact h.attach hc ha
  | detach hd => exact h.detach hd
  | edit id edits model =>
    exact h.edited (Tree.edited_update (Component.edited_revise edits model) s.tree id) rfl rfl
  | mark id =>
    rcases mark_cases s id with he | he
    · rw [he]
      exact h
    · rw [he]
      exact h.edited (.refl _) rfl rfl
  | clear id _ => exact h.edited (.refl _) rfl rfl
  | call hc =>
    rw [call_ok hc]
    exact h.edited (.refl _) rfl rfl
  | register hr =>
    rw [register_ok hr]
    exact h.edited (.refl _) rfl rfl
  | unregister id interface => exact h.edited (.refl _) rfl rfl
  | resync => exact requestResync h.wellFormed r
  | pass n => exact h.edited (.refl _) rfl rfl

theorem acts (h : Tracks r s) (ha : Acts clears s s') : Tracks r s' := by
  induction ha with
  | refl => exact h
  | tail _ hs ih => exact ih.act hs

end Tracks

/-- a session around a new root keeps track of an empty replica -/
theorem tracks_ofRoot {root : Component μ} (h : root.fields.Unsent) (config : Config) :
    Tracks ∅ (Session.ofRoot root config : Session μ η) := by
  obtain ⟨r, hr, hm⟩ := Replica.mirrors_ofRoot root h
  refine ⟨Tree.wellFormed_ofRoot root, fun id c hc => ?_, r, ?_, hm⟩
  · obtain ⟨n, hn, rfl⟩ := Tree.get?_eq_some_iff.1 hc
    obtain ⟨-, rfl⟩ := Tree.eq_of_get?_ofRoot hn
    exact h.tracked
  · show Replica.applyTreeChange ∅ _ >>= pure = _
    rw [hr]
    rfl

/-! ## What the next response has to carry -/

/-- everything attached is sent anew with the next response -/
structure Due (s : Session μ η) : Prop where
  pending : s.resyncPending = true
  dirty : ∀ id, s.tree.contains id = true → s.dirty.contains id = true

namespace Due

theorem requestResync (hw : s.tree.WellFormed) : Due s.requestResync := by
  refine ⟨rfl, fun id hid => ?_⟩
  have hshape := Tree.sameShape_updateAll s.tree fun c => { c with fields := c.fields.forgetSent }
  have hold : s.tree.contains id = true := (hshape.contains id).symm.trans hid
  exact (DirtySet.contains_markAll _ _ _).2 (.inl ((hw.mem_preOrder id).2 hold))

theorem mark (h : Due s) (id : ComponentId) : Due (s.mark id) := by
  rcases mark_cases s id with he | he
  · rw [he]
    exact h
  · rw [he]
    exact ⟨h.pending, fun x hx => (DirtySet.contains_mark _ _ _).2 (.inr (h.dirty x hx))⟩

theorem attach (h : Due s) (hw : s.tree.WellFormed) {parent id : ComponentId} {c : Component μ}
    (ha : s.attach parent c = .ok (id, s')) : Due s' := by
  obtain ⟨t', ht, rfl⟩ := attach_ok ha
  obtain ⟨n, hn⟩ := hw.attached ht
  refine ⟨h.pending, fun x hx => (DirtySet.contains_mark _ _ _).2 ?_⟩
  obtain ⟨m, hm⟩ := Tree.contains_iff.1 hx
  rcases hn.cases hm with ⟨hxid, -⟩ | ⟨m₀, hm₀, -⟩
  · exact .inl hxid
  · exact .inr (h.dirty x (Tree.contains_iff.2 ⟨m₀, hm₀⟩))

theorem detach (h : Due s) (hw : s.tree.WellFormed) {id : ComponentId}
    (hd : s.detach id = .ok s') : Due s' := by
  obtain ⟨removed, t', ht, rfl⟩ := detach_ok hd
  refine ⟨h.pending, fun x hx => ?_⟩
  obtain ⟨hx', hr⟩ := (hw.detached ht).contains hx
  exact (DirtySet.contains_clearAll_of_notMem hr _).trans (h.dirty x hx')

theorem act (h : Due s) (hw : s.tree.WellFormed) (ha : Act false s s') : Due s' := by
  cases ha with
  | attach _ ha => exact h.attach hw ha
  | detach hd => exact h.detach hw hd
  | edit id edits model =>
    refine ⟨h.pending, fun x hx => h.dirty x ?_⟩
    exact ((Tree.sameShape_update s.tree id _).contains x).symm.trans hx
  | mark id => exact h.mark id
  | clear id hf => cases hf
  | call hc =>
    rw [call_ok hc]
    exact ⟨h.pending, h.dirty⟩
  | register hr =>
    rw [register_ok hr]
    exact ⟨h.pending, h.dirty⟩
  | unregister id interface => exact ⟨h.pending, h.dirty⟩
  | resync => exact requestResync hw
  | pass n => exact ⟨h.pending, h.dirty⟩

theorem acts (h : Due s) (ht : Tracks r s) (ha : Acts false s s') : Due s' := by
  induction ha with
  | refl => exact h
  | tail hs hlast ih => exact ih.act (ht.acts hs).wellFormed hlast

end Due

/-- once a response was written, the root is announced again only when everything is -/
def RootKnown (s : Session μ η) : Prop :=
  s.lastResponse ≠ none → s.resyncPending = false →
    ∀ id kind, TreeChange.attached id none kind ∉ s.hierarchy

namespace RootKnown

/-- one more change of the tree that does not announce a root -/
theorem append (h : RootKnown s) {change : TreeChange}
    (hc : ∀ id kind, change ≠ .attached id none kind)
    (hh : s'.hierarchy = s.hierarchy ++ [change]) (hl : s'.lastResponse = s.lastResponse)
    (hp : s'.resyncPending = s.resyncPending) : RootKnown s' := by
  intro hlast hpend id kind hm
  rw [hl] at hlast
  rw [hp] at hpend
  rw [hh, List.mem_append, List.mem_singleton] at hm
  rcases hm with hm | hm
  · exact h hlast hpend id kind hm
  · exact hc id kind hm.symm

theorem act (h : RootKnown s) (ha : Act clears s s') : RootKnown s' := by
  cases ha with
  | attach _ ha =>
    obtain ⟨t', -, rfl⟩ := attach_ok ha
    exact h.append (fun id kind he => by cases he) rfl rfl rfl
  | detach hd =>
    obtain ⟨removed, t', -, rfl⟩ := detach_ok hd
    exact h.append (fun id kind he => by cases he) rfl rfl rfl
  | edit id edits model => exact h
  | mark id =>
    rcases mark_cases s id with he | he
    · rw [he]
      exact h
    · rw [he]
      exact h
  | clear id _ => exact h
  | call hc =>
    rw [call_ok hc]
    exact h
  | register hr =>
    rw [register_ok hr]
    exact h
  | unregister id interface => exact h
  | resync =>
    intro _ hp
    cases hp
  | pass n => exact h

theorem acts (h : RootKnown s) (ha : Acts clears s s') : RootKnown s' := by
  induction ha with
  | refl => exact h
  | tail _ hs ih => exact ih.act hs

end RootKnown

end Session

end UiSync
