import UiSync.Proofs.Session.Responding
import UiSync.Proofs.Session.Marks

/-!
# Sessions mention attached components only

The dirty set and the queue of a session mention no component that is not attached, and every call
waits for the component it is addressed to (`Session.Tidy`).  Operations keep this, as detaching
drops what it detaches from both (`Tidy.detach`); so do responses, whether they could be written or
not (`Tidy.respond`, `Tidy.unanswered`).
-/

namespace UiSync

variable {μ η σ : Type}

theorem DirtySet.contains_clearAll_of_mem {ids : List ComponentId} {x : ComponentId} (h : x ∈ ids)
    (d : DirtySet) : (d.clearAll ids).contains x = false := by
  induction ids generalizing d with
  | nil => cases h
  | cons id ids ih =>
    show ((d.clear id).clearAll ids).contains x = false
    by_cases hx : x ∈ ids
    · exact ih hx _
    · obtain rfl := (List.mem_cons.1 h).resolve_right hx
      rw [contains_clearAll_of_notMem hx, contains_clear_self]

namespace Tree

theorem Detached.contains_of_notMem {t t' : Tree μ} {removed : List ComponentId}
    {id x : ComponentId} (h : Detached t t' removed id) (hx : t.contains x = true)
    (hr : x ∉ removed) : t'.contains x = true := by
  obtain ⟨n, hn⟩ := contains_iff.1 hx
  have hu : ¬ t.Under id x := fun hu => hr ((h.mem_removed x).2 hu)
  exact contains_iff.2 ⟨_, h.kept_some hn hu⟩

theorem Attached.contains {t t' : Tree μ} {p id x : ComponentId} {c : Component μ} {n : Node μ}
    (h : Attached t t' p id c n) (hx : t.contains x = true) : t'.contains x = true := by
  obtain ⟨m, hm⟩ := contains_iff.1 hx
  obtain ⟨m', hm', -⟩ := h.kept hm
  exact contains_iff.2 ⟨m', hm'⟩

end Tree

/-! ## Cascades -/

namespace Cascade

variable {b : Behaviour μ η σ} {c d : Cascade μ} {run : HookRun μ σ} {runs : List (HookRun μ σ)}

/-- what is dirty, or had its hook run, is attached -/
def Known (c : Cascade μ) : Prop := ∀ id,
  c.dirty.contains id = true ∨ c.collected.contains id = true → c.tree.contains id = true

theorem Runs.attached (h : c.Runs b run) : c.tree.contains run.component = true := by
  obtain ⟨component, hget, -⟩ := h.reaction
  exact Tree.contains_iff_get?.2 ⟨_, hget⟩

namespace Known

theorem unmarked (h : c.Known) (hrun : c.Runs b run) : (c.unmarked run).Known := by
  have hexpl := explained_unmarked c run
  intro id hid
  rw [hexpl.shape.contains]
  rcases hid with hd | hc
  · change (c.dirty.clear run.component).contains id = true at hd
    by_cases hself : id = run.component
    · rw [hself]
      exact hrun.attached
    · rw [DirtySet.contains_clear_of_ne hself] at hd
      exact h id (.inl hd)
  · rcases (hexpl.collected id).1 hc with hc | ⟨run', hr, rfl⟩
    · exact h id (.inr hc)
    · rw [List.mem_singleton.1 hr]
      exact hrun.attached

theorem after (h : c.Known) (hrun : c.Runs b run) : (c.after run).Known := by
  have hunmarked := h.unmarked hrun
  intro id hid
  rw [Cascade.after, foldl_mark] at hid ⊢
  rcases hid with hd | hc
  · rcases (contains_foldl_mark _ _ _ id).1 hd with ⟨-, -, ht⟩ | hd
    · exact ht
    · exact hunmarked id (.inl hd)
  · exact hunmarked id (.inr hc)

theorem giveUp (h : c.Known) : c.giveUp.Known := by
  intro id hid
  rcases hid with hd | hc
  · rcases (DirtySet.contains_markAll _ _ _).1 hd with hm | hd
    · exact h id (.inr (Dict.contains_iff.2 (Dict.mem_keys.1 hm)))
    · exact h id (.inl hd)
  · exact h id (.inr hc)

end Known

theorem Course.known (h : Course b c runs d) (hk : c.Known) : d.Known := by
  induction h with
  | done c => exact hk
  | pass _ ih => exact ih hk
  | @gone c d runs x _ _ ih =>
    refine ih fun id hid => hk id (hid.imp_left fun hd => ?_)
    by_cases hx : id = x
    · subst hx
      rw [DirtySet.contains_clear_self] at hd
      cases hd
    · exact (DirtySet.contains_clear_of_ne hx _).symm.trans hd
  | ran hrun _ ih => exact ih (hk.after hrun)

/-- hooks address calls to their own component only -/
theorem Course.addressed (h : Course b c runs d) (ha : c.calls.Addressed) : d.calls.Addressed := by
  intro id call hc
  rw [h.explained.calls id] at hc
  rcases List.mem_append.1 hc with hc | hc
  · exact ha id call hc
  · exact of_decide_eq_true (List.mem_filter.1 hc).2

theorem Leads.known {outcome : Except (CascadeError × Cascade μ) (Cascade μ)}
    (h : Leads b c runs outcome) (hk : c.Known) : (reached outcome).Known := by
  cases h with
  | settled hd => exact hd.known hk
  | overflow _ hd => exact (hd.known hk).giveUp
  | refused _ hd hrun => exact ((hd.known hk).unmarked hrun).giveUp

end Cascade

namespace Session

variable {b : Behaviour μ η σ} {s s' : Session μ η} {c : Cascade μ} {clears : Bool}

/-! ## Responses that could not be written -/

/-- what is left when a response could not be written: the cascade got to `c` -/
structure Abandoned (b : Behaviour μ η σ) (s s' : Session μ η) (c : Cascade μ) : Prop where
  reached : c = Cascade.reached (s.finalize b)
  explained : Cascade.Explained (Cascade.start s) (s.hookRuns b) c
  state : s' = { s with tree := c.tree, dirty := s'.dirty,
                        calls := c.calls.rollback s.calls.checkpoint }
  dirty : ∀ id, s'.isDirty id = true ↔
    c.dirty.contains id = true ∨ c.tree.contains id = true ∧ c.collected.contains id = true

theorem abandoned_of_respond (hw : s.tree.WellFormed) {e : ResponseError}
    (h : s.respond b = (s', .error e)) : ∃ c, s.Abandoned b s' c := by
  have hlead := leads_finalize b s
  unfold respond at h
  split at h
  · next e' c hc =>
    cases h
    obtain ⟨hexpl, hdirty⟩ := hlead.error hc
    refine ⟨c, ?_, hexpl, rfl, fun id => ⟨.inl, fun hid => ?_⟩⟩
    · rw [hc]
      rfl
    · exact hid.elim (fun hd => hd) fun hc => hdirty id hc.2
  · next c hc =>
    have hexpl := (hlead.ok hc).explained
    have hwc := hexpl.shape.wellFormed hw
    dsimp only at h
    split at h
    · cases h
    · cases h
      refine ⟨c, ?_, hexpl, rfl, fun id => ?_⟩
      · rw [hc]
        rfl
      · rw [← Cascade.mem_finalized_iff hwc, or_comm]
        exact DirtySet.contains_markAll _ _ _

namespace Abandoned

theorem callsOf (h : s.Abandoned b s' c) (id : ComponentId) :
    s'.calls.callsOf id = s.calls.callsOf id := by
  rw [h.state]
  exact CallQueue.callsOf_rollback (h.explained.calls id)

theorem contains (h : s.Abandoned b s' c) (id : ComponentId) :
    s'.tree.contains id = s.tree.contains id := by
  rw [h.state]
  exact h.explained.shape.contains id

end Abandoned

/-! ## Tidy sessions -/

structure Tidy (s : Session μ η) : Prop where
  dirty : ∀ id, s.isDirty id = true → s.tree.contains id = true
  calls : ∀ id, s.calls.callsOf id ≠ [] → s.tree.contains id = true
  addressed : s.calls.Addressed

namespace Tidy

theorem known (h : s.Tidy) : (Cascade.start s).Known := by
  intro id hid
  rcases hid with hd | hc
  · exact h.dirty id hd
  · cases hc

theorem attach (h : s.Tidy) (hw : s.tree.WellFormed) {parent id : ComponentId} {c : Component μ}
    (ha : s.attach parent c = .ok (id, s')) : s'.Tidy := by
  obtain ⟨t', ht, rfl⟩ := attach_ok ha
  obtain ⟨n, hn⟩ := hw.attached ht
  refine ⟨fun x hx => ?_, fun x hx => hn.contains (h.calls x hx), h.addressed⟩
  rcases (DirtySet.contains_mark _ _ _).1 hx with rfl | hx
  · exact Tree.contains_iff.2 ⟨_, hn.new⟩
  · exact hn.contains (h.dirty x hx)

theorem detach (h : s.Tidy) (hw : s.tree.WellFormed) {id : ComponentId}
    (hd : s.detach id = .ok s') : s'.Tidy := by
  obtain ⟨removed, t', ht, rfl⟩ := detach_ok hd
  have hdet := hw.detached ht
  refine ⟨fun x hx => ?_, fun x hx => ?_, fun x call hc => ?_⟩
  · change (s.dirty.clearAll removed).contains x = true at hx
    by_cases hr : x ∈ removed
    · rw [DirtySet.contains_clearAll_of_mem hr] at hx
      cases hx
    · rw [DirtySet.contains_clearAll_of_notMem hr] at hx
      exact hdet.contains_of_notMem (h.dirty x hx) hr
  · change (s.calls.removeAll removed).callsOf x ≠ [] at hx
    by_cases hr : x ∈ removed
    · exact absurd (CallQueue.callsOf_removeAll_of_mem hr _) hx
    · rw [CallQueue.callsOf_removeAll_of_notMem hr] at hx
      exact hdet.contains_of_notMem (h.calls x hx) hr
  · change call ∈ (s.calls.removeAll removed).callsOf x at hc
    by_cases hr : x ∈ removed
    · rw [CallQueue.callsOf_removeAll_of_mem hr] at hc
      cases hc
    · rw [CallQueue.callsOf_removeAll_of_notMem hr] at hc
      exact h.addressed x call hc

theorem mark (h : s.Tidy) (id : ComponentId) : (s.mark id).Tidy := by
  unfold Session.mark
  split
  · next hid =>
    refine ⟨fun x hx => ?_, h.calls, h.addressed⟩
    rcases (DirtySet.contains_mark _ _ _).1 hx with rfl | hx
    · exact hid
    · exact h.dirty x hx
  · exact h

theorem clear (h : s.Tidy) (id : ComponentId) : (s.clear id).Tidy := by
  refine ⟨fun x hx => ?_, h.calls, h.addressed⟩
  change (s.dirty.clear id).contains x = true at hx
  by_cases hid : x = id
  · subst hid
    rw [DirtySet.contains_clear_self] at hx
    cases hx
  · rw [DirtySet.contains_clear_of_ne hid] at hx
    exact h.dirty x hx

theorem call (h : s.Tidy) {id : ComponentId} {interface method : String} {args : List Json.Value}
    (hc : s.call id interface method args = .ok s') : s'.Tidy := by
  have hid : s.tree.contains id = true := by
    unfold Session.call at hc
    split at hc
    · next hid => exact hid
    · cases hc
  rw [call_ok hc]
  refine ⟨h.dirty, fun x hx => ?_, fun x call hm => ?_⟩
  · by_cases hxid : x = id
    · rw [hxid]
      exact hid
    · rw [CallQueue.callsOf_push_of_ne hxid] at hx
      exact h.calls x hx
  · rw [CallQueue.callsOf_push, List.mem_append] at hm
    rcases hm with hm | hm
    · exact h.addressed x call hm
    · exact of_decide_eq_true (List.mem_filter.1 hm).2

/-- components changed in place, the marks and calls the same -/
theorem edited (h : s.Tidy) (hshape : Tree.SameShape s.tree s'.tree) (hd : s'.dirty = s.dirty)
    (hc : s'.calls = s.calls) : s'.Tidy := by
  refine ⟨fun x hx => ?_, fun x hx => ?_, hc ▸ h.addressed⟩
  · rw [isDirty, hd] at hx
    exact (hshape.contains x).trans (h.dirty x hx)
  · rw [hc] at hx
    exact (hshape.contains x).trans (h.calls x hx)

theorem requestResync (h : s.Tidy) (hw : s.tree.WellFormed) : s.requestResync.Tidy := by
  have hshape := Tree.sameShape_updateAll s.tree fun c => { c with fields := c.fields.forgetSent }
  refine ⟨fun x hx => (hshape.contains x).trans ?_,
    fun x hx => (hshape.contains x).trans (h.calls x hx), h.addressed⟩
  rcases (DirtySet.contains_markAll _ _ _).1 hx with hx | hx
  · exact (hw.mem_preOrder x).1 hx
  · exact h.dirty x hx

theorem respond (h : s.Tidy) {response : Response}
    (hr : s.respond b = (s', .ok response)) : s'.Tidy := by
  obtain ⟨c, hc, rfl, -⟩ := respond_ok hr
  have hknown := (course_of_finalize hc).known h.known
  have hshape := sameShape_commitFields c.finalized c.tree
  refine ⟨fun x hx => (hshape.contains x).trans (hknown x (.inl hx)), fun x hx => ?_,
    fun x call hm => ?_⟩
  · exact absurd (CallQueue.callsOf_empty x) hx
  · cases hm

theorem unanswered (h : s.Tidy) (hw : s.tree.WellFormed) {e : ResponseError}
    (hr : s.respond b = (s', .error e)) : s'.Tidy := by
  obtain ⟨c, hab⟩ := abandoned_of_respond hw hr
  have hknown : c.Known := by
    rw [hab.reached]
    exact (leads_finalize b s).known h.known
  refine ⟨fun x hx => ?_, fun x hx => ?_, fun x call hm => ?_⟩
  · rw [hab.state]
    exact ((hab.dirty x).1 hx).elim (fun hd => hknown x (.inl hd)) And.left
  · rw [hab.callsOf] at hx
    exact (hab.contains x).trans (h.calls x hx)
  · rw [hab.callsOf] at hm
    exact h.addressed x call hm

end Tidy

theorem tidy_ofRoot (root : Component μ) (config : Config) :
    (ofRoot root config : Session μ η).Tidy := by
  refine ⟨fun id hid => ?_, fun id hid => ?_, fun id call hc => ?_⟩
  · rcases (DirtySet.contains_mark _ _ _).1 hid with rfl | hid
    · exact (Tree.wellFormed_ofRoot root).contains_root
    · cases hid
  · exact absurd (CallQueue.callsOf_empty id) hid
  · cases hc

end Session

end UiSync
