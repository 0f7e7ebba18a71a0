import UiSync.Proofs.Session.HookRuns
import UiSync.Proofs.Tree.PreOrder

/-!
# What a cascade does

Hooks edit components in place and may mark others, so a cascade changes no more of the tree than
edits do, and a component that was dirty when it began is dirty or had its hook run
(`Cascade.Advances`).  When a cascade settles, no attached component is dirty, and so the hooks of
all that were dirty ran (`mem_finalized_of_dirty`).  Hooks that mark nothing always settle
(`settle_quiet`).
-/

namespace UiSync

variable {μ η σ : Type}

/-- the hooks mark no other component and ask for no change of the tree -/
def Behaviour.Quiet (b : Behaviour μ η σ) : Prop :=
  ∀ id c first, (b.hook id c first).marks = [] ∧ (b.hook id c first).requests = []

namespace Cascade

/-- a later stage of a cascade, or of one that was given up -/
structure Advances (c d : Cascade μ) : Prop where
  edited : Tree.Edited c.tree d.tree
  seen : ∀ id, c.tree.contains id = true →
    c.dirty.contains id = true ∨ c.collected.contains id = true →
      d.dirty.contains id = true ∨ d.collected.contains id = true

namespace Advances

theorem refl (c : Cascade μ) : Advances c c := ⟨.refl _, fun _ _ h => h⟩

theorem trans {c d e : Cascade μ} (h : Advances c d) (h' : Advances d e) : Advances c e := by
  refine ⟨h.edited.trans h'.edited, fun id hid hs => ?_⟩
  exact h'.seen id ((h.edited.shape.contains id).trans hid) (h.seen id hid hs)

end Advances

def reached : Except (CascadeError × Cascade μ) (Cascade μ) → Cascade μ
  | .ok c => c
  | .error (_, c) => c

/-! ## One hook -/

theorem advances_giveUp (c : Cascade μ) : Advances c c.giveUp := by
  refine ⟨.refl _, fun id _ hs => .inl ((DirtySet.contains_markAll _ _ _).2 ?_)⟩
  rcases hs with hs | hs
  · exact .inr hs
  · exact .inl (Dict.mem_keys.2 (Dict.contains_iff.1 hs))

theorem advances_mark (source : ComponentId) (c : Cascade μ) (target : ComponentId) :
    Advances c (c.mark source target) := by
  unfold mark
  split
  · exact .refl c
  · refine ⟨.refl _, fun id _ hs => ?_⟩
    rcases hs with hs | hs
    · exact .inl ((DirtySet.contains_mark _ _ _).2 (.inr hs))
    · exact .inr hs

theorem advances_marks (source : ComponentId) (targets : List ComponentId) (c : Cascade μ) :
    Advances c (targets.foldl (mark source) c) := by
  induction targets generalizing c with
  | nil => exact .refl c
  | cons target targets ih => exact (advances_mark source c target).trans (ih _)

theorem advances_absorb (c : Cascade μ) (id : ComponentId) (r : Reaction μ σ) :
    Advances c (c.absorb id r) := by
  have hedit : ∀ d : Component μ, d.Edited (r.apply d) := Component.edited_revise r.edits r.model
  refine ⟨Tree.edited_update hedit c.tree id, fun x _ hs => ?_⟩
  by_cases hx : x = id
  · exact .inr ((DirtySet.contains_mark _ _ _).2 (.inl hx))
  · rcases hs with hs | hs
    · exact .inl ((DirtySet.contains_clear_of_ne hx _).trans hs)
    · exact .inr ((DirtySet.contains_mark _ _ _).2 (.inr hs))

/-- a mark that stands for no attached component is dropped -/
theorem advances_clear {c : Cascade μ} {id : ComponentId} (h : c.tree.get? id = none) :
    Advances c { c with dirty := c.dirty.clear id } := by
  refine ⟨.refl _, fun x hx hs => ?_⟩
  have hne : x ≠ id := by
    rintro rfl
    obtain ⟨k, hk⟩ := Tree.contains_iff_get?.1 hx
    cases h.symm.trans hk
  rcases hs with hs | hs
  · exact .inl ((DirtySet.contains_clear_of_ne hne _).trans hs)
  · exact .inr hs

theorem advances_after (c : Cascade μ) (run : HookRun μ σ) : Advances c (c.after run) :=
  (advances_absorb c run.component run.reaction).trans (advances_marks run.component _ _)

/-! ## Whole cascades -/

theorem Course.advances {b : Behaviour μ η σ} {c d : Cascade μ} {runs : List (HookRun μ σ)}
    (h : Course b c runs d) : Advances c d := by
  induction h with
  | done c => exact .refl c
  | pass _ ih => exact ⟨ih.edited, ih.seen⟩
  | gone hid _ ih => exact (advances_clear hid).trans ih
  | ran _ _ ih => exact (advances_after _ _).trans ih

theorem Leads.advances {b : Behaviour μ η σ} {c : Cascade μ} {runs : List (HookRun μ σ)}
    {outcome : Except (CascadeError × Cascade μ) (Cascade μ)} (h : Leads b c runs outcome) :
    Advances c (reached outcome) := by
  cases h with
  | settled hd => exact hd.advances
  | overflow _ hd => exact hd.advances.trans (advances_giveUp _)
  | refused _ hd _ =>
    exact (hd.advances.trans (advances_absorb ..)).trans (advances_giveUp _)

theorem advances_settle (b : Behaviour μ η σ) (left : Nat) (c : Cascade μ) :
    Advances c (reached (settle b left c)) := (leads_settle b left c).advances

/-- a cascade settles only when nothing attached is dirty -/
theorem pending_of_settle {b : Behaviour μ η σ} {left : Nat} {c d : Cascade μ}
    (h : settle b left c = .ok d) : d.pending = [] := by
  induction left generalizing c with
  | zero =>
    unfold settle at h
    split at h
    · next hp =>
      obtain rfl := Except.ok.inj h
      exact List.isEmpty_iff.1 hp
    · cases h
  | succ left ih =>
    unfold settle at h
    split at h
    · next hp =>
      obtain rfl := Except.ok.inj h
      exact List.isEmpty_iff.1 hp
    · dsimp only at h
      split at h
      · exact ih h
      · cases h

/-! ## The components whose hooks ran -/

theorem nodup_finalized {c : Cascade μ} (hw : c.tree.WellFormed) : c.finalized.Nodup :=
  hw.nodup_preOrder.filter _

theorem mem_finalized_iff {c : Cascade μ} (hw : c.tree.WellFormed) (id : ComponentId) :
    id ∈ c.finalized ↔ c.tree.contains id = true ∧ c.collected.contains id = true := by
  rw [finalized, List.mem_filter, hw.mem_preOrder]

theorem mem_finalized_of_dirty {b : Behaviour μ η σ} {left : Nat} {c d : Cascade μ}
    (h : settle b left c = .ok d) (hw : c.tree.WellFormed) {id : ComponentId}
    (hid : c.tree.contains id = true) (hd : c.dirty.contains id = true) : id ∈ d.finalized := by
  have hadv := advances_settle b left c
  rw [h] at hadv
  have hw' := hadv.edited.shape.wellFormed hw
  have hid' : d.tree.contains id = true := (hadv.edited.shape.contains id).trans hid
  -- a settled cascade has no dirty component left, so `id` was collected
  have hclean : ¬ d.dirty.contains id = true := by
    intro hd'
    have hmem : id ∈ d.pending := List.mem_filter.2 ⟨(hw'.mem_preOrder id).2 hid', hd'⟩
    rw [pending_of_settle h] at hmem
    cases hmem
  rcases hadv.seen id hid (.inl hd) with hs | hs
  · exact absurd hs hclean
  · exact (mem_finalized_iff hw' id).2 ⟨hid', hs⟩

/-! ## Hooks that keep to themselves -/

variable {b : Behaviour μ η σ}

theorem runHook_quiet (hb : b.Quiet) {c : Cascade μ} {id : ComponentId}
    (hid : c.tree.contains id = true) : ∃ d, c.runHook b id = .ok d ∧
      Tree.SameShape c.tree d.tree ∧
      ∀ x, d.dirty.contains x = true → c.dirty.contains x = true ∧ x ≠ id := by
  by_cases hd : c.dirty.contains id = true
  · obtain ⟨k, hk⟩ := Tree.contains_iff_get?.1 hid
    obtain ⟨hmarks, hrequests⟩ := hb id k (!k.fields.everSent)
    refine ⟨c.absorb id (b.hook id k (!k.fields.everSent)), ?_, ?_, ?_⟩
    · simp only [runHook, if_pos hd, hk, hmarks, hrequests]
      rfl
    · exact Tree.sameShape_update ..
    · intro x hx
      have hne : x ≠ id := by
        rintro rfl
        have hclear : (c.dirty.clear x).contains x = false := DirtySet.contains_clear_self ..
        exact absurd (hclear.symm.trans hx) (by decide)
      exact ⟨(DirtySet.contains_clear_of_ne hne c.dirty).symm.trans hx, hne⟩
  · refine ⟨c, by rw [runHook, if_neg hd], .refl _, fun x hx => ⟨hx, ?_⟩⟩
    rintro rfl
    exact hd hx

theorem runPass_quiet (hb : b.Quiet) (ids : List ComponentId) (c : Cascade μ)
    (hids : ∀ id ∈ ids, c.tree.contains id = true) : ∃ d, c.runPass b ids = .ok d ∧
      Tree.SameShape c.tree d.tree ∧
      ∀ x, d.dirty.contains x = true → c.dirty.contains x = true ∧ x ∉ ids := by
  induction ids generalizing c with
  | nil => exact ⟨c, rfl, .refl _, fun x hx => ⟨hx, List.not_mem_nil⟩⟩
  | cons id ids ih =>
    obtain ⟨d, hd, hshape, hdirty⟩ := runHook_quiet hb (hids id (List.mem_cons_self ..))
    have hids' : ∀ x ∈ ids, d.tree.contains x = true := fun x hx =>
      (hshape.contains x).trans (hids x (List.mem_cons_of_mem _ hx))
    obtain ⟨e, he, hshape', hdirty'⟩ := ih d hids'
    refine ⟨e, ?_, hshape.trans hshape', fun x hx => ?_⟩
    · simp only [runPass, hd]
      exact he
    · obtain ⟨hxd, hxids⟩ := hdirty' x hx
      obtain ⟨hxc, hxid⟩ := hdirty x hxd
      exact ⟨hxc, List.not_mem_cons_of_ne_of_not_mem hxid hxids⟩

/-- one pass is enough for hooks that mark nothing -/
theorem settle_quiet (hb : b.Quiet) {c : Cascade μ} (hw : c.tree.WellFormed) (left : Nat) :
    ∃ d, settle b (left + 1) c = .ok d := by
  unfold settle
  split
  · exact ⟨c, rfl⟩
  · have hids : ∀ id ∈ c.pending, c.tree.contains id = true := fun id hid =>
      (hw.mem_preOrder id).1 (List.mem_filter.1 hid).1
    obtain ⟨d, hd, hshape, hdirty⟩ :=
      runPass_quiet hb c.pending { c with passes := c.passes + 1 } hids
    have hnone : d.pending = [] := by
      rw [List.eq_nil_iff_forall_not_mem]
      intro x hx
      obtain ⟨hx₁, hx₂⟩ := List.mem_filter.1 hx
      obtain ⟨hxc, hxids⟩ := hdirty x hx₂
      have hattached := ((hshape.wellFormed hw).mem_preOrder x).1 hx₁
      rw [hshape.contains x, ← hw.mem_preOrder x] at hattached
      exact hxids (List.mem_filter.2 ⟨hattached, hxc⟩)
    refine ⟨d, ?_⟩
    simp only [hd]
    unfold settle
    rw [hnone]
    rfl

end Cascade

end UiSync
