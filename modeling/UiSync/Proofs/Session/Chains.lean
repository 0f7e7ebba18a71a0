import UiSync.Proofs.Session.FirstSend

/-!
# How many passes a cascade takes

Hooks that keep to fixed targets can only mark along a relation between attached components
(`Session.MayMark`).  A component that is dirty after `n` passes stands at the end of a chain of `n`
marks that starts at a component dirty from the beginning (`Cascade.within_settle`), because a pass
runs every hook that is due and so leaves no older mark behind.

Without cycles a chain meets no component twice.  So there is a longest chain, shorter than the tree
is large, and a cascade settles with one pass more than that chain has marks
(`Session.settles_of_acyclic`), wherever its components stand in the tree.
-/

namespace UiSync

variable {μ η σ : Type}

namespace Cascade

variable {b : Behaviour μ η σ} {c d : Cascade μ} {run : HookRun μ σ} {id : ComponentId}

/-! ## One pass -/

/-- a turn finds nothing due, or no component, or runs a hook, whose request ends the cascade -/
theorem runHook_cases (b : Behaviour μ η σ) (c : Cascade μ) (x : ComponentId) :
    (c.dirty.contains x = false ∧ c.runHook b x = .ok c) ∨
      (c.tree.get? x = none ∧ c.runHook b x = .ok { c with dirty := c.dirty.clear x }) ∨
      ∃ run, c.hookRun? b x = some run ∧ run.component = x ∧
        ((run.reaction.requests = [] ∧ c.runHook b x = .ok (c.after run)) ∨
          (run.reaction.requests ≠ [] ∧
            c.runHook b x = .error (.structureChange x, (c.unmarked run).giveUp))) := by
  by_cases hd : c.dirty.contains x = true
  · cases hc : c.tree.get? x with
    | none =>
      refine .inr (.inl ⟨rfl, ?_⟩)
      simp only [runHook, if_pos hd, hc]
    | some component =>
      refine .inr (.inr ⟨⟨c.passes, x, b.hook x component (!component.fields.everSent)⟩, ?_, rfl, ?_⟩)
      · rw [hookRun?, if_pos hd, hc]
        rfl
      · by_cases hr : (b.hook x component (!component.fields.everSent)).requests = []
        · refine .inl ⟨hr, ?_⟩
          simp only [runHook, if_pos hd, hc, hr, List.isEmpty_nil]
          rfl
        · refine .inr ⟨hr, ?_⟩
          simp only [runHook, if_pos hd, hc, List.isEmpty_iff, if_neg hr]
          rfl
  · refine .inl ⟨Bool.eq_false_iff.2 hd, ?_⟩
    rw [runHook, if_neg hd]

/-- what is dirty after the turn of a component was marked in it, or is another component that was
dirty before -/
theorem dirty_runHook {x : ComponentId} (hx : c.tree.contains x = true)
    (h : c.runHook b x = .ok d) (hd : d.dirty.contains id = true) :
    (c.dirty.contains id = true ∧ id ≠ x) ∨
      c.tree.contains id = true ∧ ∃ run ∈ c.hookRun? b x, run.Marks id := by
  rcases runHook_cases b c x with ⟨hclean, he⟩ | ⟨hnone, -⟩ | ⟨run, hrun, hself, ⟨-, he⟩ | ⟨-, he⟩⟩
  · obtain rfl := Except.ok.inj (he.symm.trans h)
    refine .inl ⟨hd, ?_⟩
    rintro rfl
    rw [hclean] at hd
    cases hd
  · obtain ⟨k, hk⟩ := Tree.contains_iff_get?.1 hx
    cases hnone.symm.trans hk
  · obtain rfl := Except.ok.inj (he.symm.trans h)
    rcases (contains_after c run id).1 hd with ⟨hm, hid⟩ | ⟨hne, hid⟩
    · exact .inr ⟨hid, run, hrun, hm⟩
    · exact .inl ⟨hid, hself ▸ hne⟩
  · cases he.symm.trans h

theorem sameShape_runPass (c : Cascade μ) {ids : List ComponentId} (h : c.runPass b ids = .ok d) :
    Tree.SameShape c.tree d.tree := ((leads_runPass b ids c).ok h).explained.shape

theorem runPass_cons {x : ComponentId} {ids : List ComponentId} (h : c.runHook b x = .ok d) :
    c.runPass b (x :: ids) = d.runPass b ids ∧
      c.passRuns b (x :: ids) = (c.hookRun? b x).toList ++ d.passRuns b ids := by
  rw [runPass, passRuns, h]
  exact ⟨rfl, rfl⟩

/-- what is dirty after a pass over `ids` was marked by a hook that ran in it, or was dirty before
and does not belong to `ids` -/
theorem dirty_runPass {ids : List ComponentId} (hids : ∀ x ∈ ids, c.tree.contains x = true)
    (h : c.runPass b ids = .ok d) (hd : d.dirty.contains id = true) :
    (c.dirty.contains id = true ∧ id ∉ ids) ∨
      c.tree.contains id = true ∧ ∃ run ∈ c.passRuns b ids, run.Marks id := by
  induction ids generalizing c with
  | nil =>
    obtain rfl := Except.ok.inj h
    exact .inl ⟨hd, List.not_mem_nil⟩
  | cons x ids ih =>
    cases he : c.runHook b x with
    | error e =>
      rw [runPass, he] at h
      cases h
    | ok e =>
      obtain ⟨hrest, hruns⟩ := runPass_cons he
      rw [hrest] at h
      rw [hruns]
      have hone : c.runPass b [x] = .ok e := (runPass_cons he).1
      have hshape := sameShape_runPass c hone
      have hids' : ∀ y ∈ ids, e.tree.contains y = true := fun y hy =>
        (hshape.contains y).trans (hids y (List.mem_cons_of_mem _ hy))
      rcases ih hids' h with ⟨hdirty, hnot⟩ | ⟨hid, run, hr, hm⟩
      · rcases dirty_runHook (hids x (List.mem_cons_self ..)) he hdirty with
          ⟨hdirty', hne⟩ | ⟨hid, run, hr, hm⟩
        · exact .inl ⟨hdirty', List.not_mem_cons_of_ne_of_not_mem hne hnot⟩
        · exact .inr ⟨hid, run, List.mem_append_left _ (Option.mem_toList.2 hr), hm⟩
      · exact .inr ⟨(hshape.contains id).symm.trans hid, run, List.mem_append_right _ hr, hm⟩

/-- a pass ends early only because a hook that ran asked for a change of the tree -/
theorem refused_of_runPass {ids : List ComponentId} {reason : CascadeError}
    (h : c.runPass b ids = .error (reason, d)) : ∃ run ∈ c.passRuns b ids,
      reason = .structureChange run.component ∧ run.reaction.requests ≠ [] := by
  induction ids generalizing c with
  | nil => cases h
  | cons x ids ih =>
    cases he : c.runHook b x with
    | ok e =>
      obtain ⟨hrest, hruns⟩ := runPass_cons he
      rw [hrest] at h
      obtain ⟨run, hr, hrefused⟩ := ih h
      rw [hruns]
      exact ⟨run, List.mem_append_right _ hr, hrefused⟩
    | error e =>
      rw [runPass, he] at h
      obtain rfl := Except.error.inj h
      rcases runHook_cases b c x with ⟨-, he'⟩ | ⟨-, he'⟩ |
        ⟨run, hrun, hself, ⟨-, he'⟩ | ⟨hrequests, he'⟩⟩
      · cases he'.symm.trans he
      · cases he'.symm.trans he
      · cases he'.symm.trans he
      · obtain ⟨rfl, -⟩ := Prod.mk.inj (Except.error.inj (he'.symm.trans he))
        exact ⟨run, List.mem_append_left _ (Option.mem_toList.2 hrun), by rw [hself], hrequests⟩

/-! ## All passes -/

/-- how a cascade may end when `P n id` holds of the components that are dirty after `n` passes -/
inductive Within (P : Nat → ComponentId → Prop) (c : Cascade μ) (left : Nat)
    (runs : List (HookRun μ σ)) : Except (CascadeError × Cascade μ) (Cascade μ) → Prop
  | rested {d : Cascade μ} : d.passes = c.passes → c.pending = [] → Within P c left runs (.ok d)
  | settled {d : Cascade μ} {n : Nat} {id : ComponentId} :
      d.passes = n + 1 → P n id → Within P c left runs (.ok d)
  | overflow {d : Cascade μ} {still : Nat} {id : ComponentId} : P (c.passes + left) id →
      Within P c left runs (.error (.overflow (c.passes + left) still, d))
  | refused {d : Cascade μ} {run : HookRun μ σ} : run ∈ runs → run.reaction.requests ≠ [] →
      Within P c left runs (.error (.structureChange run.component, d))

theorem within_settle {P : Nat → ComponentId → Prop} {left : Nat} (hw : c.tree.WellFormed)
    (hpending : ∀ id ∈ c.pending, P c.passes id)
    (hmarks : ∀ run ∈ settleRuns b left c, ∀ n id, c.tree.contains id = true →
      P n run.component → run.Marks id → P (n + 1) id) :
    Within P c left (settleRuns b left c) (settle b left c) := by
  induction left generalizing c with
  | zero =>
    unfold settle settleRuns
    split
    · next hp => exact .rested rfl (List.isEmpty_iff.1 hp)
    · next hp =>
      obtain ⟨id, hid⟩ := List.exists_mem_of_ne_nil _ fun hnil => hp (List.isEmpty_iff.2 hnil)
      exact .overflow (hpending id hid)
  | succ left ih =>
    unfold settle
    unfold settleRuns at hmarks ⊢
    split
    · next hp => exact .rested rfl (List.isEmpty_iff.1 hp)
    · next hp =>
      rw [if_neg hp] at hmarks
      obtain ⟨first, hfirst⟩ :=
        List.exists_mem_of_ne_nil _ fun hnil => hp (List.isEmpty_iff.2 hnil)
      have hattached : ∀ id ∈ c.pending,
          ({ c with passes := c.passes + 1 } : Cascade μ).tree.contains id = true := fun id hid =>
        (hw.mem_preOrder id).1 (List.mem_filter.1 hid).1
      cases hpass : { c with passes := c.passes + 1 }.runPass b c.pending with
      | error e =>
        obtain ⟨reason, d⟩ := e
        obtain ⟨run, hr, rfl, hrequests⟩ := refused_of_runPass hpass
        exact .refused (List.mem_append_left _ hr) hrequests
      | ok d =>
        simp only [hpass] at hmarks
        have hpasses : d.passes = c.passes + 1 := passes_of_runPass hpass
        have hshape : Tree.SameShape c.tree d.tree :=
          sameShape_runPass { c with passes := c.passes + 1 } hpass
        -- a component that is dirty now was marked by a hook of this pass
        have hnext : ∀ id ∈ d.pending, P d.passes id := by
          intro id hid
          obtain ⟨horder, hdirty⟩ := List.mem_filter.1 hid
          rw [hshape.preOrder hw] at horder
          have hid' := (hw.mem_preOrder id).1 horder
          rcases dirty_runPass hattached hpass hdirty with ⟨hbefore, hnot⟩ | ⟨-, run, hr, hm⟩
          · exact absurd (List.mem_filter.2 ⟨horder, hbefore⟩) hnot
          · have hsource : run.component ∈ c.pending :=
              (ordered_passRuns b c.pending { c with passes := c.passes + 1 }).2.subset
                (List.mem_map_of_mem hr)
            rw [hpasses]
            exact hmarks run (List.mem_append_left _ hr) _ id hid' (hpending _ hsource) hm
        have hlater := ih (hshape.wellFormed hw) hnext fun run hr n id hid =>
          hmarks run (List.mem_append_right _ hr) n id ((hshape.contains id).symm.trans hid)
        show Within P c (left + 1) _ (settle b left d)
        have hleft : d.passes + left = c.passes + (left + 1) := by omega
        generalize settle b left d = outcome at hlater ⊢
        cases hlater with
        | rested hd => exact .settled (hd.trans hpasses) (hpending first hfirst)
        | settled hd hP => exact .settled hd hP
        | overflow hP =>
          rw [hleft] at hP ⊢
          exact .overflow hP
        | refused hr hrequests => exact .refused (List.mem_append_right _ hr) hrequests

end Cascade

/-! ## Chains of marks -/

namespace Session

variable {b : Behaviour μ η σ} {s : Session μ η} {targets : ComponentId → Set ComponentId}
  {n : Nat} {id : ComponentId}

/-- the hooks that run mark nothing but the targets of their components -/
def MarksWithin (b : Behaviour μ η σ) (s : Session μ η)
    (targets : ComponentId → Set ComponentId) : Prop :=
  ∀ run ∈ s.hookRuns b, ∀ id ∈ run.reaction.marks, id ∈ targets run.component

/-- `target` is a target of `source`, and both are attached and not the same -/
structure MayMark (s : Session μ η) (targets : ComponentId → Set ComponentId)
    (source target : ComponentId) : Prop where
  attached : s.tree.contains source = true ∧ s.tree.contains target = true
  other : target ≠ source
  mem : target ∈ targets source

/-- `n` marks lead to `id` from a component that is dirty at the start -/
inductive Chain (s : Session μ η) (targets : ComponentId → Set ComponentId) :
    Nat → ComponentId → Prop
  | start {id : ComponentId} : id ∈ s.dirtyComponents → Chain s targets 0 id
  | mark {n : Nat} {source target : ComponentId} : Chain s targets n source →
      s.MayMark targets source target → Chain s targets (n + 1) target

def chainLengths (s : Session μ η) (targets : ComponentId → Set ComponentId) : Set Nat :=
  { n | ∃ id, s.Chain targets n id }

/-- hooks that mark nothing else, whatever state their components are in, do not in a cascade -/
theorem marksWithin_of_hook
    (h : ∀ id component first, ∀ target ∈ (b.hook id component first).marks, target ∈ targets id) :
    s.MarksWithin b targets := by
  intro run hr id hid
  obtain ⟨before, after, he⟩ := List.append_of_mem hr
  obtain ⟨component, -, hreaction⟩ := exists_hook_run he
  rw [hreaction] at hid
  exact h _ _ _ id hid

theorem Chain.contains (hw : s.tree.WellFormed) (h : s.Chain targets n id) :
    s.tree.contains id = true := by
  cases h with
  | start hid => exact (hw.mem_preOrder id).1 (List.mem_filter.1 hid).1
  | mark _ hmark => exact hmark.attached.2

/-- the components on a chain, none of them twice -/
theorem Chain.exists_nodup (hw : s.tree.WellFormed)
    (hacyclic : ∀ id, ¬ Relation.TransGen (s.MayMark targets) id id) (h : s.Chain targets n id) :
    ∃ ids : List ComponentId, ids.length = n + 1 ∧ ids.Nodup ∧
      ∀ x ∈ ids, s.tree.contains x = true ∧ Relation.ReflTransGen (s.MayMark targets) x id := by
  induction h with
  | @start id hid =>
    refine ⟨[id], rfl, List.nodup_singleton id, fun x hx => ?_⟩
    have hstart : s.Chain targets 0 id := .start hid
    rw [List.mem_singleton.1 hx]
    exact ⟨hstart.contains hw, .refl⟩
  | @mark n source target _ hmark ih =>
    obtain ⟨ids, hlen, hnodup, hall⟩ := ih
    refine ⟨target :: ids, by rw [List.length_cons, hlen], ?_, fun x hx => ?_⟩
    · -- a second visit would close a cycle
      refine List.nodup_cons.2 ⟨fun hmem => hacyclic target ?_, hnodup⟩
      exact Relation.TransGen.tail' (hall target hmem).2 hmark
    · rcases List.mem_cons.1 hx with rfl | hx
      · exact ⟨hmark.attached.2, .refl⟩
      · exact ⟨(hall x hx).1, (hall x hx).2.tail hmark⟩

theorem Chain.lt_size (hw : s.tree.WellFormed)
    (hacyclic : ∀ id, ¬ Relation.TransGen (s.MayMark targets) id id)
    (h : s.Chain targets n id) : n < s.tree.size := by
  obtain ⟨ids, hlen, hnodup, hall⟩ := h.exists_nodup hw hacyclic
  have hle : ids.length ≤ s.tree.size :=
    Dict.length_le_size hnodup fun x hx => Tree.contains_iff.1 (hall x hx).1
  omega

theorem exists_isGreatest_chainLengths (hw : s.tree.WellFormed)
    (hacyclic : ∀ id, ¬ Relation.TransGen (s.MayMark targets) id id)
    (hdirty : s.dirtyComponents ≠ []) : ∃ n, IsGreatest (s.chainLengths targets) n := by
  obtain ⟨id, hid⟩ := List.exists_mem_of_ne_nil _ hdirty
  have hbound : BddAbove (s.chainLengths targets) := by
    refine ⟨s.tree.size, fun n hn => ?_⟩
    obtain ⟨x, hx⟩ := hn
    exact (hx.lt_size hw hacyclic).le
  refine ⟨sSup (s.chainLengths targets), Nat.sSup_mem ⟨0, id, .start hid⟩ hbound, fun n hn => ?_⟩
  exact le_csSup hbound hn

/-- a cascade ends in reach of the chains of its marks -/
theorem within_finalize (hw : s.tree.WellFormed) (hmarks : s.MarksWithin b targets) :
    Cascade.Within (s.Chain targets) (Cascade.start s) s.config.maxFinalizePasses
      (s.hookRuns b) (s.finalize b) := by
  refine Cascade.within_settle hw (fun id hid => .start hid) fun run hr n id hid hchain hm => ?_
  exact .mark hchain ⟨⟨hchain.contains hw, hid⟩, hm.2, hmarks run hr id hm.1⟩

/-! ## Settling -/

/-- the cascade settles, or it ends because a hook asked for a change of the tree -/
def Completes (b : Behaviour μ η σ) (s : Session μ η) : Prop :=
  (∃ c, s.finalize b = .ok c) ∨ ∃ run c, s.finalize b = .error (.structureChange run.component, c) ∧
    run ∈ s.hookRuns b ∧ run.reaction.requests ≠ []

theorem completes_of_within {P : Nat → ComponentId → Prop}
    (h : Cascade.Within P (Cascade.start s) s.config.maxFinalizePasses (s.hookRuns b)
      (s.finalize b)) (hP : ∀ id, ¬ P s.config.maxFinalizePasses id) : s.Completes b := by
  generalize he : s.finalize b = outcome at h
  cases h with
  | rested | settled => exact .inl ⟨_, he⟩
  | @overflow _ _ id hover =>
    have hzero : (Cascade.start s).passes = 0 := rfl
    rw [hzero, Nat.zero_add] at hover
    exact absurd hover (hP id)
  | refused hr hrequests => exact .inr ⟨_, _, he, hr, hrequests⟩

structure SettlesInTime (b : Behaviour μ η σ) (s : Session μ η)
    (targets : ComponentId → Set ComponentId) : Prop where
  resting : s.dirtyComponents = [] → s.finalize b = .ok (Cascade.start s)
  /-- there is a longest chain, and it is shorter than the tree is large -/
  longest : s.dirtyComponents ≠ [] →
    ∃ n, IsGreatest (s.chainLengths targets) n ∧ n < s.tree.size
  passes : ∀ n, IsGreatest (s.chainLengths targets) n → ∀ c, s.finalize b = .ok c →
    c.passes ≤ 1 + n
  completes : ∀ n, IsGreatest (s.chainLengths targets) n →
    1 + n ≤ s.config.maxFinalizePasses → s.Completes b
  completes_size : s.tree.size ≤ s.config.maxFinalizePasses → s.Completes b

/-- When hooks mark along a relation without cycles, the cascade takes at most one pass more than
the longest chain has marks, and never overflows if it may take that many, or as many passes as there
are components. -/
theorem settles_of_acyclic (ht : s.tree.Built) (hmarks : s.MarksWithin b targets)
    (hacyclic : ∀ id, ¬ Relation.TransGen (s.MayMark targets) id id) :
    s.SettlesInTime b targets := by
  have hw := ht.wellFormed
  have hwithin := within_finalize hw hmarks
  constructor
  case resting =>
    intro hnone
    have hp : (Cascade.start s).pending = [] := hnone
    unfold finalize Cascade.settle
    rw [hp]
    rfl
  case longest =>
    intro hdirty
    obtain ⟨n, hn⟩ := exists_isGreatest_chainLengths hw hacyclic hdirty
    obtain ⟨id, hid⟩ := hn.1
    exact ⟨n, hn, hid.lt_size hw hacyclic⟩
  case passes =>
    intro n hn c hc
    rw [hc] at hwithin
    cases hwithin with
    | rested hpasses =>
      rw [hpasses]
      exact Nat.zero_le _
    | @settled _ k id hpasses hchain =>
      have hle : k ≤ n := hn.2 ⟨id, hchain⟩
      omega
  case completes =>
    intro n hn hmax
    refine completes_of_within hwithin fun id hchain => ?_
    have hle : s.config.maxFinalizePasses ≤ n := hn.2 ⟨id, hchain⟩
    omega
  case completes_size =>
    intro hmax
    refine completes_of_within hwithin fun id hchain => ?_
    have hlt := hchain.lt_size hw hacyclic
    omega

/-! ### A page that its note marks -/

/-- of the two components only the page is ever marked -/
def pageOnly : ComponentId → Set ComponentId := fun _ => {⟨1⟩}

theorem MayMark.ends {source target : ComponentId} (h : s.MayMark pageOnly source target) :
    target = ⟨1⟩ ∧ source ≠ ⟨1⟩ := by
  have htarget : target = ⟨1⟩ := h.mem
  exact ⟨htarget, fun hsource => h.other (htarget.trans hsource.symm)⟩

theorem acyclic_pageOnly (id : ComponentId) : ¬ Relation.TransGen (s.MayMark pageOnly) id id := by
  intro hcycle
  obtain ⟨_, hfirst, -⟩ := Relation.TransGen.head'_iff.1 hcycle
  obtain ⟨_, -, hlast⟩ := Relation.TransGen.tail'_iff.1 hcycle
  exact hfirst.ends.2 hlast.ends.1

theorem isGreatest_chainLengths_noted : IsGreatest (noted.chainLengths pageOnly) 1 := by
  have hnote : ⟨2⟩ ∈ noted.dirtyComponents := by decide
  refine ⟨⟨⟨1⟩, .mark (.start hnote) ⟨⟨rfl, rfl⟩, by decide, rfl⟩⟩, ?_⟩
  rintro n ⟨id, hchain⟩
  cases hchain with
  | start => exact Nat.zero_le 1
  | mark hchain hmark =>
    cases hchain with
    | start => exact le_refl 1
    | mark _ hbefore => exact absurd hbefore.ends.1 hmark.ends.2

/-- the note marks the page after its hook ran, which takes the second of the two passes -/
theorem settles_of_acyclic_noted : ∃ c, noted.finalize announcing = .ok c ∧ c.passes = 1 + 1 ∧
    IsGreatest (noted.chainLengths pageOnly) 1 ∧ noted.SettlesInTime announcing pageOnly := by
  have hnote : (Tree.ofRoot ⟨"Page", .empty, ()⟩).attach ⟨1⟩ ⟨"Note", .empty, ()⟩ =
      .ok (⟨2⟩, noted.tree) := rfl
  have ht : noted.tree.Built := .attach (.ofRoot _) hnote
  have hmarks : noted.MarksWithin announcing pageOnly := by
    refine marksWithin_of_hook fun id component first target hm => ?_
    cases first with
    | false => cases hm
    | true => exact List.mem_singleton.1 hm
  exact ⟨_, rfl, rfl, isGreatest_chainLengths_noted,
    settles_of_acyclic ht hmarks acyclic_pageOnly⟩

end Session

end UiSync
