import UiSync.Proofs.Session.Settling
import UiSync.Proofs.Tree.Order

/-!
# What becomes of marks

In every cascade a mark stays until the hook of its component runs (`Cascade.Course.kept`,
`Cascade.Course.answered`), and whatever was dirty on the way was dirty from the start or was marked
by the hook of another component (`Cascade.Course.caused`).  A cascade that settles has no mark
left, so every mark was answered by a run behind it.

The hooks of one pass run in the order of the tree (`Cascade.ordered_settle`), which bounds the
number of runs by the passes and the size of the tree.
-/

namespace UiSync

variable {μ η σ : Type}

namespace Cascade

variable {b : Behaviour μ η σ} {c d : Cascade μ} {run : HookRun μ σ} {runs : List (HookRun μ σ)}
  {id : ComponentId}

/-! ## One hook -/

theorem contains_foldl_mark (source : ComponentId) (targets : List ComponentId) (c : Cascade μ)
    (id : ComponentId) : (targets.foldl (mark source) c).dirty.contains id = true ↔
      (id ∈ targets ∧ id ≠ source ∧ c.tree.contains id = true) ∨
        c.dirty.contains id = true := by
  induction targets generalizing c with
  | nil => simp
  | cons target targets ih =>
    rw [List.foldl_cons, ih, List.mem_cons]
    by_cases hskip : target = source ∨ (!c.tree.contains target) = true
    · rw [mark, if_pos hskip]
      have hno : id = target → ¬ (id ≠ source ∧ c.tree.contains id = true) := by
        rintro rfl ⟨hs, hc⟩
        rcases hskip with he | hc'
        · exact hs he
        · rw [hc] at hc'
          cases hc'
      have hor : (id = target ∨ id ∈ targets) ∧ id ≠ source ∧ c.tree.contains id = true ↔
          id ∈ targets ∧ id ≠ source ∧ c.tree.contains id = true :=
        ⟨fun h => ⟨h.1.resolve_left fun he => hno he h.2, h.2⟩, fun h => ⟨.inr h.1, h.2⟩⟩
      rw [hor]
    · rw [mark, if_neg hskip]
      show _ ∨ (c.dirty.mark target).contains id = true ↔ _
      rw [not_or, Bool.not_eq_true', Bool.not_eq_false] at hskip
      rw [DirtySet.contains_mark]
      constructor
      · rintro (⟨hm, hs⟩ | rfl | hd)
        · exact .inl ⟨.inr hm, hs⟩
        · exact .inl ⟨.inl rfl, hskip⟩
        · exact .inr hd
      · rintro (⟨rfl | hm, hs⟩ | hd)
        · exact .inr (.inl rfl)
        · exact .inl ⟨hm, hs⟩
        · exact .inr (.inr hd)

/-- a hook takes the mark of its own component and places the marks it asked for -/
theorem contains_after (c : Cascade μ) (run : HookRun μ σ) (id : ComponentId) :
    (c.after run).dirty.contains id = true ↔
      (run.Marks id ∧ c.tree.contains id = true) ∨
        (id ≠ run.component ∧ c.dirty.contains id = true) := by
  have hshape := (explained_unmarked c run).shape
  rw [after, contains_foldl_mark, hshape.contains, ← and_assoc]
  refine or_congr Iff.rfl ?_
  show (c.dirty.clear run.component).contains id = true ↔ _
  by_cases hid : id = run.component
  · subst hid
    simp [DirtySet.contains_clear_self]
  · rw [DirtySet.contains_clear_of_ne hid]
    simp [hid]

theorem contains_tree_after (c : Cascade μ) (run : HookRun μ σ) (id : ComponentId) :
    (c.after run).tree.contains id = c.tree.contains id :=
  (explained_after c run).shape.contains id

/-! ## On the way -/

namespace Course

theorem kept (h : Course b c runs d) (hid : c.tree.contains id = true)
    (hd : c.dirty.contains id = true) :
    d.dirty.contains id = true ∨ ∃ run ∈ runs, run.component = id := by
  induction h with
  | done c => exact .inl hd
  | pass _ ih => exact ih hid hd
  | @gone c d runs x hx _ ih =>
    have hne : id ≠ x := by
      rintro rfl
      obtain ⟨k, hk⟩ := Tree.contains_iff_get?.1 hid
      cases hx.symm.trans hk
    exact ih hid ((DirtySet.contains_clear_of_ne hne _).trans hd)
  | @ran c d run runs _ _ ih =>
    by_cases hne : id = run.component
    · exact .inr ⟨run, List.mem_cons_self .., hne.symm⟩
    · rcases ih ((contains_tree_after c run id).trans hid)
        ((contains_after c run id).2 (.inr ⟨hne, hd⟩)) with h | ⟨run', hr, he⟩
      · exact .inl h
      · exact .inr ⟨run', List.mem_cons_of_mem _ hr, he⟩

theorem answered (h : Course b c runs d) {before later : List (HookRun μ σ)}
    (he : runs = before ++ run :: later) (hid : c.tree.contains id = true) (hm : run.Marks id) :
    d.dirty.contains id = true ∨ ∃ run' ∈ later, run'.component = id := by
  induction h generalizing before with
  | done c =>
    rw [List.nil_eq_append_iff] at he
    cases he.2
  | pass _ ih => exact ih he hid
  | gone _ _ ih => exact ih he hid
  | @ran c d first runs _ hc ih =>
    have hid' := (contains_tree_after c first id).trans hid
    cases before with
    | nil =>
      obtain ⟨rfl, rfl⟩ := List.cons.inj he
      exact hc.kept hid' ((contains_after c first id).2 (.inl ⟨hm, hid⟩))
    | cons x before => exact ih (List.cons.inj he).2 hid'

theorem caused (h : Course b c runs d)
    (hid : d.dirty.contains id = true ∨ ∃ run ∈ runs, run.component = id) :
    c.dirty.contains id = true ∨ c.tree.contains id = true ∧ ∃ run ∈ runs, run.Marks id := by
  induction h with
  | done c =>
    rcases hid with hid | ⟨run, hr, -⟩
    · exact .inl hid
    · cases hr
  | pass _ ih => exact ih hid
  | @gone c d runs x _ _ ih =>
    rcases ih hid with h | h
    · by_cases hx : id = x
      · subst hx
        rw [DirtySet.contains_clear_self] at h
        cases h
      · exact .inl ((DirtySet.contains_clear_of_ne hx _).symm.trans h)
    · exact .inr h
  | @ran c d run runs hrun _ ih =>
    by_cases hself : run.component = id
    · exact .inl (hself ▸ hrun.dirty)
    · have hid' : d.dirty.contains id = true ∨ ∃ run ∈ runs, run.component = id := by
        rcases hid with hd | ⟨run', hr, he⟩
        · exact .inl hd
        · rcases List.mem_cons.1 hr with rfl | hr
          · exact absurd he hself
          · exact .inr ⟨run', hr, he⟩
      rcases ih hid' with hd | ⟨hc, run', hr, hm⟩
      · rcases (contains_after c run id).1 hd with ⟨hm, hc⟩ | ⟨-, hd⟩
        · exact .inr ⟨hc, run, List.mem_cons_self .., hm⟩
        · exact .inl hd
      · rw [contains_tree_after] at hc
        exact .inr ⟨hc, run', List.mem_cons_of_mem _ hr, hm⟩

end Course

/-! ## In order -/

theorem passes_of_runHook {x : ComponentId} (h : c.runHook b x = .ok d) : d.passes = c.passes := by
  unfold runHook at h
  split at h
  · split at h
    · cases h
      rfl
    · dsimp only at h
      split at h
      · cases h
        rw [foldl_mark]
        rfl
      · cases h
  · cases h
    rfl

theorem passes_of_runPass {ids : List ComponentId} (h : c.runPass b ids = .ok d) :
    d.passes = c.passes := by
  induction ids generalizing c with
  | nil =>
    cases h
    rfl
  | cons x ids ih =>
    unfold runPass at h
    split at h
    · next c' hc' => exact (ih h).trans (passes_of_runHook hc')
    · cases h

theorem hookRun?_eq_some {x : ComponentId} (h : c.hookRun? b x = some run) :
    run.pass = c.passes ∧ run.component = x := by
  unfold hookRun? at h
  split at h
  · obtain ⟨component, -, rfl⟩ := Option.map_eq_some_iff.1 h
    exact ⟨rfl, rfl⟩
  · cases h

/-- a pass runs the hook of each component on its list at most once, in the order of the list -/
theorem ordered_passRuns (b : Behaviour μ η σ) (ids : List ComponentId) (c : Cascade μ) :
    (∀ run ∈ c.passRuns b ids, run.pass = c.passes) ∧
      ((c.passRuns b ids).map HookRun.component).Sublist ids := by
  induction ids generalizing c with
  | nil => exact ⟨fun run hr => absurd hr List.not_mem_nil, .slnil⟩
  | cons x ids ih =>
    obtain ⟨rest, hrest, hpass, hsub⟩ : ∃ rest,
        c.passRuns b (x :: ids) = (c.hookRun? b x).toList ++ rest ∧
          (∀ run ∈ rest, run.pass = c.passes) ∧ (rest.map HookRun.component).Sublist ids := by
      cases hx : c.runHook b x with
      | ok c' =>
        have hc' := ih c'
        rw [passes_of_runHook hx] at hc'
        exact ⟨c'.passRuns b ids, by simp only [passRuns, hx], hc'⟩
      | error e =>
        exact ⟨[], by simp only [passRuns, hx], fun run hr => absurd hr List.not_mem_nil,
          List.nil_sublist _⟩
    rw [hrest]
    cases hr : c.hookRun? b x with
    | none =>
      rw [Option.toList_none, List.nil_append]
      exact ⟨hpass, hsub.cons x⟩
    | some run =>
      obtain ⟨hrun, hcomponent⟩ := hookRun?_eq_some hr
      rw [Option.toList_some, List.singleton_append]
      refine ⟨fun r hm => ?_, ?_⟩
      · rcases List.mem_cons.1 hm with rfl | hm
        · exact hrun
        · exact hpass r hm
      · rw [List.map_cons, hcomponent]
        exact hsub.cons_cons x

/-- the runs of a cascade pass by pass, each pass going through `order` at most once -/
structure Ordered (order : List ComponentId) (c : Cascade μ) (runs : List (HookRun μ σ))
    (d : Cascade μ) : Prop where
  passes : ∀ run ∈ runs, c.passes < run.pass ∧ run.pass ≤ d.passes
  sorted : runs.Pairwise fun r r' => r.pass ≤ r'.pass
  inPass : ∀ n, ((runs.filter fun run => run.pass = n).map HookRun.component).Sublist order
  count : c.passes * order.length + runs.length ≤ d.passes * order.length

theorem Ordered.refl (order : List ComponentId) (c : Cascade μ) :
    Ordered order c ([] : List (HookRun μ σ)) c :=
  ⟨fun _ hr => absurd hr List.not_mem_nil, .nil, fun _ => List.nil_sublist _, le_refl _⟩

/-- one more pass in front -/
theorem Ordered.pass {order : List ComponentId} {c₁ : Cascade μ} {first : List (HookRun μ σ)}
    (hpasses : c₁.passes = c.passes + 1) (hfirst : ∀ run ∈ first, run.pass = c₁.passes)
    (hsub : (first.map HookRun.component).Sublist order) (hle : c₁.passes ≤ d.passes)
    (h : Ordered order c₁ runs d) : Ordered order c (first ++ runs) d := by
  refine ⟨fun run hr => ?_, ?_, fun n => ?_, ?_⟩
  · rcases List.mem_append.1 hr with hr | hr
    · have := hfirst run hr
      omega
    · have := h.passes run hr
      omega
  · refine List.pairwise_append.2 ⟨?_, h.sorted, fun r hr r' hr' => ?_⟩
    · refine List.pairwise_iff_forall_sublist.2 fun {r r'} hs => ?_
      have hr := hfirst r (hs.subset (List.mem_cons_self ..))
      have hr' := hfirst r' (hs.subset (List.mem_cons_of_mem _ (List.mem_cons_self ..)))
      omega
    · have h₁ := hfirst r hr
      have h₂ := (h.passes r' hr').1
      omega
  · rw [List.filter_append]
    by_cases hn : n = c₁.passes
    -- the runs of this pass stand in front, those of later passes have greater numbers
    · have hall : first.filter (fun run => run.pass = n) = first :=
        List.filter_eq_self.2 fun run hr => decide_eq_true ((hfirst run hr).trans hn.symm)
      have hnone : runs.filter (fun run => run.pass = n) = [] := by
        refine List.filter_eq_nil_iff.2 fun run hr he => ?_
        have h₁ := (h.passes run hr).1
        have h₂ := of_decide_eq_true he
        omega
      rw [hall, hnone, List.append_nil]
      exact hsub
    · have hnone : first.filter (fun run => run.pass = n) = [] := by
        refine List.filter_eq_nil_iff.2 fun run hr he => hn ?_
        exact (of_decide_eq_true he).symm.trans (hfirst run hr)
      rw [hnone, List.nil_append]
      exact h.inPass n
  · have hlen : first.length ≤ order.length := by
      have := hsub.length_le
      rwa [List.length_map] at this
    have hcount := h.count
    rw [hpasses, Nat.add_mul, Nat.one_mul] at hcount
    rw [List.length_append]
    omega

theorem ordered_settle {left : Nat} (hw : c.tree.WellFormed) (h : settle b left c = .ok d) :
    c.passes ≤ d.passes ∧ d.passes ≤ c.passes + left ∧
      Ordered c.tree.preOrder c (settleRuns b left c) d := by
  induction left generalizing c with
  | zero =>
    unfold settle at h
    split at h
    · cases h
      exact ⟨le_refl _, le_refl _, .refl _ _⟩
    · cases h
  | succ left ih =>
    unfold settle at h
    unfold settleRuns
    split at h
    · next hp =>
      cases h
      rw [if_pos hp]
      exact ⟨le_refl _, Nat.le_add_right _ _, .refl _ _⟩
    · next hp =>
      rw [if_neg hp]
      cases hc₁ : { c with passes := c.passes + 1 }.runPass b c.pending with
      | error e =>
        simp only [hc₁] at h
        cases h
      | ok c₁ =>
        simp only [hc₁] at h
        obtain ⟨hfirst, hsub⟩ := ordered_passRuns b c.pending { c with passes := c.passes + 1 }
        have hpasses : c₁.passes = c.passes + 1 := passes_of_runPass hc₁
        have hlead := leads_runPass b c.pending { c with passes := c.passes + 1 }
        have hshape : Tree.SameShape c.tree c₁.tree := (hlead.ok hc₁).explained.shape
        obtain ⟨hle, hleft, hordered⟩ := ih (hshape.wellFormed hw) h
        rw [hshape.preOrder hw] at hordered
        refine ⟨by omega, by omega, .pass hpasses ?_ ?_ hle hordered⟩
        · rw [hpasses]
          exact hfirst
        · exact hsub.trans List.filter_sublist

end Cascade

/-! ## The cascade of a session -/

namespace Session

variable {b : Behaviour μ η σ} {s : Session μ η} {c : Cascade μ} {id : ComponentId}

theorem leads_finalize (b : Behaviour μ η σ) (s : Session μ η) :
    Cascade.Leads b (Cascade.start s) (s.hookRuns b) (s.finalize b) := Cascade.leads_settle ..

theorem course_of_finalize (h : s.finalize b = .ok c) :
    Cascade.Course b (Cascade.start s) (s.hookRuns b) c := (leads_finalize b s).ok h

theorem clean_of_finalize (hw : s.tree.WellFormed) (h : s.finalize b = .ok c)
    (hid : s.tree.contains id = true) : c.dirty.contains id = false := by
  have hshape := (course_of_finalize h).explained.shape
  have hid' : c.tree.contains id = true := (hshape.contains id).trans hid
  rw [Bool.eq_false_iff]
  intro hd
  have hmem : id ∈ c.pending :=
    List.mem_filter.2 ⟨((hshape.wellFormed hw).mem_preOrder id).2 hid', hd⟩
  rw [Cascade.pending_of_settle h] at hmem
  cases hmem

theorem finalized_sublist (hw : s.tree.WellFormed) (h : s.finalize b = .ok c) :
    c.finalized.Sublist s.tree.preOrder := by
  have horder : c.tree.preOrder = s.tree.preOrder :=
    (course_of_finalize h).explained.shape.preOrder hw
  rw [← horder]
  exact List.filter_sublist

/-- the hooks that ran are those of the components that were dirty or were marked by another one -/
theorem mem_finalized_of_finalize (hw : s.tree.WellFormed) (h : s.finalize b = .ok c)
    (id : ComponentId) : id ∈ c.finalized ↔ s.tree.contains id = true ∧
      (s.isDirty id = true ∨ ∃ run ∈ s.hookRuns b, run.Marks id) := by
  have hcourse := course_of_finalize h
  have hexpl := hcourse.explained
  have hcollected : c.collected.contains id = true ↔ ∃ run ∈ s.hookRuns b, run.component = id := by
    rw [hexpl.collected]
    exact ⟨fun h => h.resolve_left Bool.false_ne_true, .inr⟩
  rw [Cascade.mem_finalized_iff (hexpl.shape.wellFormed hw), hexpl.shape.contains, hcollected]
  refine and_congr_right fun hid => ⟨fun hran => ?_, fun hdue => ?_⟩
  · exact (hcourse.caused (.inr hran)).imp_right And.right
  · have hclean : ¬ c.dirty.contains id = true := by
      rw [clean_of_finalize hw h hid]
      exact Bool.false_ne_true
    rcases hdue with hd | ⟨run, hr, hm⟩
    · exact (hcourse.kept hid hd).resolve_left hclean
    · obtain ⟨before, later, he⟩ := List.append_of_mem hr
      obtain ⟨run', hr', hc⟩ := (hcourse.answered he hid hm).resolve_left hclean
      refine ⟨run', ?_, hc⟩
      rw [he]
      exact List.mem_append_right _ (List.mem_cons_of_mem _ hr')

theorem ordered_of_finalize (hw : s.tree.WellFormed) (h : s.finalize b = .ok c) :
    c.passes ≤ s.config.maxFinalizePasses ∧
      Cascade.Ordered s.tree.preOrder (Cascade.start s) (s.hookRuns b) c := by
  obtain ⟨-, hle, hordered⟩ := Cascade.ordered_settle (c := Cascade.start s) hw h
  refine ⟨?_, hordered⟩
  have hzero : (Cascade.start s).passes = 0 := rfl
  rwa [hzero, Nat.zero_add] at hle

/-- every hook that ran counts, and a pass runs no more hooks than there are components -/
theorem invocations_of_finalize (hw : s.tree.WellFormed) (h : s.finalize b = .ok c) :
    c.invocations = (s.hookRuns b).length ∧ c.invocations ≤ c.passes * s.tree.size := by
  have hcount : c.invocations = (s.hookRuns b).length :=
    (course_of_finalize h).explained.invocations.trans (Nat.zero_add _)
  refine ⟨hcount, ?_⟩
  have hruns : (s.hookRuns b).length ≤ c.passes * s.tree.preOrder.length := by
    have := (ordered_of_finalize hw h).2.count
    omega
  rw [hcount]
  exact hruns.trans (Nat.mul_le_mul_left _ hw.length_preOrder_le)

structure Settled (b : Behaviour μ η σ) (s : Session μ η) (c : Cascade μ) : Prop where
  /-- the hooks that ran are those of `s.hookRuns b`, one after the other -/
  course : Cascade.Course b (Cascade.start s) (s.hookRuns b) c
  clean : ∀ id, c.tree.contains id = true → c.dirty.contains id = false
  inOrder : c.finalized.Sublist s.tree.preOrder ∧ c.finalized.Nodup
  finalized : ∀ id, id ∈ c.finalized ↔ s.tree.contains id = true ∧
    (s.isDirty id = true ∨ ∃ run ∈ s.hookRuns b, run.Marks id)
  /-- the hook of a marked component runs after the mark -/
  answered : ∀ before run later id, s.hookRuns b = before ++ run :: later →
    s.tree.contains id = true → run.Marks id → ∃ run' ∈ later, run'.component = id
  /-- passes follow one another, and each goes through the tree parents first -/
  ordered : ((s.hookRuns b).Pairwise fun run run' => run.pass ≤ run'.pass) ∧
    (∀ n, (((s.hookRuns b).filter fun run => run.pass = n).map HookRun.component).Sublist
      s.tree.preOrder) ∧
    s.tree.preOrder.Pairwise fun a b => ¬ s.tree.Under b a
  passes : c.passes ≤ s.config.maxFinalizePasses ∧
    ∀ run ∈ s.hookRuns b, 1 ≤ run.pass ∧ run.pass ≤ c.passes
  invocations : c.invocations = (s.hookRuns b).length ∧ c.invocations ≤ c.passes * s.tree.size

/-- A cascade that settles has lost no mark, whatever its hooks marked and whatever was dirty. -/
theorem settled_of_finalize (ht : s.tree.Built) (h : s.finalize b = .ok c) : s.Settled b c := by
  have hw := ht.wellFormed
  have hcourse := course_of_finalize h
  obtain ⟨hpasses, hordered⟩ := ordered_of_finalize hw h
  have hclean : ∀ id, s.tree.contains id = true → c.dirty.contains id = false :=
    fun id hid => clean_of_finalize hw h hid
  refine
    { course := hcourse
      clean := fun id hid => hclean id ((hcourse.explained.shape.contains id).symm.trans hid)
      inOrder := ⟨finalized_sublist hw h, (finalized_sublist hw h).nodup hw.nodup_preOrder⟩
      finalized := mem_finalized_of_finalize hw h
      answered := ?_
      ordered := ⟨hordered.sorted, hordered.inPass, hw.pairwise_preOrder⟩
      passes := ⟨hpasses, hordered.passes⟩
      invocations := invocations_of_finalize hw h }
  intro before run later id he hid hm
  refine (hcourse.answered he hid hm).resolve_left fun hd => ?_
  rw [hclean id hid] at hd
  cases hd

/-! ### A page with a note -/

/-- a page that was never sent, with a note below it -/
def noted : Session Unit Unit :=
  match (ofRoot ⟨"Page", .empty, ()⟩ {}).attach ⟨1⟩ ⟨"Note", .empty, ()⟩ with
  | .ok (_, s) => s
  | .error _ => ofRoot ⟨"Page", .empty, ()⟩ {}

/-- every component that was never sent calls its peer and marks the page -/
def announcing : Behaviour Unit Unit Unit where
  hook _ c first :=
    if first then ⟨c.model, [], [⟨"View", "appear", []⟩], [⟨1⟩], []⟩ else .idle c.model
  handle _ c _ := (.idle c.model, .ok ())
  setup _ s _ := (s, .ok ())

theorem settled_noted : ∃ c, noted.finalize announcing = .ok c ∧ c.passes = 2 ∧
    noted.Settled announcing c := by
  have hnote : (Tree.ofRoot ⟨"Page", .empty, ()⟩).attach ⟨1⟩ ⟨"Note", .empty, ()⟩ =
      .ok (⟨2⟩, noted.tree) := rfl
  have ht : noted.tree.Built := .attach (.ofRoot _) hnote
  exact ⟨_, rfl, rfl, settled_of_finalize ht rfl⟩

end Session

end UiSync
