import UiSync.Proofs.Session.FirstSend
import UiSync.Proofs.Session.Requests

/-!
# What responses keep of components

`Tree.Each P` says that every component of a tree has the property `P`.  If hooks keep it for their
own component and sending does not touch it, then responses keep it, also those that could not be
written (`Tree.Each.respond`).

`Session.Current` says that a component that is not dirty was sent as it is.  Whatever marks what it
edits keeps it, and so do responses; once one was written, every component was sent as it is
(`Current.upToDate`).  A component that no hook marks has its hook run once if it is dirty, and not
at all if it is not (`Cascade.Course.alone`).
-/

namespace UiSync

open FieldBag

variable {μ η σ : Type}

/-! ## A property of every component -/

namespace Tree

def Each (P : ComponentId → Component μ → Prop) (t : Tree μ) : Prop :=
  ∀ id c, t.get? id = some c → P id c

namespace Each

variable {P : ComponentId → Component μ → Prop} {t t' : Tree μ} {id : ComponentId}

theorem update (h : t.Each P) {f : Component μ → Component μ}
    (hf : ∀ c, t.get? id = some c → P id (f c)) : (t.update id f).Each P := by
  intro x d hd
  by_cases hx : x = id
  · subst hx
    rw [get?_component_update_self, Option.map_eq_some_iff] at hd
    obtain ⟨c, hc, rfl⟩ := hd
    exact hf c hc
  · rw [get?_component_update_of_ne hx] at hd
    exact h x d hd

theorem updateAll (h : t.Each P) {f : Component μ → Component μ}
    (hf : ∀ id c, P id c → P id (f c)) : (t.updateAll f).Each P := by
  intro x d hd
  rw [get?_component_updateAll, Option.map_eq_some_iff] at hd
  obtain ⟨c, hc, rfl⟩ := hd
  exact hf x c (h x c hc)

theorem attach (h : t.Each P) (hw : t.WellFormed) {p : ComponentId} {c : Component μ}
    (ha : t.attach p c = .ok (id, t')) (hc : P id c) : t'.Each P := by
  obtain ⟨n, hn⟩ := hw.attached ha
  intro x d hd
  obtain ⟨m, hm, rfl⟩ := get?_eq_some_iff.1 hd
  rcases hn.cases hm with ⟨rfl, rfl⟩ | ⟨m₀, hm₀, hcomp, -⟩
  · exact hc
  · rw [hcomp]
    exact h x _ (get?_eq_some_iff.2 ⟨m₀, hm₀, rfl⟩)

theorem detach (h : t.Each P) (hw : t.WellFormed) {removed : List ComponentId}
    (hd : t.detach id = .ok (removed, t')) : t'.Each P :=
  fun x c hc => h x c ((hw.detached hd).get? hc)

theorem commitFields (h : t.Each P)
    (hs : ∀ id c, P id c → P id { c with fields := c.fields.commit }) (ids : List ComponentId) :
    (Session.commitFields t ids).Each P := by
  induction ids generalizing t with
  | nil => exact h
  | cons id ids ih => exact ih (h.update fun c hc => hs id c (h id c hc))

end Each

end Tree

/-- hooks keep what `P` says of their component -/
def Behaviour.Upholds (b : Behaviour μ η σ) (P : ComponentId → Component μ → Prop) : Prop :=
  ∀ id c first, P id c → P id ((b.hook id c first).apply c)

namespace Cascade

variable {b : Behaviour μ η σ} {c d : Cascade μ} {run : HookRun μ σ} {runs : List (HookRun μ σ)}
  {P : ComponentId → Component μ → Prop} {id : ComponentId}

theorem tree_after (c : Cascade μ) (run : HookRun μ σ) :
    (c.after run).tree = (c.unmarked run).tree := by
  rw [after, foldl_mark]

theorem Runs.each (h : c.Runs b run) (hb : b.Upholds P) (hc : c.tree.Each P) :
    (c.unmarked run).tree.Each P := by
  obtain ⟨component, hget, hreaction⟩ := h.reaction
  refine hc.update fun k hk => ?_
  rw [hget] at hk
  obtain rfl := Option.some.inj hk
  rw [hreaction]
  exact hb _ _ _ (hc _ _ hget)

theorem Course.each (h : Course b c runs d) (hb : b.Upholds P) (hc : c.tree.Each P) :
    d.tree.Each P := by
  induction h with
  | done c => exact hc
  | pass _ ih => exact ih hc
  | gone _ _ ih => exact ih hc
  | @ran c d run runs hrun _ ih =>
    refine ih ?_
    rw [tree_after]
    exact hrun.each hb hc

theorem Leads.each {outcome : Except (CascadeError × Cascade μ) (Cascade μ)}
    (h : Leads b c runs outcome) (hb : b.Upholds P) (hc : c.tree.Each P) :
    (reached outcome).tree.Each P := by
  cases h with
  | settled hd => exact hd.each hb hc
  | overflow _ hd => exact hd.each hb hc
  | refused _ hd hrun => exact hrun.each hb (hd.each hb hc)

/-! ## Components that no hook marks -/

/-- hooks of other components leave a component alone -/
theorem revised_of_forall_ne (h : ∀ run ∈ runs, run.component ≠ id) (k : Component μ) :
    revised id runs k = k := by
  induction runs generalizing k with
  | nil => rfl
  | cons run runs ih =>
    show revised id runs (if run.component = id then run.reaction.apply k else k) = k
    rw [if_neg (h run List.mem_cons_self)]
    exact ih (fun r hr => h r (List.mem_cons_of_mem _ hr)) k

def runsOf (id : ComponentId) (runs : List (HookRun μ σ)) : List (HookRun μ σ) :=
  runs.filter fun run => run.component = id

theorem runsOf_cons_self (h : run.component = id) (runs : List (HookRun μ σ)) :
    runsOf id (run :: runs) = run :: runsOf id runs :=
  List.filter_cons_of_pos (decide_eq_true h)

theorem runsOf_cons_of_ne (h : run.component ≠ id) (runs : List (HookRun μ σ)) :
    runsOf id (run :: runs) = runsOf id runs :=
  List.filter_cons_of_neg (by rwa [decide_eq_true_iff])

theorem revised_runsOf (id : ComponentId) (runs : List (HookRun μ σ)) (k : Component μ) :
    revised id runs k = (runsOf id runs).foldl (fun k run => run.reaction.apply k) k := by
  induction runs generalizing k with
  | nil => rfl
  | cons run runs ih =>
    show revised id runs (if run.component = id then run.reaction.apply k else k) = _
    by_cases hid : run.component = id
    · rw [if_pos hid, ih, runsOf_cons_self hid]
      rfl
    · rw [if_neg hid, ih, runsOf_cons_of_ne hid]

theorem Course.runsOf_of_clean (h : Course b c runs d) (hm : ∀ run ∈ runs, ¬ run.Marks id)
    (hclean : c.dirty.contains id = false) : runsOf id runs = [] := by
  refine List.filter_eq_nil_iff.2 fun run hr hid => ?_
  rcases h.caused (.inr ⟨run, hr, of_decide_eq_true hid⟩) with hd | ⟨-, run', hr', hm'⟩
  · rw [hclean] at hd
    cases hd
  · exact hm run' hr' hm'

/-- a component that no hook marks has its hook run on what it was like before -/
theorem Course.alone (h : Course b c runs d) (hm : ∀ run ∈ runs, ¬ run.Marks id)
    {k : Component μ} (hk : c.tree.get? id = some k) (hd : c.dirty.contains id = true)
    (hclean : d.dirty.contains id = false) : ∃ run, runsOf id runs = [run] ∧
      run.reaction = b.hook id k (!k.fields.everSent) := by
  induction h with
  | done c =>
    rw [hd] at hclean
    cases hclean
  | pass _ ih => exact ih hm hk hd hclean
  | @gone c d runs x hx _ ih =>
    have hne : id ≠ x := by
      rintro rfl
      rw [hk] at hx
      cases hx
    exact ih hm hk ((DirtySet.contains_clear_of_ne hne _).trans hd) hclean
  | @ran c d run runs hrun hrest ih =>
    have hm' : ∀ r ∈ runs, ¬ r.Marks id := fun r hr => hm r (List.mem_cons_of_mem _ hr)
    by_cases hid : run.component = id
    · -- the run takes the mark away, and no later hook places it again
      have hcleared : (c.after run).dirty.contains id = false := by
        refine Bool.eq_false_iff.2 fun hdirty => ?_
        rcases (contains_after c run id).1 hdirty with ⟨hmark, -⟩ | ⟨hne, -⟩
        · exact hm run List.mem_cons_self hmark
        · exact hne hid.symm
      obtain ⟨k', hk', hreaction⟩ := hrun.reaction
      rw [hid] at hk' hreaction
      rw [hk] at hk'
      obtain rfl := Option.some.inj hk'
      refine ⟨run, ?_, hreaction⟩
      rw [runsOf_cons_self hid, hrest.runsOf_of_clean hm' hcleared]
    · have hne : id ≠ run.component := fun he => hid he.symm
      have hget : (c.after run).tree.get? id = some k := by
        rw [tree_after]
        exact (Tree.get?_component_update_of_ne hne c.tree _).trans hk
      obtain ⟨run', hruns, hreaction⟩ :=
        ih hm' hget ((contains_after c run id).2 (.inr ⟨hne, hd⟩)) hclean
      exact ⟨run', (runsOf_cons_of_ne hid runs).trans hruns, hreaction⟩

end Cascade

/-! ## Handlers and responses -/

theorem Tree.Each.reacted {P : ComponentId → Component μ → Prop} {s s' : Session μ η}
    {call : Invocation} {c : Component μ} {r : Reaction μ σ} (h : s.tree.Each P)
    (hr : s.Reacted call c r s') (hown : P call.component (r.apply c)) : s'.tree.Each P := by
  intro x d hd
  by_cases hx : x = call.component
  · subst hx
    rw [hr.own] at hd
    exact Option.some.inj hd ▸ hown
  · rw [hr.others x hx] at hd
    exact h x d hd

theorem Session.Reacted.edited {s s' : Session μ η} {call : Invocation} {c : Component μ}
    {r : Reaction μ σ} (hr : s.Reacted call c r s') (hc : s.tree.get? call.component = some c) :
    Tree.Edited s.tree s'.tree := by
  refine ⟨hr.shape, fun x d hd => ?_⟩
  by_cases hx : x = call.component
  · subst hx
    rw [hc] at hd
    obtain rfl := Option.some.inj hd
    exact ⟨_, hr.own, Component.edited_revise r.edits r.model c⟩
  · rw [← hr.others x hx] at hd
    exact ⟨d, hd, .refl d⟩

/-- a hook that runs finds its component as all hooks keep it -/
theorem Session.exists_hook {b : Behaviour μ η σ} {P : ComponentId → Component μ → Prop}
    {s : Session μ η} {run : HookRun μ σ} (h : s.tree.Each P) (hb : b.Upholds P)
    (hr : run ∈ s.hookRuns b) : ∃ k, P run.component k ∧
      run.reaction = b.hook run.component k (!k.fields.everSent) := by
  obtain ⟨before, after, he⟩ := List.append_of_mem hr
  obtain ⟨d, hcourse, hrun⟩ := (leads_finalize b s).split he
  obtain ⟨k, hk, hreaction⟩ := hrun.reaction
  exact ⟨k, hcourse.each hb h _ k hk, hreaction⟩

theorem Tree.Each.respond {b : Behaviour μ η σ} {P : ComponentId → Component μ → Prop}
    {s : Session μ η} (h : s.tree.Each P) (hb : b.Upholds P)
    (hs : ∀ id c, P id c → P id { c with fields := c.fields.commit }) :
    (s.respond b).1.tree.Each P := by
  have hreached : (Cascade.reached (s.finalize b)).tree.Each P :=
    (Session.leads_finalize b s).each hb h
  unfold Session.respond
  split
  · next e c hc =>
    rw [hc] at hreached
    exact hreached
  · next c hc =>
    rw [hc] at hreached
    dsimp only
    split
    · exact hreached.commitFields hs c.finalized
    · exact hreached

/-- a component that does not react is as it was -/
theorem Session.absorb_idle {s : Session μ η} {id : ComponentId} {c : Component μ}
    (hc : s.tree.get? id = some c) :
    s.absorb id (.idle c.model : Reaction μ σ) = s := by
  have htree : s.tree.update id (Reaction.idle c.model : Reaction μ σ).apply = s.tree := by
    obtain ⟨n, hn, rfl⟩ := Tree.get?_eq_some_iff.1 hc
    have hnodes : (s.tree.update id (Reaction.idle n.component.model : Reaction μ σ).apply).nodes =
        s.tree.nodes := by
      refine Dict.ext_get? fun x => ?_
      by_cases hx : x = id
      · rw [hx, Tree.get?_update_self, hn]
        rfl
      · exact Tree.get?_update_of_ne hx s.tree _
    exact congrArg (fun nodes => { s.tree with nodes := nodes }) hnodes
  show { s with tree := s.tree.update id (Reaction.idle c.model : Reaction μ σ).apply } = s
  rw [htree]

/-! ## What is clean was sent as it is -/

structure FieldBag.UpToDate (b : FieldBag) : Prop where
  everSent : b.everSent = true
  same : SameFields b.sent b.fields

theorem FieldBag.upToDate_commit (b : FieldBag) : b.commit.UpToDate := ⟨rfl, .refl _⟩

/-- a component that is not dirty was sent as it is -/
structure Session.Current (s : Session μ η) : Prop where
  wellFormed : s.tree.WellFormed
  clean : ∀ id c, s.tree.get? id = some c → s.isDirty id = false → c.fields.UpToDate

namespace Session.Current

variable {b : Behaviour μ η σ} {s s' : Session μ η} {id : ComponentId}

/-- nothing but marks and what stands beside the tree has changed, and no mark was taken away -/
theorem congr (h : s.Current) (ht : s'.tree = s.tree)
    (hd : ∀ id, s.isDirty id = true → s'.isDirty id = true) : s'.Current := by
  refine ⟨ht ▸ h.wellFormed, fun id c hc hclean => h.clean id c (ht ▸ hc) ?_⟩
  refine Bool.eq_false_iff.2 fun hdirty => ?_
  rw [hd id hdirty] at hclean
  cases hclean

theorem attach (h : s.Current) {parent : ComponentId} {c : Component μ}
    (ha : s.attach parent c = .ok (id, s')) : s'.Current := by
  obtain ⟨t', ht, rfl⟩ := attach_ok ha
  obtain ⟨n, hn⟩ := h.wellFormed.attached ht
  refine ⟨h.wellFormed.attach ht, fun x d hd hclean => ?_⟩
  obtain ⟨hx, hold⟩ : x ≠ id ∧ s.isDirty x = false := by
    have hmarked := DirtySet.contains_mark s.dirty id x
    change (s.dirty.mark id).contains x = false at hclean
    rw [hclean] at hmarked
    simpa [isDirty] using hmarked
  obtain ⟨m, hm, rfl⟩ := Tree.get?_eq_some_iff.1 hd
  rcases hn.cases hm with ⟨he, -⟩ | ⟨m₀, hm₀, hcomp, -⟩
  · exact absurd he hx
  · rw [hcomp]
    exact h.clean x _ (Tree.get?_eq_some_iff.2 ⟨m₀, hm₀, rfl⟩) hold

theorem detach (h : s.Current) (hd : s.detach id = .ok s') : s'.Current := by
  obtain ⟨removed, t', ht, rfl⟩ := detach_ok hd
  have hdet := h.wellFormed.detached ht
  refine ⟨hdet.wellFormed h.wellFormed, fun x c hc hclean => ?_⟩
  obtain ⟨-, hkept⟩ := hdet.contains (Tree.contains_iff_get?.2 ⟨_, hc⟩)
  refine h.clean x c (hdet.get? hc) ?_
  rw [← hclean]
  exact (DirtySet.contains_clearAll_of_notMem hkept s.dirty).symm

/-- components changed in place, but for their fields -/
theorem edited (h : s.Current) (hshape : Tree.SameShape s.tree s'.tree)
    (hd : ∀ id, s.isDirty id = true → s'.isDirty id = true)
    (hc : ∀ id d, s'.tree.get? id = some d → s'.isDirty id = false →
      ∃ c, s.tree.get? id = some c ∧ d.fields = c.fields) : s'.Current := by
  refine ⟨hshape.wellFormed h.wellFormed, fun id d hget hclean => ?_⟩
  obtain ⟨c, hold, hfields⟩ := hc id d hget hclean
  rw [hfields]
  refine h.clean id c hold (Bool.eq_false_iff.2 fun hdirty => ?_)
  rw [hd id hdirty] at hclean
  cases hclean

/-- a handler that marks its component when it edits it -/
theorem reacted (h : s.Current) {call : Invocation} {c : Component μ} {r : Reaction μ σ}
    (hr : s.Reacted call c r s') (hc : s.tree.get? call.component = some c)
    (hmarks : r.edits = [] ∨ call.component ∈ r.marks) : s'.Current := by
  refine h.edited hr.shape (fun x hx => (hr.marks x).2 (.inr hx)) fun x d hd hclean => ?_
  by_cases hx : x = call.component
  · subst hx
    rw [hr.own] at hd
    obtain rfl := Option.some.inj hd
    rcases hmarks with hedits | hmark
    · refine ⟨c, hc, ?_⟩
      show r.edits.foldl FieldBag.edit c.fields = c.fields
      rw [hedits]
      rfl
    · rw [(hr.marks _).2 (.inl ⟨hmark, Tree.contains_iff_get?.2 ⟨_, hc⟩⟩)] at hclean
      cases hclean
  · rw [hr.others x hx] at hd
    exact ⟨d, hd, rfl⟩

/-- after a request for everything, everything is dirty -/
theorem requestResync (h : s.Current) : s.requestResync.Current := by
  have hshape := Tree.sameShape_updateAll s.tree fun c => { c with fields := c.fields.forgetSent }
  refine ⟨hshape.wellFormed h.wellFormed, fun id c hc hclean => ?_⟩
  have hdue := (Due.requestResync h.wellFormed).dirty id (Tree.contains_iff_get?.2 ⟨_, hc⟩)
  cases hdue.symm.trans hclean

theorem greet (h : s.Current) (seen : Option SequenceNumber) : (s.greet seen).Current := by
  rcases greet_cases s seen with he | he
  · rw [he]
    exact h
  · rw [he]
    exact h.requestResync

/-! ### Responses -/

/-- once a response was written, every component was sent as it is -/
theorem sent (h : s.Current) {response : Response} (hr : s.respond b = (s', .ok response))
    {c : Component μ} (hc : s'.tree.get? id = some c) : c.fields.UpToDate := by
  obtain ⟨k, hk, rfl, -⟩ := respond_ok hr
  have hshape := (edited_of_finalize hk).shape
  have hw := hshape.wellFormed h.wellFormed
  have hexpl := (course_of_finalize hk).explained
  change (commitFields k.tree k.finalized).get? id = some c at hc
  by_cases hid : id ∈ k.finalized
  · rw [get?_commitFields_of_mem (Cascade.nodup_finalized hw) hid, Option.map_eq_some_iff] at hc
    obtain ⟨d, -, rfl⟩ := hc
    exact upToDate_commit d.fields
  · -- its hook did not run, so it was clean, and is as it was
    rw [get?_commitFields_of_notMem hid] at hc
    have hkid : k.tree.contains id = true := Tree.contains_iff_get?.2 ⟨_, hc⟩
    have hsid : s.tree.contains id = true := (hshape.contains id).symm.trans hkid
    have hclean : s.isDirty id = false := by
      refine Bool.eq_false_iff.2 fun hd => hid ?_
      exact Cascade.mem_finalized_of_dirty hk h.wellFormed hsid hd
    have hquiet : ∀ run ∈ s.hookRuns b, run.component ≠ id := by
      rintro run hrun rfl
      exact hid ((Cascade.mem_finalized_iff hw _).2
        ⟨hkid, (hexpl.collected _).2 (.inr ⟨run, hrun, rfl⟩)⟩)
    rw [hexpl.components id, Option.map_eq_some_iff] at hc
    obtain ⟨d, hd, rfl⟩ := hc
    rw [Cascade.revised_of_forall_ne hquiet]
    exact h.clean id d hd hclean

theorem respond (h : s.Current) {response : Response} (hr : s.respond b = (s', .ok response)) :
    s'.Current := by
  refine ⟨?_, fun id c hc _ => h.sent hr hc⟩
  obtain ⟨k, hk, rfl, -⟩ := respond_ok hr
  have hw := (edited_of_finalize hk).shape.wellFormed h.wellFormed
  exact (sameShape_commitFields k.finalized k.tree).wellFormed hw

theorem upToDate (h : s.Current) {response : Response} (hr : s.respond b = (s', .ok response)) :
    s'.tree.UpToDate := fun _ _ hc => (h.sent hr hc).same.visible

/-- a component whose hook ran for a response that could not be written is dirty again -/
theorem unanswered (h : s.Current) {e : ResponseError} (hr : s.respond b = (s', .error e)) :
    s'.Current := by
  obtain ⟨k, hab⟩ := abandoned_of_respond h.wellFormed hr
  have hexpl := hab.explained
  have hadv := Cascade.advances_settle b s.config.maxFinalizePasses (Cascade.start s)
  rw [← finalize, ← hab.reached] at hadv
  have htree : s'.tree = k.tree := by rw [hab.state]
  have hdirty : ∀ id, s.tree.contains id = true →
      s.isDirty id = true ∨ k.collected.contains id = true → s'.isDirty id = true := by
    intro id hid hd
    have hkid : k.tree.contains id = true := (hexpl.shape.contains id).trans hid
    rcases hd with hd | hc
    · exact (hab.dirty id).2 ((hadv.seen id hid (.inl hd)).imp_right fun hc => ⟨hkid, hc⟩)
    · exact (hab.dirty id).2 (.inr ⟨hkid, hc⟩)
  refine ⟨htree ▸ hexpl.shape.wellFormed h.wellFormed, fun id c hc hclean => ?_⟩
  rw [htree, hexpl.components id, Option.map_eq_some_iff] at hc
  obtain ⟨d, hd, rfl⟩ := hc
  have hid : s.tree.contains id = true := Tree.contains_iff_get?.2 ⟨_, hd⟩
  have hold : ¬ (s.isDirty id = true ∨ k.collected.contains id = true) := by
    intro hseen
    rw [hdirty id hid hseen] at hclean
    cases hclean
  rw [not_or] at hold
  have hquiet : ∀ run ∈ s.hookRuns b, run.component ≠ id := fun run hrun he =>
    hold.2 ((hexpl.collected id).2 (.inr ⟨run, hrun, he⟩))
  rw [Cascade.revised_of_forall_ne hquiet]
  exact h.clean id d hd (Bool.eq_false_iff.2 hold.1)

end Session.Current

end UiSync
