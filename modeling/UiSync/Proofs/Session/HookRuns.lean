import UiSync.Proofs.Session.Acts
import UiSync.Proofs.Session.Calls

/-!
# The hooks that run

`Session.hookRuns b s` lists the hooks that run when the cascade of `s` is carried out, in order,
each with its pass and with what it asked for.  The list is read off the cascade itself: a hook is
noted when the walk of a pass comes to its component and finds it dirty (`Cascade.hookRun?`).

A cascade goes from stage to stage by three kinds of steps (`Cascade.Course`), and ends in one of
three ways (`Cascade.leads_settle`).  What it does to components, calls and counters follows from
the hooks that ran (`Cascade.Explained`); what becomes of marks is treated apart.
-/

namespace UiSync

variable {μ η σ : Type}

structure HookRun (μ σ : Type) where
  /-- the pass it belongs to, counted from 1 -/
  pass : Nat
  component : ComponentId
  reaction : Reaction μ σ

namespace HookRun

/-- the hook asked for another component to be sent again -/
def Marks (run : HookRun μ σ) (id : ComponentId) : Prop :=
  id ∈ run.reaction.marks ∧ id ≠ run.component

def calls (run : HookRun μ σ) : List ClientCall :=
  run.reaction.calls.map (PeerCall.toClient run.component)

end HookRun

/-! ## The list of runs -/

namespace Cascade

def hookRun? (b : Behaviour μ η σ) (c : Cascade μ) (id : ComponentId) :
    Option (HookRun μ σ) :=
  if c.dirty.contains id then
    (c.tree.get? id).map fun component =>
      ⟨c.passes, id, b.hook id component (!component.fields.everSent)⟩
  else none

def passRuns (b : Behaviour μ η σ) (c : Cascade μ) : List ComponentId → List (HookRun μ σ)
  | [] => []
  | id :: ids =>
    (c.hookRun? b id).toList ++
      match c.runHook b id with
      | .ok c => c.passRuns b ids
      | .error _ => []

def settleRuns (b : Behaviour μ η σ) : Nat → Cascade μ → List (HookRun μ σ)
  | 0, _ => []
  | left + 1, c =>
    if c.pending.isEmpty then []
    else
      { c with passes := c.passes + 1 }.passRuns b c.pending ++
        match { c with passes := c.passes + 1 }.runPass b c.pending with
        | .ok c => settleRuns b left c
        | .error _ => []

end Cascade

def Session.hookRuns (b : Behaviour μ η σ) (s : Session μ η) : List (HookRun μ σ) :=
  (Cascade.start s).settleRuns b s.config.maxFinalizePasses

namespace Cascade

variable {b : Behaviour μ η σ} {c d e : Cascade μ} {run : HookRun μ σ}
  {runs runs' : List (HookRun μ σ)}

/-! ## The steps of a cascade -/

/-- `run` is what the hook of a dirty component does now -/
structure Runs (b : Behaviour μ η σ) (c : Cascade μ) (run : HookRun μ σ) : Prop where
  pass : run.pass = c.passes
  dirty : c.dirty.contains run.component = true
  reaction : ∃ component, c.tree.get? run.component = some component ∧
    run.reaction = b.hook run.component component (!component.fields.everSent)

/-- what a hook leaves when its marks do not count -/
def unmarked (c : Cascade μ) (run : HookRun μ σ) : Cascade μ :=
  c.absorb run.component run.reaction

def after (c : Cascade μ) (run : HookRun μ σ) : Cascade μ :=
  run.reaction.marks.foldl (mark run.component) (c.unmarked run)

/-- a cascade on its way from one stage to a later one, and the hooks that run on the way -/
inductive Course (b : Behaviour μ η σ) : Cascade μ → List (HookRun μ σ) → Cascade μ → Prop
  | done (c : Cascade μ) : Course b c [] c
  | pass {c d : Cascade μ} {runs : List (HookRun μ σ)} :
      Course b { c with passes := c.passes + 1 } runs d → Course b c runs d
  | gone {c d : Cascade μ} {runs : List (HookRun μ σ)} {id : ComponentId} :
      c.tree.get? id = none → Course b { c with dirty := c.dirty.clear id } runs d →
        Course b c runs d
  | ran {c d : Cascade μ} {run : HookRun μ σ} {runs : List (HookRun μ σ)} :
      c.Runs b run → Course b (c.after run) runs d → Course b c (run :: runs) d

theorem Course.trans (h : Course b c runs d) (h' : Course b d runs' e) :
    Course b c (runs ++ runs') e := by
  induction h with
  | done c => exact h'
  | pass _ ih => exact .pass (ih h')
  | gone hid _ ih => exact .gone hid (ih h')
  | ran hrun _ ih => exact .ran hrun (ih h')

/-- the ways in which a cascade ends: it settles, it has used up its passes, or a hook asked for a
change of the tree -/
inductive Leads (b : Behaviour μ η σ) (c : Cascade μ) :
    List (HookRun μ σ) → Except (CascadeError × Cascade μ) (Cascade μ) → Prop
  | settled {d : Cascade μ} {runs : List (HookRun μ σ)} : Course b c runs d → Leads b c runs (.ok d)
  | overflow {d : Cascade μ} {runs : List (HookRun μ σ)} (reason : CascadeError) :
      Course b c runs d → Leads b c runs (.error (reason, d.giveUp))
  | refused {d : Cascade μ} {run : HookRun μ σ} {runs : List (HookRun μ σ)}
      (reason : CascadeError) : Course b c runs d → d.Runs b run →
        Leads b c (runs ++ [run]) (.error (reason, (d.unmarked run).giveUp))

theorem Course.leads {outcome : Except (CascadeError × Cascade μ) (Cascade μ)}
    (h : Course b c runs d) (h' : Leads b d runs' outcome) : Leads b c (runs ++ runs') outcome := by
  cases h' with
  | settled hd => exact .settled (h.trans hd)
  | overflow reason hd => exact .overflow reason (h.trans hd)
  | refused reason hd hrun =>
    rw [← List.append_assoc]
    exact .refused reason (h.trans hd) hrun

theorem Leads.ok {outcome : Except (CascadeError × Cascade μ) (Cascade μ)}
    (h : Leads b c runs outcome) (he : outcome = .ok d) : Course b c runs d := by
  cases h with
  | settled hd =>
    cases he
    exact hd
  | overflow => cases he
  | refused => cases he

theorem leads_runPass (b : Behaviour μ η σ) (ids : List ComponentId) (c : Cascade μ) :
    Leads b c (c.passRuns b ids) (c.runPass b ids) := by
  induction ids generalizing c with
  | nil => exact .settled (.done c)
  | cons id ids ih =>
    by_cases hd : c.dirty.contains id = true
    · cases hc : c.tree.get? id with
      | none =>
        have hgone : Course b c [] { c with dirty := c.dirty.clear id } := .gone hc (.done _)
        simp only [passRuns, runPass, hookRun?, runHook, if_pos hd, hc]
        exact hgone.leads (ih _)
      | some component =>
        have hrun : c.Runs b ⟨c.passes, id, b.hook id component (!component.fields.everSent)⟩ :=
          ⟨rfl, hd, component, hc, rfl⟩
        by_cases hr : (b.hook id component (!component.fields.everSent)).requests.isEmpty = true
        · simp only [passRuns, runPass, hookRun?, runHook, if_pos hd, hc, if_pos hr]
          exact (Course.ran hrun (.done _)).leads (ih _)
        · simp only [passRuns, runPass, hookRun?, runHook, if_pos hd, hc, if_neg hr]
          exact .refused (.structureChange id) (.done c) hrun
    · simp only [passRuns, runPass, hookRun?, runHook, if_neg hd]
      exact ih c

theorem leads_settle (b : Behaviour μ η σ) (left : Nat) (c : Cascade μ) :
    Leads b c (settleRuns b left c) (settle b left c) := by
  induction left generalizing c with
  | zero =>
    unfold settle settleRuns
    split
    · exact .settled (.done c)
    · exact .overflow (.overflow c.passes c.pending.length) (.done c)
  | succ left ih =>
    unfold settle settleRuns
    split
    · exact .settled (.done c)
    · have hpass := leads_runPass b c.pending { c with passes := c.passes + 1 }
      have hbegin : Course b c [] { c with passes := c.passes + 1 } := .pass (.done _)
      cases hr : { c with passes := c.passes + 1 }.runPass b c.pending with
      | error e =>
        rw [hr] at hpass
        simp only [List.append_nil]
        exact hbegin.leads hpass
      | ok d =>
        rw [hr] at hpass
        exact (hbegin.trans (hpass.ok rfl)).leads (ih d)

/-! ## What follows from the runs -/

def revised (id : ComponentId) (runs : List (HookRun μ σ)) (component : Component μ) :
    Component μ :=
  runs.foldl (fun k run => if run.component = id then run.reaction.apply k else k) component

theorem revised_singleton_self (run : HookRun μ σ) :
    revised run.component [run] = run.reaction.apply := by
  funext k
  exact if_pos rfl

theorem revised_singleton_of_ne {id : ComponentId} (h : run.component ≠ id) :
    revised id [run] = fun k => k := by
  funext k
  exact if_neg h

/-- `d` is what the hooks that ran made of `c`, but for marks -/
structure Explained (c : Cascade μ) (runs : List (HookRun μ σ)) (d : Cascade μ) : Prop where
  shape : Tree.SameShape c.tree d.tree
  components : ∀ id, d.tree.get? id = (c.tree.get? id).map (revised id runs)
  calls : ∀ id, d.calls.callsOf id = c.calls.callsOf id ++ callsTo id (runs.flatMap HookRun.calls)
  collected : ∀ id, d.collected.contains id = true ↔
    c.collected.contains id = true ∨ ∃ run ∈ runs, run.component = id
  invocations : d.invocations = c.invocations + runs.length

theorem Explained.refl (c : Cascade μ) : Explained c ([] : List (HookRun μ σ)) c := by
  refine ⟨.refl _, fun id => ?_, fun id => (List.append_nil _).symm, fun id => ?_, rfl⟩
  · cases c.tree.get? id <;> rfl
  · simp

theorem Explained.trans (h : Explained c runs d) (h' : Explained d runs' e) :
    Explained c (runs ++ runs') e := by
  refine ⟨h.shape.trans h'.shape, fun id => ?_, fun id => ?_, fun id => ?_, ?_⟩
  · rw [h'.components, h.components, Option.map_map]
    congr 1
    funext k
    exact List.foldl_append.symm
  · rw [h'.calls, h.calls, List.flatMap_append, callsTo_append, List.append_assoc]
  · rw [h'.collected, h.collected, or_assoc]
    simp only [List.mem_append, or_and_right, exists_or]
  · rw [h'.invocations, h.invocations, List.length_append]
    omega

/-- marks change nothing but marks -/
theorem foldl_mark (source : ComponentId) (targets : List ComponentId) (c : Cascade μ) :
    targets.foldl (mark source) c =
      { c with dirty := (targets.foldl (mark source) c).dirty } := by
  induction targets generalizing c with
  | nil => rfl
  | cons target targets ih =>
    have hmark : c.mark source target = { c with dirty := (c.mark source target).dirty } := by
      unfold mark
      split <;> rfl
    rw [List.foldl_cons, ih, hmark]

theorem explained_unmarked (c : Cascade μ) (run : HookRun μ σ) :
    Explained c [run] (c.unmarked run) := by
  refine ⟨Tree.sameShape_update .., fun id => ?_, fun id => ?_, fun id => ?_, rfl⟩
  · show (c.tree.update run.component run.reaction.apply).get? id = _
    by_cases hid : id = run.component
    · subst hid
      rw [Tree.get?_component_update_self, revised_singleton_self]
    · rw [Tree.get?_component_update_of_ne hid, revised_singleton_of_ne fun he => hid he.symm]
      exact Option.map_id'.symm
  · rw [List.flatMap_cons, List.flatMap_nil, List.append_nil]
    exact CallQueue.callsOf_pushCalls run.component run.reaction.calls c.calls id
  · show (c.collected.mark run.component).contains id = true ↔ _
    rw [DirtySet.contains_mark, or_comm]
    simp only [List.mem_singleton, exists_eq_left, eq_comm (a := id)]

theorem explained_after (c : Cascade μ) (run : HookRun μ σ) : Explained c [run] (c.after run) := by
  have h := explained_unmarked c run
  rw [after, foldl_mark]
  exact ⟨h.shape, h.components, h.calls, h.collected, h.invocations⟩

theorem Course.explained (h : Course b c runs d) : Explained c runs d := by
  induction h with
  | done c => exact .refl c
  | pass _ ih => exact ⟨ih.shape, ih.components, ih.calls, ih.collected, ih.invocations⟩
  | gone _ _ ih => exact ⟨ih.shape, ih.components, ih.calls, ih.collected, ih.invocations⟩
  | @ran c d run runs _ _ ih => exact (explained_after c run).trans ih

/-- a cascade that was given up kept what its hooks did, and every component whose hook ran is
dirty -/
theorem Leads.error {outcome : Except (CascadeError × Cascade μ) (Cascade μ)}
    {reason : CascadeError} (h : Leads b c runs outcome) (he : outcome = .error (reason, e)) :
    Explained c runs e ∧ ∀ id, e.collected.contains id = true → e.dirty.contains id = true := by
  have hdirty : ∀ (d : Cascade μ) id, d.giveUp.collected.contains id = true →
      d.giveUp.dirty.contains id = true := fun d id hid =>
    (DirtySet.contains_markAll _ _ _).2 (.inl (Dict.mem_keys.2 (Dict.contains_iff.1 hid)))
  cases h with
  | settled => cases he
  | @overflow d _ _ hd =>
    cases he
    have h := hd.explained
    exact ⟨⟨h.shape, h.components, h.calls, h.collected, h.invocations⟩, hdirty d⟩
  | @refused d run runs _ hd _ =>
    cases he
    have h := hd.explained.trans (explained_unmarked d run)
    exact ⟨⟨h.shape, h.components, h.calls, h.collected, h.invocations⟩, hdirty (d.unmarked run)⟩

end Cascade

end UiSync
