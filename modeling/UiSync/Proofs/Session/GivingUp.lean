import UiSync.Proofs.Session.Chronicle

/-!
# Responses that are given up

A response is given up at three places: the cascade runs out of passes, a hook asks for a change of
the tree, or the message is too large.  Whichever it is, nothing that was committed or waits for the
next response is lost (`response_given_up`): hooks have edited fields and models, and all else is as
before, but for the marks of components that have to be sent again.
-/

namespace UiSync

variable {μ η σ : Type}

namespace Component

/-- what a component is to the client: its kind, and what of its fields was sent -/
def committed (c : Component μ) : String × Fields × Nat × Bool :=
  (c.kind, c.fields.sent, c.fields.version, c.fields.everSent)

theorem committed_apply (r : Reaction μ σ) (c : Component μ) :
    (r.apply c).committed = c.committed := by
  have hsent : (r.apply c).fields.sent = c.fields.sent := FieldBag.sent_edits r.edits c.fields
  have hversion : (r.apply c).fields.version = c.fields.version :=
    FieldBag.version_edits r.edits c.fields
  have hever : (r.apply c).fields.everSent = c.fields.everSent :=
    FieldBag.everSent_edits r.edits c.fields
  rw [committed, hsent, hversion, hever]
  rfl

theorem committed_revised (id : ComponentId) (runs : List (HookRun μ σ)) (c : Component μ) :
    (Cascade.revised id runs c).committed = c.committed := by
  induction runs generalizing c with
  | nil => rfl
  | cons run runs ih =>
    show (Cascade.revised id runs (if run.component = id then run.reaction.apply c else c)).committed
      = _
    rw [ih]
    split
    · exact committed_apply run.reaction c
    · rfl

theorem version_revised (id : ComponentId) (runs : List (HookRun μ σ)) (c : Component μ) :
    (Cascade.revised id runs c).fields.version = c.fields.version :=
  congrArg (fun k : String × Fields × Nat × Bool => k.2.2.1) (committed_revised id runs c)

theorem everSent_revised (id : ComponentId) (runs : List (HookRun μ σ)) (c : Component μ) :
    (Cascade.revised id runs c).fields.everSent = c.fields.everSent :=
  congrArg (fun k : String × Fields × Nat × Bool => k.2.2.2) (committed_revised id runs c)

end Component

namespace Session

variable {b : Behaviour μ η σ} {s s' : Session μ η} {c : Cascade μ}

/-- `s'` has committed nothing that `s` had not, and lost nothing that waits in `s` -/
structure Uncommitted (s s' : Session μ η) : Prop where
  shape : Tree.SameShape s.tree s'.tree
  components : ∀ id, (s'.tree.get? id).map Component.committed =
    (s.tree.get? id).map Component.committed
  calls : ∀ id, s'.calls.callsOf id = s.calls.callsOf id
  config : s'.config = s.config
  registry : s'.registry = s.registry
  guard : s'.guard = s.guard
  hierarchy : s'.hierarchy = s.hierarchy
  lastResponse : s'.lastResponse = s.lastResponse
  resyncPending : s'.resyncPending = s.resyncPending

namespace Abandoned

theorem uncommitted (h : s.Abandoned b s' c) : s.Uncommitted s' := by
  have hcalls := h.callsOf
  have hget : ∀ id, (c.tree.get? id).map Component.committed =
      (s.tree.get? id).map Component.committed := by
    intro id
    rw [h.explained.components id, Option.map_map]
    congr 1
    funext k
    exact Component.committed_revised id (s.hookRuns b) k
  rw [h.state] at hcalls ⊢
  exact ⟨h.explained.shape, hget, hcalls, rfl, rfl, rfl, rfl, rfl, rfl⟩

theorem dirty_of_dirty (h : s.Abandoned b s' c) (ht : s.Tidy) {id : ComponentId}
    (hd : s.isDirty id = true) : s'.isDirty id = true := by
  have hadv : Cascade.Advances (Cascade.start s) c := by
    rw [h.reached]
    exact Cascade.advances_settle b s.config.maxFinalizePasses (Cascade.start s)
  have hid : s.tree.contains id = true := ht.dirty id hd
  have hid' : c.tree.contains id = true := (hadv.edited.shape.contains id).trans hid
  refine (h.dirty id).2 ((hadv.seen id hid (.inl hd)).imp_right fun hc => ⟨hid', hc⟩)

theorem dirty_of_ran (h : s.Abandoned b s' c) (ht : s.Tidy) {run : HookRun μ σ}
    (hr : run ∈ s.hookRuns b) : s'.isDirty run.component = true := by
  have hknown : c.Known := by
    rw [h.reached]
    exact (leads_finalize b s).known ht.known
  have hc : c.collected.contains run.component = true :=
    (h.explained.collected run.component).2 (.inr ⟨run, hr, rfl⟩)
  exact (h.dirty run.component).2 (.inr ⟨hknown _ (.inr hc), hc⟩)

end Abandoned

/-- A response that is given up changes nothing that was committed or waits, and everything that
was dirty or had its hook run is dirty afterwards. -/
theorem response_given_up {root : Component μ} {config : Config} {e : ResponseError}
    (h : Evolves σ (ofRoot root config) s) (hr : s.respond b = (s', .error e)) :
    s.Uncommitted s' ∧
      (∀ id, s.isDirty id = true → s'.isDirty id = true) ∧
      ∀ run ∈ s.hookRuns b, s'.isDirty run.component = true := by
  obtain ⟨c, hab⟩ := abandoned_of_respond h.tables.wellFormed hr
  have ht : s.Tidy := h.tables.tidy
  exact ⟨hab.uncommitted, fun id hd => hab.dirty_of_dirty ht hd,
    fun run hrun => hab.dirty_of_ran ht hrun⟩

/-! ### A note that asks to be taken away -/

/-- every component calls its peer, and the note asks to be detached -/
def leaving : Behaviour Unit Unit Unit where
  hook id c _ :=
    ⟨c.model, [], [⟨"View", "leave", []⟩], [], if id = ⟨2⟩ then [.detach id] else []⟩
  handle _ c _ := (.idle c.model, .ok ())
  setup _ s _ := (s, .ok ())

theorem response_given_up_awaited : ∃ s', awaited.respond leaving =
      (s', .error (.cascade (.structureChange ⟨2⟩))) ∧
    s'.calls.callsOf ⟨2⟩ = [⟨⟨2⟩, "View", "open", []⟩] ∧
    (awaited.hookRuns leaving).map HookRun.component = [⟨1⟩, ⟨2⟩] ∧
    s'.isDirty ⟨1⟩ = true ∧ s'.isDirty ⟨2⟩ = true := by
  have hr : awaited.respond leaving = ((awaited.respond leaving).1,
      .error (.cascade (.structureChange ⟨2⟩))) := rfl
  have hnote : (ofRoot ⟨"Page", .empty, ()⟩ {} : Session Unit Unit).attach ⟨1⟩
      ⟨"Note", .empty, ()⟩ = .ok (⟨2⟩, noted) := rfl
  have hopen : noted.call ⟨2⟩ "View" "open" [] = .ok awaited := rfl
  have h : Evolves Unit (ofRoot ⟨"Page", .empty, ()⟩ {}) awaited :=
    (Evolves.attach hnote).trans (.call hopen)
  obtain ⟨hun, hdirty, -⟩ := response_given_up h hr
  exact ⟨_, hr, (hun.calls ⟨2⟩).trans rfl, rfl, hdirty ⟨1⟩ rfl, hdirty ⟨2⟩ rfl⟩

end Session

end UiSync
