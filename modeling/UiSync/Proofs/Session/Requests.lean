import UiSync.Proofs.Session.Calls
import UiSync.Proofs.Session.Marks
import UiSync.Proofs.Session.Delivering

/-!
# Changes of the tree that handlers ask for

An invocation that reaches its handler acts in stages.  First come the fields, the calls and the
marks of the component (`Session.Reacted`), whatever the handler answers.  Only when it succeeded
are its requests carried out, one after the other: `CarriedOut` says what a list of requests does,
`Fails` what the first one that fails leaves behind, and `Resolved` puts the two together.
`Session.resolved_iff` compares them with the program, and `Session.deliver_requests` has all the
stages of a delivery.
-/

namespace UiSync

variable {μ η σ : Type}

/-- what is done with the component once it is attached does not change the tree -/
def TreeRequest.Silent (b : Behaviour μ η σ) : TreeRequest μ σ → Prop
  | .attach _ _ (some x) => ∀ s id, (b.setup x s id).1.hierarchy = s.hierarchy
  | .attach _ _ none => True
  | .detach _ => True

namespace Session

variable {b : Behaviour μ η σ} {s s₁ s' : Session μ η}

/-! ## The reaction of a handler -/

theorem foldl_mark (ids : List ComponentId) (s : Session μ η) :
    ids.foldl Session.mark s = { s with dirty := (ids.foldl Session.mark s).dirty } := by
  induction ids generalizing s with
  | nil => rfl
  | cons id ids ih =>
    rw [List.foldl_cons, ih]
    rcases mark_cases s id with he | he <;> rw [he]

theorem isDirty_mark (s : Session μ η) (id x : ComponentId) :
    (s.mark id).isDirty x = true ↔ (x = id ∧ s.tree.contains x = true) ∨ s.isDirty x = true := by
  unfold Session.mark
  by_cases hid : s.tree.contains id = true
  · rw [if_pos hid]
    refine (DirtySet.contains_mark s.dirty id x).trans (or_congr_left ?_)
    exact ⟨fun hx => ⟨hx, hx ▸ hid⟩, And.left⟩
  · rw [if_neg hid]
    refine ⟨.inr, fun h => h.resolve_left ?_⟩
    rintro ⟨rfl, hx⟩
    exact hid hx

theorem isDirty_foldl_mark (ids : List ComponentId) (s : Session μ η) (x : ComponentId) :
    (ids.foldl Session.mark s).isDirty x = true ↔
      (x ∈ ids ∧ s.tree.contains x = true) ∨ s.isDirty x = true := by
  induction ids generalizing s with
  | nil => simp
  | cons id ids ih =>
    have htree : (s.mark id).tree = s.tree := by
      rcases mark_cases s id with he | he <;> rw [he]
    rw [List.foldl_cons, ih, isDirty_mark, htree, List.mem_cons]
    tauto

structure Accepts (s : Session μ η) (call : Invocation) (handler : η) (c : Component μ) :
    Prop where
  fresh : s.guard.check call.sequence = .ok ()
  handler : s.registry.handler? call.component call.interface = some handler
  component : s.tree.get? call.component = some c

/-- `s'` is `s` after an invocation to which its component reacted with `r`, before any change of
the tree -/
structure Reacted (s : Session μ η) (call : Invocation) (c : Component μ) (r : Reaction μ σ)
    (s' : Session μ η) : Prop where
  shape : Tree.SameShape s.tree s'.tree
  own : s'.tree.get? call.component = some (r.apply c)
  others : ∀ x, x ≠ call.component → s'.tree.get? x = s.tree.get? x
  /-- a mark on what is not attached is ignored -/
  marks : ∀ x, s'.isDirty x = true ↔
    (x ∈ r.marks ∧ s.tree.contains x = true) ∨ s.isDirty x = true
  calls : ∀ x, s'.calls.callsOf x =
    s.calls.callsOf x ++ callsTo x (r.calls.map (PeerCall.toClient call.component))
  guard : s'.guard = s.guard.record call.sequence
  registry : s'.registry = s.registry
  hierarchy : s'.hierarchy = s.hierarchy
  settings : s'.config = s.config ∧ s'.lastResponse = s.lastResponse ∧
    s'.resyncPending = s.resyncPending

theorem isDirty_absorb (s : Session μ η) (id : ComponentId) (r : Reaction μ σ) (x : ComponentId) :
    (s.absorb id r).isDirty x = true ↔
      (x ∈ r.marks ∧ s.tree.contains x = true) ∨ s.isDirty x = true := by
  refine (isDirty_foldl_mark r.marks _ x).trans (or_congr_left (and_congr_right fun _ => ?_))
  exact Bool.eq_iff_iff.1 ((Tree.sameShape_update s.tree id r.apply).contains x)

theorem reacted_absorb {call : Invocation} {c : Component μ}
    (hc : s.tree.get? call.component = some c) (r : Reaction μ σ) : s.Reacted call c r
      ({ s with guard := s.guard.record call.sequence }.absorb call.component r) := by
  have hmarks := isDirty_absorb { s with guard := s.guard.record call.sequence } call.component r
  -- everything but the dirty set can be read off once the marks are out of the way
  obtain ⟨d, hd⟩ : ∃ d, { s with guard := s.guard.record call.sequence }.absorb call.component r =
      { s with
        guard := s.guard.record call.sequence
        tree := s.tree.update call.component r.apply
        calls := Cascade.pushCalls s.calls call.component r.calls
        dirty := d } := ⟨_, foldl_mark r.marks _⟩
  rw [hd] at hmarks ⊢
  have hown : (s.tree.update call.component r.apply).get? call.component = some (r.apply c) := by
    rw [Tree.get?_component_update_self, hc]
    rfl
  exact
    { shape := Tree.sameShape_update s.tree call.component r.apply
      own := hown
      others := fun x hx => Tree.get?_component_update_of_ne hx s.tree r.apply
      marks := hmarks
      calls := CallQueue.callsOf_pushCalls call.component r.calls s.calls
      guard := rfl
      registry := rfl
      hierarchy := rfl
      settings := ⟨rfl, rfl, rfl⟩ }

/-! ## One request -/

/-- a request that was carried out, with the change it made to the tree -/
inductive Carried (b : Behaviour μ η σ) :
    Session μ η → TreeRequest μ σ → TreeChange → Session μ η → Prop
  | attach {s s₁ : Session μ η} {parent id : ComponentId} {c : Component μ} :
      s.attach parent c = .ok (id, s₁) →
      Carried b s (.attach parent c none) (.attached id (some parent) c.kind) s₁
  | attachWith {s s₁ s' : Session μ η} {parent id : ComponentId} {c : Component μ} {x : σ} :
      s.attach parent c = .ok (id, s₁) → b.setup x s₁ id = (s', .ok ()) →
      Carried b s (.attach parent c (some x)) (.attached id (some parent) c.kind) s'
  | detach {s s₁ : Session μ η} {id : ComponentId} :
      s.detach id = .ok s₁ → Carried b s (.detach id) (.detached id) s₁

/-- a request that failed, with the changes it made all the same: a change that cannot be made
leaves nothing, and a component whose setup failed stays with what the setup did -/
inductive Fails (b : Behaviour μ η σ) :
    Session μ η → TreeRequest μ σ → List TreeChange → TreeError → Session μ η → Prop
  | attach {s : Session μ η} {parent : ComponentId} {c : Component μ} {setup : Option σ}
      {e : TreeError} :
      s.attach parent c = .error e → Fails b s (.attach parent c setup) [] e s
  | setup {s s₁ s' : Session μ η} {parent id : ComponentId} {c : Component μ} {x : σ}
      {e : TreeError} :
      s.attach parent c = .ok (id, s₁) → b.setup x s₁ id = (s', .error e) →
      Fails b s (.attach parent c (some x)) [.attached id (some parent) c.kind] e s'
  | detach {s : Session μ η} {id : ComponentId} {e : TreeError} :
      s.detach id = .error e → Fails b s (.detach id) [] e s

theorem applyRequest_ok_iff {q : TreeRequest μ σ} :
    s.applyRequest b q = (s', .ok ()) ↔ ∃ change, Carried b s q change s' := by
  constructor
  · intro h
    cases q with
    | attach parent c setup =>
      cases ha : s.attach parent c with
      | error e => simp [applyRequest, ha] at h
      | ok attached =>
        cases setup with
        | none =>
          simp only [applyRequest, ha, Prod.mk.injEq, and_true] at h
          obtain rfl := h
          exact ⟨_, .attach ha⟩
        | some x =>
          simp only [applyRequest, ha] at h
          exact ⟨_, .attachWith ha h⟩
    | detach id =>
      cases hd : s.detach id with
      | error e => simp [applyRequest, hd] at h
      | ok s₁ =>
        simp only [applyRequest, hd, Prod.mk.injEq, and_true] at h
        obtain rfl := h
        exact ⟨_, .detach hd⟩
  · rintro ⟨change, h⟩
    cases h with
    | attach ha => simp only [applyRequest, ha]
    | attachWith ha hx => simp only [applyRequest, ha, hx]
    | detach hd => simp only [applyRequest, hd]

theorem applyRequest_error_iff {q : TreeRequest μ σ} {e : TreeError} :
    s.applyRequest b q = (s', .error e) ↔ ∃ log, Fails b s q log e s' := by
  constructor
  · intro h
    cases q with
    | attach parent c setup =>
      cases ha : s.attach parent c with
      | error e' =>
        simp only [applyRequest, ha, Prod.mk.injEq, Except.error.injEq] at h
        obtain ⟨rfl, rfl⟩ := h
        exact ⟨_, .attach ha⟩
      | ok attached =>
        cases setup with
        | none => simp [applyRequest, ha] at h
        | some x =>
          simp only [applyRequest, ha] at h
          exact ⟨_, .setup ha h⟩
    | detach id =>
      cases hd : s.detach id with
      | error e' =>
        simp only [applyRequest, hd, Prod.mk.injEq, Except.error.injEq] at h
        obtain ⟨rfl, rfl⟩ := h
        exact ⟨_, .detach hd⟩
      | ok s₁ => simp [applyRequest, hd] at h
  · rintro ⟨log, h⟩
    cases h with
    | attach ha => simp only [applyRequest, ha]
    | setup ha hx => simp only [applyRequest, ha, hx]
    | detach hd => simp only [applyRequest, hd]

theorem hierarchy_of_attach {parent id : ComponentId} {c : Component μ}
    (h : s.attach parent c = .ok (id, s')) :
    s'.hierarchy = s.hierarchy ++ [.attached id (some parent) c.kind] := by
  obtain ⟨t', -, rfl⟩ := attach_ok h
  rfl

theorem hierarchy_of_setup {parent id : ComponentId} {c : Component μ} {x : σ}
    {answer : Except TreeError Unit} (ha : s.attach parent c = .ok (id, s₁))
    (hx : b.setup x s₁ id = (s', answer)) (hq : (TreeRequest.attach parent c (some x)).Silent b) :
    s'.hierarchy = s.hierarchy ++ [.attached id (some parent) c.kind] := by
  have hsilent : (b.setup x s₁ id).1.hierarchy = s₁.hierarchy := hq s₁ id
  rw [hx] at hsilent
  exact hsilent.trans (hierarchy_of_attach ha)

theorem Carried.hierarchy {q : TreeRequest μ σ} {change : TreeChange}
    (h : Carried b s q change s') (hq : q.Silent b) : s'.hierarchy = s.hierarchy ++ [change] := by
  cases h with
  | attach ha => exact hierarchy_of_attach ha
  | attachWith ha hx => exact hierarchy_of_setup ha hx hq
  | detach hd =>
    obtain ⟨removed, t', -, rfl⟩ := detach_ok hd
    rfl

theorem Fails.hierarchy {q : TreeRequest μ σ} {log : List TreeChange} {e : TreeError}
    (h : Fails b s q log e s') (hq : q.Silent b) : s'.hierarchy = s.hierarchy ++ log := by
  cases h with
  | attach | detach => exact (List.append_nil _).symm
  | setup ha hx => exact hierarchy_of_setup ha hx hq

/-! ## A list of requests -/

inductive CarriedOut (b : Behaviour μ η σ) :
    Session μ η → List (TreeRequest μ σ) → List TreeChange → Session μ η → Prop
  | nil {s : Session μ η} : CarriedOut b s [] [] s
  | cons {s s₁ s' : Session μ η} {q : TreeRequest μ σ} {change : TreeChange}
      {qs : List (TreeRequest μ σ)} {log : List TreeChange} :
      Carried b s q change s₁ → CarriedOut b s₁ qs log s' →
      CarriedOut b s (q :: qs) (change :: log) s'

theorem CarriedOut.append {qs qs' : List (TreeRequest μ σ)} {log log' : List TreeChange}
    (h : CarriedOut b s qs log s₁) (h' : CarriedOut b s₁ qs' log' s') :
    CarriedOut b s (qs ++ qs') (log ++ log') s' := by
  induction h with
  | nil => exact h'
  | cons hq _ ih => exact .cons hq (ih h')

/-- how the requests of a handler of `id` end, with the changes made to the tree: all are carried
out, or the first that fails is reported and those behind it are forgotten -/
inductive Resolved (b : Behaviour μ η σ) (s : Session μ η) (id : ComponentId) :
    List (TreeRequest μ σ) → List TreeChange →
      Session μ η × Except InvocationError Unit → Prop
  | all {s' : Session μ η} {qs : List (TreeRequest μ σ)} {log : List TreeChange} :
      CarriedOut b s qs log s' → Resolved b s id qs log (s', .ok ())
  | upTo {s₁ s' : Session μ η} {done later : List (TreeRequest μ σ)} {q : TreeRequest μ σ}
      {log last : List TreeChange} {e : TreeError} :
      CarriedOut b s done log s₁ → Fails b s₁ q last e s' →
      Resolved b s id (done ++ q :: later) (log ++ last) (s', .error (.rejected id e))

theorem CarriedOut.hierarchy {qs : List (TreeRequest μ σ)} {log : List TreeChange}
    (h : CarriedOut b s qs log s') (hqs : ∀ q ∈ qs, q.Silent b) :
    s'.hierarchy = s.hierarchy ++ log := by
  induction h with
  | nil => exact (List.append_nil _).symm
  | @cons s s₁ s' q change qs log hq _ ih =>
    have hfirst := hq.hierarchy (hqs q (List.mem_cons_self ..))
    rw [ih fun q hq => hqs q (List.mem_cons_of_mem _ hq), hfirst, List.append_assoc,
      List.singleton_append]

theorem Resolved.hierarchy {id : ComponentId} {qs : List (TreeRequest μ σ)}
    {log : List TreeChange} {out : Session μ η × Except InvocationError Unit}
    (h : Resolved b s id qs log out) (hqs : ∀ q ∈ qs, q.Silent b) :
    out.1.hierarchy = s.hierarchy ++ log := by
  cases h with
  | all hall => exact hall.hierarchy hqs
  | upTo hdone hq =>
    have hbefore := hdone.hierarchy fun q hq => hqs q (List.mem_append_left _ hq)
    have hlast := hq.hierarchy (hqs _ (List.mem_append_right _ (List.mem_cons_self ..)))
    rw [hlast, hbefore, List.append_assoc]

theorem applyRequests_ok_iff {qs : List (TreeRequest μ σ)} :
    s.applyRequests b qs = (s', .ok ()) ↔ ∃ log, CarriedOut b s qs log s' := by
  induction qs generalizing s with
  | nil =>
    constructor
    · intro h
      cases h
      exact ⟨[], .nil⟩
    · rintro ⟨log, h⟩
      cases h
      rfl
  | cons q qs ih =>
    constructor
    · intro h
      cases hq : s.applyRequest b q with
      | mk s₁ answer =>
        cases answer with
        | error e => simp [applyRequests, hq] at h
        | ok =>
          simp only [applyRequests, hq] at h
          obtain ⟨change, hcarried⟩ := applyRequest_ok_iff.1 hq
          obtain ⟨log, hlog⟩ := ih.1 h
          exact ⟨change :: log, .cons hcarried hlog⟩
    · rintro ⟨log, h⟩
      cases h with
      | cons hq hqs =>
        simp only [applyRequests, applyRequest_ok_iff.2 ⟨_, hq⟩]
        exact ih.2 ⟨_, hqs⟩

theorem applyRequests_error_iff {qs : List (TreeRequest μ σ)} {e : TreeError} :
    s.applyRequests b qs = (s', .error e) ↔ ∃ done q later s₁ log last,
      qs = done ++ q :: later ∧ CarriedOut b s done log s₁ ∧ Fails b s₁ q last e s' := by
  induction qs generalizing s with
  | nil =>
    constructor
    · intro h
      cases h
    · rintro ⟨done, q, later, s₁, log, last, he, -⟩
      simp at he
  | cons q qs ih =>
    constructor
    · intro h
      cases hq : s.applyRequest b q with
      | mk s₁ answer =>
        cases answer with
        | error e' =>
          simp only [applyRequests, hq, Prod.mk.injEq, Except.error.injEq] at h
          obtain ⟨rfl, rfl⟩ := h
          obtain ⟨last, hlast⟩ := applyRequest_error_iff.1 hq
          exact ⟨[], q, qs, s, [], last, rfl, .nil, hlast⟩
        | ok =>
          simp only [applyRequests, hq] at h
          obtain ⟨change, hcarried⟩ := applyRequest_ok_iff.1 hq
          obtain ⟨done, q', later, s₂, log, last, rfl, hdone, hlast⟩ := ih.1 h
          exact ⟨q :: done, q', later, s₂, change :: log, last, rfl, .cons hcarried hdone, hlast⟩
    · rintro ⟨done, q', later, s₁, log, last, he, hdone, hlast⟩
      cases hdone with
      | nil =>
        obtain ⟨rfl, rfl⟩ := List.cons.inj he
        simp only [applyRequests, applyRequest_error_iff.2 ⟨_, hlast⟩]
      | cons hq hqs =>
        obtain ⟨rfl, rfl⟩ := List.cons.inj he
        simp only [applyRequests, applyRequest_ok_iff.2 ⟨_, hq⟩]
        exact ih.2 ⟨_, q', later, s₁, _, last, rfl, hqs, hlast⟩

def answerFor (id : ComponentId) :
    Session μ η × Except TreeError Unit → Session μ η × Except InvocationError Unit
  | (s, .ok ()) => (s, .ok ())
  | (s, .error e) => (s, .error (.rejected id e))

theorem resolved_iff {id : ComponentId} {qs : List (TreeRequest μ σ)}
    {out : Session μ η × Except InvocationError Unit} :
    answerFor id (s.applyRequests b qs) = out ↔ ∃ log, Resolved b s id qs log out := by
  constructor
  · rintro rfl
    cases hrun : s.applyRequests b qs with
    | mk s' answer =>
      cases answer with
      | ok =>
        obtain ⟨log, hlog⟩ := applyRequests_ok_iff.1 hrun
        exact ⟨log, .all hlog⟩
      | error e =>
        obtain ⟨done, q, later, s₁, log, last, rfl, hdone, hq⟩ := applyRequests_error_iff.1 hrun
        exact ⟨log ++ last, .upTo hdone hq⟩
  · rintro ⟨log, h⟩
    cases h with
    | all hall =>
      rw [applyRequests_ok_iff.2 ⟨log, hall⟩]
      rfl
    | upTo hdone hq =>
      rw [applyRequests_error_iff.2 ⟨_, _, _, _, _, _, rfl, hdone, hq⟩]
      rfl

/-! ## Deliveries -/

theorem deliver_accepted {call : Invocation} {handler : η} {c : Component μ} {r : Reaction μ σ}
    {answer : Except InvocationError Unit} (h : s.Accepts call handler c)
    (hr : b.handle handler c call = (r, answer)) : s.deliver b call =
      match answer with
      | .error e => ({ s with guard := s.guard.record call.sequence }.absorb call.component r,
          .error e)
      | .ok () => answerFor call.component
          (({ s with guard := s.guard.record call.sequence }.absorb call.component r).applyRequests
            b r.requests) := by
  rw [deliver_passed h.fresh, dispatch]
  simp only [h.handler, h.component, hr]
  cases answer with
  | error e => rfl
  | ok =>
    dsimp only
    split
    · next s' hrun => rw [hrun]; rfl
    · next s' e hrun => rw [hrun]; rfl

/-- What an accepted invocation does, whatever its handler asks for: the reaction of the component
comes first, and the changes of the tree are made in order up to the first that fails. -/
theorem deliver_requests {call : Invocation} {handler : η} {c : Component μ} {r : Reaction μ σ}
    {answer : Except InvocationError Unit} (h : s.Accepts call handler c)
    (hr : b.handle handler c call = (r, answer)) : ∃ s₀, s.Reacted call c r s₀ ∧
      (∀ e, answer = .error e → s.deliver b call = (s₀, .error e)) ∧
      (answer = .ok () →
        (∀ out, s.deliver b call = out ↔
          ∃ log, Resolved b s₀ call.component r.requests log out) ∧
        ∀ log out, Resolved b s₀ call.component r.requests log out →
          (∀ q ∈ r.requests, q.Silent b) → out.1.hierarchy = s.hierarchy ++ log) := by
  have hreacted := reacted_absorb h.component r
  have hdeliver := deliver_accepted h hr
  refine ⟨_, hreacted, ?_, ?_⟩
  · rintro e rfl
    exact hdeliver
  · rintro rfl
    refine ⟨fun out => ?_, fun log out hout hsilent => ?_⟩
    · rw [hdeliver]
      exact resolved_iff
    · rw [hout.hierarchy hsilent, hreacted.hierarchy]

/-! ### A note that leaves -/

def answering : Session Unit Unit :=
  { noted with registry := noted.registry.register ⟨2⟩ "Note" () }

def askNote : Invocation := ⟨⟨2⟩, "Note", "leave", [], .first⟩

/-- notes put a badge with a handler of its own in their place, and ask for another one below
themselves when they are gone -/
def swapping : Behaviour Unit Unit Unit where
  hook _ c _ := .idle c.model
  handle _ c _ := (⟨c.model, [], [], [⟨1⟩, ⟨9⟩], [.attach ⟨1⟩ ⟨"Badge", .empty, ()⟩ (some ()),
    .detach ⟨2⟩, .attach ⟨2⟩ ⟨"Badge", .empty, ()⟩ none, .detach ⟨3⟩]⟩, .ok ())
  setup _ s id :=
    match s.register id "Badge" () with
    | .ok s => (s, .ok ())
    | .error e => (s, .error e)

theorem silent_swapping : ∀ q ∈ (swapping.handle () ⟨"Note", .empty, ()⟩ askNote).1.requests,
    q.Silent swapping := by
  have hsetup (s : Session Unit Unit) (id : ComponentId) :
      (swapping.setup () s id).1.hierarchy = s.hierarchy := by
    by_cases hid : s.tree.contains id = true
    · simp [swapping, register, hid]
    · simp [swapping, register, hid]
  intro q hq
  simp only [swapping, List.mem_cons, List.not_mem_nil, or_false] at hq
  rcases hq with rfl | rfl | rfl | rfl
  · exact hsetup
  all_goals exact trivial

/-- the note is gone when its last request looks for it -/
theorem deliver_requests_note : answering.Accepts askNote () ⟨"Note", .empty, ()⟩ ∧
    ∃ s₀ log, answering.Reacted askNote ⟨"Note", .empty, ()⟩
        (swapping.handle () ⟨"Note", .empty, ()⟩ askNote).1 s₀ ∧
      Resolved swapping s₀ ⟨2⟩ (swapping.handle () ⟨"Note", .empty, ()⟩ askNote).1.requests log
        (answering.deliver swapping askNote) ∧
      (answering.deliver swapping askNote).2 = .error (.rejected ⟨2⟩ (.parentNotFound ⟨2⟩)) ∧
      answering.hierarchy ++ log =
        answering.hierarchy ++ [.attached ⟨3⟩ (some ⟨1⟩) "Badge", .detached ⟨2⟩] := by
  have hacc : answering.Accepts askNote () ⟨"Note", .empty, ()⟩ := ⟨rfl, rfl, rfl⟩
  obtain ⟨s₀, hreacted, -, hok⟩ := deliver_requests (b := swapping) hacc rfl
  obtain ⟨hout, hlog⟩ := hok rfl
  obtain ⟨log, hres⟩ := (hout _).1 rfl
  exact ⟨hacc, s₀, log, hreacted, hres, rfl, (hlog log _ hres silent_swapping).symm⟩

end Session

end UiSync
