import UiSync.Proofs.Session.Evolving
import UiSync.Proofs.Session.History

/-!
# Chronicles of a session

`Chronicle new σ events s` says that a session can get to `s` in such a way that `events` happened,
in this order: components were attached and detached, calls were made, a client asked for everything
anew, responses were written or given up.  What else operations do (edits, marks, handlers, the
guard) is no event.  The components that are attached have fields of which `new` holds.

With fields that were never sent, chronicles are histories with the events noted: every history
has one (`History.chronicle`), and the other way round (`Chronicle.history`).  When an invocation
reaches its handler, the calls that the handler makes are the first events (`Chronicle.deliver`).
-/

namespace UiSync

variable {μ η σ : Type}

/-- what happens to a session, as far as responses tell of it -/
inductive Event (μ : Type) where
  | attached (id : ComponentId) (parent : Option ComponentId) (kind : String)
  /-- a component left the tree, and with it everything below: `removed` lists them all -/
  | detached (id : ComponentId) (removed : List ComponentId)
  | called (call : ClientCall)
  /-- a client asked for everything anew, and the tree was announced as it is then -/
  | resynced (announcement : List TreeChange)
  /-- a response was written, and before that hooks made `hookCalls` -/
  | committed (commit : Commit μ) (hookCalls : List ClientCall)
  /-- no response could be written -/
  | gaveUp (hookCalls : List ClientCall)

def Event.commit? : Event μ → Option (Commit μ)
  | .committed commit _ => some commit
  | _ => none

def commits (events : List (Event μ)) : List (Commit μ) := events.filterMap Event.commit?

theorem commits_append (a b : List (Event μ)) : commits (a ++ b) = commits a ++ commits b :=
  List.filterMap_append

def TreeRequest.Attaches (new : FieldBag → Prop) : TreeRequest μ σ → Prop
  | .attach _ c _ => new c.fields
  | .detach _ => True

namespace Session

variable {new : FieldBag → Prop} {clears : Bool} {s s₁ s' : Session μ η} {es es' : List (Event μ)}

/-! ## Operations and their events -/

/-- the operation told the client nothing -/
structure Silent (s s' : Session μ η) : Prop where
  tree : Tree.Edited s.tree s'.tree
  hierarchy : s'.hierarchy = s.hierarchy
  calls : s'.calls = s.calls
  resyncPending : s'.resyncPending = s.resyncPending

inductive Step (new : FieldBag → Prop) (clears : Bool) :
    Session μ η → List (Event μ) → Session μ η → Prop
  | attach {s s' : Session μ η} {parent id : ComponentId} {c : Component μ} :
      new c.fields → s.attach parent c = .ok (id, s') →
        Step new clears s [.attached id (some parent) c.kind] s'
  | detach {s s' : Session μ η} {id : ComponentId} {removed : List ComponentId} {t' : Tree μ} :
      s.tree.detach id = .ok (removed, t') → s.detach id = .ok s' →
        Step new clears s [.detached id removed] s'
  | call {s s' : Session μ η} {id : ComponentId} {interface method : String}
      {args : List Json.Value} : s.call id interface method args = .ok s' →
        Step new clears s [.called ⟨id, interface, method, args⟩] s'
  | resync {s : Session μ η} : Step new clears s [.resynced (announcement s.tree)] s.requestResync
  | silent {s s' : Session μ η} : Act clears s s' → s.Silent s' → Step new clears s [] s'

theorem Step.act (h : Step FieldBag.Unsent clears s es s') : Act clears s s' := by
  cases h with
  | attach hc ha => exact .attach hc ha
  | detach _ hd => exact .detach hd
  | call hc => exact .call hc
  | resync => exact .resync
  | silent ha _ => exact ha

theorem Step.evolves (h : Step new clears s es s') : Evolves σ s s' := by
  cases h with
  | attach _ ha => exact .attach ha
  | detach _ hd => exact .detach hd
  | call hc => exact .call hc
  | resync => exact .resync s
  | silent ha _ => exact ha.evolves

theorem Step.commits (h : Step new clears s es s') : commits es = [] := by
  cases h <;> rfl

theorem silent_update {f : Component μ → Component μ} (hf : ∀ c : Component μ, c.Edited (f c))
    (s : Session μ η) (id : ComponentId) : s.Silent (s.update id f) :=
  ⟨Tree.edited_update hf s.tree id, rfl, rfl, rfl⟩

theorem silent_mark (s : Session μ η) (id : ComponentId) : s.Silent (s.mark id) := by
  rcases mark_cases s id with he | he
  · rw [he]
    exact ⟨.refl _, rfl, rfl, rfl⟩
  · rw [he]
    exact ⟨.refl _, rfl, rfl, rfl⟩

theorem Act.exists_step (h : Act clears s s') : ∃ es, Step FieldBag.Unsent clears s es s' := by
  have hact := h
  cases h with
  | attach hc ha => exact ⟨_, .attach hc ha⟩
  | detach hd =>
    obtain ⟨removed, t', ht, -⟩ := detach_ok hd
    exact ⟨_, .detach ht hd⟩
  | call hc => exact ⟨_, .call hc⟩
  | resync => exact ⟨_, .resync⟩
  | edit id edits model =>
    exact ⟨_, .silent hact (silent_update (Component.edited_revise edits model) s id)⟩
  | mark id => exact ⟨_, .silent hact (silent_mark s id)⟩
  | register hr =>
    refine ⟨_, .silent hact ?_⟩
    rw [register_ok hr]
    exact ⟨.refl _, rfl, rfl, rfl⟩
  | clear | unregister | pass => exact ⟨_, .silent hact ⟨.refl _, rfl, rfl, rfl⟩⟩

inductive Run (new : FieldBag → Prop) (clears : Bool) (s : Session μ η) :
    List (Event μ) → Session μ η → Prop
  | refl : Run new clears s [] s
  | tail {s₁ s' : Session μ η} {es es' : List (Event μ)} :
      Run new clears s es s₁ → Step new clears s₁ es' s' → Run new clears s (es ++ es') s'

theorem Step.run (h : Step new clears s es s') : Run new clears s es s' := .tail .refl h

theorem Run.trans (h : Run new clears s es s₁) (h' : Run new clears s₁ es' s') :
    Run new clears s (es ++ es') s' := by
  induction h' with
  | refl =>
    rw [List.append_nil]
    exact h
  | tail _ hlast ih =>
    rw [← List.append_assoc]
    exact ih.tail hlast

theorem Run.commits (h : Run new clears s es s') : commits es = [] := by
  induction h with
  | refl => rfl
  | tail _ hlast ih => rw [commits_append, ih, hlast.commits, List.append_nil]

def Reaches (new : FieldBag → Prop) (clears : Bool) (s s' : Session μ η) : Prop :=
  ∃ es, Run new clears s es s'

theorem Reaches.trans (h : Reaches new clears s s₁) (h' : Reaches new clears s₁ s') :
    Reaches new clears s s' := by
  obtain ⟨es, hes⟩ := h
  obtain ⟨es', hes'⟩ := h'
  exact ⟨es ++ es', hes.trans hes'⟩

theorem Acts.reaches (h : Acts clears s s') : Reaches FieldBag.Unsent clears s s' := by
  induction h with
  | refl => exact ⟨[], .refl⟩
  | tail _ hlast ih =>
    obtain ⟨es, hes⟩ := hlast.exists_step
    exact ih.trans ⟨es, hes.run⟩

/-! ## The calls of a handler -/

theorem run_marks (marks : List ComponentId) (s : Session μ η) :
    Run new clears s ([] : List (Event μ)) (marks.foldl mark s) := by
  induction marks generalizing s with
  | nil => exact .refl
  | cons id marks ih =>
    have hstep : Step new clears s ([] : List (Event μ)) (s.mark id) :=
      .silent (.mark id) (silent_mark s id)
    exact hstep.run.trans (ih (s.mark id))

theorem run_pushCalls {id : ComponentId} (calls : List PeerCall) (s : Session μ η)
    (h : s.tree.contains id = true) :
    Run new clears s (calls.map fun c => .called (c.toClient id))
      { s with calls := Cascade.pushCalls s.calls id calls } := by
  induction calls generalizing s with
  | nil => exact .refl
  | cons c calls ih =>
    have hcall : s.call id c.interface c.method c.args =
        .ok { s with calls := s.calls.push id c.interface c.method c.args } := by
      rw [call, if_pos h]
    have hstep : Step new clears s [.called (c.toClient id)] _ := .call hcall
    exact hstep.run.trans (ih { s with calls := s.calls.push id c.interface c.method c.args } h)

theorem run_revise (s : Session μ η) (id : ComponentId) (edits : List Edit) (model : μ) :
    Run new clears s ([] : List (Event μ)) (s.update id (Component.revise edits model)) := by
  have hstep : Step new clears s ([] : List (Event μ)) _ :=
    .silent (.edit id edits model) (silent_update (Component.edited_revise edits model) s id)
  exact hstep.run

theorem run_absorb {s : Session μ η} {id : ComponentId} (h : s.tree.contains id = true)
    (r : Reaction μ σ) :
    Run new clears s (r.calls.map fun c => .called (c.toClient id)) (s.absorb id r) := by
  have hedit : Run new clears s ([] : List (Event μ)) (s.update id r.apply) :=
    run_revise s id r.edits r.model
  have hcontains : (s.update id r.apply).tree.contains id = true :=
    ((Tree.sameShape_update s.tree id r.apply).contains id).trans h
  have hcalls := hedit.trans (run_pushCalls r.calls (s.update id r.apply) hcontains)
  have hmarks := hcalls.trans (run_marks r.marks _)
  rw [List.append_nil] at hmarks
  exact hmarks

/-- handlers may do what chronicles tell of, when they attach what may be attached there -/
theorem across_reaches {b : Behaviour μ η σ}
    (hattach : ∀ handler c call, ∀ q ∈ (b.handle handler c call).1.requests, q.Attaches new)
    (hsetup : ∀ setup s id, Reaches new clears s (b.setup setup s id).1) :
    Across b (Reaches (η := η) new clears) where
  refl _ := ⟨[], .refl⟩
  trans := .trans
  edit s id edits model := ⟨[], run_revise s id edits model⟩
  call hc := ⟨_, (Step.call hc).run⟩
  mark s id := ⟨[], run_marks [id] s⟩
  request handler c call q hq s := by
    have hnew := hattach handler c call q hq
    rcases applyRequest_cases b s q with he | ⟨parent, c, setup, id, s', rfl, ha, he⟩ |
      ⟨id, s', rfl, hd, he⟩
    · rw [he]
      exact ⟨[], .refl⟩
    · have hattached : Reaches new clears s s' := ⟨_, (Step.attach hnew ha).run⟩
      rcases he with he | ⟨x, he⟩
      · rw [he]
        exact hattached
      · rw [he]
        exact hattached.trans (hsetup x s' id)
    · obtain ⟨removed, t', ht, -⟩ := detach_ok hd
      rw [he]
      exact ⟨_, (Step.detach ht hd).run⟩

/-- an invocation that reaches its handler makes the calls of the handler, and whatever follows from
the changes of the tree it asks for -/
theorem exists_run_dispatch {b : Behaviour μ η σ} (hb : Across b (Reaches (η := η) new clears))
    {call : Invocation} {handler : η} {c : Component μ}
    (hh : s.registry.handler? call.component call.interface = some handler)
    (hc : s.tree.get? call.component = some c) :
    ∃ es, Run new clears s
      (((b.handle handler c call).1.calls.map fun k => .called (k.toClient call.component)) ++ es)
      (s.dispatch b call).1 := by
  have hcontains : s.tree.contains call.component = true := Tree.contains_iff_get?.2 ⟨_, hc⟩
  have hrequest := hb.request handler c call
  have habsorb : Run new clears s _ (s.absorb call.component (b.handle handler c call).1) :=
    run_absorb hcontains (b.handle handler c call).1
  cases hr : b.handle handler c call with
  | mk reaction outcome =>
    rw [hr] at hrequest habsorb
    cases outcome with
    | error e =>
      refine ⟨[], ?_⟩
      simp only [dispatch, hh, hc, hr, List.append_nil]
      exact habsorb
    | ok =>
      obtain ⟨es, hes⟩ := hb.requests reaction.requests hrequest (s.absorb call.component reaction)
      refine ⟨es, ?_⟩
      simp only [dispatch, hh, hc, hr]
      cases ha : (s.absorb call.component reaction).applyRequests b reaction.requests with
      | mk s₂ outcome =>
        rw [ha] at hes
        cases outcome with
        | ok => exact habsorb.trans hes
        | error e => exact habsorb.trans hes

def hookCalls (b : Behaviour μ η σ) (s : Session μ η) : List ClientCall :=
  (s.hookRuns b).flatMap HookRun.calls

end Session

/-! ## Chronicles -/

/-- the session got to `s` while `events` happened -/
inductive Chronicle (new : FieldBag → Prop) (σ : Type) : List (Event μ) → Session μ η → Prop
  | start {root : Component μ} (config : Config) : new root.fields →
      Chronicle new σ [.attached ⟨1⟩ none root.kind] (Session.ofRoot root config)
  | step {events es : List (Event μ)} {s s' : Session μ η} :
      Chronicle new σ events s → Session.Step new true s es s' → Chronicle new σ (events ++ es) s'
  | respond {events : List (Event μ)} {s s' : Session μ η} {b : Behaviour μ η σ}
      {response : Response} : Chronicle new σ events s → s.respond b = (s', .ok response) →
        Chronicle new σ (events ++ [.committed ⟨response.message, s'.tree⟩ (s.hookCalls b)]) s'
  | unanswered {events : List (Event μ)} {s s' : Session μ η} {b : Behaviour μ η σ}
      {e : ResponseError} : Chronicle new σ events s → s.respond b = (s', .error e) →
        Chronicle new σ (events ++ [.gaveUp (s.hookCalls b)]) s'

namespace Chronicle

variable {new : FieldBag → Prop} {events es : List (Event μ)} {s s' : Session μ η}

theorem run (h : Chronicle new σ events s) (hr : Session.Run new true s es s') :
    Chronicle new σ (events ++ es) s' := by
  induction hr with
  | refl =>
    rw [List.append_nil]
    exact h
  | tail _ hlast ih =>
    rw [← List.append_assoc]
    exact ih.step hlast

/-- the calls of a handler are told of first, whether it succeeds or not -/
theorem deliver (h : Chronicle new σ events s) {b : Behaviour μ η σ}
    (hb : Session.Across b (Session.Reaches (η := η) new true))
    {call : Invocation} {handler : η} {c : Component μ}
    (hg : s.guard.check call.sequence = .ok ())
    (hh : s.registry.handler? call.component call.interface = some handler)
    (hc : s.tree.get? call.component = some c) :
    ∃ es, Chronicle new σ (events ++
      (((b.handle handler c call).1.calls.map fun k => .called (k.toClient call.component)) ++ es))
      (s.deliver b call).1 := by
  have hpass : Session.Step new true s ([] : List (Event μ))
      { s with guard := s.guard.record call.sequence } :=
    .silent (.pass call.sequence) ⟨.refl _, rfl, rfl, rfl⟩
  obtain ⟨es, hes⟩ := Session.exists_run_dispatch (s := { s with
    guard := s.guard.record call.sequence }) hb hh hc
  refine ⟨es, ?_⟩
  rw [Session.deliver, hg]
  exact h.run (hpass.run.trans hes)

theorem evolves (h : Chronicle new σ events s) :
    ∃ root config, Session.Evolves σ (Session.ofRoot root config) s := by
  induction h with
  | @start root config _ => exact ⟨root, config, .refl _⟩
  | step _ hs ih =>
    obtain ⟨root, config, h⟩ := ih
    exact ⟨root, config, h.trans hs.evolves⟩
  | respond _ hr ih =>
    obtain ⟨root, config, h⟩ := ih
    exact ⟨root, config, h.trans (Session.evolves_respond hr)⟩
  | unanswered _ hr ih =>
    obtain ⟨root, config, h⟩ := ih
    exact ⟨root, config, h.trans (Session.evolves_respond hr)⟩

theorem tables (h : Chronicle new σ events s) : s.Tables := by
  obtain ⟨root, config, hs⟩ := h.evolves
  exact hs.tables

theorem wellFormed (h : Chronicle new σ events s) : s.tree.WellFormed := h.tables.wellFormed

theorem history (h : Chronicle FieldBag.Unsent σ events s) : History σ (commits events) s := by
  induction h with
  | start config hroot => exact .start config hroot
  | step _ hs ih =>
    rw [commits_append, hs.commits, List.append_nil]
    exact ih.act hs.act
  | respond _ hr ih =>
    rw [commits_append]
    exact ih.respond hr
  | unanswered _ hr ih =>
    rw [commits_append]
    exact (List.append_nil (commits _)).symm ▸ ih.unanswered hr

end Chronicle

/-- regular behaviours do to a session what chronicles tell of -/
theorem Behaviour.Regular.across_reaches {clears : Bool} {b : Behaviour μ η σ}
    (h : b.Regular clears) :
    Session.Across b (Session.Reaches (μ := μ) (η := η) FieldBag.Unsent clears) := by
  refine Session.across_reaches (fun handler c call q hq => ?_) fun setup s id =>
    (h.setup setup s id).reaches
  have hq := h.fresh handler c call q hq
  cases q with
  | attach parent c setup => exact hq
  | detach id => trivial

/-- every history can be told as a chronicle -/
theorem History.chronicle {log : List (Commit μ)} {s : Session μ η} (h : History σ log s) :
    ∃ events, Chronicle FieldBag.Unsent σ events s ∧ commits events = log := by
  have hacts : ∀ {log : List (Commit μ)} {s s' : Session μ η},
      (∃ events, Chronicle FieldBag.Unsent σ events s ∧ commits events = log) →
        Session.Acts true s s' →
          ∃ events, Chronicle FieldBag.Unsent σ events s' ∧ commits events = log := by
    rintro log s s' ⟨events, hchr, hlog⟩ ha
    obtain ⟨es, hes⟩ := ha.reaches
    refine ⟨events ++ es, hchr.run hes, ?_⟩
    rw [commits_append, hes.commits, List.append_nil, hlog]
  induction h with
  | start config hroot => exact ⟨_, .start config hroot, rfl⟩
  | act _ ha ih => exact hacts ih (Session.acts_of_act ha)
  | deliver call _ hb ih => exact hacts ih (Session.acts_deliver hb _ call)
  | receive m _ hb ih => exact hacts ih (Session.acts_receive hb _ m)
  | respond _ hr ih =>
    obtain ⟨events, hchr, hlog⟩ := ih
    refine ⟨_, hchr.respond hr, ?_⟩
    rw [commits_append, hlog]
    rfl
  | unanswered _ hr ih =>
    obtain ⟨events, hchr, hlog⟩ := ih
    refine ⟨_, hchr.unanswered hr, ?_⟩
    rw [commits_append, hlog]
    exact List.append_nil _

theorem History.evolves {log : List (Commit μ)} {s : Session μ η} (h : History σ log s) :
    ∃ root config, Session.Evolves σ (Session.ofRoot root config) s := by
  obtain ⟨events, hchr, -⟩ := h.chronicle
  exact hchr.evolves

/-! ### A note that is called -/

namespace Session

def awaited : Session Unit Unit :=
  { noted with calls := noted.calls.push ⟨2⟩ "View" "open" [] }

theorem chronicle_awaited : Chronicle FieldBag.Unsent Unit
    [.attached ⟨1⟩ none "Page", .attached ⟨2⟩ (some ⟨1⟩) "Note",
      .called ⟨⟨2⟩, "View", "open", []⟩] awaited := by
  have hstart : Chronicle FieldBag.Unsent Unit _
      (ofRoot ⟨"Page", .empty, ()⟩ {} : Session Unit Unit) :=
    .start {} (FieldBag.unsent_ofFields ∅)
  have hnote : (ofRoot ⟨"Page", .empty, ()⟩ {} : Session Unit Unit).attach ⟨1⟩
      ⟨"Note", .empty, ()⟩ = .ok (⟨2⟩, noted) := rfl
  have hopen : noted.call ⟨2⟩ "View" "open" [] = .ok awaited := rfl
  exact (hstart.step (.attach (FieldBag.unsent_ofFields ∅) hnote)).step (.call hopen)

end Session

end UiSync
