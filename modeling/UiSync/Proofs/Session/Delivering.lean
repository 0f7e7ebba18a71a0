import UiSync.Proofs.Session.Settling
import UiSync.Session.Delivery

/-!
# What delivering a message does to a session

Whatever holds across the operations of which handlers make use holds across the delivery of an
invocation (`Session.Across.deliver`).  In particular everything a regular behaviour does to a
session while a message is delivered is a series of operations (`acts_receive`); so whatever
operations keep, messages keep.
-/

namespace UiSync

variable {μ η σ : Type}

def TreeRequest.Fresh : TreeRequest μ σ → Prop
  | .attach _ c _ => c.fields.Unsent
  | .detach _ => True

/-- handlers ask for new components only, and what is done with a component once it is attached
is a series of operations -/
structure Behaviour.Regular (clears : Bool) (b : Behaviour μ η σ) : Prop where
  fresh : ∀ handler c call, ∀ q ∈ (b.handle handler c call).1.requests, q.Fresh
  setup : ∀ setup s id, Session.Acts clears s (b.setup setup s id).1

namespace Behaviour

def idle : Behaviour μ η σ where
  hook _ c _ := .idle c.model
  handle _ c _ := (.idle c.model, .ok ())
  setup _ s _ := (s, .ok ())

theorem quiet_idle : (idle : Behaviour μ η σ).Quiet := fun _ _ _ => ⟨rfl, rfl⟩

theorem regular_idle (clears : Bool) : (idle : Behaviour μ η σ).Regular clears :=
  ⟨fun _ _ _ _ hq => absurd hq List.not_mem_nil, fun _ _ _ => .refl⟩

end Behaviour

namespace Session

/-! ## Handlers -/

def handlerFor? (s : Session μ η) (call : Invocation) : Option η :=
  if s.tree.contains call.component then s.registry.handler? call.component call.interface else none

/-- without a handler nothing is run, and nothing changes -/
theorem dispatch_of_handlerFor_none {s : Session μ η} {call : Invocation} {b : Behaviour μ η σ}
    (h : s.handlerFor? call = none) :
    s.dispatch b call = (s, .error (.unknownTarget call.component call.interface)) := by
  unfold handlerFor? at h
  unfold dispatch
  cases hh : s.registry.handler? call.component call.interface with
  | none => rfl
  | some handler =>
    cases hc : s.tree.get? call.component with
    | none => rfl
    | some c =>
      rw [if_pos (Tree.contains_iff_get?.2 ⟨_, hc⟩), hh] at h
      cases h

theorem deliver_passed {s : Session μ η} {call : Invocation} {b : Behaviour μ η σ}
    (h : s.guard.check call.sequence = .ok ()) :
    s.deliver b call = { s with guard := s.guard.record call.sequence }.dispatch b call := by
  rw [deliver, h]

/-! ## Relations across a delivery -/

/-- `R` holds between a session and what the operations of which handlers make use leave of it -/
structure Across (b : Behaviour μ η σ) (R : Session μ η → Session μ η → Prop) : Prop where
  refl : ∀ s, R s s
  trans : ∀ {s₁ s₂ s₃}, R s₁ s₂ → R s₂ s₃ → R s₁ s₃
  edit : ∀ s id edits model, R s (s.update id (Component.revise edits model))
  call : ∀ {s s' id interface method args}, s.call id interface method args = .ok s' → R s s'
  mark : ∀ s id, R s (s.mark id)
  request : ∀ handler c call, ∀ q ∈ (b.handle handler c call).1.requests,
    ∀ s, R s (s.applyRequest b q).1

namespace Across

variable {b : Behaviour μ η σ} {R : Session μ η → Session μ η → Prop}

theorem marks (h : Across b R) (marks : List ComponentId) (s : Session μ η) :
    R s (marks.foldl Session.mark s) := by
  induction marks generalizing s with
  | nil => exact h.refl s
  | cons id marks ih => exact h.trans (h.mark s id) (ih (s.mark id))

theorem pushCalls (h : Across b R) {id : ComponentId} (calls : List PeerCall) (s : Session μ η)
    (hid : s.tree.contains id = true) :
    R s { s with calls := Cascade.pushCalls s.calls id calls } := by
  induction calls generalizing s with
  | nil => exact h.refl s
  | cons c calls ih =>
    have hcall : s.call id c.interface c.method c.args =
        .ok { s with calls := s.calls.push id c.interface c.method c.args } := by
      rw [Session.call, if_pos hid]
    exact h.trans (h.call hcall)
      (ih { s with calls := s.calls.push id c.interface c.method c.args } hid)

theorem absorb (h : Across b R) {s : Session μ η} {id : ComponentId}
    (hid : s.tree.contains id = true) (r : Reaction μ σ) : R s (s.absorb id r) := by
  have hedit : R s (s.update id r.apply) := h.edit s id r.edits r.model
  have hcontains : (s.update id r.apply).tree.contains id = true :=
    ((Tree.sameShape_update s.tree id r.apply).contains id).trans hid
  exact h.trans (h.trans hedit (h.pushCalls r.calls _ hcontains)) (h.marks r.marks _)

theorem requests (h : Across b R) (qs : List (TreeRequest μ σ))
    (hqs : ∀ q ∈ qs, ∀ s, R s (s.applyRequest b q).1) (s : Session μ η) :
    R s (s.applyRequests b qs).1 := by
  induction qs generalizing s with
  | nil => exact h.refl s
  | cons q qs ih =>
    have hfirst := hqs q (List.mem_cons_self ..) s
    unfold applyRequests
    cases ha : s.applyRequest b q with
    | mk s₁ outcome =>
      rw [ha] at hfirst
      cases outcome with
      | ok => exact h.trans hfirst (ih (fun q hq => hqs q (List.mem_cons_of_mem _ hq)) s₁)
      | error e => exact hfirst

theorem dispatch (h : Across b R) (s : Session μ η) (call : Invocation) :
    R s (s.dispatch b call).1 := by
  unfold Session.dispatch
  cases s.registry.handler? call.component call.interface with
  | none => exact h.refl s
  | some handler =>
    cases hc : s.tree.get? call.component with
    | none => exact h.refl s
    | some c =>
      have hcontains : s.tree.contains call.component = true := Tree.contains_iff_get?.2 ⟨_, hc⟩
      have hrequest := h.request handler c call
      cases hh : b.handle handler c call with
      | mk reaction outcome =>
        rw [hh] at hrequest
        have habsorb : R s (s.absorb call.component reaction) := h.absorb hcontains reaction
        cases outcome with
        | error e =>
          simp only [hh]
          exact habsorb
        | ok =>
          have hreq := h.requests reaction.requests hrequest (s.absorb call.component reaction)
          simp only [hh]
          cases hr : (s.absorb call.component reaction).applyRequests b reaction.requests with
          | mk s₁ outcome =>
            rw [hr] at hreq
            cases outcome with
            | ok => exact h.trans habsorb hreq
            | error e => exact h.trans habsorb hreq

variable (hpass : ∀ s n, R s { s with guard := s.guard.record n })
include hpass

theorem deliver (h : Across b R) (s : Session μ η) (call : Invocation) :
    R s (s.deliver b call).1 := by
  unfold Session.deliver
  cases s.guard.check call.sequence with
  | error e => exact h.refl s
  | ok => exact h.trans (hpass s call.sequence) (h.dispatch _ call)

theorem invocations (h : Across b R) (calls : List Invocation)
    (state : Session μ η × InvocationReport) : R state.1 (calls.foldl (deliverNext b) state).1 := by
  induction calls generalizing state with
  | nil => exact h.refl _
  | cons call calls ih =>
    have hfirst := h.deliver hpass state.1 call
    have hfst : (deliverNext b state call).1 = (state.1.deliver b call).1 := by
      unfold deliverNext
      cases state.1.deliver b call with
      | mk s outcome =>
        cases outcome with
        | ok => rfl
        | error e => rfl
    rw [← hfst] at hfirst
    exact h.trans hfirst (ih _)

end Across

/-- a request of a handler is carried out in up to two steps: the tree changes, and then the setup
runs -/
theorem applyRequest_cases (b : Behaviour μ η σ) (s : Session μ η) (q : TreeRequest μ σ) :
    (s.applyRequest b q).1 = s ∨
    (∃ parent c setup id s', q = .attach parent c setup ∧ s.attach parent c = .ok (id, s') ∧
      ((s.applyRequest b q).1 = s' ∨ ∃ x, (s.applyRequest b q).1 = (b.setup x s' id).1)) ∨
    ∃ id s', q = .detach id ∧ s.detach id = .ok s' ∧ (s.applyRequest b q).1 = s' := by
  cases q with
  | attach parent c setup =>
    cases ha : s.attach parent c with
    | error e => exact .inl (by simp only [applyRequest, ha])
    | ok attached =>
      refine .inr (.inl ⟨parent, c, setup, attached.1, attached.2, rfl, ha, ?_⟩)
      cases setup with
      | none => exact .inl (by simp only [applyRequest, ha])
      | some setup => exact .inr ⟨setup, by simp only [applyRequest, ha]⟩
  | detach id =>
    cases hd : s.detach id with
    | error e => exact .inl (by simp only [applyRequest, hd])
    | ok s' => exact .inr (.inr ⟨id, s', rfl, hd, by simp only [applyRequest, hd]⟩)

/-! ## Messages are operations -/

variable {clears : Bool} {b : Behaviour μ η σ}

theorem acts_of_act {s s' : Session μ η} (h : Act clears s s') : Acts clears s s' := .single h

theorem acts_applyRequest (hb : b.Regular clears) (s : Session μ η) {q : TreeRequest μ σ}
    (hq : q.Fresh) : Acts clears s (s.applyRequest b q).1 := by
  rcases applyRequest_cases b s q with he | ⟨parent, c, setup, id, s', rfl, ha, he⟩ |
    ⟨id, s', rfl, hd, he⟩
  · rw [he]
    exact .refl
  · have hact : Act clears s s' := .attach hq ha
    rcases he with he | ⟨x, he⟩
    · rw [he]
      exact acts_of_act hact
    · rw [he]
      exact .head hact (hb.setup x s' id)
  · rw [he]
    exact acts_of_act (.detach hd)

theorem across_acts (hb : b.Regular clears) : Across b (Acts (μ := μ) (η := η) clears) where
  refl _ := .refl
  trans := .trans
  edit _ id edits model := acts_of_act (.edit id edits model)
  call hc := acts_of_act (.call hc)
  mark _ id := acts_of_act (.mark id)
  request handler c call q hq s := acts_applyRequest hb s (hb.fresh handler c call q hq)

theorem acts_pass (s : Session μ η) (n : SequenceNumber) :
    Acts clears s { s with guard := s.guard.record n } := acts_of_act (.pass n)

theorem acts_deliver (hb : b.Regular clears) (s : Session μ η) (call : Invocation) :
    Acts clears s (s.deliver b call).1 := (across_acts hb).deliver acts_pass s call

/-- the session as the first invocation of a message finds it -/
def greet (s : Session μ η) (seen : Option SequenceNumber) : Session μ η :=
  if s.missed seen then s.requestResync else s

theorem greet_cases (s : Session μ η) (seen : Option SequenceNumber) :
    s.greet seen = s ∨ s.greet seen = s.requestResync := by
  unfold greet
  split
  · exact .inr rfl
  · exact .inl rfl

theorem guard_greet (s : Session μ η) (seen : Option SequenceNumber) :
    (s.greet seen).guard = s.guard := by
  rcases greet_cases s seen with he | he
  · rw [he]
  · rw [he]
    rfl

/-- a message is its greeting, and then its invocations -/
theorem Across.receive {R : Session μ η → Session μ η → Prop} (h : Across b R)
    (hpass : ∀ s n, R s { s with guard := s.guard.record n }) (hresync : ∀ s, R s s.requestResync)
    (s : Session μ η) (m : ClientMessage) : R s (s.receive b m).1 := by
  have hgreet : R s (s.greet m.lastResponse) := by
    rcases greet_cases s m.lastResponse with he | he
    · rw [he]
      exact h.refl s
    · rw [he]
      exact hresync s
  exact h.trans hgreet (h.invocations hpass m.invocations (s.greet m.lastResponse, _))

/-- after its greeting a message is a series of operations -/
theorem acts_receive_greet (hb : b.Regular clears) (s : Session μ η) (m : ClientMessage) :
    Acts clears (s.greet m.lastResponse) (s.receive b m).1 :=
  (across_acts hb).invocations acts_pass m.invocations (s.greet m.lastResponse, _)

theorem acts_receive (hb : b.Regular clears) (s : Session μ η) (m : ClientMessage) :
    Acts clears s (s.receive b m).1 :=
  (across_acts hb).receive acts_pass (fun _ => acts_of_act .resync) s m

end Session

end UiSync
