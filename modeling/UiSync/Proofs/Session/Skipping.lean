import UiSync.Proofs.Session.Evolving
import UiSync.Proofs.Sync.Numbering

/-!
# Invocations that are skipped

A client is told of every invocation that was stale or found no handler (`Outcome.reportedSkip`).
Without those a message does what it does with them (`Session.receive_unskipped`), although they
move the guard and although the ones before them decide which they are.  This asks that nobody
answers in this way after having changed something (`Session.Forthright`), and that setups do not
take the guard half a turn away from what is still to come (`Session.Steady`); without either it
fails (`Session.not_indifferent`).

The two deliveries stay in step (`Session.InStep`): they differ in their guards at most, and when
they do, the guard that stayed behind lets every invocation pass that is still to come.
-/

namespace UiSync

variable {μ η σ : Type}

/-! ## Numbers close to each other -/

/-- fewer than half a turn away, forward or back -/
def SequenceNumber.Near (a b : SequenceNumber) : Prop :=
  (b.value - a.value).toNat < 32768 ∨ (a.value - b.value).toNat < 32768

namespace SequenceNumber

/-- on a circle, being close leaves out the opposite number only -/
theorem near_ofNat_iff {m n : Nat} :
    (ofNat m).Near (ofNat n) ↔ (m + 32768) % 65536 ≠ n % 65536 := by
  simp only [Near, toNat_sub_eq, ofNat, UInt16.toNat_ofNat']
  omega

theorem exists_ofNat_of_near {a b : SequenceNumber} (h : a.Near b) :
    ∃ m n, a = ofNat m ∧ b = ofNat n ∧ m < n + 32768 ∧ n < m + 32768 := by
  obtain ⟨m, hm, rfl⟩ := exists_ofNat a
  obtain ⟨n, hn, rfl⟩ := exists_ofNat b
  rw [near_ofNat_iff] at h
  have hturn : ∀ k, ofNat k = ofNat (k + 65536) := fun k => by rw [ofNat_eq_iff]; omega
  by_cases hback : n + 32768 ≤ m
  · exact ⟨m, n + 65536, rfl, hturn n, by omega, by omega⟩
  · by_cases hahead : m + 32768 ≤ n
    · exact ⟨m + 65536, n, hturn m, rfl, by omega, by omega⟩
    · exact ⟨m, n, rfl, rfl, by omega, by omega⟩

end SequenceNumber

def Consecutive (calls : List Invocation) : Prop :=
  calls.IsChain fun call call' => call'.sequence = call.sequence.next

theorem Consecutive.tail {call : Invocation} {calls : List Invocation}
    (h : Consecutive (call :: calls)) : Consecutive calls := List.IsChain.tail h

theorem Consecutive.exists_ofNat {call : Invocation} {calls : List Invocation} {n : Nat}
    (h : Consecutive (call :: calls)) (hn : call.sequence = .ofNat n) :
    ∀ c ∈ calls, ∃ i, i ≤ calls.length ∧ c.sequence = .ofNat (n + i) := by
  induction calls generalizing call n with
  | nil => simp
  | cons next calls ih =>
    have hnext : next.sequence = .ofNat (n + 1) := by
      rw [(List.isChain_cons_cons.1 h).1, hn, SequenceNumber.next_ofNat]
    intro c hc
    rcases List.mem_cons.1 hc with rfl | hc
    · exact ⟨1, by simp, hnext⟩
    · obtain ⟨i, hi, hci⟩ := ih h.tail hnext c hc
      refine ⟨i + 1, by simpa using hi, ?_⟩
      rw [hci, Nat.add_assoc, Nat.add_comm 1 i]

namespace SequenceGuard

variable {g : SequenceGuard} {call : Invocation} {calls : List Invocation}

def Near (g : SequenceGuard) (calls : List Invocation) : Prop :=
  ∀ last, g.lastApplied = some last → ∀ call ∈ calls, last.Near call.sequence

theorem Near.tail (h : g.Near (call :: calls)) : g.Near calls :=
  fun last hlast c hc => h last hlast c (List.mem_cons_of_mem _ hc)

theorem near_record (h : Consecutive (call :: calls)) (hlen : (call :: calls).length < 32768) :
    (g.record call.sequence).Near calls := by
  rintro last hlast c hc
  obtain rfl : call.sequence = last := Option.some.inj hlast
  obtain ⟨n, -, hn⟩ := call.sequence.exists_ofNat
  obtain ⟨i, hi, hci⟩ := h.exists_ofNat hn c hc
  rw [hn, hci]
  simp only [List.length_cons] at hlen
  rw [SequenceNumber.near_ofNat_iff]
  omega

/-- a guard that lets a number pass lets the next one pass -/
theorem check_next {n : SequenceNumber} (h : g.check n = .ok ())
    (hnear : ∀ last, g.lastApplied = some last → last.Near n ∧ last.Near n.next) :
    g.check n.next = .ok () := by
  rw [check_ok_iff] at h ⊢
  intro last hlast
  obtain ⟨hn, hnext⟩ := hnear last hlast
  have hpass := h last hlast
  obtain ⟨m, k, rfl, rfl, hback, hahead⟩ := SequenceNumber.exists_ofNat_of_near hn
  rw [isStale_ofNat hahead hback] at hpass
  rw [SequenceNumber.next_ofNat] at hnext ⊢
  rw [SequenceNumber.near_ofNat_iff] at hnext
  exact (isStale_ofNat (by omega) (by omega)).2 (.inl (by omega))

theorem check_later (h : Consecutive (call :: calls)) (hnear : g.Near (call :: calls))
    (hpass : g.check call.sequence = .ok ()) : ∀ c ∈ calls, g.check c.sequence = .ok () := by
  induction calls generalizing call with
  | nil => simp
  | cons next calls ih =>
    have hnext : next.sequence = call.sequence.next := (List.isChain_cons_cons.1 h).1
    have hpass' : g.check next.sequence = .ok () := by
      rw [hnext]
      refine check_next hpass fun last hlast => ⟨hnear last hlast call (by simp), ?_⟩
      rw [← hnext]
      exact hnear last hlast next (by simp)
    intro c hc
    rcases List.mem_cons.1 hc with rfl | hc
    · exact hpass'
    · exact ih h.tail hnear.tail hpass' c hc

end SequenceGuard

/-! ## The outcomes of a message -/

def InvocationError.isSkip : InvocationError → Bool
  | .unknownTarget .. | .staleSequence .. => true
  | _ => false

structure Outcome where
  call : Invocation
  answer : Except InvocationError Unit

namespace Outcome

def failure? (o : Outcome) : Option InvocationError :=
  match o.answer with
  | .ok _ => none
  | .error e => some e

def reportedSkip (o : Outcome) : Bool := o.failure?.any InvocationError.isSkip

def applied (outcomes : List Outcome) : Nat := outcomes.countP fun o => o.failure?.isNone

def failures (outcomes : List Outcome) : List InvocationError := outcomes.filterMap failure?

theorem reportedSkip_of_error {o : Outcome} {e : InvocationError} (h : o.answer = .error e) :
    o.reportedSkip = e.isSkip := by
  rw [reportedSkip, failure?, h]
  rfl

theorem reportedSkip_of_ok {o : Outcome} (h : o.answer = .ok ()) : o.reportedSkip = false := by
  rw [reportedSkip, failure?, h]
  rfl

theorem applied_add_failures (outcomes : List Outcome) :
    applied outcomes + (failures outcomes).length = outcomes.length := by
  induction outcomes with
  | nil => rfl
  | cons o outcomes ih =>
    unfold applied failures at ih ⊢
    rw [List.countP_cons, List.filterMap_cons, List.length_cons]
    cases ho : o.failure? with
    | none =>
      simp only [Option.isNone_none, if_true]
      omega
    | some e =>
      simp only [Option.isNone_some, Bool.false_eq_true, if_false, List.length_cons]
      omega

/-- what was applied is not reported -/
theorem applied_filter (outcomes : List Outcome) :
    applied (outcomes.filter (!·.reportedSkip)) = applied outcomes := by
  rw [applied, List.countP_filter, applied]
  refine List.countP_congr fun o _ => ?_
  rw [reportedSkip]
  cases o.failure? with
  | none => simp
  | some e => simp

/-- leaving out what is reported leaves out its failures -/
theorem failures_filter (outcomes : List Outcome) :
    failures (outcomes.filter (!·.reportedSkip)) = (failures outcomes).filter (!·.isSkip) := by
  induction outcomes with
  | nil => rfl
  | cons o outcomes ih =>
    unfold failures at ih ⊢
    cases ho : o.failure? with
    | none =>
      have hr : o.reportedSkip = false := by rw [reportedSkip, ho]; rfl
      simp [ho, hr, ih]
    | some e =>
      have hr : o.reportedSkip = e.isSkip := by rw [reportedSkip, ho]; rfl
      cases he : e.isSkip <;> simp [ho, hr, he, ih]

end Outcome

namespace Session

variable {b : Behaviour μ η σ} {s t : Session μ η} {call : Invocation} {calls : List Invocation}

def deliverAll (b : Behaviour μ η σ) (s : Session μ η) : List Invocation → Session μ η
  | [] => s
  | call :: calls => deliverAll b (s.deliver b call).1 calls

def outcomes (b : Behaviour μ η σ) (s : Session μ η) : List Invocation → List Outcome
  | [] => []
  | call :: calls => ⟨call, (s.deliver b call).2⟩ :: outcomes b (s.deliver b call).1 calls

/-- the outcomes of those that are not reported as skipped -/
def heeded (b : Behaviour μ η σ) (s : Session μ η) (calls : List Invocation) : List Outcome :=
  (s.outcomes b calls).filter (!·.reportedSkip)

theorem length_outcomes (b : Behaviour μ η σ) (s : Session μ η) (calls : List Invocation) :
    (s.outcomes b calls).length = calls.length := by
  induction calls generalizing s with
  | nil => rfl
  | cons call calls ih => rw [outcomes, List.length_cons, ih, List.length_cons]

theorem foldl_deliverNext (b : Behaviour μ η σ) (s : Session μ η) (r : InvocationReport)
    (calls : List Invocation) : calls.foldl (deliverNext b) (s, r) =
      (s.deliverAll b calls, { r with
        applied := r.applied + Outcome.applied (s.outcomes b calls)
        failures := r.failures ++ Outcome.failures (s.outcomes b calls) }) := by
  induction calls generalizing s r with
  | nil => simp [deliverAll, outcomes, Outcome.applied, Outcome.failures]
  | cons call calls ih =>
    rw [List.foldl_cons, deliverNext, outcomes, deliverAll]
    cases hd : s.deliver b call with
    | mk s₁ answer =>
      cases answer with
      | ok => simp [ih, Outcome.applied, Outcome.failures, Outcome.failure?, List.filterMap_cons,
          Nat.add_assoc, Nat.add_comm 1]
      | error e => simp [ih, Outcome.applied, Outcome.failures, Outcome.failure?]

/-- a message delivers its invocations from the session that greets it -/
theorem receive_eq (b : Behaviour μ η σ) (s : Session μ η) (m : ClientMessage) :
    s.receive b m = ((s.greet m.lastResponse).deliverAll b m.invocations,
      ⟨Outcome.applied ((s.greet m.lastResponse).outcomes b m.invocations),
        Outcome.failures ((s.greet m.lastResponse).outcomes b m.invocations),
        s.missed m.lastResponse⟩) := by
  refine (foldl_deliverNext b (s.greet m.lastResponse) _ m.invocations).trans ?_
  rw [Nat.zero_add, List.nil_append]

/-! ### What is reported -/

def reportsSkip (b : Behaviour μ η σ) (s : Session μ η) (call : Invocation) : Bool :=
  Outcome.reportedSkip ⟨call, (s.deliver b call).2⟩

theorem heeded_cons_of_reportsSkip (h : s.reportsSkip b call = true) :
    s.heeded b (call :: calls) = (s.deliver b call).1.heeded b calls := by
  rw [heeded, outcomes, List.filter_cons_of_neg, heeded]
  rw [reportsSkip] at h
  simp [h]

theorem heeded_cons_of_not_reportsSkip (h : s.reportsSkip b call = false) :
    s.heeded b (call :: calls) =
      ⟨call, (s.deliver b call).2⟩ :: (s.deliver b call).1.heeded b calls := by
  rw [heeded, outcomes, List.filter_cons_of_pos, heeded]
  rw [reportsSkip] at h
  simp [h]

theorem check_of_not_reportsSkip (h : s.reportsSkip b call = false) :
    s.guard.check call.sequence = .ok () := by
  by_contra hpass
  obtain ⟨last, -, he⟩ := deliver_refused hpass b
  rw [reportsSkip, he] at h
  cases h

/-- whoever passed the guard and answers that an invocation is stale or finds no handler has changed
nothing; so it is while `calls` are delivered -/
def Forthright (b : Behaviour μ η σ) (s : Session μ η) : List Invocation → Prop
  | [] => True
  | call :: calls =>
    (s.reportsSkip b call = true → s.guard.check call.sequence = .ok () →
      (s.deliver b call).1 = { s with guard := s.guard.record call.sequence }) ∧
    Forthright b (s.deliver b call).1 calls

/-- what an invocation that is not reported leaves of the guard is its own number, or at least a
number close to those still to come -/
def Steady (b : Behaviour μ η σ) (s : Session μ η) : List Invocation → Prop
  | [] => True
  | call :: calls =>
    (s.reportsSkip b call = false →
      (s.deliver b call).1.guard = s.guard.record call.sequence ∨
        (s.deliver b call).1.guard.Near calls) ∧ Steady b (s.deliver b call).1 calls

/-- with handlers that do not answer in this way, it is not reported that a handler was found -/
theorem isSkip_dispatch
    (hb : ∀ handler c call e, (b.handle handler c call).2 = .error e → e.isSkip = false)
    {handler : η} (hh : s.handlerFor? call = some handler) {e : InvocationError}
    (he : (s.dispatch b call).2 = .error e) : e.isSkip = false := by
  unfold handlerFor? at hh
  split at hh
  · next hid =>
    obtain ⟨n, hn⟩ := Tree.contains_iff.1 hid
    rw [dispatch] at he
    simp only [hh, Tree.get?, hn, Option.map_some] at he
    split at he
    · next e' ha =>
      cases he
      exact hb handler n.component call e ha
    · split at he
      · cases he
      · cases he
        rfl
  · cases hh

theorem forthright_of_handlers
    (hb : ∀ handler c call e, (b.handle handler c call).2 = .error e → e.isSkip = false)
    (s : Session μ η) (calls : List Invocation) : s.Forthright b calls := by
  induction calls generalizing s with
  | nil => trivial
  | cons call calls ih =>
    refine ⟨fun hskip hpass => ?_, ih _⟩
    rw [reportsSkip, deliver_passed hpass] at hskip
    rw [deliver_passed hpass]
    cases hh : { s with guard := s.guard.record call.sequence }.handlerFor? call with
    | none => rw [dispatch_of_handlerFor_none hh]
    | some handler =>
      cases ha : ({ s with guard := s.guard.record call.sequence }.dispatch b call).2 with
      | ok =>
        rw [Outcome.reportedSkip_of_ok ha] at hskip
        cases hskip
      | error e =>
        rw [Outcome.reportedSkip_of_error ha, isSkip_dispatch hb hh ha] at hskip
        cases hskip

/-- only what delivers invocations itself while a message is delivered could move the guard -/
theorem steady_of_setup (hb : ∀ setup s id, (b.setup setup s id).1.guard = s.guard)
    (s : Session μ η) (calls : List Invocation) : s.Steady b calls := by
  induction calls generalizing s with
  | nil => trivial
  | cons call calls ih =>
    refine ⟨fun hs => .inl ?_, ih _⟩
    rw [deliver_passed (check_of_not_reportsSkip hs)]
    exact (across_guard hb).dispatch { s with guard := s.guard.record call.sequence } call

/-! ## Two deliveries in step -/

/-- `t` is what the delivery of fewer invocations has come to where all of them lead to `s`, and
`calls` are still to come -/
inductive InStep : Session μ η → Session μ η → List Invocation → Prop
  | same {s : Session μ η} {calls : List Invocation} : s.guard.Near calls → InStep s s calls
  | behind {s : Session μ η} {g : SequenceGuard} {calls : List Invocation} :
      g.allowDuplicate = s.guard.allowDuplicate →
      (∀ call ∈ calls, g.check call.sequence = .ok ()) → InStep s { s with guard := g } calls

theorem InStep.eq (h : InStep s t calls) : t = { s with guard := t.guard } := by
  cases h with
  | same => rfl
  | behind => rfl

/-- an invocation that is left out has moved the guard of `s` at most -/
theorem InStep.skip (h : InStep s t (call :: calls)) (hseq : Consecutive (call :: calls))
    (hs : s.guard.check call.sequence = .ok () →
      (s.deliver b call).1 = { s with guard := s.guard.record call.sequence }) :
    InStep (s.deliver b call).1 t calls := by
  by_cases hpass : s.guard.check call.sequence = .ok ()
  · rw [hs hpass]
    cases h with
    | same hnear =>
      have hlater := SequenceGuard.check_later hseq hnear hpass
      exact .behind (s := { s with guard := s.guard.record call.sequence }) rfl hlater
    | @behind g _ hdup hall =>
      exact .behind (s := { s with guard := s.guard.record call.sequence }) hdup
        fun c hc => hall c (List.mem_cons_of_mem _ hc)
  · obtain ⟨last, -, he⟩ := deliver_refused hpass b
    rw [he]
    cases h with
    | same hnear => exact .same hnear.tail
    | behind hdup hall => exact .behind hdup fun c hc => hall c (List.mem_cons_of_mem _ hc)

/-- an invocation that passes in `s` does the same in `t`, and brings the guards together again -/
theorem InStep.deliver (h : InStep s t (call :: calls))
    (hpass : s.guard.check call.sequence = .ok ()) : t.deliver b call = s.deliver b call := by
  cases h with
  | same => rfl
  | @behind g _ hdup hall =>
    have hrecord : g.record call.sequence = s.guard.record call.sequence := by
      simp only [SequenceGuard.record, hdup]
    have hpass' : g.check call.sequence = .ok () := hall call (List.mem_cons_self ..)
    rw [deliver_passed hpass, deliver_passed (show _ = _ from hpass')]
    show { s with guard := g.record call.sequence }.dispatch b call = _
    rw [hrecord]

/-- what is not reported does the same in both deliveries, and then they agree altogether -/
theorem InStep.run (h : InStep s t calls) (hseq : Consecutive calls) (hlen : calls.length < 32768)
    (hforthright : s.Forthright b calls) (hsteady : s.Steady b calls) :
    let left := (s.heeded b calls).map Outcome.call
    InStep (s.deliverAll b calls) (t.deliverAll b left) [] ∧
      t.outcomes b left = s.heeded b calls := by
  induction calls generalizing s t with
  | nil => exact ⟨h, rfl⟩
  | cons call calls ih =>
    have hlen' : calls.length < 32768 := by
      rw [List.length_cons] at hlen
      omega
    obtain ⟨hidle, hforthright⟩ := hforthright
    obtain ⟨hguard, hsteady⟩ := hsteady
    cases hs : s.reportsSkip b call with
    | true =>
      rw [heeded_cons_of_reportsSkip hs]
      exact ih (h.skip hseq (hidle hs)) hseq.tail hlen' hforthright hsteady
    | false =>
      have hd : t.deliver b call = s.deliver b call := h.deliver (check_of_not_reportsSkip hs)
      have hnear : (s.deliver b call).1.guard.Near calls := by
        rcases hguard hs with hrecord | hnear
        · rw [hrecord]
          exact SequenceGuard.near_record hseq hlen
        · exact hnear
      obtain ⟨hstep, hout⟩ := ih (.same hnear) hseq.tail hlen' hforthright hsteady
      rw [heeded_cons_of_not_reportsSkip hs]
      refine ⟨?_, ?_⟩
      · show InStep _ (deliverAll b (t.deliver b call).1 _) []
        rw [hd]
        exact hstep
      · show ⟨call, (t.deliver b call).2⟩ :: outcomes b (t.deliver b call).1 _ = _
        rw [hd, hout]

/-! ## Messages without what is skipped -/

/-- the message without the invocations that are reported as skipped when `s` gets it -/
def unskipped (b : Behaviour μ η σ) (s : Session μ η) (m : ClientMessage) : ClientMessage :=
  { m with invocations := ((s.greet m.lastResponse).heeded b m.invocations).map Outcome.call }

theorem receive_counts (b : Behaviour μ η σ) (s : Session μ η) (m : ClientMessage) :
    (s.receive b m).2.applied + (s.receive b m).2.failures.length = m.invocations.length := by
  rw [receive_eq]
  exact (Outcome.applied_add_failures _).trans (length_outcomes b _ _)

/-- the invocations that are reported as skipped make no difference to the others, nor to anything
of the session but its guard -/
structure Indifferent (b : Behaviour μ η σ) (s : Session μ η) (m : ClientMessage) : Prop where
  session : (s.receive b (s.unskipped b m)).1 =
    { (s.receive b m).1 with guard := (s.receive b (s.unskipped b m)).1.guard }
  applied : (s.receive b (s.unskipped b m)).2.applied = (s.receive b m).2.applied
  failures : (s.receive b (s.unskipped b m)).2.failures =
    (s.receive b m).2.failures.filter (!·.isSkip)
  resynchronized :
    (s.receive b (s.unskipped b m)).2.resynchronized = (s.receive b m).2.resynchronized

/-- Every invocation is applied or reported; and when all answers are forthright and the guard is
steady, what is reported as skipped makes no difference. -/
theorem receive_unskipped (b : Behaviour μ η σ) (s : Session μ η) (m : ClientMessage) :
    (s.receive b m).2.applied + (s.receive b m).2.failures.length = m.invocations.length ∧
      (Consecutive m.invocations → m.invocations.length < 32768 → s.guard.Near m.invocations →
        (s.greet m.lastResponse).Forthright b m.invocations →
        (s.greet m.lastResponse).Steady b m.invocations → s.Indifferent b m) := by
  refine ⟨receive_counts b s m, fun hseq hlen hnear hforthright hsteady => ?_⟩
  rw [← guard_greet s m.lastResponse] at hnear
  have hstart := InStep.same hnear
  obtain ⟨hsession, hout⟩ := hstart.run hseq hlen hforthright hsteady
  have hwhole := receive_eq b s m
  have hpart := receive_eq b s (s.unskipped b m)
  refine ⟨?_, ?_, ?_, ?_⟩
  · rw [hpart, hwhole]
    exact hsession.eq
  · rw [hpart, hwhole]
    exact (congrArg Outcome.applied hout).trans (Outcome.applied_filter _)
  · rw [hpart, hwhole]
    exact (congrArg Outcome.failures hout).trans (Outcome.failures_filter _)
  · rw [hpart, hwhole]
    rfl

/-! ### A view that gets notes -/

/-- the page notes that it is open, tells its peer, and gets a note with a view of its own -/
def unfolding : Behaviour Unit Unit Unit where
  hook _ c _ := .idle c.model
  handle _ c _ := (⟨c.model, [.set "open" (.bool true)], [⟨"View", "unfold", []⟩], [⟨1⟩],
    [.attach ⟨1⟩ ⟨"Note", .empty, ()⟩ (some ())]⟩, .ok ())
  setup _ s id :=
    match s.register id "View" () with
    | .ok s => (s, .ok ())
    | .error e => (s, .error e)

theorem setup_unfolding (s : Session Unit Unit) (id : ComponentId) :
    (unfolding.setup () s id).1 = s ∨
      s.register id "View" () = .ok (unfolding.setup () s id).1 := by
  unfold unfolding
  dsimp only
  split
  · next hr => exact .inr hr
  · exact .inl rfl

def lateViewed : Session Unit Unit :=
  { viewed with guard := viewed.guard.record (.ofNat 65534) }

/-- a call that comes again, one for a note that is not there yet, the call that brings it, and
another one for the note -/
def viewCalls : ClientMessage :=
  ⟨none, [⟨⟨1⟩, "View", "open", [], .ofNat 65534⟩, ⟨⟨2⟩, "View", "open", [], .ofNat 65535⟩,
    ⟨⟨1⟩, "View", "open", [], .ofNat 65536⟩, ⟨⟨2⟩, "View", "open", [], .ofNat 65537⟩]⟩

theorem consecutive_viewCalls : Consecutive viewCalls.invocations :=
  .cons_cons rfl (.cons_cons rfl (.cons_cons rfl (.singleton _)))

theorem near_viewCalls : lateViewed.guard.Near viewCalls.invocations := by
  intro last hlast call hc
  obtain rfl : SequenceNumber.ofNat 65534 = last := Option.some.inj hlast
  simp only [viewCalls, List.mem_cons, List.not_mem_nil, or_false] at hc
  rcases hc with rfl | rfl | rfl | rfl <;> rw [SequenceNumber.near_ofNat_iff] <;> decide

theorem steady_viewCalls :
    (lateViewed.greet viewCalls.lastResponse).Steady unfolding viewCalls.invocations := by
  refine steady_of_setup (fun _ s id => ?_) _ _
  rcases setup_unfolding s id with he | hr
  · exact congrArg Session.guard he
  · exact (congrArg Session.guard (register_ok hr) :)

theorem forthright_viewCalls :
    (lateViewed.greet viewCalls.lastResponse).Forthright unfolding viewCalls.invocations :=
  forthright_of_handlers (fun _ _ _ _ he => by cases he) _ _

theorem receive_unskipped_views :
    Consecutive viewCalls.invocations ∧ viewCalls.invocations.length < 32768 ∧
      lateViewed.guard.Near viewCalls.invocations ∧
      (lateViewed.greet viewCalls.lastResponse).Forthright unfolding viewCalls.invocations ∧
      (lateViewed.greet viewCalls.lastResponse).Steady unfolding viewCalls.invocations ∧
      (lateViewed.unskipped unfolding viewCalls).invocations.length = 2 ∧
      (lateViewed.receive unfolding viewCalls).2.failures.length = 2 ∧
      (lateViewed.receive unfolding (lateViewed.unskipped unfolding viewCalls)).2.applied = 2 ∧
      (lateViewed.receive unfolding (lateViewed.unskipped unfolding viewCalls)).2.failures = [] ∧
      lateViewed.Indifferent unfolding viewCalls := by
  have hlen : viewCalls.invocations.length < 32768 := by decide
  obtain ⟨-, h⟩ := receive_unskipped unfolding lateViewed viewCalls
  have hsame := h consecutive_viewCalls hlen near_viewCalls forthright_viewCalls steady_viewCalls
  exact ⟨consecutive_viewCalls, hlen, near_viewCalls, forthright_viewCalls, steady_viewCalls, rfl,
    rfl, hsame.applied.trans rfl, hsame.failures.trans rfl, hsame⟩

/-! ### Views that are not forthright or not steady -/

/-- the page notes that it is open, and then answers as if nobody had been there -/
def evasive : Behaviour Unit Unit Unit where
  hook _ c _ := .idle c.model
  handle _ c call := (⟨c.model, [.set "open" (.bool true)], [], [], []⟩,
    .error (.unknownTarget call.component call.interface))
  setup _ s _ := (s, .ok ())

/-- the page gets a note when it is opened; the setup of the note delivers two invocations, with
numbers that take the guard half a turn away from the third number of `strideCalls` -/
def striding : Behaviour Unit Unit Unit where
  hook _ c _ := .idle c.model
  handle _ c call := (⟨c.model, [], [], [], if call.method = "open" then
    [.attach ⟨1⟩ ⟨"Note", .empty, ()⟩ (some ())] else []⟩, .ok ())
  setup _ s id := (((s.deliver (.idle : Behaviour Unit Unit Unit)
    ⟨id, "View", "seen", [], .ofNat 20000⟩).1.deliver (.idle : Behaviour Unit Unit Unit)
    ⟨id, "View", "seen", [], .ofNat 32770⟩).1, .ok ())

theorem confined_striding : striding.Confined := by
  intro setup s id
  have hconfined : (.idle : Behaviour Unit Unit Unit).Confined := fun _ s _ => .refl s
  exact (Evolves.deliver s _ hconfined).trans (.deliver _ _ hconfined)

def openCall : ClientMessage := ⟨none, [⟨⟨1⟩, "View", "open", [], .ofNat 0⟩]⟩

def strideCalls : ClientMessage :=
  ⟨none, [⟨⟨1⟩, "View", "open", [], .ofNat 0⟩, ⟨⟨9⟩, "View", "open", [], .ofNat 1⟩,
    ⟨⟨1⟩, "View", "close", [], .ofNat 2⟩]⟩

/-- Without the two conditions, what is reported as skipped can make a difference: a handler may
have changed a field before it answers in this way, and a number that a setup left in a strict guard
may be half a turn away from a number to come, unless a skipped invocation moves the guard on. -/
theorem not_indifferent :
    (Evolves Unit (ofRoot ⟨"Page", .empty, ()⟩ {}) viewed ∧
      viewed.guard = .start false) ∧
    (evasive.Confined ∧ Consecutive openCall.invocations ∧
      openCall.invocations.length < 32768 ∧ viewed.guard.Near openCall.invocations ∧
      ¬ viewed.Indifferent evasive openCall) ∧
    (striding.Confined ∧ Consecutive strideCalls.invocations ∧
      strideCalls.invocations.length < 32768 ∧ viewed.guard.Near strideCalls.invocations ∧
      ¬ viewed.Indifferent striding strideCalls) := by
  have hviewed : (ofRoot ⟨"Page", .empty, ()⟩ {} : Session Unit Unit).register ⟨1⟩ "View" () =
      .ok viewed := rfl
  have hnear : ∀ calls, viewed.guard.Near calls := by
    intro calls last hlast
    cases hlast
  refine ⟨⟨.register hviewed, rfl⟩,
    ⟨fun _ s _ => .refl s, .singleton _, by decide, hnear _, fun h => ?_⟩,
    ⟨confined_striding, .cons_cons rfl (.cons_cons rfl (.singleton _)), by decide, hnear _,
      fun h => ?_⟩⟩
  · have hopen := congrArg (fun s : Session Unit Unit => s.tree.field? ⟨1⟩ "open") h.session
    have hpart : (viewed.receive evasive (viewed.unskipped evasive openCall)).1.tree.field? ⟨1⟩
      "open" = none := rfl
    have hwhole : (viewed.receive evasive openCall).1.tree.field? ⟨1⟩ "open" =
      some (.bool true) := rfl
    exact Option.some_ne_none _ (hwhole.symm.trans (hopen.symm.trans hpart))
  · have hpart : (viewed.receive striding (viewed.unskipped striding strideCalls)).2.applied = 1 :=
      rfl
    have hwhole : (viewed.receive striding strideCalls).2.applied = 2 := rfl
    rw [h.applied, hwhole] at hpart
    cases hpart

end Session

end UiSync
