import UiSync.Proofs.Demo.Summing
import UiSync.Proofs.Session.Sends

/-!
# Round trips with the calculator

`Trips` says that a client and a session of the form got somewhere by round trips of which nothing
was lost, each with any invocations of the interface of the calculator.  Between two of them the
session is at rest (`Resting`): the calculator is dirty before the first one only, so the next
response runs its hook exactly if it is the first one or a setter comes before it.

The client applies every response and shows the terms of the last setters and their sum
(`sum_shown`).
-/

namespace UiSync.Demo

open Json
open Cascade (runsOf)

/-! ## Requests -/

def ask (c : Client) : List SumCall → Client
  | [] => c
  | q :: calls => ask (c.invoke q.component Interface.sum q.method q.args).2 calls

theorem ask_eq (c : Client) (calls : List SumCall) : ask c calls = { c with
    nextSequence := numberAfter c.nextSequence calls
    outgoing := c.outgoing ++ (numberedFrom c.nextSequence calls).toArray } := by
  induction calls generalizing c with
  | nil =>
    show c = { c with outgoing := c.outgoing ++ (#[] : Array Invocation) }
    rw [Array.append_empty]
  | cons q calls ih =>
    rw [ask, ih]
    show { c with
      nextSequence := numberAfter c.nextSequence.next calls
      outgoing := c.outgoing.push (q.numbered c.nextSequence) ++
        (numberedFrom c.nextSequence.next calls).toArray } = { c with
      nextSequence := numberAfter c.nextSequence.next calls
      outgoing := c.outgoing ++
        (q.numbered c.nextSequence :: numberedFrom c.nextSequence.next calls).toArray }
    rw [List.push_append_toArray]

def request (c : Client) (calls : List SumCall) : ClientMessage := (ask c calls).takeRequest.1

/-- the client that sent them and waits for the answer -/
def awaiting (c : Client) (calls : List SumCall) : Client := (ask c calls).takeRequest.2

theorem request_eq {c : Client} (h : c.outgoing = #[]) (calls : List SumCall) :
    request c calls = ⟨c.lastResponse, numberedFrom c.nextSequence calls⟩ := by
  rw [request, ask_eq, h]
  simp [Client.takeRequest]

theorem awaiting_eq {c : Client} (h : c.outgoing = #[]) (calls : List SumCall) :
    awaiting c calls = { c with nextSequence := numberAfter c.nextSequence calls } := by
  rw [awaiting, ask_eq]
  show { c with nextSequence := numberAfter c.nextSequence calls, outgoing := #[] } = _
  rw [← h]

/-! ## Runs of the hook -/

/-- the hook runs for the first response and for those after a setter -/
def wakes (history : List (List SumCall)) (calls : List SumCall) : Bool :=
  history.isEmpty || calls.any SumCall.isSetter

def awakenings : List (List SumCall) → Nat
  | [] => 0
  | _ :: later => 1 + later.countP fun calls => calls.any SumCall.isSetter

theorem awakenings_concat (history : List (List SumCall)) (calls : List SumCall) :
    awakenings (history ++ [calls]) = awakenings history + (wakes history calls).toNat := by
  cases history with
  | nil => rfl
  | cons first later =>
    show 1 + (later ++ [calls]).countP _ = 1 + later.countP _ + (calls.any SumCall.isSetter).toNat
    rw [List.countP_append, ← Nat.add_assoc, List.countP_singleton]
    cases calls.any SumCall.isSetter with
    | true => rfl
    | false => rfl

def term (method : String) (history : List (List SumCall)) : Int := latest method 0 history.flatten

theorem term_concat (method : String) (history : List (List SumCall)) (calls : List SumCall) :
    term method (history ++ [calls]) = latest method (term method history) calls := by
  rw [term, List.flatten_append, latest_append, List.flatten_singleton, term]

/-! ## What is sent -/

def termNames : List String := ["term1", "term2", "sum"]

def sentField? (t : Tree Model) (id : ComponentId) (name : String) : Option Value :=
  (t.get? id).bind fun c => c.fields.sent.get? name

/-- a calculator that was sent, and holds what was sent, is not sent again -/
theorem Holds.pendingDiff {x y : Int} {runs : Nat} {c : Part} (h : Holds x y runs c)
    (hsent : c.fields.everSent = true)
    (hothers : ∀ name ∉ termNames, c.fields.sent.get? name = none)
    (hsame : ∀ name ∈ termNames, c.fields.sent.get? name = c.fields.get? name) :
    c.fields.pendingDiff = none := by
  refine FieldBag.pendingDiff_eq_none hsent fun name => ?_
  by_cases hname : name ∈ termNames
  · have hget : c.fields.sent.get? name = c.fields.fields.get? name := hsame name hname
    rw [hget]
    exact FieldBag.sameField_refl _
  · simp only [termNames, List.mem_cons, List.not_mem_nil, or_false, not_or] at hname
    have hnone : c.fields.fields.get? name = none := h.others name hname.1 hname.2.1 hname.2.2
    rw [hnone, hothers name (by simpa [termNames] using hname)]
    rfl

/-! ## What is shown -/

/-- the replica shows these terms and their sum -/
structure SumShown (r : Replica) (x y : Int) : Prop where
  term1 : r.field? Place.calculator "term1" = some (.ofInt x)
  term2 : r.field? Place.calculator "term2" = some (.ofInt y)
  sum : r.field? Place.calculator "sum" = some (.ofInt (x + y))

theorem Summing.mirrored {s : PartSession} {x y : Int} {runs : Nat} (h : Summing s x y runs)
    (hclean : s.isDirty Place.calculator = false) (hfit : Signed (x + y)) {r : Replica}
    (hm : r.Mirrors FieldBag.fields s.tree) : SumShown r x y := by
  obtain ⟨d, hd, hholds, hsum⟩ := h.holds
  have hshown : ∀ name z, Signed z → d.fields.get? name = some (.ofInt z) →
      r.field? Place.calculator name = some (.ofInt z) := by
    intro name z hz hget
    have hfield : s.tree.field? Place.calculator name = some (.ofInt z) := by
      rw [Tree.field?, hd]
      exact hget
    rw [← hfield]
    refine hm.field?_eq fun v hv => ?_
    obtain rfl := Option.some.inj (hfield.symm.trans hv)
    exact hz.sharp
  have hsum' := hsum hclean
  rw [hfit.wrapSigned] at hsum'
  exact ⟨hshown _ _ h.signed.1 hholds.term1, hshown _ _ h.signed.2 hholds.term2,
    hshown _ _ hfit hsum'⟩

/-! ## Rest -/

/-- a session of a form between two round trips with a client -/
structure Resting (history : List (List SumCall)) (c : Client) (s : PartSession) : Prop where
  synced : ∃ log, Synced log c s
  idle : c.outgoing = #[]
  expects : s.guard.Expects c.nextSequence
  summing : Summing s (term "setTerm1" history) (term "setTerm2" history) (awakenings history)
  dirty : s.isDirty Place.calculator = history.isEmpty
  unsent : history = [] → sentField? s.tree Place.calculator "term1" = none

namespace Resting

variable {rows : List Row} {history : List (List SumCall)} {c : Client} {s s' : PartSession}
  {report : InvocationReport} {response : Response}

theorem start (config : Config) : Resting [] Client.new (formSession config) where
  synced := ⟨[], .new (recorded_form config)⟩
  idle := rfl
  expects := by
    have hguard : (formSession config).guard.lastApplied = none := by cbv
    intro last hlast
    rw [hguard] at hlast
    cases hlast
  summing := .start config
  dirty := by cbv
  unsent := fun _ => by cbv

/-- the session gets the calls under the numbers that it expects -/
theorem receive (h : Resting history c s) (rows : List Row) (calls : List SumCall) :
    (s.receive (behaviour rows) (request c calls)).1 =
      s.deliverAll (behaviour rows) (numberedFrom c.nextSequence calls) := by
  obtain ⟨log, hsynced⟩ := h.synced
  rw [Session.receive_eq, request_eq h.idle]
  show (s.greet c.lastResponse).deliverAll _ _ = _
  rw [hsynced.greet]

/-- what the calls of a request leave behind -/
theorem delivered (h : Resting history c s) (rows : List Row) (calls : List SumCall) :
    ((s.greet (request c calls).lastResponse).outcomes (behaviour rows)
        (request c calls).invocations).map (fun o => o.answer.isOk) = calls.map SumCall.isSetter ∧
      Summing.After s (s.receive (behaviour rows) (request c calls)).1
        (numberAfter c.nextSequence calls) calls ∧
      Summing (s.receive (behaviour rows) (request c calls)).1
        (term "setTerm1" (history ++ [calls])) (term "setTerm2" (history ++ [calls]))
        (awakenings history) := by
  obtain ⟨log, hsynced⟩ := h.synced
  rw [h.receive rows calls, request_eq h.idle, hsynced.greet, term_concat, term_concat]
  exact h.summing.deliverAll h.expects rows calls

theorem due (h : Resting history c s) (rows : List Row) (calls : List SumCall) :
    Summing.due (s.receive (behaviour rows) (request c calls)).1 = (wakes history calls).toNat := by
  obtain ⟨-, hafter, -⟩ := h.delivered rows calls
  rw [Summing.due, hafter.dirty, h.dirty, wakes]
  cases history.isEmpty || calls.any SumCall.isSetter with
  | true => rfl
  | false => rfl

/-- the client applies the answer -/
theorem applied (h : Resting history c s) {calls : List SumCall}
    (hx : Server.exchange (behaviour rows) (request c calls) s = (s', report, .ok response)) :
    ∃ c', (awaiting c calls).apply response.message = (c', .ok .applied) ∧
      (∃ log, Synced log c' s') ∧ c'.replica.Mirrors FieldBag.sent s'.tree := by
  obtain ⟨log, hsynced⟩ := h.synced
  have hwaiting : Synced log (awaiting c calls) s := by
    rw [awaiting_eq h.idle]
    exact ⟨hsynced.recorded, hsynced.replica, hsynced.last⟩
  obtain ⟨c', happly, hsynced', hm⟩ := hwaiting.exchange (regular_behaviour rows) hx
  exact ⟨c', happly, ⟨_, hsynced'⟩, hm⟩

/-- the session is at rest again after an answer that the client applied -/
theorem trip (h : Resting history c s) {calls : List SumCall}
    (hx : Server.exchange (behaviour rows) (request c calls) s = (s', report, .ok response)) :
    Resting (history ++ [calls]) ((awaiting c calls).apply response.message).1 s' := by
  obtain ⟨c', happly, hsynced, -⟩ := h.applied hx
  obtain ⟨hout, hnext⟩ := Client.apply_outgoing (awaiting c calls) response.message
  obtain ⟨-, hafter, hsumming⟩ := h.delivered rows calls
  have hr := (exchange_ok hx).2
  obtain ⟨-, hsumming', hclean⟩ := hsumming.respond hr
  rw [h.due rows calls, ← awakenings_concat] at hsumming'
  refine ⟨?_, ?_, ?_, hsumming', ?_, fun hnil => ?_⟩
  · rw [happly]
    exact hsynced
  · rw [hout, awaiting_eq h.idle]
    exact h.idle
  · obtain ⟨k, -, rfl, -⟩ := Session.respond_ok hr
    rw [hnext, awaiting_eq h.idle]
    exact hafter.expects
  · rw [hclean]
    cases history with
    | nil => rfl
    | cons first later => rfl
  · cases history with
    | nil => cases hnil
    | cons first later => cases hnil

/-- what the calculator was sent with, before the first round trip nothing -/
theorem sentBefore (h : Resting history c s) :
    ∃ d, s.tree.get? Place.calculator = some d ∧
      (d.fields.sent.get? "term1" = none ∨
        d.fields.everSent = true ∧ ∀ name ∉ termNames, d.fields.sent.get? name = none) := by
  obtain ⟨d, hd, hholds, -⟩ := h.summing.holds
  refine ⟨d, hd, ?_⟩
  by_cases hnil : history = []
  · have hunsent := h.unsent hnil
    rw [sentField?, hd] at hunsent
    exact .inl hunsent
  · have hclean : s.isDirty Place.calculator = false := by
      rw [h.dirty, List.isEmpty_eq_false_iff]
      exact hnil
    have hup := h.summing.formed.current.clean _ d hd hclean
    refine .inr ⟨hup.everSent, fun name hname => ?_⟩
    simp only [termNames, List.mem_cons, List.not_mem_nil, or_false, not_or] at hname
    have hsame := hup.same name
    have hnone : d.fields.fields.get? name = none := hholds.others name hname.1 hname.2.1 hname.2.2
    rw [hnone] at hsame
    exact FieldBag.sameField_none_right.1 hsame

/-- the calculator is sent only if a field is not what was sent for it before -/
theorem differs (h : Resting history c s) {calls : List SumCall}
    (hx : Server.exchange (behaviour rows) (request c calls) s = (s', report, .ok response))
    (hmem : Place.calculator ∈ response.message.changes.map FieldChange.component) :
    ∃ name ∈ termNames, s'.tree.field? Place.calculator name ≠
      sentField? s.tree Place.calculator name := by
  obtain ⟨-, hafter, hsumming⟩ := h.delivered rows calls
  obtain ⟨k, hk, rfl, hmsg⟩ := Session.respond_ok (exchange_ok hx).2
  rw [hmsg, Session.mem_map_changes_iff] at hmem
  obtain ⟨hid, e, diff, he, hdiff⟩ := hmem
  obtain ⟨-, e', he', hholds, -⟩ := hsumming.finalize hk
  obtain rfl := Option.some.inj (he.symm.trans he')
  obtain ⟨d, hd, hbefore⟩ := h.sentBefore
  have hedited := hafter.edited.trans (Session.edited_of_finalize hk)
  obtain ⟨e', he', hde⟩ := hedited.components _ d hd
  obtain rfl := Option.some.inj (he.symm.trans he')
  have hwk := hedited.shape.wellFormed h.summing.formed.current.wellFormed
  have hsent := Session.get?_commitFields_of_mem (Cascade.nodup_finalized hwk) hid k.tree
  rw [he] at hsent
  by_contra hno
  have hsame : ∀ name ∈ termNames, e.fields.sent.get? name = e.fields.get? name := by
    intro name hname
    have hfield : (Session.commitFields k.tree k.finalized).field? Place.calculator name =
        sentField? s.tree Place.calculator name :=
      by_contra fun hne => hno ⟨name, hname, hne⟩
    rw [Tree.field?, hsent, sentField?, hd] at hfield
    rw [hde.sent]
    exact hfield.symm
  rcases hbefore with hnone | ⟨hever, hothers⟩
  · have hterm := hsame "term1" List.mem_cons_self
    rw [hholds.term1, hde.sent, hnone] at hterm
    cases hterm
  · have hquiet := hholds.pendingDiff (hde.everSent.trans hever)
      (fun name hname => hde.sent ▸ hothers name hname) hsame
    rw [hquiet] at hdiff
    cases hdiff

end Resting

/-! ## Runs -/

/-- a client and a session of the form got here by round trips with these calls -/
inductive Trips (config : Config) : List (List SumCall) → Client → PartSession → Prop
  | start : Trips config [] Client.new (formSession config)
  | trip {history : List (List SumCall)} {c : Client} {s s' : PartSession}
      {report : InvocationReport} {response : Response} (rows : List Row)
      (calls : List SumCall) : Trips config history c s →
        Server.exchange (behaviour rows) (request c calls) s = (s', report, .ok response) →
        Trips config (history ++ [calls]) ((awaiting c calls).apply response.message).1 s'

theorem Trips.resting {config : Config} {history : List (List SumCall)} {c : Client}
    {s : PartSession} (h : Trips config history c s) : Resting history c s := by
  induction h with
  | start => exact .start config
  | trip rows calls _ hx ih => exact ih.trip hx

theorem Trips.config {config : Config} {history : List (List SumCall)} {c : Client}
    {s : PartSession} (h : Trips config history c s) : s.config = config := by
  induction h with
  | start => cbv
  | @trip history c s s' report response rows calls h hx ih =>
    obtain ⟨-, hafter, -⟩ := h.resting.delivered rows calls
    obtain ⟨k, -, rfl, -⟩ := Session.respond_ok (exchange_ok hx).2
    exact hafter.config.trans ih

/-- Whatever invocations the next round trip has, the setters among them succeed and no others, and
the hook of the calculator runs once if there are setters or no round trip was before, and else not
at all.  The calculator is sent only if one of its fields is another than what was sent before, and
the client shows the terms of the last setters and their sum. -/
theorem sum_shown {config : Config} {history : List (List SumCall)} {c : Client} {s : PartSession}
    (h : Trips config history c s) (rows : List Row) (calls : List SumCall) :
    (2 ≤ config.maxFinalizePasses → config.maxResponseBytes = none → ∃ s' report response,
      Server.exchange (behaviour rows) (request c calls) s = (s', report, .ok response)) ∧
    ∀ s' report response,
      Server.exchange (behaviour rows) (request c calls) s = (s', report, .ok response) →
      ((s.greet (request c calls).lastResponse).outcomes (behaviour rows)
        (request c calls).invocations).map (fun o => o.answer.isOk) =
          calls.map SumCall.isSetter ∧
      (runsOf Place.calculator ((s.receive (behaviour rows) (request c calls)).1.hookRuns
        (behaviour rows))).length = (wakes history calls).toNat ∧
      (∃ d, s'.tree.get? Place.calculator = some d ∧
        d.model = .calculator (awakenings (history ++ [calls]))) ∧
      (Place.calculator ∈ response.message.changes.map FieldChange.component →
        ∃ name ∈ termNames, s'.tree.field? Place.calculator name ≠
          sentField? s.tree Place.calculator name) ∧
      (Signed (term "setTerm1" (history ++ [calls]) + term "setTerm2" (history ++ [calls])) →
        ∃ c', (awaiting c calls).apply response.message = (c', .ok .applied) ∧
          SumShown c'.replica (term "setTerm1" (history ++ [calls]))
            (term "setTerm2" (history ++ [calls]))) := by
  have hrest := h.resting
  obtain ⟨hanswers, hafter, hsumming⟩ := hrest.delivered rows calls
  constructor
  · intro hpasses hbytes
    have hconfig := hafter.config.trans h.config
    obtain ⟨s', response, hr⟩ := hsumming.formed.answers rows (by rw [hconfig]; exact hpasses)
      (by rw [hconfig]; exact hbytes)
    exact ⟨s', _, response, exchange_of_respond hr⟩
  · intro s' report response hx
    have hr := (exchange_ok hx).2
    obtain ⟨hruns, -⟩ := hsumming.respond hr
    have hnext := hrest.trip hx
    obtain ⟨d, hd, hholds, -⟩ := hnext.summing.holds
    refine ⟨hanswers, hruns.trans (hrest.due rows calls), ⟨d, hd, hholds.model⟩, hrest.differs hx,
      fun hfit => ?_⟩
    obtain ⟨c', happly, -, hmirror⟩ := hrest.applied hx
    refine ⟨c', happly, hnext.summing.mirrored ?_ hfit ?_⟩
    · rw [hnext.dirty]
      exact List.isEmpty_eq_false_iff.2
        (List.append_ne_nil_of_right_ne_nil _ (List.cons_ne_nil _ _))
    · exact hmirror.fields_iff.2 (hsumming.formed.current.upToDate hr)

def firstCalls : List SumCall := [⟨Place.calculator, "setTerm1", [.ofNat 40]⟩]

/-- the second term is set twice; no other call is a setter -/
def secondCalls : List SumCall :=
  [⟨Place.calculator, "setTerm2", [.ofNat 5]⟩, ⟨Place.calculator, "setTerm1", [.string "6"]⟩,
    ⟨Place.calculator, "setTerm1", []⟩, ⟨Place.calculator, "setTerm3", [.ofNat 7]⟩,
    ⟨Place.name, "setTerm1", [.ofNat 8]⟩, ⟨Place.calculator, "setTerm2", [.ofNat 2, .ofNat 9]⟩]

theorem sum_shown_fortyTwo : ∃ c s s' report response c', Trips {} [firstCalls] c s ∧
    Server.exchange (behaviour []) (request c secondCalls) s = (s', report, .ok response) ∧
    secondCalls.map SumCall.isSetter = [true, false, false, false, false, true] ∧
    (runsOf Place.calculator ((s.receive (behaviour []) (request c secondCalls)).1.hookRuns
      (behaviour []))).length = 1 ∧
    (∃ d, s'.tree.get? Place.calculator = some d ∧ d.model = .calculator 2) ∧
    (awaiting c secondCalls).apply response.message = (c', .ok .applied) ∧
    SumShown c'.replica 40 2 := by
  have hstart : Trips {} [] Client.new (formSession {}) := .start
  obtain ⟨s, report, response, hx⟩ := (sum_shown hstart [] firstCalls).1 (by decide) rfl
  have hfirst : Trips {} [firstCalls] _ s := hstart.trip [] firstCalls hx
  obtain ⟨hanswered, htrip⟩ := sum_shown hfirst [] secondCalls
  obtain ⟨s', report', response', hx'⟩ := hanswered (by decide) rfl
  obtain ⟨-, hruns, hmodel, -, hshown⟩ := htrip _ _ _ hx'
  obtain ⟨c', happly, hsum⟩ := hshown ⟨by decide, by decide⟩
  exact ⟨_, s, s', report', response', c', hfirst, hx', by decide, hruns, hmodel, happly, hsum⟩

end UiSync.Demo
