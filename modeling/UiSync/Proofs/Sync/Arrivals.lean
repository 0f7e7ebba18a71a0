import UiSync.Proofs.Client
import UiSync.Proofs.Replica.Detaching

/-!
# Whatever arrives

A client queues invocations and takes requests while anything at all arrives: responses no server
would send, in any order, and octets that are no response (`Client.Act`).  An arrival is applied as
a whole or leaves the client as it was (`Client.perform_unapplied`, `Client.perform_applied`), and
it is applied exactly when it succeeds the last response that was applied and every one of its
changes finds the components it mentions (`Client.outcome_applied_iff`).

Over a whole run the responses that were applied therefore succeed one another, and their calls are
handed out in order and once (`Client.steadfast`).  Its replica is always one that changes have built
(`Client.built_performAll`), so no server can send it into a removal without end.
-/

namespace UiSync

open SequenceNumber

/-- the response is newer than the one numbered `last`, and without beginning anew the next one -/
def ServerMessage.Succeeds (m : ServerMessage) (last : SequenceNumber) : Prop :=
  m.sequence.isNewerThan last = true ∧ (m.resynchronize = false → m.sequence = last.next)

namespace Client

/-! ## One arrival -/

inductive Act where
  | invoke (component : ComponentId) (interface method : String) (args : List Json.Value)
  | takeRequest
  | takeCalls
  | apply (m : ServerMessage)
  | receive (payload : Json.Bytes)

def perform (c : Client) : Act → Client
  | .invoke component interface method args => (c.invoke component interface method args).2
  | .takeRequest => c.takeRequest.2
  | .takeCalls => c.takeCalls.2
  | .apply m => (c.apply m).1
  | .receive payload => (c.receive payload).1

def outcome (c : Client) : Act → Option (Except ClientError ApplyOutcome)
  | .apply m => some ((c.apply m).2.mapError .replica)
  | .receive payload => some (c.receive payload).2
  | _ => none

def Act.arrival? : Act → Option ServerMessage
  | .apply m => some m
  | .receive payload => (ServerMessage.decode payload).toOption
  | _ => none

def Expects (c : Client) (m : ServerMessage) : Prop :=
  ∀ last, c.lastResponse = some last → m.Succeeds last

variable {c : Client} {m : ServerMessage}

theorem judge_eq_applied_iff : c.judge m = .applied ↔ c.Expects m := by
  unfold Expects ServerMessage.Succeeds
  cases hl : c.lastResponse with
  | none => simp [judge_first hl]
  | some last =>
    simp only [Option.some.injEq, forall_eq']
    cases hn : m.sequence.isNewerThan last with
    | false => simp [judge_stale hl hn]
    | true =>
      cases hr : m.resynchronize with
      | true => simp [judge_resynchronize hl hn hr]
      | false =>
        by_cases hnext : m.sequence = last.next
        · simp [judge_next hl hnext, hnext]
        · simp [judge_outOfSync hl hn hr hnext, hnext]

/-- a response is applied exactly when it may be and nothing in it fails -/
theorem apply_applied_iff :
    (c.apply m).2 = .ok .applied ↔ c.Expects m ∧ ∃ r, c.replica.follow m = .ok r := by
  rw [← judge_eq_applied_iff]
  cases hj : c.judge m with
  | applied =>
    cases hf : c.replica.follow m with
    | ok r =>
      rw [apply_followed hj hf]
      simp
    | error e =>
      rw [apply_failed hj hf]
      simp
  | stale =>
    rw [apply_dropped hj (by decide)]
    simp
  | outOfSync =>
    rw [apply_dropped hj (by decide)]
    simp

/-- a response arrives in the same way read off its octets -/
theorem perform_arrival {a : Act} (h : a.arrival? = some m) :
    c.perform a = (c.apply m).1 ∧ c.outcome a = some ((c.apply m).2.mapError .replica) := by
  cases a with
  | invoke _ _ _ _ => cases h
  | takeRequest => cases h
  | takeCalls => cases h
  | apply m' =>
    obtain rfl : m' = m := Option.some.inj h
    exact ⟨rfl, rfl⟩
  | receive payload =>
    have hdecode : ServerMessage.decode payload = .ok m := by
      cases hd : ServerMessage.decode payload with
      | ok m' =>
        rw [Act.arrival?, hd] at h
        exact congrArg Except.ok (Option.some.inj h)
      | error e =>
        rw [Act.arrival?, hd] at h
        cases h
    have hreceive : c.receive payload = ((c.apply m).1, (c.apply m).2.mapError .replica) := by
      unfold receive
      rw [hdecode]
      cases he : c.apply m with
      | mk c' r => cases r <;> simp [he, Except.mapError]
    exact ⟨congrArg Prod.fst hreceive, congrArg some (congrArg Prod.snd hreceive)⟩

/-- octets that are no response leave the client as it was -/
theorem perform_malformed {a : Act} (h : a.arrival? = none)
    {o : Except ClientError ApplyOutcome} (ho : c.outcome a = some o) :
    c.perform a = c ∧ ∃ e, o = .error (.malformed e) := by
  cases a with
  | invoke _ _ _ _ => cases ho
  | takeRequest => cases ho
  | takeCalls => cases ho
  | apply m => cases h
  | receive payload =>
    cases hd : ServerMessage.decode payload with
    | ok m =>
      rw [Act.arrival?, hd] at h
      cases h
    | error e =>
      have hreceive : c.receive payload = (c, .error (.malformed e)) := by
        unfold receive
        rw [hd]
      obtain rfl : (c.receive payload).2 = o := Option.some.inj ho
      exact ⟨congrArg Prod.fst hreceive, e, congrArg Prod.snd hreceive⟩

theorem outcome_applied_iff {a : Act} : c.outcome a = some (.ok .applied) ↔
    ∃ m, a.arrival? = some m ∧ c.Expects m ∧ ∃ r, c.replica.follow m = .ok r := by
  have happlied (m : ServerMessage) : (c.apply m).2.mapError ClientError.replica = .ok .applied ↔
      (c.apply m).2 = .ok .applied := by
    cases (c.apply m).2 <;> simp [Except.mapError]
  constructor
  · intro ho
    cases ha : a.arrival? with
    | none =>
      obtain ⟨-, e, he⟩ := perform_malformed ha ho
      cases he
    | some m =>
      rw [(perform_arrival ha).2, Option.some.injEq, happlied] at ho
      exact ⟨m, rfl, apply_applied_iff.1 ho⟩
  · rintro ⟨m, ha, hm⟩
    rw [(perform_arrival ha).2, Option.some.injEq, happlied]
    exact apply_applied_iff.2 hm

/-- an arrival that is not applied leaves nothing behind, wherever it failed -/
theorem perform_unapplied {a : Act} {o : Except ClientError ApplyOutcome}
    (ho : c.outcome a = some o) (hne : o ≠ .ok .applied) : c.perform a = c := by
  cases ha : a.arrival? with
  | none => exact (perform_malformed ha ho).1
  | some m =>
    rw [(perform_arrival ha).1]
    have hpair : c.apply m = ((c.apply m).1, (c.apply m).2) := rfl
    refine apply_other hpair fun happly => hne ?_
    rw [(perform_arrival ha).2, happly] at ho
    exact (Option.some.inj ho).symm

/-- an arrival that is applied is applied as a whole -/
theorem perform_applied {a : Act} (ha : a.arrival? = some m) (hm : c.Expects m) {r : Replica}
    (hr : c.replica.follow m = .ok r) : c.perform a = { c with
      replica := r
      received := c.received ++ m.calls
      lastResponse := some m.sequence } := by
  rw [(perform_arrival ha).1, apply_followed (judge_eq_applied_iff.2 hm) hr]

/-! ## Runs -/

def performAll (c : Client) (acts : List Act) : Client := acts.foldl perform c

def appliedBy (c : Client) (a : Act) : Option ServerMessage :=
  match c.outcome a with
  | some (.ok .applied) => a.arrival?
  | _ => none

/-- the responses that a run applies, latest last -/
def applied (c : Client) : List Act → List ServerMessage
  | [] => []
  | a :: acts => (c.appliedBy a).toList ++ (c.perform a).applied acts

def takenBy (c : Client) : Act → List ClientCall
  | .takeCalls => c.takeCalls.1
  | _ => []

/-- the calls that a run hands out, latest last -/
def taken (c : Client) : List Act → List ClientCall
  | [] => []
  | a :: acts => c.takenBy a ++ (c.perform a).taken acts

/-- a client that applied the responses `applied` since it was new and handed out `taken` -/
structure Heard (applied : List ServerMessage) (taken : List ClientCall) (c : Client) : Prop where
  last : c.lastResponse = applied.getLast?.map ServerMessage.sequence
  ordered : applied.IsChain fun m m' => m'.Succeeds m.sequence
  calls : taken ++ c.received = applied.flatMap ServerMessage.calls

namespace Heard

variable {heard : List ServerMessage} {taken : List ClientCall}

theorem new : Heard [] [] Client.new := ⟨rfl, .nil, rfl⟩

/-- a client stays where it is as long as it hands out no calls and applies nothing -/
theorem congr (h : Heard heard taken c) {c' : Client} (hlast : c'.lastResponse = c.lastResponse)
    (hreceived : c'.received = c.received) : Heard heard taken c' :=
  ⟨hlast.trans h.last, h.ordered, hreceived ▸ h.calls⟩

theorem applies (h : Heard heard taken c) (hm : c.Expects m) (r : Replica) :
    Heard (heard ++ [m]) taken { c with
      replica := r
      received := c.received ++ m.calls
      lastResponse := some m.sequence } := by
  refine ⟨?_, ?_, ?_⟩
  · rw [List.getLast?_concat]
    rfl
  · rw [List.isChain_append]
    refine ⟨h.ordered, .singleton m, fun x hx y hy => ?_⟩
    obtain rfl : m = y := Option.some.inj hy
    refine hm x.sequence ?_
    rw [h.last, hx]
    rfl
  · rw [List.flatMap_append, ← h.calls, List.append_assoc, List.flatMap_singleton]

/-- one more act -/
theorem perform (h : Heard heard taken c) (a : Act) :
    Heard (heard ++ (c.appliedBy a).toList) (taken ++ c.takenBy a) (c.perform a) := by
  cases ho : c.outcome a with
  | none =>
    have happlied : c.appliedBy a = none := by rw [appliedBy, ho]
    rw [happlied]
    show Heard (heard ++ []) _ _
    rw [List.append_nil]
    cases a with
    | invoke component interface method args =>
      show Heard heard (taken ++ []) _
      rw [List.append_nil]
      exact h.congr rfl rfl
    | takeRequest =>
      show Heard heard (taken ++ []) _
      rw [List.append_nil]
      exact h.congr rfl rfl
    | takeCalls =>
      refine ⟨h.last, h.ordered, ?_⟩
      show (taken ++ c.received) ++ [] = _
      rw [List.append_nil, h.calls]
    | apply m => cases ho
    | receive payload => cases ho
  | some o =>
    have htaken : c.takenBy a = [] := by
      cases a with
      | takeCalls => cases ho
      | _ => rfl
    rw [htaken, List.append_nil]
    by_cases happly : o = .ok .applied
    · subst happly
      obtain ⟨m, ha, hm, r, hr⟩ := outcome_applied_iff.1 ho
      have happlied : c.appliedBy a = some m := by rw [appliedBy, ho, ha]
      rw [happlied, perform_applied ha hm hr]
      exact h.applies hm r
    · have happlied : c.appliedBy a = none := by
        unfold appliedBy
        rw [ho]
        split
        next he => exact absurd (Option.some.inj he) happly
        next => rfl
      rw [happlied, perform_unapplied ho happly]
      show Heard (heard ++ []) taken c
      rw [List.append_nil]
      exact h

/-- any number of acts -/
theorem performAll (h : Heard heard taken c) (acts : List Act) :
    Heard (heard ++ c.applied acts) (taken ++ c.taken acts) (c.performAll acts) := by
  induction acts generalizing c heard taken with
  | nil =>
    show Heard (heard ++ []) (taken ++ []) c
    rw [List.append_nil, List.append_nil]
    exact h
  | cons a acts ih =>
    have hrest := ih (h.perform a)
    rw [List.append_assoc, List.append_assoc] at hrest
    exact hrest

end Heard

/-! ## Every client -/

/-- what a client keeps to that did `acts` since it was new, whatever arrived meanwhile -/
structure Steadfast (acts : List Act) (c : Client) : Prop where
  /-- an arrival that is not applied changes nothing -/
  unapplied : ∀ a o, c.outcome a = some o → o ≠ .ok .applied → c.perform a = c
  /-- it is applied when it succeeds the last one and all of it can be applied -/
  applied_iff : ∀ a, c.outcome a = some (.ok .applied) ↔
    ∃ m, a.arrival? = some m ∧ c.Expects m ∧ ∃ r, c.replica.follow m = .ok r
  /-- then all of it is applied -/
  whole : ∀ a m r, a.arrival? = some m → c.Expects m → c.replica.follow m = .ok r →
    c.perform a = { c with
      replica := r
      received := c.received ++ m.calls
      lastResponse := some m.sequence }
  last : c.lastResponse = (new.applied acts).getLast?.map ServerMessage.sequence
  ordered : (new.applied acts).IsChain fun m m' => m'.Succeeds m.sequence
  /-- what was handed out and what is still kept are the calls of what was applied -/
  calls : new.taken acts ++ c.received = (new.applied acts).flatMap ServerMessage.calls

/-- Whatever arrives at a client and whenever, each arrival is applied as a whole or not at all,
those that are applied succeed one another, and their calls come out in order and once. -/
theorem steadfast (acts : List Act) : Steadfast acts (new.performAll acts) := by
  obtain ⟨hlast, hordered, hcalls⟩ := Heard.new.performAll acts
  exact {
    unapplied := fun a o ho hne => perform_unapplied ho hne
    applied_iff := fun a => outcome_applied_iff
    whole := fun a m r ha hm hr => perform_applied ha hm hr
    last := hlast
    ordered := hordered
    calls := hcalls }

/-! ## The replica -/

theorem built_follow {r r' : Replica} (h : r.Built) (hf : r.follow m = .ok r') : r'.Built := by
  unfold Replica.follow at hf
  cases hm : m.resynchronize with
  | false =>
    rw [hm] at hf
    exact h.applyMessage hf
  | true =>
    rw [hm] at hf
    exact Replica.Built.empty.applyMessage hf

theorem built_perform (h : c.replica.Built) (a : Act) : (c.perform a).replica.Built := by
  cases ho : c.outcome a with
  | none =>
    cases a with
    | apply m => cases ho
    | receive payload => cases ho
    | _ => exact h
  | some o =>
    by_cases happly : o = .ok .applied
    · subst happly
      obtain ⟨m, ha, hm, r, hr⟩ := outcome_applied_iff.1 ho
      rw [perform_applied ha hm hr]
      exact built_follow h hr
    · rw [perform_unapplied ho happly]
      exact h

/-- whatever arrives, the replica is what changes have made of an empty one -/
theorem built_performAll (acts : List Act) : (new.performAll acts).replica.Built := by
  have hkept (c : Client) (h : c.replica.Built) : (acts.foldl perform c).replica.Built := by
    induction acts generalizing c with
    | nil => exact h
    | cons a acts ih => exact ih _ (built_perform h a)
  exact hkept new .empty

end Client

end UiSync
