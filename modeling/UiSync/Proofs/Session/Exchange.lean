import UiSync.Proofs.Session.History
import UiSync.Server

/-!
# One exchange

An exchange delivers a message to a session and writes the response.  When the response could be
written, it carries the next number and leads the replica the session keeps track of to a mirror
of what was sent with it (`Recorded.exchange`).  An exchange with a client that missed a response,
none of whose invocations takes marks away, sends everything there is (`exchange_missed`).
-/

namespace UiSync

open SequenceNumber

variable {μ η σ : Type} {clears : Bool} {b : Behaviour μ η σ} {log : List (Commit μ)}
  {s s' : Session μ η} {m : ClientMessage} {report : InvocationReport} {response : Response}

theorem exchange_ok (h : Server.exchange b m s = (s', report, .ok response)) :
    s.receive b m = ((s.receive b m).1, report) ∧
      (s.receive b m).1.respond b = (s', .ok response) := by
  unfold Server.exchange at h
  cases hs : s.receive b m with
  | mk s₁ report₁ =>
    simp only [hs, Prod.mk.injEq] at h
    obtain ⟨h₁, rfl, h₂⟩ := h
    exact ⟨rfl, Prod.ext h₁ h₂⟩

theorem exchange_error {e : ResponseError} (h : Server.exchange b m s = (s', report, .error e)) :
    (s.receive b m).1.respond b = (s', .error e) := by
  unfold Server.exchange at h
  cases hs : s.receive b m with
  | mk s₁ report₁ =>
    simp only [hs, Prod.mk.injEq] at h
    exact Prod.ext h.1 h.2.2

/-- the answer begins anew when the session was asked to, and tells the waiting changes -/
theorem exchange_message (h : Server.exchange b m s = (s', report, .ok response)) :
    response.message.resynchronize = (s.receive b m).1.resyncPending ∧
      response.message.hierarchy = (s.receive b m).1.hierarchy := by
  obtain ⟨-, hr⟩ := exchange_ok h
  obtain ⟨c, -, -, hmsg⟩ := Session.respond_ok hr
  rw [hmsg]
  exact ⟨rfl, rfl⟩

theorem History.exchange (h : History σ log s) (hb : b.Regular true)
    (hx : Server.exchange b m s = (s', report, .ok response)) :
    History σ (log ++ [⟨response.message, s'.tree⟩]) s' :=
  (h.receive m hb).respond (exchange_ok hx).2

theorem History.exchange_error {e : ResponseError} (h : History σ log s) (hb : b.Regular true)
    (hx : Server.exchange b m s = (s', report, .error e)) : History σ log s' :=
  (h.receive m hb).unanswered (UiSync.exchange_error hx)

theorem exchange_of_respond (h : (s.receive b m).1.respond b = (s', .ok response)) :
    Server.exchange b m s = (s', (s.receive b m).2, .ok response) := by
  simp only [Server.exchange, h]

/-- a message of a client that missed a response has the session begin anew -/
theorem pending_receive (hb : b.Regular clears) (hm : s.missed m.lastResponse = true) :
    (s.receive b m).1.resyncPending = true := by
  refine (Session.acts_receive_greet hb s m).kept.pending ?_
  rw [Session.greet, if_pos hm]
  rfl

/-! ## Clients that missed a response -/

/-- the session as it greets a client that missed a response knows what every replica is missing,
and everything is due -/
theorem greet_missed (hw : s.tree.WellFormed) (hm : s.missed m.lastResponse = true)
    (r : Replica) :
    (s.greet m.lastResponse).Tracks r ∧ (s.greet m.lastResponse).Due := by
  rw [Session.greet, if_pos hm]
  exact ⟨.requestResync hw r, .requestResync hw⟩

theorem due_receive (hw : s.tree.WellFormed) (hb : b.Regular false)
    (hm : s.missed m.lastResponse = true) : (s.receive b m).1.Due := by
  obtain ⟨htracks, hdue⟩ := greet_missed hw hm ∅
  exact hdue.acts htracks (Session.acts_receive_greet hb s m)

/-- a client that missed a response is sent everything there is, whatever the session had sent -/
theorem exchange_missed (hw : s.tree.WellFormed) (hb : b.Regular false)
    (hm : s.missed m.lastResponse = true)
    (hx : Server.exchange b m s = (s', report, .ok response)) :
    response.message.resynchronize = true ∧ ∀ r : Replica,
      ∃ r', r.follow response.message = .ok r' ∧ r'.Mirrors FieldBag.fields s'.tree := by
  have hdue := due_receive hw hb hm
  have hacts := Session.acts_receive_greet hb s m
  obtain ⟨-, hr⟩ := exchange_ok hx
  refine ⟨(exchange_message hx).1.trans hdue.pending, fun r => ?_⟩
  have htracks := (greet_missed hw hm r).1.acts hacts
  obtain ⟨r', hfollow, hmirror, -⟩ := htracks.respond_ok hr
  exact ⟨r', hfollow, hmirror.fields_iff.2 (hdue.upToDate htracks.wellFormed hr)⟩

namespace Recorded

/-- an exchange is answered when hooks mark nothing and the size of a response is not limited -/
theorem exchange_quiet (h : Recorded log s) (hq : b.Quiet) (hb : b.Regular clears)
    (hl : s.config.maxResponseBytes = none) (hp : 0 < s.config.maxFinalizePasses)
    (m : ClientMessage) :
    ∃ s' report response, Server.exchange b m s = (s', report, .ok response) := by
  have hacts := Session.acts_receive hb s m
  have hconfig := hacts.kept.config
  obtain ⟨s', response, hr⟩ := Session.respond_quiet hq (h.acts hacts).wellFormed
    (hconfig ▸ hl) (hconfig ▸ hp)
  exact ⟨s', _, response, exchange_of_respond hr⟩

/-- with the usual limits nothing keeps an idle session from answering -/
theorem exchange_idle (h : Recorded log s) (hc : s.config = {}) (m : ClientMessage) :
    ∃ s' report response,
      Server.exchange (.idle : Behaviour μ η σ) m s = (s', report, .ok response) := by
  refine h.exchange_quiet Behaviour.quiet_idle (Behaviour.regular_idle true) ?_ ?_ m
  · rw [hc]
  · rw [hc]
    exact Nat.zero_lt_succ 63

/-- what an exchange tells a client -/
theorem exchange (h : Recorded log s) (hb : b.Regular clears)
    (hx : Server.exchange b m s = (s', report, .ok response)) :
    Recorded (log ++ [⟨response.message, s'.tree⟩]) s' ∧
      response.message.sequence = ofNat log.length ∧
      ∃ r r', replay log = .ok r ∧ r.follow response.message = .ok r' ∧
        r'.Mirrors FieldBag.sent s'.tree := by
  obtain ⟨-, hr⟩ := exchange_ok hx
  have h₁ : Recorded log (s.receive b m).1 := h.acts (Session.acts_receive hb s m)
  obtain ⟨r, hreplay, ht⟩ := h₁.tracks
  obtain ⟨r', hfollow, hm, -⟩ := ht.respond_ok hr
  obtain ⟨c, -, -, hmsg⟩ := Session.respond_ok hr
  refine ⟨h₁.respond hr, ?_, r, r', hreplay, hfollow, hm⟩
  rw [hmsg]
  exact h₁.nextSequence

/-- an answer that begins anew leads every replica to a mirror -/
theorem exchange_resynchronize (h : Recorded log s) (hb : b.Regular clears)
    (hx : Server.exchange b m s = (s', report, .ok response))
    (hflag : response.message.resynchronize = true) (r : Replica) :
    ∃ r', r.follow response.message = .ok r' ∧ r'.Mirrors FieldBag.sent s'.tree := by
  obtain ⟨-, -, r₀, r', -, hfollow, hm⟩ := h.exchange hb hx
  exact ⟨r', (Replica.follow_resynchronize hflag r r₀).trans hfollow, hm⟩

theorem missed_iff (h : Recorded log s) {seen : SequenceNumber} :
    s.missed (some seen) = true ↔ some seen ≠ lastNumber log := by
  rw [Session.missed, h.last]
  exact bne_iff_ne

end Recorded

end UiSync
