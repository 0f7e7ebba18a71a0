import UiSync.Proofs.Client
import UiSync.Proofs.Session.Exchange

/-!
# A client that comes back to a session built anew

When a session is ended, the next request for it builds a new one (`ui_context_endSession`), whose
responses are numbered from 0 again.  A client that still reports a response of the old session
compares the new numbers with the old one.  `Comeback σ old log s c` says that it did so for some
round trips and that no response of the new session was applied yet.

`restart_iff` says when its next round trip shows it the new session: exactly when the number of
the response counts as ahead of the one it reports, and the two numbers do not happen to follow
each other, which the session takes for a client that missed nothing.  In that case the response is
told relative to what the new session sent, and the client applies it to what it has of the old one.
-/

namespace UiSync

open SequenceNumber

variable {μ η σ ℓ ω : Type}

/-- the first request after the end of a session finds a new one -/
theorem ui_context_endSession (site : Site μ η σ ℓ ω) (server : Server μ η ℓ) (id : SessionId) :
    ((server.endSession id).context site id).2.1.ui = site.build id server.config := by
  have hgone : (server.endSession id).context? id = none := by
    rw [Server.context?, Server.endSession, Dict.get?_erase_self]
    rfl
  rw [Server.context, hgone]
  rfl

/-- a client that has nothing but what it had of another session, after round trips with a session
that was built anew -/
inductive Comeback (σ : Type) (old : Client) :
    List (Commit μ) → Session μ η → Client → Prop
  | meet {ℓ ω : Type} {site : Site μ η σ ℓ ω} {server : Server μ η ℓ} {id : SessionId} :
      History σ [] (site.build id server.config) →
        Comeback σ old [] ((server.endSession id).context site id).2.1.ui old
  | act {log : List (Commit μ)} {s s' : Session μ η} {c : Client} :
      Comeback σ old log s c → Session.Act true s s' → Comeback σ old log s' c
  | invoke {log : List (Commit μ)} {s : Session μ η} {c : Client} (component : ComponentId)
      (interface method : String) (args : List Json.Value) :
      Comeback σ old log s c → Comeback σ old log s (c.invoke component interface method args).2
  | unanswered {b : Behaviour μ η σ} {log : List (Commit μ)} {s s' : Session μ η} {c : Client}
      {report : InvocationReport} {e : ResponseError} :
      Comeback σ old log s c → b.Regular true →
        Server.exchange b c.takeRequest.1 s = (s', report, .error e) →
          Comeback σ old log s' c.takeRequest.2
  | lost {b : Behaviour μ η σ} {log : List (Commit μ)} {s s' : Session μ η} {c : Client}
      {report : InvocationReport} {response : Response} :
      Comeback σ old log s c → b.Regular true →
        Server.exchange b c.takeRequest.1 s = (s', report, .ok response) →
          Comeback σ old (log ++ [⟨response.message, s'.tree⟩]) s' c.takeRequest.2
  | dropped {b : Behaviour μ η σ} {log : List (Commit μ)} {s s' : Session μ η} {c c' : Client}
      {report : InvocationReport} {response : Response}
      {outcome : Except ReplicaError ApplyOutcome} :
      Comeback σ old log s c → b.Regular true →
        Server.exchange b c.takeRequest.1 s = (s', report, .ok response) →
          c.takeRequest.2.apply response.message = (c', outcome) → outcome ≠ .ok .applied →
            Comeback σ old (log ++ [⟨response.message, s'.tree⟩]) s' c'

namespace Comeback

variable {old c : Client} {log : List (Commit μ)} {s : Session μ η}

theorem history (h : Comeback σ old log s c) : History σ log s := by
  induction h with
  | meet hbuild =>
    rw [ui_context_endSession]
    exact hbuild
  | act _ ha ih => exact ih.act ha
  | invoke _ _ _ _ _ ih => exact ih
  | unanswered _ hb hx ih => exact ih.exchange_error hb hx
  | lost _ hb hx ih => exact ih.exchange hb hx
  | dropped _ hb hx _ _ ih => exact ih.exchange hb hx

theorem unchanged (h : Comeback σ old log s c) :
    c.lastResponse = old.lastResponse ∧ c.replica = old.replica := by
  induction h with
  | meet _ => exact ⟨rfl, rfl⟩
  | act _ _ ih => exact ih
  | invoke _ _ _ _ _ ih => exact ih
  | unanswered _ _ _ ih => exact ih
  | lost _ _ _ ih => exact ih
  | dropped _ _ _ happly hne ih =>
    obtain rfl := Client.apply_other happly hne
    exact ih

end Comeback

section

variable {b : Behaviour μ η σ} {log : List (Commit μ)} {s s' : Session μ η} {c : Client}
  {k : SequenceNumber} {report : InvocationReport} {response : Response}

/-- an answer of a session that was not to begin anew follows the number that was reported -/
theorem last_of_not_resynchronize (h : Recorded log s) (hb : b.Regular true)
    (hlast : c.lastResponse = some k)
    (hpending : (s.receive b c.takeRequest.1).1.resyncPending = false) :
    lastNumber log = some k := by
  by_contra hne
  have hmissed : s.missed c.takeRequest.1.lastResponse = true := by
    show s.missed c.lastResponse = true
    rw [hlast, h.missed_iff]
    exact Ne.symm hne
  have htrue := pending_receive hb hmissed
  rw [hpending] at htrue
  cases htrue

/-- the number after the reported one is ahead of it -/
theorem isNewerThan_of_last (hk : lastNumber log = some k) :
    ofNat log.length = k.next ∧ (ofNat log.length).isNewerThan k = true := by
  have hnext := next_lastNumber log
  rw [hk] at hnext
  have hnext' : k.next = ofNat log.length := hnext
  rw [← hnext']
  exact ⟨rfl, isNewerThan_next k⟩

/-- an answer that begins anew is applied when its number counts as ahead -/
theorem apply_restarted (h : Recorded log s) (hb : b.Regular true)
    (hlast : c.lastResponse = some k)
    (hx : Server.exchange b c.takeRequest.1 s = (s', report, .ok response))
    (hpending : (s.receive b c.takeRequest.1).1.resyncPending = true) :
    ((ofNat log.length).isNewerThan k = true ∧
        ∃ c', c.takeRequest.2.apply response.message = (c', .ok .applied) ∧
          c'.replica.Mirrors FieldBag.sent s'.tree) ∨
      (ofNat log.length).isNewerThan k = false ∧
        c.takeRequest.2.apply response.message = (c.takeRequest.2, .ok .stale) := by
  have hlast' : c.takeRequest.2.lastResponse = some k := hlast
  have hflag := (exchange_message hx).1.trans hpending
  obtain ⟨-, hseq, -⟩ := h.exchange hb hx
  cases hnewer : (ofNat log.length).isNewerThan k with
  | true =>
    rw [← hseq] at hnewer
    obtain ⟨r, hr, hm⟩ := h.exchange_resynchronize hb hx hflag c.takeRequest.2.replica
    have hjudge := Client.judge_resynchronize hlast' hnewer hflag
    exact .inl ⟨rfl, _, Client.apply_followed hjudge hr, hm⟩
  | false =>
    rw [← hseq] at hnewer
    exact .inr ⟨rfl, Client.apply_dropped (Client.judge_stale hlast' hnewer) (by decide)⟩

/-- any other answer is applied to what the client has -/
theorem apply_continued (h : Recorded log s) (hb : b.Regular true)
    (hlast : c.lastResponse = some k)
    (hx : Server.exchange b c.takeRequest.1 s = (s', report, .ok response))
    (hpending : (s.receive b c.takeRequest.1).1.resyncPending = false) :
    (∃ c', c.takeRequest.2.apply response.message = (c', .ok .applied)) ↔
      ∃ r, c.replica.follow response.message = .ok r := by
  obtain ⟨-, hseq, -⟩ := h.exchange hb hx
  obtain ⟨hnext, -⟩ := isNewerThan_of_last (last_of_not_resynchronize h hb hlast hpending)
  have hjudge : c.takeRequest.2.judge response.message = .applied :=
    Client.judge_next hlast (hseq.trans hnext)
  cases hf : c.takeRequest.2.replica.follow response.message with
  | ok r =>
    rw [Client.apply_followed hjudge hf]
    exact ⟨fun _ => ⟨r, hf⟩, fun _ => ⟨_, rfl⟩⟩
  | error e =>
    rw [Client.apply_failed hjudge hf]
    constructor
    · rintro ⟨c', heq⟩
      cases heq
    · rintro ⟨r, hr⟩
      cases hf.symm.trans hr

/-- The next round trip of a client that came back with the number `k`: it shows the session
exactly when the response begins anew and counts as ahead, and a response is applied to what the
client had before exactly when `k` happens to be the last number of the session. -/
theorem restart_iff {old : Client} (h : Comeback σ old log s c) (hold : old.lastResponse = some k)
    (hb : b.Regular true)
    (hx : Server.exchange b c.takeRequest.1 s = (s', report, .ok response)) :
    ((∃ c', c.takeRequest.2.apply response.message = (c', .ok .applied) ∧
        response.message.resynchronize = true ∧ c'.replica.Mirrors FieldBag.fields s'.tree) ↔
      (ofNat log.length).isNewerThan k = true ∧
        (lastNumber log = some k → (s.receive b c.takeRequest.1).1.resyncPending = true) ∧
        s'.tree.UpToDate) ∧
    ((∃ c', c.takeRequest.2.apply response.message = (c', .ok .applied) ∧
        response.message.resynchronize = false) ↔
      lastNumber log = some k ∧ (s.receive b c.takeRequest.1).1.resyncPending = false ∧
        ∃ r, old.replica.follow response.message = .ok r) := by
  have hlast : c.lastResponse = some k := h.unchanged.1.trans hold
  rw [← h.unchanged.2]
  have hrec := h.history.recorded
  have hflag := (exchange_message hx).1
  cases hpending : (s.receive b c.takeRequest.1).1.resyncPending with
  | true =>
    rw [hflag, hpending]
    constructor
    · rcases apply_restarted hrec hb hlast hx hpending with
        ⟨hnewer, c', happly, hm⟩ | ⟨hstale, happly⟩
      · rw [Client.exists_applied_iff happly, hm.fields_iff]
        constructor
        · rintro ⟨-, -, hup⟩
          exact ⟨hnewer, fun _ => rfl, hup⟩
        · rintro ⟨-, -, hup⟩
          exact ⟨rfl, rfl, hup⟩
      · rw [Client.exists_applied_iff happly, hstale]
        constructor
        · rintro ⟨hf, -⟩
          cases hf
        · rintro ⟨hf, -⟩
          cases hf
    · constructor
      · rintro ⟨d, -, hf⟩
        cases hf
      · rintro ⟨-, hf, -⟩
        cases hf
  | false =>
    rw [hflag, hpending]
    have hk := last_of_not_resynchronize hrec hb hlast hpending
    constructor
    · constructor
      · rintro ⟨d, -, hf, -⟩
        cases hf
      · rintro ⟨-, hp, -⟩
        cases hp hk
    · rw [← apply_continued hrec hb hlast hx hpending]
      constructor
      · rintro ⟨d, happly, -⟩
        exact ⟨hk, rfl, d, happly⟩
      · rintro ⟨-, -, d, happly⟩
        exact ⟨d, happly, rfl⟩

end

def pageSite : Site Unit Unit Unit Empty Unit where
  build _ config := Session.ofRoot page config
  behaviour := .idle
  hooks := ⟨Empty.elim, fun listener => listener.elim⟩

/-- a client whose number comes before the first one by less than half a turn is served -/
theorem restart_page : ∃ (s s' : Session Unit Unit) (c c' : Client) (report : InvocationReport)
    (response : Response), Comeback Unit c [] s c ∧ c.lastResponse = some (ofNat 40000) ∧
      Server.exchange (.idle : Behaviour Unit Unit Unit) c.takeRequest.1 s =
        (s', report, .ok response) ∧
      c.takeRequest.2.apply response.message = (c', .ok .applied) ∧
      response.message.resynchronize = true ∧ c'.replica.Mirrors FieldBag.fields s'.tree := by
  let c : Client := { Client.new with lastResponse := some (ofNat 40000) }
  have h : Comeback Unit c [] ((((Server.ofConfig {}).endSession "main").context pageSite
      "main").2.1.ui) c := .meet (.start {} unsent_page)
  rw [ui_context_endSession] at h
  have hrec := h.history.recorded
  obtain ⟨s', report, response, hx⟩ := hrec.exchange_idle (σ := Unit) rfl c.takeRequest.1
  have hdue := due_receive hrec.wellFormed (Behaviour.regular_idle (σ := Unit) false)
    (m := c.takeRequest.1) rfl
  have hw := hrec.acts
    (Session.acts_receive (Behaviour.regular_idle (σ := Unit) false) _ c.takeRequest.1)
  have hup : s'.tree.UpToDate := hdue.upToDate hw.wellFormed (exchange_ok hx).2
  obtain ⟨c', happly, hflag, hm⟩ := (restart_iff h rfl (Behaviour.regular_idle true) hx).1.2
    ⟨by decide, fun _ => hdue.pending, hup⟩
  exact ⟨_, s', c, c', report, response, h, rfl, hx, happly, hflag, hm⟩

/-- a client that reports the number the new session begins with is not served -/
theorem not_restart_applied : ¬ ∀ (b : Behaviour Unit Unit Unit) (old c : Client)
    (log : List (Commit Unit)) (s s' : Session Unit Unit) (k : SequenceNumber)
    (report : InvocationReport) (response : Response), Comeback Unit old log s c →
      old.lastResponse = some k → b.Regular false →
        Server.exchange b c.takeRequest.1 s = (s', report, .ok response) →
          ∃ c', c.takeRequest.2.apply response.message = (c', .ok .applied) ∧
            c'.replica.Mirrors FieldBag.fields s'.tree := by
  intro hclaim
  let c : Client := { Client.new with lastResponse := some first }
  have h : Comeback Unit c [] ((((Server.ofConfig {}).endSession "main").context pageSite
      "main").2.1.ui) c := .meet (.start {} unsent_page)
  rw [ui_context_endSession] at h
  obtain ⟨response, hx, hseq⟩ : ∃ response : Response,
      (Server.exchange (.idle : Behaviour Unit Unit Unit) c.takeRequest.1
        (Session.ofRoot page {})).2.2 = .ok response ∧ response.message.sequence = first :=
    ⟨_, rfl, rfl⟩
  obtain ⟨c', happly, -⟩ := hclaim .idle c c [] (Session.ofRoot page {}) _ first _ response h rfl
    (Behaviour.regular_idle false) (Prod.ext rfl (Prod.ext rfl hx))
  have hstale : response.message.sequence.isNewerThan first = false := by
    rw [hseq]
    decide
  rw [Client.apply_dropped (Client.judge_stale rfl hstale) (by decide)] at happly
  cases happly

end UiSync
