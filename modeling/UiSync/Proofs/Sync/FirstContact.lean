import UiSync.Proofs.Session.Exchange
import UiSync.Proofs.Sync.Reception

/-!
# A client that heard of no response

A client that applied no response yet reports none, and a session takes that for a client that
missed nothing.  When it had written responses before, the answer is told relative to them, and
the client has nothing it could be relative to.

`first_contact_iff` says when such a client comes to show the session: exactly when the session had
been asked to begin anew by someone else, and what was sent is everything there is.  It also says
when the client takes the answer for all there is while it shows nothing: exactly when nothing had
changed.
-/

namespace UiSync

open SequenceNumber

variable {μ η σ : Type}

namespace Replica

/-- nothing but a root can be attached to an empty replica -/
theorem applyTreeChange_empty {change : TreeChange}
    (h : ∀ id kind, change ≠ .attached id none kind) :
    ∃ e, applyTreeChange ∅ change = .error e := by
  cases change with
  | attached id parent kind =>
    cases parent with
    | none => exact absurd rfl (h id kind)
    | some p => exact ⟨.parentNotFound id p, rfl⟩
  | detached id => exact ⟨.unknownComponent id, rfl⟩

/-- without a root a message means nothing to an empty replica -/
theorem applyMessage_empty {m : ServerMessage}
    (h : ∀ id kind, TreeChange.attached id none kind ∉ m.hierarchy) :
    m.hierarchy = [] ∧ m.changes = [] ∧ (∅ : Replica).applyMessage m = .ok ∅ ∨
      ¬ (m.hierarchy = [] ∧ m.changes = []) ∧ ∃ e, (∅ : Replica).applyMessage m = .error e := by
  unfold applyMessage
  cases hh : m.hierarchy with
  | nil =>
    cases hc : m.changes with
    | nil => exact .inl ⟨rfl, rfl, rfl⟩
    | cons change changes =>
      exact .inr ⟨fun he => (by cases he.2), .unknownComponent change.component, rfl⟩
  | cons change changes =>
    have hroot : ∀ id kind, change ≠ .attached id none kind := by
      intro id kind he
      refine h id kind ?_
      rw [hh, he]
      exact List.mem_cons_self ..
    obtain ⟨e, he⟩ := applyTreeChange_empty hroot
    refine .inr ⟨fun he => (by cases he.1), e, ?_⟩
    rw [List.foldlM_cons, he]
    rfl

theorem not_mirrors_empty (view : FieldBag → Fields) (t : Tree μ) :
    ¬ (∅ : Replica).Mirrors view t := by
  intro h
  cases h.root

end Replica

/-- a client of which no response was applied has nothing -/
theorem Reception.replica_eq_empty {log : List (Commit μ)} (hf : Faithful log) {c : Client}
    (h : Reception log c none) : c.replica = ∅ := by
  have hreplay : replay (log.take 0) = .ok c.replica := (h.follows hf).replica
  rw [List.take_zero] at hreplay
  exact (Except.ok.inj hreplay).symm

section

variable {b : Behaviour μ η σ} {log : List (Commit μ)} {s s' : Session μ η} {c : Client}
  {report : InvocationReport} {response : Response}

/-- an answer that begins anew suits a client that has nothing -/
theorem apply_first_resynchronize (h : Recorded log s) (hc : Reception log c none)
    (hb : b.Regular true)
    (hx : Server.exchange b c.takeRequest.1 s = (s', report, .ok response))
    (hpending : (s.receive b c.takeRequest.1).1.resyncPending = true) :
    ∃ c', c.takeRequest.2.apply response.message = (c', .ok .applied) ∧
      c'.replica.Mirrors FieldBag.sent s'.tree := by
  have hjudge : c.takeRequest.2.judge response.message = .applied :=
    Client.judge_first (hc.follows h.faithful).last
  have hflag := (exchange_message hx).1.trans hpending
  obtain ⟨r, hr, hm⟩ := h.exchange_resynchronize hb hx hflag c.takeRequest.2.replica
  exact ⟨_, Client.apply_followed hjudge hr, hm⟩

/-- any other answer means nothing to it, and is taken for good only when it is empty -/
theorem apply_first_other (h : Recorded log s) (hlog : log ≠ []) (hc : Reception log c none)
    (hb : b.Regular true)
    (hx : Server.exchange b c.takeRequest.1 s = (s', report, .ok response))
    (hpending : (s.receive b c.takeRequest.1).1.resyncPending = false) :
    ((s.receive b c.takeRequest.1).1.hierarchy = [] ∧ response.message.changes = [] ∧
        ∃ c', c.takeRequest.2.apply response.message = (c', .ok .applied) ∧
          c'.lastResponse = s'.lastResponse ∧ c'.replica = ∅) ∨
      ¬ ((s.receive b c.takeRequest.1).1.hierarchy = [] ∧ response.message.changes = []) ∧
        ∃ c' e, c.takeRequest.2.apply response.message = (c', .error e) := by
  have hempty : c.takeRequest.2.replica = ∅ := hc.replica_eq_empty h.faithful
  have hjudge : c.takeRequest.2.judge response.message = .applied :=
    Client.judge_first (hc.follows h.faithful).last
  have h₁ := h.acts (Session.acts_receive hb s c.takeRequest.1)
  obtain ⟨hflag, hhier⟩ := exchange_message hx
  obtain ⟨h', hseq, -⟩ := h.exchange hb hx
  -- the root went out with a response this client never got, and is not announced again
  have hroot : ∀ id kind, TreeChange.attached id none kind ∉ response.message.hierarchy := by
    have hlast : (s.receive b c.takeRequest.1).1.lastResponse ≠ none := by
      rw [h₁.last, ne_eq, lastNumber_eq_none_iff]
      exact hlog
    rw [hhier]
    exact h₁.rootKnown hlast hpending
  have hfollow : c.takeRequest.2.replica.follow response.message =
      (∅ : Replica).applyMessage response.message := by
    rw [Replica.follow, hflag, hpending, hempty]
    rfl
  rw [← hhier]
  rcases Replica.applyMessage_empty hroot with ⟨hh, hch, hok⟩ | ⟨hne, e, herror⟩
  · refine .inl ⟨hh, hch, _, Client.apply_followed hjudge (hfollow.trans hok), ?_, rfl⟩
    rw [h'.last, lastNumber_append_singleton, ← hseq]
  · exact .inr ⟨hne, _, e, Client.apply_failed hjudge (hfollow.trans herror)⟩

/-- The first answer to reach a client, from a session that had written responses before: it shows
the session exactly when the session was to begin anew, and it is silently wrong exactly when there
was nothing to tell. -/
theorem first_contact_iff (h : History σ log s) (hlog : log ≠ []) (hc : Reception log c none)
    (hb : b.Regular true)
    (hx : Server.exchange b c.takeRequest.1 s = (s', report, .ok response)) :
    ((∃ c', c.takeRequest.2.apply response.message = (c', .ok .applied) ∧
        c'.replica.Mirrors FieldBag.fields s'.tree) ↔
      (s.receive b c.takeRequest.1).1.resyncPending = true ∧ s'.tree.UpToDate) ∧
    ((∃ c', c.takeRequest.2.apply response.message = (c', .ok .applied) ∧
        c'.lastResponse = s'.lastResponse ∧ ¬ c'.replica.Mirrors FieldBag.sent s'.tree) ↔
      (s.receive b c.takeRequest.1).1.resyncPending = false ∧
        (s.receive b c.takeRequest.1).1.hierarchy = [] ∧ response.message.changes = []) := by
  cases hpending : (s.receive b c.takeRequest.1).1.resyncPending with
  | true =>
    obtain ⟨c', happly, hm⟩ := apply_first_resynchronize h.recorded hc hb hx hpending
    rw [Client.exists_applied_iff happly, Client.exists_applied_iff happly, hm.fields_iff]
    refine ⟨⟨?_, ?_⟩, ⟨?_, ?_⟩⟩
    · rintro ⟨-, hup⟩
      exact ⟨rfl, hup⟩
    · rintro ⟨-, hup⟩
      exact ⟨rfl, hup⟩
    · rintro ⟨-, -, hwrong⟩
      exact absurd hm hwrong
    · rintro ⟨hf, -⟩
      cases hf
  | false =>
    rcases apply_first_other h.recorded hlog hc hb hx hpending with
      ⟨hh, hch, c', happly, hlast, hempty⟩ | ⟨hne, c', e, happly⟩
    · have hnot : ∀ view, ¬ c'.replica.Mirrors view s'.tree := by
        intro view
        rw [hempty]
        exact Replica.not_mirrors_empty view s'.tree
      rw [Client.exists_applied_iff happly, Client.exists_applied_iff happly]
      refine ⟨⟨?_, ?_⟩, ⟨?_, ?_⟩⟩
      · rintro ⟨-, hm⟩
        exact absurd hm (hnot _)
      · rintro ⟨hf, -⟩
        cases hf
      · intro _
        exact ⟨rfl, hh, hch⟩
      · intro _
        exact ⟨rfl, hlast, hnot _⟩
    · rw [Client.exists_applied_iff happly, Client.exists_applied_iff happly]
      refine ⟨⟨?_, ?_⟩, ⟨?_, ?_⟩⟩
      · rintro ⟨hf, -⟩
        cases hf
      · rintro ⟨hf, -⟩
        cases hf
      · rintro ⟨hf, -⟩
        cases hf
      · rintro ⟨-, hboth⟩
        exact absurd hboth hne

end

/-- a page that was to begin anew reaches a new client -/
theorem first_contact_page : ∃ (log : List (Commit Unit)) (s s' : Session Unit Unit) (c' : Client)
    (report : InvocationReport) (response : Response),
    History Unit log s ∧ log ≠ [] ∧ Reception log Client.new none ∧
      Server.exchange (.idle : Behaviour Unit Unit Unit) Client.new.takeRequest.1 s =
        (s', report, .ok response) ∧
      Client.new.takeRequest.2.apply response.message = (c', .ok .applied) ∧
      c'.replica.Mirrors FieldBag.fields s'.tree := by
  obtain ⟨log, s₀, h₀, hlen, hconfig⟩ := exists_history (η := Unit) (σ := Unit) unsent_page 1
  have hlog : log ≠ [] := List.ne_nil_of_length_pos (by omega)
  have h : History Unit log s₀.requestResync := h₀.act .resync
  obtain ⟨s', report, response, hx⟩ :=
    h.recorded.exchange_idle (σ := Unit) hconfig Client.new.takeRequest.1
  have hdue : s₀.requestResync.Due := .requestResync h₀.recorded.wellFormed
  have hup : s'.tree.UpToDate := hdue.upToDate h.recorded.wellFormed (exchange_ok hx).2
  obtain ⟨c', happly, hm⟩ :=
    (first_contact_iff h hlog .start (Behaviour.regular_idle true) hx).1.2 ⟨rfl, hup⟩
  exact ⟨log, _, s', c', report, response, h, hlog, .start, hx, happly, hm⟩

/-- a page that was written and did not change leaves a new client with nothing -/
theorem not_first_contact_mirrors : ¬ ∀ (b : Behaviour Unit Unit Unit) (log : List (Commit Unit))
    (s s' : Session Unit Unit) (c : Client) (report : InvocationReport) (response : Response),
    History Unit log s → log ≠ [] → Reception log c none → b.Regular false →
      Server.exchange b c.takeRequest.1 s = (s', report, .ok response) →
        ∃ c', c.takeRequest.2.apply response.message = (c', .ok .applied) ∧
          c'.replica.Mirrors FieldBag.fields s'.tree := by
  intro hclaim
  obtain ⟨first, hfirst⟩ := respond_page
  have h : History Unit _ writtenPage := (History.start {} unsent_page).respond hfirst
  obtain ⟨second, hx, hflag, hh, hch⟩ : ∃ second : Response,
      (Server.exchange (.idle : Behaviour Unit Unit Unit) Client.new.takeRequest.1
        writtenPage).2.2 = .ok second ∧ second.message.resynchronize = false ∧
      second.message.hierarchy = [] ∧ second.message.changes = [] := ⟨_, rfl, rfl, rfl, rfl⟩
  obtain ⟨c', happly, hm⟩ := hclaim .idle _ writtenPage _ Client.new _ second h
    (List.cons_ne_nil _ _) .start (Behaviour.regular_idle false) (Prod.ext rfl (Prod.ext rfl hx))
  have hfollow : Client.new.takeRequest.2.replica.follow second.message = .ok ∅ := by
    rw [Replica.follow, hflag, Replica.applyMessage, hh, hch]
    rfl
  rw [Client.apply_followed (Client.judge_first rfl) hfollow] at happly
  cases happly
  exact Replica.not_mirrors_empty _ _ hm

end UiSync
