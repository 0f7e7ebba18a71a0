import UiSync.Proofs.Client
import UiSync.Proofs.Session.Exchange
import UiSync.Proofs.Sync.Numbering

/-!
# Round trips of which nothing is lost

As long as nothing is lost, a client and its session agree on the last response (`Synced`).  So the
session takes no message for that of a client that missed a response, and every answer is the one
that the client waits for (`Synced.exchange`).  Its invocations come in turn as well, and the guard
lets pass what it expects (`SequenceGuard.Expects`).
-/

namespace UiSync

open SequenceNumber

/-! ## Invocations in turn -/

namespace SequenceGuard

variable {g : SequenceGuard} {n : SequenceNumber}

/-- the number is the one after the last that passed, if any did -/
def Expects (g : SequenceGuard) (n : SequenceNumber) : Prop :=
  ∀ last, g.lastApplied = some last → n = last.next

theorem expects_record (g : SequenceGuard) (n : SequenceNumber) : (g.record n).Expects n.next := by
  intro last hlast
  obtain rfl : n = last := Option.some.inj hlast
  rfl

theorem Expects.check (h : g.Expects n) : g.check n = .ok () := by
  refine check_ok_iff.2 fun last hlast => ?_
  obtain ⟨k, -, rfl⟩ := last.exists_ofNat
  rw [h _ hlast, next_ofNat]
  exact (isStale_ofNat (by omega) (by omega)).2 (.inl (by omega))

end SequenceGuard

/-! ## Responses in turn -/

variable {μ η σ : Type}

structure Synced (log : List (Commit μ)) (c : Client) (s : Session μ η) : Prop where
  recorded : Recorded log s
  replica : replay log = .ok c.replica
  last : c.lastResponse = lastNumber log

namespace Synced

variable {clears : Bool} {b : Behaviour μ η σ} {log : List (Commit μ)} {c : Client}
  {s s' : Session μ η} {m : ClientMessage} {report : InvocationReport} {response : Response}

theorem new (h : Recorded [] s) : Synced [] Client.new s := ⟨h, rfl, rfl⟩

/-- the session begins nothing anew for this client -/
theorem greet (h : Synced log c s) : s.greet c.lastResponse = s := by
  have hmissed : s.missed c.lastResponse ≠ true := by
    rw [h.last]
    cases hlog : lastNumber log with
    | none => exact Bool.false_ne_true
    | some last =>
      rw [Ne, h.recorded.missed_iff, hlog]
      exact fun hne => hne rfl
  rw [Session.greet, if_neg hmissed]

theorem judge (h : Synced log c s) {message : ServerMessage}
    (hseq : message.sequence = ofNat log.length) : c.judge message = .applied := by
  cases hlog : lastNumber log with
  | none => exact Client.judge_first (h.last.trans hlog)
  | some last =>
    refine Client.judge_next (h.last.trans hlog) ?_
    have hnext := next_lastNumber log
    rw [hlog] at hnext
    exact hseq.trans hnext.symm

/-- the client applies the answer, and shows what was sent with it -/
theorem exchange (h : Synced log c s) (hb : b.Regular clears)
    (hx : Server.exchange b m s = (s', report, .ok response)) :
    ∃ c', c.apply response.message = (c', .ok .applied) ∧
      Synced (log ++ [⟨response.message, s'.tree⟩]) c' s' ∧
        c'.replica.Mirrors FieldBag.sent s'.tree := by
  obtain ⟨hrecorded, hseq, r, r', hreplay, hfollow, hm⟩ := h.recorded.exchange hb hx
  obtain rfl : r = c.replica := Except.ok.inj (hreplay.symm.trans h.replica)
  refine ⟨_, Client.apply_followed (h.judge hseq) hfollow, ⟨hrecorded, ?_, ?_⟩, hm⟩
  · exact (replay_append_singleton hreplay _).trans hfollow
  · rw [lastNumber_append_singleton, ← hseq]

end Synced

end UiSync
