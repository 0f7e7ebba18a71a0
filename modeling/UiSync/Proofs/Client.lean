import UiSync.Client
import UiSync.Proofs.SequenceNumber
import UiSync.Proofs.Session.Responding

/-!
# What a client does with a response

A client drops a response or follows it (`Client.apply_dropped`, `Client.apply_followed`), and
which of the two depends on nothing but the numbers (`Client.judge`).  Seen through the places of
the responses in a series, one that is not ahead is stale, and one that is ahead is followed when
it is the next one or builds the replica anew.
-/

namespace UiSync

open SequenceNumber

namespace Client

variable {c : Client} {m : ServerMessage}

theorem apply_followed {r : Replica} (hj : c.judge m = .applied) (hf : c.replica.follow m = .ok r) :
    c.apply m = ({ c with
      replica := r
      received := c.received ++ m.calls
      lastResponse := some m.sequence }, .ok .applied) := by
  unfold Replica.follow at hf
  simp only [apply, hj, hf]

theorem apply_failed {e : ReplicaError} (hj : c.judge m = .applied)
    (hf : c.replica.follow m = .error e) : c.apply m = (c, .error e) := by
  unfold Replica.follow at hf
  simp only [apply, hj, hf]

theorem apply_dropped {outcome : ApplyOutcome} (hj : c.judge m = outcome)
    (hne : outcome ≠ .applied) : c.apply m = (c, .ok outcome) := by
  unfold apply
  rw [hj]
  cases outcome with
  | applied => exact absurd rfl hne
  | stale => rfl
  | outOfSync => rfl

/-- what is asked of an applied response is asked of the client it led to -/
theorem exists_applied_iff {d : Client} {outcome : Except ReplicaError ApplyOutcome}
    {P : Client → Prop} (h : c.apply m = (d, outcome)) :
    (∃ c', c.apply m = (c', .ok .applied) ∧ P c') ↔ outcome = .ok .applied ∧ P d := by
  rw [h]
  constructor
  · rintro ⟨c', heq, hp⟩
    cases heq
    exact ⟨rfl, hp⟩
  · rintro ⟨rfl, hp⟩
    exact ⟨d, rfl, hp⟩

/-- a client changes only when it applies a response -/
theorem apply_other {c' : Client} {outcome : Except ReplicaError ApplyOutcome}
    (h : c.apply m = (c', outcome)) (hne : outcome ≠ .ok .applied) : c' = c := by
  cases hj : c.judge m with
  | applied =>
    cases hf : c.replica.follow m with
    | ok r =>
      rw [apply_followed hj hf] at h
      cases h
      exact absurd rfl hne
    | error e =>
      rw [apply_failed hj hf] at h
      exact (congrArg Prod.fst h).symm
  | stale =>
    rw [apply_dropped hj (by decide)] at h
    exact (congrArg Prod.fst h).symm
  | outOfSync =>
    rw [apply_dropped hj (by decide)] at h
    exact (congrArg Prod.fst h).symm

/-! ## Numbers -/

theorem judge_first (h : c.lastResponse = none) : c.judge m = .applied := by
  simp only [judge, h]

theorem judge_stale {last : SequenceNumber} (h : c.lastResponse = some last)
    (hn : m.sequence.isNewerThan last = false) : c.judge m = .stale := by
  simp only [judge, h, hn]
  rfl

theorem judge_resynchronize {last : SequenceNumber} (h : c.lastResponse = some last)
    (hn : m.sequence.isNewerThan last = true) (hr : m.resynchronize = true) :
    c.judge m = .applied := by
  simp only [judge, h, hn, hr]
  rfl

theorem judge_next {last : SequenceNumber} (h : c.lastResponse = some last)
    (hn : m.sequence = last.next) : c.judge m = .applied := by
  have hnewer : last.next.isNewerThan last = true := isNewerThan_next last
  simp only [judge, h, hn, hnewer]
  simp

theorem judge_outOfSync {last : SequenceNumber} (h : c.lastResponse = some last)
    (hn : m.sequence.isNewerThan last = true) (hr : m.resynchronize = false)
    (hne : m.sequence ≠ last.next) : c.judge m = .outOfSync := by
  simp only [judge, h, hn, hr]
  simp [hne]

end Client

end UiSync
