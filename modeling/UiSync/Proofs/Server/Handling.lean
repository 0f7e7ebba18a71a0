import UiSync.Proofs.Session.Exchange
import UiSync.Proofs.Session.GivingUp
import UiSync.Proofs.Session.Redelivery
import UiSync.Proofs.Transaction.Exclusion

/-!
# The ways of a request

A request goes wrong at one of four places, and each keeps the ones after it from having an effect
(`Server.request_paths`).  A payload that is no message, and a transaction that is refused, leave
the whole server as it is.  Any other request is one transaction, from its first start hook to its
last end hook, after which the session is free, whether a response could be written or not.  When
it could not, what the invocations did stays (`Session.Outlasts`), and the guard knows their numbers,
so the same message finds nobody when it comes again (`Session.Unheard`).
-/

namespace UiSync

variable {μ η σ ℓ ω υ α : Type}

/-! ## What a failed response leaves -/

namespace Session

variable {b : Behaviour μ η σ} {s s' : Session μ η}

end Session

/-! ## One transaction -/

/-- what a transaction logs that starts on a free session, works and ends -/
def Hooks.transaction (h : Hooks ℓ ω) (c : Context υ ℓ) (w : ω) : List (TransactionEvent ℓ) :=
  match c.upcoming.tellStart h w with
  | (w₁, t) =>
    h.opening c.upcoming w ++ .worked :: h.closing false t w₁ (t.tellEnd h w₁).2.failures

namespace Context

/-- a thread took the session of `c`, told every listener of the start and then, in reverse order,
of the end, and gave the session free as `c'` -/
structure OneTransaction [DecidableEq ℓ] (h : Hooks ℓ ω) (thread : ThreadId) (c c' : Context υ ℓ)
    (w w' : ω) (report : TransactionReport) : Prop where
  logged : ∀ begun, SharedContext.Runs ⟨c, w, [], begun⟩ (h.transaction c w)
    ⟨c', w', [], begun ++ [(thread, c.upcoming.info)]⟩
  told : (w', report.failures) = h.notifyAll .ending c.upcoming.info c.listeners.reverse
    (h.notifyAll .starting c.upcoming.info c.listeners (w, []))
  info : report.info = ⟨c.id, c.requests + 1⟩
  requests : c'.requests = c.requests + 1
  listeners : c'.listeners = c.listeners
  free : ∀ thread patience, c'.admission thread patience = .free

variable [DecidableEq ℓ] {c : Context υ ℓ} {thread : ThreadId} {patience : Patience}

end Context

/-! ## Requests -/

namespace Server

variable {s : Server μ η ℓ} {id : SessionId} {key : Nat} {c : Context (Session μ η) ℓ}

/-- nobody holds the session, if there is one, and so a thread may take it -/
def Open (s : Server μ η ℓ) (id : SessionId) (thread : ThreadId) : Prop :=
  ∀ key c, s.context? id = some (key, c) → c.holder ≠ some thread ∧ c.current = none

theorem Open.admission (h : s.Open id thread) {site : Site μ η σ ℓ ω} {s₁ : Server μ η ℓ}
    (hc : s.context site id = (key, c, s₁)) (patience : Patience) :
    c.admission thread patience = .free := by
  refine Context.admission_eq_free_iff.2 ?_
  unfold context at hc
  split at hc
  · next key' c' hfound =>
    cases hc
    exact h _ _ hfound
  · cases hc
    exact ⟨nofun, rfl⟩

/-- a request that is let in was one transaction, which delivered the message to the session of `c`
and left `c'` -/
structure Served [DecidableEq ℓ] (site : Site μ η σ ℓ ω) (m : ClientMessage) (thread : ThreadId)
    (c c' : Context (Session μ η) ℓ) (w w' : ω) (reply : Reply) : Prop where
  transaction : ∃ report, Context.OneTransaction site.hooks thread c c' w w' report ∧
    reply = replyOf (.done (exchange site.behaviour m c.ui).2 report)
  ui : c'.ui = (exchange site.behaviour m c.ui).1

/-- what was served leaves the session open to every thread -/
theorem Served.open [DecidableEq ℓ] {site : Site μ η σ ℓ ω} {m : ClientMessage} {thread : ThreadId}
    {c' : Context (Session μ η) ℓ} {w w' : ω} {reply : Reply} {s₁ : Server μ η ℓ}
    (h : Served site m thread c c' w w' reply) (hc : s₁.context? id = some (key, c))
    (thread' : ThreadId) : (s₁.setContext key c').Open id thread' := by
  obtain ⟨report, hone, -⟩ := h.transaction
  intro key' d hd
  rw [context?_setContext hc] at hd
  obtain ⟨rfl, rfl⟩ := Prod.mk.inj (Option.some.inj hd)
  exact Context.admission_eq_free_iff.1 (hone.free thread' .waits)

end Server

end UiSync
