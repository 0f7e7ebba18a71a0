import UiSync.Transaction.Basic

/-!
# Session contexts

A context holds one session, of type `υ`, for the transactions on it. A start is refused to the
thread that holds the session; to another thread it is refused or has to wait. Starting first
takes the session (`Context.acquire`) and then tells the listeners; ending tells them first and
then gives the session free (`Context.release`), so the session is held while listeners run.
-/

namespace UiSync

/-- a transaction that has not ended -/
structure Transaction (ℓ : Type) where
  info : TransactionInfo
  /-- the listeners there were when it started -/
  listeners : List ℓ
  failures : List ListenerFailure

namespace Transaction

variable {ℓ ω : Type}

/-- tells the listeners, in order, that the transaction starts -/
def tellStart (h : Hooks ℓ ω) (t : Transaction ℓ) (w : ω) : ω × Transaction ℓ :=
  match h.notifyAll .starting t.info t.listeners (w, t.failures) with
  | (w, failures) => (w, { t with failures := failures })

/-- tells the listeners, in reverse order, that the transaction ends -/
def tellEnd (h : Hooks ℓ ω) (t : Transaction ℓ) (w : ω) : ω × TransactionReport :=
  match h.notifyAll .ending t.info t.listeners.reverse (w, t.failures) with
  | (w, failures) => (w, ⟨t.info, failures⟩)

end Transaction

structure Context (υ ℓ : Type) where
  id : SessionId
  ui : υ
  /-- the thread of the open transaction -/
  holder : Option ThreadId
  current : Option (Transaction ℓ)
  listeners : List ℓ
  /-- how many transactions were started -/
  requests : Nat

/-- what a caller does about a session that another thread holds -/
inductive Patience where
  | waits
  | leaves
  deriving DecidableEq

/-- whether a start may go ahead -/
inductive Admission where
  | free
  | refused (error : TransactionError)
  /-- nothing happens until the session is given free -/
  | waiting
  deriving DecidableEq

namespace Context

variable {υ ℓ ω α : Type}

def ofUi (id : SessionId) (ui : υ) : Context υ ℓ := ⟨id, ui, none, none, [], 0⟩

/-! ## Listeners -/

/-- registers a listener for the transactions to come -/
def addListener (c : Context υ ℓ) (listener : ℓ) : Context υ ℓ :=
  { c with listeners := c.listeners ++ [listener] }

/-- takes out every registration of a listener -/
def removeListener [DecidableEq ℓ] (c : Context υ ℓ) (listener : ℓ) : Context υ ℓ :=
  { c with listeners := c.listeners.filter (· != listener) }

/-! ## Starting -/

def admission (c : Context υ ℓ) (thread : ThreadId) (patience : Patience) : Admission :=
  if c.holder = some thread then .refused (.reentrant c.id)
  else if c.current.isSome then
    match patience with
    | .leaves => .refused (.busy c.id)
    | .waits => .waiting
  else .free

/-- the transaction that would start now, its listeners not told yet -/
def upcoming (c : Context υ ℓ) : Transaction ℓ := ⟨⟨c.id, c.requests + 1⟩, c.listeners, []⟩

/-- the session is taken; no listener was told yet -/
def acquire (c : Context υ ℓ) (thread : ThreadId) : Context υ ℓ :=
  { c with holder := some thread, current := some c.upcoming, requests := c.requests + 1 }

/-- starts a transaction on a free session -/
def start (h : Hooks ℓ ω) (c : Context υ ℓ) (thread : ThreadId) (w : ω) :
    ω × Context υ ℓ × Transaction ℓ :=
  match (c.upcoming).tellStart h w with
  | (w, t) => (w, { c.acquire thread with current := some t }, t)

/-! ## Ending -/

/-- the session is free again -/
def release (c : Context υ ℓ) : Context υ ℓ := { c with holder := none, current := none }

/-- ends a transaction, also when its work broke off; answers with its report -/
def finish (h : Hooks ℓ ω) (c : Context υ ℓ) (t : Transaction ℓ) (w : ω) :
    ω × Context υ ℓ × TransactionReport :=
  match t.tellEnd h w with
  | (w, report) => (w, c.release, report)

/-- works on a free session in one transaction -/
def transact (h : Hooks ℓ ω) (c : Context υ ℓ) (thread : ThreadId) (w : ω) (f : υ → υ × α) :
    ω × Context υ ℓ × α × TransactionReport :=
  match c.start h thread w with
  | (w, c, t) =>
    match f c.ui with
    | (ui, result) =>
      match ({ c with ui := ui } : Context υ ℓ).finish h t w with
      | (w, c, report) => (w, c, result, report)

end Context

end UiSync
