import Mathlib.Logic.Relation
import UiSync.Transaction.Context

/-!
# Threads that share a context

Threads share a context (`SharedContext`).  Any of them may take the session when it is free, and may
register and take out listeners at any time; a thread that took the session tells the start listeners
one after the other, works, tells the end listeners and gives the session free again.  Listeners are
told one by one, so whatever a listener does with the context while it runs, such as asking for a
transaction, stands between two steps.  Threads take turns in any order (`SharedContext.Step`).

Each step can be logged as an event (`SharedContext.Logs`); leaving the events out gives back the
steps (`SharedContext.step_iff`).  Starting and finishing as the server does it are runs of such steps
(`runs_start`, `runs_finish`).
-/

namespace UiSync

open Relation

variable {υ ℓ ω : Type}

inductive Stage (ℓ : Type) where
  /-- it starts or ends, and the listeners of `rest` are still to be told -/
  | telling (phase : Phase) (rest : List ℓ)
  | opened

/-- a transaction from the moment its session is taken until it is given free -/
structure Hold (ℓ : Type) where
  thread : ThreadId
  transaction : Transaction ℓ
  stage : Stage ℓ

structure SharedContext (υ ℓ ω : Type) where
  context : Context υ ℓ
  /-- what listeners read and write, such as a log of their hooks -/
  world : ω
  /-- the transactions that are open -/
  holds : List (Hold ℓ)
  /-- the transactions ever opened, in order, each with its thread -/
  begun : List (ThreadId × TransactionInfo)

def Hooks.told (h : Hooks ℓ ω) (phase : Phase) (listener : ℓ) (t : Transaction ℓ) (w : ω) :
    ω × Transaction ℓ :=
  match h.notify phase t.info (w, t.failures) listener with
  | (w, failures) => (w, { t with failures := failures })

/-- what the thread of a transaction does next; what a listener does may depend on anything that
happened before -/
inductive Hold.Turn : Context υ ℓ → ω → Hold ℓ → Context υ ℓ → ω → Option (Hold ℓ) → Prop
  | tell {c : Context υ ℓ} {w w' : ω} {thread : ThreadId} {t t' : Transaction ℓ} {phase : Phase}
      {listener : ℓ} {rest : List ℓ} (h : Hooks ℓ ω) : h.told phase listener t w = (w', t') →
        Turn c w ⟨thread, t, .telling phase (listener :: rest)⟩ { c with current := some t' } w'
          (some ⟨thread, t', .telling phase rest⟩)
  | handOut {c : Context υ ℓ} {w : ω} {thread : ThreadId} {t : Transaction ℓ} :
      Turn c w ⟨thread, t, .telling .starting []⟩ c w (some ⟨thread, t, .opened⟩)
  | work {c : Context υ ℓ} {w : ω} {thread : ThreadId} {t : Transaction ℓ} (f : υ → υ) :
      Turn c w ⟨thread, t, .opened⟩ { c with ui := f c.ui } w (some ⟨thread, t, .opened⟩)
  /-- the transaction is ended, or its work panics and it is dropped -/
  | leave {c : Context υ ℓ} {w : ω} {thread : ThreadId} {t : Transaction ℓ} :
      Turn c w ⟨thread, t, .opened⟩ c w
        (some ⟨thread, t, .telling .ending t.listeners.reverse⟩)
  | release {c : Context υ ℓ} {w : ω} {thread : ThreadId} {t : Transaction ℓ} :
      Turn c w ⟨thread, t, .telling .ending []⟩ c.release w none

namespace SharedContext

def fresh (id : SessionId) (ui : υ) (w : ω) : SharedContext υ ℓ ω := ⟨Context.ofUi id ui, w, [], []⟩

def taken (s : SharedContext υ ℓ ω) (thread : ThreadId) : SharedContext υ ℓ ω where
  context := s.context.acquire thread
  world := s.world
  holds := s.holds ++ [⟨thread, s.context.upcoming, .telling .starting s.context.listeners⟩]
  begun := s.begun ++ [(thread, s.context.upcoming.info)]

/-- one step of one thread; a start that is refused or has to wait is none -/
inductive Step [DecidableEq ℓ] : SharedContext υ ℓ ω → SharedContext υ ℓ ω → Prop
  | take {s : SharedContext υ ℓ ω} (thread : ThreadId) (patience : Patience) :
      s.context.admission thread patience = .free → Step s (s.taken thread)
  | turn {s : SharedContext υ ℓ ω} {before after : List (Hold ℓ)} {hold : Hold ℓ}
      {c : Context υ ℓ} {w : ω} {hold' : Option (Hold ℓ)} : s.holds = before ++ hold :: after →
        Hold.Turn s.context s.world hold c w hold' →
          Step s ⟨c, w, before ++ hold'.toList ++ after, s.begun⟩
  | addListener {s : SharedContext υ ℓ ω} (listener : ℓ) :
      Step s { s with context := s.context.addListener listener }
  | removeListener {s : SharedContext υ ℓ ω} (listener : ℓ) :
      Step s { s with context := s.context.removeListener listener }

variable [DecidableEq ℓ]

def Reachable (id : SessionId) (ui : υ) (w : ω) (s : SharedContext υ ℓ ω) : Prop :=
  ReflTransGen Step (fresh id ui w) s

end SharedContext

/-! ## Events -/

/-- one hook of a listener in a transaction -/
structure HookCall (ℓ : Type) where
  info : TransactionInfo
  phase : Phase
  listener : ℓ

/-- a hook that was called, the name of its listener, and what became of it -/
structure CalledHook (ℓ : Type) where
  call : HookCall ℓ
  name : String
  outcome : HookOutcome

inductive TransactionEvent (ℓ : Type) where
  | registered (listener : ℓ)
  | removed (listener : ℓ)
  /-- a thread took the session; `listeners` are registered at this time -/
  | began (info : TransactionInfo) (listeners : List ℓ)
  | called (hook : CalledHook ℓ)
  /-- the start hooks are through, and the transaction is handed out -/
  | opened
  | worked
  /-- the work is over: the transaction is ended, or it is dropped as the work panicked -/
  | left (panicked : Bool)
  /-- the session was given free -/
  | closed (report : TransactionReport)

def Hooks.called (h : Hooks ℓ ω) (phase : Phase) (info : TransactionInfo) (listener : ℓ) (w : ω) :
    CalledHook ℓ :=
  ⟨⟨info, phase, listener⟩, h.name listener, (h.run listener phase info w).2⟩

def Hooks.calledAll (h : Hooks ℓ ω) (phase : Phase) (info : TransactionInfo) :
    List ℓ → ω → List (CalledHook ℓ)
  | [], _ => []
  | listener :: rest, w =>
    h.called phase info listener w :: h.calledAll phase info rest (h.run listener phase info w).1

inductive Hold.Logs : Context υ ℓ → ω → Hold ℓ → TransactionEvent ℓ →
    Context υ ℓ → ω → Option (Hold ℓ) → Prop
  | tell {c : Context υ ℓ} {w w' : ω} {thread : ThreadId} {t t' : Transaction ℓ} {phase : Phase}
      {listener : ℓ} {rest : List ℓ} (h : Hooks ℓ ω) : h.told phase listener t w = (w', t') →
        Logs c w ⟨thread, t, .telling phase (listener :: rest)⟩
          (.called (h.called phase t.info listener w)) { c with current := some t' } w'
          (some ⟨thread, t', .telling phase rest⟩)
  | handOut {c : Context υ ℓ} {w : ω} {thread : ThreadId} {t : Transaction ℓ} :
      Logs c w ⟨thread, t, .telling .starting []⟩ .opened c w (some ⟨thread, t, .opened⟩)
  | work {c : Context υ ℓ} {w : ω} {thread : ThreadId} {t : Transaction ℓ} (f : υ → υ) :
      Logs c w ⟨thread, t, .opened⟩ .worked { c with ui := f c.ui } w (some ⟨thread, t, .opened⟩)
  | leave {c : Context υ ℓ} {w : ω} {thread : ThreadId} {t : Transaction ℓ} (panicked : Bool) :
      Logs c w ⟨thread, t, .opened⟩ (.left panicked) c w
        (some ⟨thread, t, .telling .ending t.listeners.reverse⟩)
  | release {c : Context υ ℓ} {w : ω} {thread : ThreadId} {t : Transaction ℓ} :
      Logs c w ⟨thread, t, .telling .ending []⟩ (.closed ⟨t.info, t.failures⟩) c.release w none

theorem Hold.turn_iff {c c' : Context υ ℓ} {w w' : ω} {hold : Hold ℓ} {hold' : Option (Hold ℓ)} :
    Turn c w hold c' w' hold' ↔ ∃ event, Logs c w hold event c' w' hold' := by
  constructor
  · intro h
    cases h with
    | tell h ht => exact ⟨_, .tell h ht⟩
    | handOut => exact ⟨_, .handOut⟩
    | work f => exact ⟨_, .work f⟩
    | leave => exact ⟨_, .leave false⟩
    | release => exact ⟨_, .release⟩
  · rintro ⟨event, h⟩
    cases h with
    | tell h ht => exact .tell h ht
    | handOut => exact .handOut
    | work f => exact .work f
    | leave => exact .leave
    | release => exact .release

namespace SharedContext

variable [DecidableEq ℓ]

inductive Logs : SharedContext υ ℓ ω → TransactionEvent ℓ → SharedContext υ ℓ ω → Prop
  | take {s : SharedContext υ ℓ ω} (thread : ThreadId) (patience : Patience) :
      s.context.admission thread patience = .free →
        Logs s (.began s.context.upcoming.info s.context.listeners) (s.taken thread)
  | turn {s : SharedContext υ ℓ ω} {before after : List (Hold ℓ)} {hold : Hold ℓ}
      {event : TransactionEvent ℓ} {c : Context υ ℓ} {w : ω} {hold' : Option (Hold ℓ)} :
      s.holds = before ++ hold :: after → Hold.Logs s.context s.world hold event c w hold' →
        Logs s event ⟨c, w, before ++ hold'.toList ++ after, s.begun⟩
  | addListener {s : SharedContext υ ℓ ω} (listener : ℓ) :
      Logs s (.registered listener) { s with context := s.context.addListener listener }
  | removeListener {s : SharedContext υ ℓ ω} (listener : ℓ) :
      Logs s (.removed listener) { s with context := s.context.removeListener listener }

inductive Runs : SharedContext υ ℓ ω → List (TransactionEvent ℓ) → SharedContext υ ℓ ω → Prop
  | refl (s : SharedContext υ ℓ ω) : Runs s [] s
  | tail {s s' s'' : SharedContext υ ℓ ω} {events : List (TransactionEvent ℓ)}
      {event : TransactionEvent ℓ} :
      Runs s events s' → Logs s' event s'' → Runs s (events ++ [event]) s''

variable {s s' s'' : SharedContext υ ℓ ω} {event : TransactionEvent ℓ}
  {events events' : List (TransactionEvent ℓ)}

theorem step_iff : Step s s' ↔ ∃ event, Logs s event s' := by
  constructor
  · intro h
    cases h with
    | take thread patience hfree => exact ⟨_, .take thread patience hfree⟩
    | turn hsplit ht =>
      obtain ⟨event, hlog⟩ := Hold.turn_iff.1 ht
      exact ⟨event, .turn hsplit hlog⟩
    | addListener listener => exact ⟨_, .addListener listener⟩
    | removeListener listener => exact ⟨_, .removeListener listener⟩
  · rintro ⟨event, h⟩
    cases h with
    | take thread patience hfree => exact .take thread patience hfree
    | turn hsplit hlog => exact .turn hsplit (Hold.turn_iff.2 ⟨_, hlog⟩)
    | addListener listener => exact .addListener listener
    | removeListener listener => exact .removeListener listener

theorem Runs.trans (h : Runs s events s') (h' : Runs s' events' s'') :
    Runs s (events ++ events') s'' := by
  induction h' with
  | refl => rwa [List.append_nil]
  | tail _ hlast ih =>
    rw [← List.append_assoc]
    exact .tail ih hlast

theorem Logs.runs (h : Logs s event s') : Runs s [event] s' := .tail (.refl s) h

theorem Runs.head (h : Logs s event s') (h' : Runs s' events s'') : Runs s (event :: events) s'' :=
  h.runs.trans h'

theorem Runs.steps (h : Runs s events s') : ReflTransGen Step s s' := by
  induction h with
  | refl => exact .refl
  | tail _ hlast ih => exact ih.tail (step_iff.2 ⟨_, hlast⟩)

/-- the states that logged runs get to are those that threads get to -/
theorem reachable_iff {id : SessionId} {ui : υ} {w₀ : ω} :
    Reachable id ui w₀ s ↔ ∃ events, Runs (fresh id ui w₀) events s := by
  constructor
  · intro h
    induction h with
    | refl => exact ⟨[], .refl _⟩
    | tail _ hlast ih =>
      obtain ⟨events, hruns⟩ := ih
      obtain ⟨event, hlog⟩ := step_iff.1 hlast
      exact ⟨_, hruns.tail hlog⟩
  · rintro ⟨events, h⟩
    exact h.steps

end SharedContext

open SharedContext

/-! ## Starting and finishing -/

section

variable [DecidableEq ℓ] (h : Hooks ℓ ω) (thread : ThreadId)

/-- the one thread that holds the session takes a turn -/
theorem logs_of_turn {c c' : Context υ ℓ} {w w' : ω} {hold : Hold ℓ} {event : TransactionEvent ℓ}
    {hold' : Option (Hold ℓ)} (ht : Hold.Logs c w hold event c' w' hold')
    (begun : List (ThreadId × TransactionInfo)) :
    Logs ⟨c, w, [hold], begun⟩ event ⟨c', w', hold'.toList, begun⟩ := by
  have hsplit : (SharedContext.mk c w [hold] begun).holds = [] ++ hold :: [] := rfl
  have hlog := Logs.turn hsplit ht
  rwa [List.nil_append, List.append_nil] at hlog

theorem runs_tell (phase : Phase) (rest : List ℓ) (c : Context υ ℓ) (w : ω) (t : Transaction ℓ)
    (begun : List (ThreadId × TransactionInfo)) {w' : ω} {failures : List ListenerFailure}
    (htold : h.notifyAll phase t.info rest (w, t.failures) = (w', failures)) : Runs
      ⟨{ c with current := some t }, w, [⟨thread, t, .telling phase rest⟩], begun⟩
      ((h.calledAll phase t.info rest w).map .called)
      ⟨{ c with current := some { t with failures := failures } }, w',
        [⟨thread, { t with failures := failures }, .telling phase []⟩], begun⟩ := by
  induction rest generalizing w t with
  | nil =>
    obtain ⟨rfl, rfl⟩ := Prod.mk.inj htold
    exact .refl _
  | cons listener rest ih =>
    have hturn : Hold.Logs { c with current := some t } w
        ⟨thread, t, .telling phase (listener :: rest)⟩ _ _ _ _ := .tell h rfl
    exact .head (logs_of_turn hturn begun) (ih _ _ htold)

def Hooks.opening (h : Hooks ℓ ω) (t : Transaction ℓ) (w : ω) : List (TransactionEvent ℓ) :=
  .began t.info t.listeners ::
    ((h.calledAll .starting t.info t.listeners w).map .called ++ [.opened])

def Hooks.closing (h : Hooks ℓ ω) (panicked : Bool) (t : Transaction ℓ) (w : ω)
    (failures : List ListenerFailure) : List (TransactionEvent ℓ) :=
  .left panicked ::
    ((h.calledAll .ending t.info t.listeners.reverse w).map .called ++ [.closed ⟨t.info, failures⟩])

/-- a start on a free session, from taking it to handing out the transaction -/
theorem runs_start {s : SharedContext υ ℓ ω} {patience : Patience} (hs : s.holds = [])
    (hfree : s.context.admission thread patience = .free) {w' : ω} {c' : Context υ ℓ}
    {t' : Transaction ℓ} (hstart : s.context.start h thread s.world = (w', c', t')) :
    Runs s (h.opening s.context.upcoming s.world)
      ⟨c', w', [⟨thread, t', .opened⟩], s.begun ++ [(thread, s.context.upcoming.info)]⟩ := by
  have htaken : s.taken thread = ⟨{ s.context.acquire thread with
      current := some s.context.upcoming }, s.world,
      [⟨thread, s.context.upcoming, .telling .starting s.context.listeners⟩],
      s.begun ++ [(thread, s.context.upcoming.info)]⟩ := by
    rw [taken, hs]
    rfl
  have htake : Logs s _ (s.taken thread) := .take thread patience hfree
  rw [htaken] at htake
  obtain ⟨rfl, hrest⟩ := Prod.mk.inj hstart
  obtain ⟨rfl, rfl⟩ := Prod.mk.inj hrest
  have htell := runs_tell h thread .starting s.context.listeners
    (s.context.acquire thread) s.world s.context.upcoming
    (s.begun ++ [(thread, s.context.upcoming.info)]) rfl
  exact .head htake (htell.tail (logs_of_turn .handOut _))

/-- the end of a transaction, from its last work to giving the session free -/
theorem runs_finish (panicked : Bool) {c : Context υ ℓ} {w : ω} {t : Transaction ℓ}
    (hc : c.current = some t) (begun : List (ThreadId × TransactionInfo)) {w' : ω}
    {c' : Context υ ℓ} {report : TransactionReport}
    (hfinish : c.finish h t w = (w', c', report)) : Runs
      ⟨c, w, [⟨thread, t, .opened⟩], begun⟩ (h.closing panicked t w report.failures)
      ⟨c', w', [], begun⟩ := by
  have hcurrent : c = { c with current := some t } := by rw [← hc]
  obtain ⟨rfl, hrest⟩ := Prod.mk.inj hfinish
  obtain ⟨rfl, rfl⟩ := Prod.mk.inj hrest
  have hleave : Logs ⟨c, w, [⟨thread, t, .opened⟩], begun⟩ (.left panicked)
      ⟨{ c with current := some t }, w,
        [⟨thread, t, .telling .ending t.listeners.reverse⟩], begun⟩ := by
    rw [← hcurrent]
    exact logs_of_turn (.leave panicked) begun
  have htell := runs_tell h thread .ending t.listeners.reverse c w t begun rfl
  exact .head hleave (htell.tail (logs_of_turn .release begun))

end

end UiSync
