import UiSync.Proofs.Lists
import UiSync.Proofs.Transaction.Exclusion

/-!
# Listeners unwind

Threads share a context, and each of their steps is logged as an event (`SharedContext.Runs`).
Listeners come and go at any time, and a hook may fail in any way.

What is logged of transactions is one block for each of them, in the order in which they began
(`Unwound.blocks`).  A block calls the start hooks of the listeners that were registered when it began,
in order, and after the work, even if that panicked, the end hooks of the same listeners in reverse
order; the block of an open transaction goes as far as the transaction has got (`Unfolds`).  The
failures of a transaction are those of the hooks in its block.

A hook adds one event to the block of its transaction, and what the transaction has still to tell is
in its stage (`Hold.Recorded.turn`, `Hold.Recorded.release`).  That starting, ending and dropping as
the server does it make such blocks is part of the main statement (`unwound_runs`).
-/

namespace UiSync

open SharedContext

variable {υ ℓ ω : Type}

/-! ## Transactions that are ended or dropped -/

/-- a transaction in the hands of the thread that works in it -/
structure Lease (ℓ : Type) where
  transaction : Transaction ℓ
  /-- its end hooks were called, and the session was given free -/
  ended : Bool

namespace Lease

def ofTransaction (t : Transaction ℓ) : Lease ℓ := ⟨t, false⟩

/-- ends the transaction unless it has ended before; this is all that dropping it does -/
def finish (h : Hooks ℓ ω) (c : Context υ ℓ) (l : Lease ℓ) (w : ω) : ω × Context υ ℓ × Lease ℓ :=
  if l.ended then (w, c, l)
  else
    match c.finish h l.transaction w with
    | (w, c, report) => (w, c, ⟨{ l.transaction with failures := report.failures }, true⟩)

/-- ends the transaction and answers with its report; what is left of it is dropped -/
def close (h : Hooks ℓ ω) (c : Context υ ℓ) (l : Lease ℓ) (w : ω) :
    ω × Context υ ℓ × TransactionReport :=
  match l.finish h c w with
  | (w, c, l) =>
    match l.finish h c w with
    | (w, c, _) => (w, c, ⟨l.transaction.info, l.transaction.failures⟩)

variable (h : Hooks ℓ ω) (c : Context υ ℓ) (t : Transaction ℓ) (w : ω)

theorem finish_ended {l : Lease ℓ} (hl : l.ended = true) : l.finish h c w = (w, c, l) := if_pos hl

theorem finish_ofTransaction : (ofTransaction t).finish h c w =
    ((c.finish h t w).1, (c.finish h t w).2.1,
      ⟨{ t with failures := (c.finish h t w).2.2.failures }, true⟩) := rfl

/-- the drop after an explicit end calls no hook again -/
theorem close_ofTransaction : (ofTransaction t).close h c w = c.finish h t w := by
  rw [close, finish_ofTransaction]
  dsimp only
  rw [finish_ended h _ _ rfl]
  rfl

end Lease

/-! ## Registrations and failures -/

def CalledHook.failure? (c : CalledHook ℓ) : Option ListenerFailure :=
  c.outcome.failure?.map fun m => ⟨c.name, c.call.phase, m⟩

namespace TransactionEvent

def registrations [DecidableEq ℓ] (listeners : List ℓ) : TransactionEvent ℓ → List ℓ
  | registered listener => listeners ++ [listener]
  | removed listener => listeners.filter (· != listener)
  | _ => listeners

def ofTransaction : TransactionEvent ℓ → Bool
  | registered _ => false
  | removed _ => false
  | _ => true

def failure? : TransactionEvent ℓ → Option ListenerFailure
  | called hook => hook.failure?
  | _ => none

end TransactionEvent

def failuresIn (events : List (TransactionEvent ℓ)) : List ListenerFailure :=
  events.filterMap TransactionEvent.failure?

def registeredAfter [DecidableEq ℓ] (events : List (TransactionEvent ℓ)) : List ℓ :=
  events.foldl TransactionEvent.registrations []

/-! ## Blocks -/

/-- what is logged of a transaction until it has got to some stage -/
inductive Unfolds (info : TransactionInfo) (listeners : List ℓ) :
    Stage ℓ → List (TransactionEvent ℓ) → Prop
  | starting (told : List ℓ) {rest : List ℓ} {starts : List (CalledHook ℓ)} :
      listeners = told ++ rest →
      starts.map CalledHook.call = told.map (HookCall.mk info .starting) →
        Unfolds info listeners (.telling .starting rest) (starts.map .called)
  | working {starts : List (CalledHook ℓ)} (n : Nat) :
      starts.map CalledHook.call = listeners.map (HookCall.mk info .starting) →
        Unfolds info listeners .opened (starts.map .called ++ .opened :: List.replicate n .worked)
  | ending (told : List ℓ) {rest : List ℓ} {starts ends : List (CalledHook ℓ)} (n : Nat)
      (panicked : Bool) :
      starts.map CalledHook.call = listeners.map (HookCall.mk info .starting) →
        listeners.reverse = told ++ rest →
          ends.map CalledHook.call = told.map (HookCall.mk info .ending) →
            Unfolds info listeners (.telling .ending rest) (starts.map .called ++
              .opened :: (List.replicate n .worked ++ .left panicked :: ends.map .called))

structure Block (ℓ : Type) where
  /-- the listeners there were when it began -/
  listeners : List ℓ
  inner : List (TransactionEvent ℓ)
  report : TransactionReport

namespace Block

def events (b : Block ℓ) : List (TransactionEvent ℓ) :=
  .began b.report.info b.listeners :: (b.inner ++ [.closed b.report])

/-- start hooks in order, work, end hooks in reverse order, and the failures of these hooks -/
structure Symmetric (b : Block ℓ) : Prop where
  inner : ∃ (starts ends : List (CalledHook ℓ)) (n : Nat) (panicked : Bool),
    starts.map CalledHook.call = b.listeners.map (HookCall.mk b.report.info .starting) ∧
    ends.map CalledHook.call = b.listeners.reverse.map (HookCall.mk b.report.info .ending) ∧
    b.inner = starts.map .called ++
      .opened :: (List.replicate n .worked ++ .left panicked :: ends.map .called)
  failures : b.report.failures = failuresIn b.inner

end Block

structure Hold.Recorded (hold : Hold ℓ) (inner : List (TransactionEvent ℓ)) : Prop where
  unfolds : Unfolds hold.transaction.info hold.transaction.listeners hold.stage inner
  failures : hold.transaction.failures = failuresIn inner

theorem failuresIn_append_singleton (events : List (TransactionEvent ℓ))
    (event : TransactionEvent ℓ) :
    failuresIn (events ++ [event]) = failuresIn events ++ event.failure?.toList := by
  rw [failuresIn, List.filterMap_append]
  cases h : event.failure? with
  | none => simp [failuresIn, h]
  | some f => simp [failuresIn, h]

/-- a hook that was called follows those of its phase -/
theorem Unfolds.called {info : TransactionInfo} {listeners rest : List ℓ} {phase : Phase}
    {listener : ℓ} {inner : List (TransactionEvent ℓ)} {hook : CalledHook ℓ}
    (h : Unfolds info listeners (.telling phase (listener :: rest)) inner)
    (hcall : hook.call = ⟨info, phase, listener⟩) :
    Unfolds info listeners (.telling phase rest) (inner ++ [.called hook]) := by
  cases h with
  | @starting told _ starts hsplit hstarts =>
    have htold : listeners = (told ++ [listener]) ++ rest := by
      rw [hsplit, List.append_assoc, List.singleton_append]
    have hcalled : (starts ++ [hook]).map CalledHook.call =
        (told ++ [listener]).map (HookCall.mk info .starting) := by
      rw [List.map_append, List.map_append, hstarts, List.map_singleton, hcall, List.map_singleton]
    have hnext := Unfolds.starting (told ++ [listener]) htold hcalled
    rwa [List.map_append, List.map_singleton] at hnext
  | @ending told _ starts ends n panicked hstarts hsplit hends =>
    have htold : listeners.reverse = (told ++ [listener]) ++ rest := by
      rw [hsplit, List.append_assoc, List.singleton_append]
    have hcalled : (ends ++ [hook]).map CalledHook.call =
        (told ++ [listener]).map (HookCall.mk info .ending) := by
      rw [List.map_append, List.map_append, hends, List.map_singleton, hcall, List.map_singleton]
    have hnext := Unfolds.ending (told ++ [listener]) n panicked hstarts htold hcalled
    rw [List.map_append, List.map_singleton] at hnext
    rwa [List.append_assoc, List.cons_append, List.append_assoc, List.cons_append]

/-- one turn of a transaction that goes on -/
theorem Hold.Recorded.turn {c c' : Context υ ℓ} {w w' : ω} {hold hold' : Hold ℓ}
    {event : TransactionEvent ℓ} {inner : List (TransactionEvent ℓ)} (hr : hold.Recorded inner)
    (h : Logs c w hold event c' w' (some hold')) :
    hold'.Recorded (inner ++ [event]) ∧ event.ofTransaction = true ∧
      hold'.transaction.info = hold.transaction.info ∧
      hold'.transaction.listeners = hold.transaction.listeners := by
  obtain ⟨hunfolds, hfailures⟩ := hr
  -- a step that calls no hook leaves the failures
  have hsame : event.failure? = none → hold.transaction.failures = failuresIn (inner ++ [event]) := by
    intro hnone
    rw [failuresIn_append_singleton, hnone, Option.toList_none, List.append_nil, hfailures]
  cases h with
  | tell h ht =>
    obtain ⟨-, rfl⟩ := Prod.mk.inj ht
    refine ⟨⟨hunfolds.called rfl, ?_⟩, rfl, rfl, rfl⟩
    rw [failuresIn_append_singleton]
    exact congrArg (· ++ _) hfailures
  | handOut =>
    refine ⟨⟨?_, hsame rfl⟩, rfl, rfl, rfl⟩
    cases hunfolds with
    | starting told hsplit hstarts =>
      rw [List.append_nil] at hsplit
      exact .working 0 (hsplit ▸ hstarts)
  | work f =>
    refine ⟨⟨?_, hsame rfl⟩, rfl, rfl, rfl⟩
    cases hunfolds with
    | @working starts n hstarts =>
      rw [List.append_assoc, List.cons_append, ← List.replicate_succ']
      exact .working (n + 1) hstarts
  | @leave thread t panicked =>
    refine ⟨⟨?_, hsame rfl⟩, rfl, rfl, rfl⟩
    cases hunfolds with
    | @working starts n hstarts =>
      rw [List.append_assoc, List.cons_append]
      have hends : ([] : List (CalledHook ℓ)).map CalledHook.call =
          ([] : List ℓ).map (HookCall.mk t.info .ending) := rfl
      exact .ending [] n panicked hstarts rfl hends

/-- the last turn of a transaction completes its block -/
theorem Hold.Recorded.release {c c' : Context υ ℓ} {w w' : ω} {hold : Hold ℓ}
    {event : TransactionEvent ℓ} {inner : List (TransactionEvent ℓ)} (hr : hold.Recorded inner)
    (h : Logs c w hold event c' w' none) : ∃ report, event = .closed report ∧
      report.info = hold.transaction.info ∧
      (Block.mk hold.transaction.listeners inner report).Symmetric := by
  obtain ⟨hunfolds, hfailures⟩ := hr
  cases h with
  | release =>
    refine ⟨_, rfl, rfl, ?_, hfailures⟩
    cases hunfolds with
    | ending told n panicked hstarts hsplit hends =>
      rw [List.append_nil] at hsplit
      exact ⟨_, _, n, panicked, hstarts, hsplit ▸ hends, rfl⟩

/-! ## What a run logs -/

/-- what is logged of transactions: a block for each that has ended, then the open one -/
structure Blocks (events : List (TransactionEvent ℓ)) (s : SharedContext υ ℓ ω)
    (blocks : List (Block ℓ)) (last : List (TransactionEvent ℓ)) : Prop where
  parts : events.filter TransactionEvent.ofTransaction = blocks.flatMap Block.events ++ last
  symmetric : ∀ b ∈ blocks, b.Symmetric
  /-- in the order in which they began -/
  order : blocks.map (·.report.info) ++ s.holds.map (·.transaction.info) = s.begun.map Prod.snd
  idle : s.holds = [] → last = []
  underway : ∀ hold ∈ s.holds, ∃ inner, last =
    .began hold.transaction.info hold.transaction.listeners :: inner ∧ hold.Recorded inner

theorem registeredAfter_concat [DecidableEq ℓ] (events : List (TransactionEvent ℓ))
    (event : TransactionEvent ℓ) :
    registeredAfter (events ++ [event]) = event.registrations (registeredAfter events) := by
  rw [registeredAfter, List.foldl_append]
  rfl

theorem Hold.Logs.listeners [DecidableEq ℓ] {c c' : Context υ ℓ} {w w' : ω} {hold : Hold ℓ}
    {event : TransactionEvent ℓ} {hold' : Option (Hold ℓ)} (h : Logs c w hold event c' w' hold') :
    c'.listeners = event.registrations c.listeners := by
  cases h <;> rfl

namespace Blocks

variable {id : SessionId} {s : SharedContext υ ℓ ω} {events : List (TransactionEvent ℓ)}
  {event : TransactionEvent ℓ} {blocks : List (Block ℓ)} {last : List (TransactionEvent ℓ)}

/-- a step outside of transactions -/
theorem skip (hb : Blocks events s blocks last) (hskip : event.ofTransaction = false)
    (c : Context υ ℓ) : Blocks (events ++ [event]) { s with context := c } blocks last := by
  refine ⟨?_, hb.symmetric, hb.order, hb.idle, hb.underway⟩
  rw [List.filter_append, hb.parts, List.filter_singleton, hskip]
  exact List.append_nil _

theorem taken (hb : Blocks events s blocks last) (hnil : s.holds = []) (thread : ThreadId) :
    Blocks (events ++ [.began s.context.upcoming.info s.context.listeners]) (s.taken thread)
      blocks [.began s.context.upcoming.info s.context.listeners] := by
  have hholds : (s.taken thread).holds =
      [⟨thread, s.context.upcoming, .telling .starting s.context.listeners⟩] := by
    rw [SharedContext.taken, hnil]
    rfl
  refine ⟨?_, hb.symmetric, ?_, fun h => ?_, fun hold hh => ?_⟩
  · rw [List.filter_append, hb.parts, hb.idle hnil, List.append_nil]
    rfl
  · have horder := hb.order
    rw [hnil, List.map_nil, List.append_nil] at horder
    rw [hholds, horder, SharedContext.taken, List.map_append]
    rfl
  · rw [hholds] at h
    cases h
  · rw [hholds, List.mem_singleton] at hh
    subst hh
    have hstarts : ([] : List (CalledHook ℓ)).map CalledHook.call =
        ([] : List ℓ).map (HookCall.mk s.context.upcoming.info .starting) := rfl
    exact ⟨[], rfl, .starting [] rfl hstarts, rfl⟩

theorem turn (hb : Blocks events s blocks last) {hold : Hold ℓ} {c : Context υ ℓ} {w : ω}
    {hold' : Option (Hold ℓ)} (hs : s.holds = [hold])
    (h : Hold.Logs s.context s.world hold event c w hold') :
    ∃ blocks last, Blocks (events ++ [event]) ⟨c, w, hold'.toList, s.begun⟩ blocks last := by
  obtain ⟨inner, hlast, hr⟩ := hb.underway hold (hs ▸ List.mem_singleton_self hold)
  have horder := hb.order
  rw [hs, List.map_singleton] at horder
  cases hold' with
  | some k =>
    obtain ⟨hr', hof, hinfo, hlisteners⟩ := hr.turn h
    refine ⟨blocks, last ++ [event], ?_, hb.symmetric, ?_, nofun, fun k' hk' => ?_⟩
    · rw [List.filter_append, hb.parts, List.filter_singleton, hof, List.append_assoc]
      rfl
    · rw [← horder, ← hinfo]
      rfl
    · obtain rfl := List.mem_singleton.1 hk'
      refine ⟨inner ++ [event], ?_, hr'⟩
      rw [hlast, hinfo, hlisteners]
      rfl
  | none =>
    obtain ⟨report, rfl, hinfo, hsymmetric⟩ := hr.release h
    refine ⟨blocks ++ [⟨hold.transaction.listeners, inner, report⟩], [], ?_, fun b hmem => ?_, ?_,
      fun _ => rfl, nofun⟩
    · rw [List.filter_append, hb.parts, hlast, List.flatMap_append, List.flatMap_singleton,
        Block.events, hinfo, List.append_nil, List.append_assoc]
      rfl
    · rcases List.mem_append.1 hmem with hmem | hmem
      · exact hb.symmetric b hmem
      · rw [List.mem_singleton.1 hmem]
        exact hsymmetric
    · rw [← horder, List.map_append, List.map_singleton, hinfo]
      exact List.append_nil _

theorem step [DecidableEq ℓ] {s' : SharedContext υ ℓ ω} (he : Exclusive id s)
    (hb : Blocks events s blocks last) (h : SharedContext.Logs s event s') :
    ∃ blocks last, Blocks (events ++ [event]) s' blocks last := by
  cases h with
  | take thread patience hfree =>
    have hnil := he.holds_eq_nil (Context.admission_eq_free_iff.1 hfree).2
    exact ⟨_, _, hb.taken hnil thread⟩
  | turn hs hlog =>
    obtain ⟨rfl, rfl⟩ := he.split hs
    rw [List.nil_append, List.append_nil]
    exact hb.turn hs hlog
  | addListener | removeListener => exact ⟨_, _, hb.skip rfl _⟩

end Blocks

section

variable [DecidableEq ℓ] {id : SessionId} {ui : υ} {w₀ : ω} {s s' : SharedContext υ ℓ ω}
  {event : TransactionEvent ℓ} {events : List (TransactionEvent ℓ)}

theorem SharedContext.Runs.exclusive (h : Runs (fresh id ui w₀) events s) : Exclusive id s :=
  (reachable_iff.2 ⟨events, h⟩).exclusive

theorem SharedContext.Logs.listeners (h : Logs s event s') :
    s'.context.listeners = event.registrations s.context.listeners := by
  cases h with
  | turn _ hlog => exact hlog.listeners
  | take | addListener | removeListener => rfl

theorem SharedContext.Runs.listeners (h : Runs (fresh id ui w₀) events s) :
    s.context.listeners = registeredAfter events := by
  induction h with
  | refl => rfl
  | tail _ hlast ih => rw [hlast.listeners, ih, registeredAfter_concat]

/-- a transaction begins with the listeners there are -/
theorem SharedContext.Logs.began {info : TransactionInfo} {listeners : List ℓ}
    (h : Logs s (.began info listeners) s') : listeners = s.context.listeners := by
  cases h with
  | take => rfl
  | turn _ hlog => cases hlog

theorem SharedContext.Runs.began {before after : List (TransactionEvent ℓ)} {info : TransactionInfo}
    {listeners : List ℓ} (h : Runs (fresh id ui w₀) events s)
    (hsplit : events = before ++ .began info listeners :: after) :
    listeners = registeredAfter before := by
  induction h generalizing after with
  | refl => cases before <;> cases hsplit
  | tail hruns hlast ih =>
    rcases concat_eq_append_cons hsplit with ⟨rfl, rfl, -⟩ | ⟨rest, -, hsplit⟩
    · rw [hlast.began, hruns.listeners]
    · exact ih hsplit

theorem SharedContext.Runs.blocks (h : Runs (fresh id ui w₀) events s) :
    ∃ blocks last, Blocks events s blocks last := by
  induction h with
  | refl => exact ⟨[], [], rfl, nofun, rfl, fun _ => rfl, nofun⟩
  | tail hruns hlast ih =>
    obtain ⟨blocks, last, hb⟩ := ih
    exact hb.step hruns.exclusive hlast

end

/-! ## The main statement -/

/-- what `events`, logged until `s` was reached, say of listeners and transactions -/
structure Unwound [DecidableEq ℓ] (events : List (TransactionEvent ℓ)) (s : SharedContext υ ℓ ω) :
    Prop where
  listeners : s.context.listeners = registeredAfter events
  /-- a transaction begins with the listeners that are registered at that time -/
  began : ∀ before info listeners after, events = before ++ .began info listeners :: after →
    listeners = registeredAfter before
  /-- one block after the other, and what is logged of a transaction that is open -/
  blocks : ∃ blocks last, Blocks events s blocks last
  starts : s.holds = [] → ∀ (h : Hooks ℓ ω) thread, ∃ s' t,
    s.context.start h thread s.world = (s'.world, s'.context, t) ∧
      s'.holds = [⟨thread, t, .opened⟩] ∧ Runs s (h.opening s.context.upcoming s.world) s'
  /-- the drop after the end logs nothing -/
  ends : ∀ hold ∈ s.holds, hold.stage = .opened → ∀ h : Hooks ℓ ω, ∃ s' report,
    (Lease.ofTransaction hold.transaction).close h s.context s.world =
      (s'.world, s'.context, report) ∧ s'.holds = [] ∧
    Runs s (h.closing false hold.transaction s.world report.failures) s'
  /-- also when the work panicked -/
  drops : ∀ hold ∈ s.holds, hold.stage = .opened → ∀ h : Hooks ℓ ω, ∃ s' lease,
    (Lease.ofTransaction hold.transaction).finish h s.context s.world =
      (s'.world, s'.context, lease) ∧ lease.ended = true ∧ s'.holds = [] ∧
    Runs s (h.closing true hold.transaction s.world lease.transaction.failures) s'

section

variable [DecidableEq ℓ] {id : SessionId} {ui : υ} {w₀ : ω} {s : SharedContext υ ℓ ω}
  {events : List (TransactionEvent ℓ)}

theorem SharedContext.Runs.finish (hruns : Runs (fresh id ui w₀) events s) {hold : Hold ℓ}
    (hh : hold ∈ s.holds) (hopened : hold.stage = .opened) (h : Hooks ℓ ω) (panicked : Bool)
    {w' : ω} {c' : Context υ ℓ} {report : TransactionReport}
    (hfinish : s.context.finish h hold.transaction s.world = (w', c', report)) :
    Runs s (h.closing panicked hold.transaction s.world report.failures) ⟨c', w', [], s.begun⟩ := by
  have hend := runs_finish h hold.thread panicked (hruns.exclusive.current_of_mem hh) s.begun hfinish
  rwa [← hopened, ← hruns.exclusive.holds_eq_singleton hh] at hend

/-- Listeners that come and go, refuse or break off at any time: what is logged of transactions is
one block after the other, each with the start hooks of the listeners that were registered when it
began and their end hooks in reverse order, and a transaction's failures are those of its hooks. -/
theorem unwound_runs (hruns : Runs (fresh id ui w₀) events s) : Unwound events s := by
  refine
    { listeners := hruns.listeners
      began := fun before info listeners after hsplit => hruns.began hsplit
      blocks := hruns.blocks
      starts := fun hnone h thread => ?_
      ends := fun hold hh hopened h => ?_
      drops := fun hold hh hopened h => ?_ }
  · have hfree := hruns.exclusive.admission_free hnone thread .waits
    exact ⟨_, _, rfl, rfl, runs_start h thread hnone hfree rfl⟩
  · refine ⟨_, _, ?_, rfl, hruns.finish hh hopened h false rfl⟩
    rw [Lease.close_ofTransaction]
    rfl
  · have hfinish := Lease.finish_ofTransaction h s.context hold.transaction s.world
    exact ⟨⟨_, _, [], s.begun⟩, _, hfinish, rfl, rfl, hruns.finish hh hopened h true rfl⟩

end

/-! ### A transaction whose work panics -/

inductive Moody where
  /-- refuses every start -/
  | strict
  /-- breaks off at every end -/
  | frail
  deriving DecidableEq

def Moody.hooks : Hooks Moody Unit where
  name
    | strict => "strict"
    | frail => "frail"
  run
    | strict, .starting, _, w => (w, .refused "not now")
    | frail, .ending, _, w => (w, .brokeOff none)
    | _, _, _, w => (w, .done)

/-- both registrations of the second listener are taken out while the start hooks run -/
def panicEvents : List (TransactionEvent Moody) :=
  let info := ⟨"s", 1⟩
  [.registered .frail, .registered .strict, .registered .frail,
    .began info [.frail, .strict, .frail],
    .called ⟨⟨info, .starting, .frail⟩, "frail", .done⟩,
    .removed .frail,
    .called ⟨⟨info, .starting, .strict⟩, "strict", .refused "not now"⟩,
    .called ⟨⟨info, .starting, .frail⟩, "frail", .done⟩,
    .opened, .worked, .left true,
    .called ⟨⟨info, .ending, .frail⟩, "frail", .brokeOff none⟩,
    .called ⟨⟨info, .ending, .strict⟩, "strict", .done⟩,
    .called ⟨⟨info, .ending, .frail⟩, "frail", .brokeOff none⟩,
    .closed ⟨info, [⟨"strict", .starting, "not now"⟩, ⟨"frail", .ending, "listener panicked"⟩,
      ⟨"frail", .ending, "listener panicked"⟩]⟩]

def afterPanic : SharedContext Unit Moody Unit where
  context := { Context.ofUi "s" () with listeners := [.strict], requests := 1 }
  world := ()
  holds := []
  begun := [(⟨1⟩, ⟨"s", 1⟩)]

theorem runs_afterPanic : Runs (fresh "s" () ()) panicEvents afterPanic := by
  have hregistered := (((Runs.refl (fresh "s" () ())).tail (.addListener Moody.frail)).tail
    (.addListener .strict)).tail (.addListener .frail)
  have htold := (hregistered.tail (.take ⟨1⟩ .waits rfl)).tail
    (logs_of_turn (.tell Moody.hooks rfl) _)
  have hopened := (((htold.tail (.removeListener .frail)).tail
    (logs_of_turn (.tell Moody.hooks rfl) _)).tail (logs_of_turn (.tell Moody.hooks rfl) _)).tail
    (logs_of_turn .handOut _)
  have hworked := hopened.tail (logs_of_turn (.work id) _)
  exact hworked.trans (runs_finish Moody.hooks ⟨1⟩ true rfl _ rfl)

theorem unwound_runs_afterPanic : Runs (fresh "s" () ()) panicEvents afterPanic ∧
    Unwound panicEvents afterPanic := ⟨runs_afterPanic, unwound_runs runs_afterPanic⟩

end UiSync
