import UiSync.Proofs.SequenceNumber
import UiSync.Proofs.Session.Delivering
import UiSync.Proofs.Session.Responding

/-!
# Histories of a session

`History σ log s` says that a session can get to `s` while writing the responses of `log`, by
operations, invocations and messages in any order, each with a behaviour of its own, and with
responses that could be written and ones that could not.

Whatever the history, the responses are numbered from 0, and applying them in turn leads from one
mirror of what was committed to the next (`History.recorded`).
-/

namespace UiSync

open SequenceNumber

variable {μ η σ : Type}

structure Commit (μ : Type) where
  message : ServerMessage
  tree : Tree μ

/-- the session got to `s` after it had written the responses of `log` -/
inductive History (σ : Type) : List (Commit μ) → Session μ η → Prop
  | start {root : Component μ} (config : Config) :
      root.fields.Unsent → History σ [] (Session.ofRoot root config)
  | act {log : List (Commit μ)} {s s' : Session μ η} :
      History σ log s → Session.Act true s s' → History σ log s'
  | deliver {log : List (Commit μ)} {s : Session μ η} {b : Behaviour μ η σ} (call : Invocation) :
      History σ log s → b.Regular true → History σ log (s.deliver b call).1
  | receive {log : List (Commit μ)} {s : Session μ η} {b : Behaviour μ η σ} (m : ClientMessage) :
      History σ log s → b.Regular true → History σ log (s.receive b m).1
  | respond {log : List (Commit μ)} {s s' : Session μ η} {b : Behaviour μ η σ}
      {response : Response} : History σ log s → s.respond b = (s', .ok response) →
        History σ (log ++ [⟨response.message, s'.tree⟩]) s'
  | unanswered {log : List (Commit μ)} {s s' : Session μ η} {b : Behaviour μ η σ}
      {e : ResponseError} :
        History σ log s → s.respond b = (s', .error e) → History σ log s'

/-! ## Applying every response in turn -/

def replay (log : List (Commit μ)) : Except ReplicaError Replica :=
  log.foldlM (fun r c => r.follow c.message) ∅

def lastNumber : List (Commit μ) → Option SequenceNumber
  | [] => none
  | _ :: rest => some (ofNat rest.length)

/-- the responses are numbered from 0, and applied in turn each of them leaves a mirror of what
was committed with it -/
def Faithful (log : List (Commit μ)) : Prop :=
  ∀ n c, log[n]? = some c → c.message.sequence = ofNat n ∧
    ∃ r r', replay (log.take n) = .ok r ∧ r.follow c.message = .ok r' ∧
      r'.Mirrors FieldBag.sent c.tree

theorem replay_append_singleton {log : List (Commit μ)} {r : Replica} (h : replay log = .ok r)
    (c : Commit μ) : replay (log ++ [c]) = r.follow c.message := by
  rw [replay, List.foldlM_append, ← replay, h]
  show r.follow c.message >>= pure = _
  exact bind_pure _

theorem lastNumber_append_singleton (log : List (Commit μ)) (c : Commit μ) :
    lastNumber (log ++ [c]) = some (ofNat log.length) := by
  cases log with
  | nil => rfl
  | cons d rest =>
    show some (ofNat (rest ++ [c]).length) = some (ofNat (rest.length + 1))
    rw [List.length_append, List.length_singleton]

theorem lastNumber_eq_none_iff {log : List (Commit μ)} : lastNumber log = none ↔ log = [] := by
  cases log with
  | nil => exact ⟨fun _ => rfl, fun _ => rfl⟩
  | cons c rest => exact ⟨fun h => (by cases h), fun h => (by cases h)⟩

/-- the number that follows the last one is the length of the log -/
theorem next_lastNumber (log : List (Commit μ)) :
    ((lastNumber log).map SequenceNumber.next).getD first = ofNat log.length := by
  cases log with
  | nil => rfl
  | cons c rest => exact next_ofNat rest.length

namespace Faithful

variable {log : List (Commit μ)}

theorem nil : Faithful ([] : List (Commit μ)) := by
  intro n c h
  cases h

theorem append (h : Faithful log) {r r' : Replica} {c : Commit μ} (hr : replay log = .ok r)
    (hseq : c.message.sequence = ofNat log.length) (hf : r.follow c.message = .ok r')
    (hm : r'.Mirrors FieldBag.sent c.tree) : Faithful (log ++ [c]) := by
  intro n d hd
  rcases lt_trichotomy n log.length with hn | rfl | hn
  · rw [List.getElem?_append_left hn] at hd
    rw [List.take_append_of_le_length hn.le]
    exact h n d hd
  · rw [List.getElem?_concat_length] at hd
    obtain rfl := Option.some.inj hd
    rw [List.take_append_of_le_length (le_refl _), List.take_length]
    exact ⟨hseq, r, r', hr, hf, hm⟩
  · have hlen : (log ++ [c]).length ≤ n := by
      rw [List.length_append, List.length_singleton]
      omega
    rw [List.getElem?_eq_none hlen] at hd
    cases hd

end Faithful

/-! ## What every history keeps -/

structure Recorded (log : List (Commit μ)) (s : Session μ η) : Prop where
  faithful : Faithful log
  tracks : ∃ r, replay log = .ok r ∧ s.Tracks r
  last : s.lastResponse = lastNumber log
  rootKnown : s.RootKnown

namespace Recorded

variable {log : List (Commit μ)} {s s' : Session μ η} {b : Behaviour μ η σ} {clears : Bool}

theorem wellFormed (h : Recorded log s) : s.tree.WellFormed := by
  obtain ⟨r, -, ht⟩ := h.tracks
  exact ht.wellFormed

theorem nextSequence (h : Recorded log s) : s.nextSequence = ofNat log.length := by
  rw [Session.nextSequence, h.last]
  exact next_lastNumber log

theorem acts (h : Recorded log s) (ha : Session.Acts clears s s') : Recorded log s' := by
  obtain ⟨r, hr, ht⟩ := h.tracks
  exact ⟨h.faithful, ⟨r, hr, ht.acts ha⟩, ha.kept.lastResponse.trans h.last, h.rootKnown.acts ha⟩

/-- components edited in place, and nothing else -/
theorem edited (h : Recorded log s) (he : Tree.Edited s.tree s'.tree)
    (hh : s'.hierarchy = s.hierarchy) (hp : s'.resyncPending = s.resyncPending)
    (hl : s'.lastResponse = s.lastResponse) : Recorded log s' := by
  obtain ⟨r, hr, ht⟩ := h.tracks
  refine ⟨h.faithful, ⟨r, hr, ht.edited he hh hp⟩, hl.trans h.last, ?_⟩
  intro hlast hpend
  rw [hh]
  exact h.rootKnown (hl ▸ hlast) (hp ▸ hpend)

theorem respond (h : Recorded log s) {response : Response}
    (hr : s.respond b = (s', .ok response)) :
    Recorded (log ++ [⟨response.message, s'.tree⟩]) s' := by
  obtain ⟨r, hreplay, ht⟩ := h.tracks
  obtain ⟨r', hfollow, hm, ht'⟩ := ht.respond_ok hr
  have hroot := h.rootKnown.respond (b := b)
  rw [hr] at hroot
  obtain ⟨c, -, hs', hmsg⟩ := Session.respond_ok hr
  have hseq : response.message.sequence = ofNat log.length := by
    rw [hmsg]
    exact h.nextSequence
  refine ⟨h.faithful.append hreplay hseq hfollow hm, ⟨r', ?_, ht'⟩, ?_, hroot⟩
  · exact (replay_append_singleton hreplay _).trans hfollow
  · rw [lastNumber_append_singleton, ← h.nextSequence, hs']
    rfl

theorem unanswered (h : Recorded log s) {e : ResponseError}
    (hr : s.respond b = (s', .error e)) : Recorded log s' := by
  obtain ⟨r, hreplay, ht⟩ := h.tracks
  have hroot := h.rootKnown.respond (b := b)
  rw [hr] at hroot
  obtain ⟨-, -, -, hl⟩ := Session.respond_error hr
  exact ⟨h.faithful, ⟨r, hreplay, ht.respond_error hr⟩, hl.trans h.last, hroot⟩

end Recorded

theorem recorded_ofRoot {root : Component μ} (h : root.fields.Unsent) (config : Config) :
    Recorded [] (Session.ofRoot root config : Session μ η) := by
  refine ⟨.nil, ⟨∅, rfl, Session.tracks_ofRoot h config⟩, rfl, ?_⟩
  intro hlast
  exact absurd rfl hlast

theorem History.recorded {log : List (Commit μ)} {s : Session μ η} (h : History σ log s) :
    Recorded log s := by
  induction h with
  | start config hroot => exact recorded_ofRoot hroot config
  | act _ ha ih => exact ih.acts (Session.acts_of_act ha)
  | deliver call _ hb ih => exact ih.acts (Session.acts_deliver hb _ call)
  | receive m _ hb ih => exact ih.acts (Session.acts_receive hb _ m)
  | respond _ hr ih => exact ih.respond hr
  | unanswered _ hr ih => exact ih.unanswered hr

/-! ## Histories of any length -/

/-- a session that is written over and over without anything happening to it -/
theorem exists_history {root : Component μ} (h : root.fields.Unsent) (n : Nat) :
    ∃ (log : List (Commit μ)) (s : Session μ η),
      History σ log s ∧ log.length = n ∧ s.config = {} := by
  induction n with
  | zero => exact ⟨[], Session.ofRoot root {}, .start {} h, rfl, rfl⟩
  | succ n ih =>
    obtain ⟨log, s, hlog, hlen, hconfig⟩ := ih
    have hlimit : s.config.maxResponseBytes = none := by rw [hconfig]
    have hpasses : 0 < s.config.maxFinalizePasses := by
      rw [hconfig]
      exact Nat.zero_lt_succ 63
    obtain ⟨s', response, hr⟩ := Session.respond_quiet (b := Behaviour.idle (σ := σ))
      Behaviour.quiet_idle hlog.recorded.wellFormed hlimit hpasses
    obtain ⟨c, -, hs', -⟩ := Session.respond_ok hr
    refine ⟨_, s', hlog.respond hr, ?_, ?_⟩
    · rw [List.length_append, hlen, List.length_singleton]
    · rw [hs']
      exact hconfig

def page : Component Unit :=
  ⟨"Page", .ofFields ((∅ : Fields).insert "title" (.string "Welcome")), ()⟩

theorem unsent_page : page.fields.Unsent := FieldBag.unsent_ofFields _

def writtenPage : Session Unit Unit :=
  ((Session.ofRoot page {}).respond (.idle : Behaviour Unit Unit Unit)).1

theorem respond_page : ∃ response, (Session.ofRoot page {}).respond
    (.idle : Behaviour Unit Unit Unit) = (writtenPage, .ok response) := ⟨_, rfl⟩

end UiSync
