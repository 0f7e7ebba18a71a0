import UiSync.Proofs.Data.Boards
import UiSync.Proofs.Lists

/-!
# Runs of listeners

Listeners are added, removed and told of changes in any order, also by a listener that is being
called: between two calls of one round anything may happen, another change and its round included
(`Listening.Logs`).  Each step is logged as an event.

The registrations at a time are those that were added before and not removed since
(`Listening.registered`).  They are what the list holds (`Listening.Enrolled`), and every round calls
those of the moment of its change, in order (`Listening.Paired`).  `Listeners.fire` is a round that
comes to its end, whatever those who are told do to the listeners (`Listening.Does`), and so are the
rounds of what they fire themselves (`Listening.runs_fire`).
-/

namespace UiSync

variable {ℓ τ : Type}

namespace Listening

inductive Event (ℓ τ : Type) where
  | added (key : Nat) (listener : ℓ)
  | removed (key : Nat)
  | fired (change : DataChange τ)
  /-- a listener is called for the change that was fired after `round` other ones -/
  | called (round : Nat) (change : DataChange τ) (entry : Nat × ℓ)

structure Round (ℓ τ : Type) where
  change : DataChange τ
  /-- the registrations that are still to be called -/
  rest : List (Nat × ℓ)

end Listening

/-- listeners, and the rounds in which they were and are told of changes, oldest first -/
structure Listening (ℓ τ : Type) where
  listeners : Listeners ℓ
  rounds : List (Listening.Round ℓ τ)

namespace Listening

def new : Listening ℓ τ := ⟨∅, []⟩

inductive Logs : Listening ℓ τ → Event ℓ τ → Listening ℓ τ → Prop
  | add {s : Listening ℓ τ} (listener : ℓ) : Logs s (.added (s.listeners.add listener).1 listener)
      { s with listeners := (s.listeners.add listener).2 }
  | remove {s : Listening ℓ τ} (key : Nat) :
      Logs s (.removed key) { s with listeners := s.listeners.remove key }
  | fire {s : Listening ℓ τ} (change : DataChange τ) : Logs s (.fired change)
      { s with rounds := s.rounds ++ [⟨change, s.listeners.entries⟩] }
  | call {s : Listening ℓ τ} {n : Nat} {change : DataChange τ} {entry : Nat × ℓ}
      {rest : List (Nat × ℓ)} : s.rounds[n]? = some ⟨change, entry :: rest⟩ →
        Logs s (.called n change entry) { s with rounds := s.rounds.set n ⟨change, rest⟩ }

inductive Runs : Listening ℓ τ → List (Event ℓ τ) → Listening ℓ τ → Prop
  | refl (s : Listening ℓ τ) : Runs s [] s
  | tail {s s' s'' : Listening ℓ τ} {log : List (Event ℓ τ)} {event : Event ℓ τ} :
      Runs s log s' → Logs s' event s'' → Runs s (log ++ [event]) s''

section

variable {s s' s'' : Listening ℓ τ} {event : Event ℓ τ} {log log' : List (Event ℓ τ)}

theorem Runs.trans (h : Runs s log s') (h' : Runs s' log' s'') : Runs s (log ++ log') s'' := by
  induction h' with
  | refl => rwa [List.append_nil]
  | tail _ hlast ih =>
    rw [← List.append_assoc]
    exact .tail ih hlast

theorem Logs.runs (h : Logs s event s') : Runs s [event] s' := .tail (.refl s) h

theorem Runs.head (h : Logs s event s') (h' : Runs s' log s'') : Runs s (event :: log) s'' :=
  h.runs.trans h'

end

/-- the next one of a round is called, whatever rounds came before and after -/
theorem logs_next (ls : Listeners ℓ) (rounds later : List (Round ℓ τ)) (change : DataChange τ)
    (entry : Nat × ℓ) (rest : List (Nat × ℓ)) :
    Logs ⟨ls, rounds ++ ⟨change, entry :: rest⟩ :: later⟩ (.called rounds.length change entry)
      ⟨ls, rounds ++ ⟨change, rest⟩ :: later⟩ := by
  have hround : (rounds ++ ⟨change, entry :: rest⟩ :: later)[rounds.length]? =
      some ⟨change, entry :: rest⟩ := by simp
  have hcall := Logs.call (s := ⟨ls, rounds ++ ⟨change, entry :: rest⟩ :: later⟩) hround
  have hset : (rounds ++ ⟨change, entry :: rest⟩ :: later).set rounds.length ⟨change, rest⟩ =
      rounds ++ ⟨change, rest⟩ :: later := by simp
  rwa [hset] at hcall

/-! ## What a log says -/

namespace Event

def registration? : Event ℓ τ → Option (Nat × ℓ)
  | added key listener => some (key, listener)
  | _ => none

def removal? : Event ℓ τ → Option Nat
  | removed key => some key
  | _ => none

def isFired : Event ℓ τ → Bool
  | fired _ => true
  | _ => false

/-- the call of a round, with the change the listener is told -/
def callIn? (round : Nat) : Event ℓ τ → Option (DataChange τ × (Nat × ℓ))
  | called n change entry => if n = round then some (change, entry) else none
  | _ => none

end Event

def registrations (log : List (Event ℓ τ)) : List (Nat × ℓ) := log.filterMap Event.registration?

def removals (log : List (Event ℓ τ)) : List Nat := log.filterMap Event.removal?

def firedIn (log : List (Event ℓ τ)) : Nat := log.countP Event.isFired

def callsIn (round : Nat) (log : List (Event ℓ τ)) : List (DataChange τ × (Nat × ℓ)) :=
  log.filterMap (Event.callIn? round)

/-- the registrations that were added and not removed later, in the order in which they were added -/
def registered : List (Event ℓ τ) → List (Nat × ℓ)
  | [] => []
  | .added key listener :: log =>
    if key ∈ removals log then registered log else (key, listener) :: registered log
  | _ :: log => registered log

variable {log more before after : List (Event ℓ τ)} {event : Event ℓ τ}

theorem registrations_append :
    registrations (log ++ more) = registrations log ++ registrations more := List.filterMap_append

theorem registered_append : registered (log ++ more) =
    (registered log).filter (fun e => e.1 ∉ removals more) ++ registered more := by
  induction log with
  | nil => rfl
  | cons event log ih =>
    cases event with
    | added key listener =>
      have hremovals : key ∈ removals (log ++ more) ↔ key ∈ removals log ∨ key ∈ removals more := by
        rw [removals, List.filterMap_append, List.mem_append]
        rfl
      rw [List.cons_append, registered, registered, ih]
      by_cases hlog : key ∈ removals log
      · rw [if_pos hlog, if_pos (hremovals.2 (.inl hlog))]
      · rw [if_neg hlog]
        by_cases hmore : key ∈ removals more
        · rw [if_pos (hremovals.2 (.inr hmore)), List.filter_cons_of_neg (by simpa using hmore)]
        · rw [if_neg fun h => (hremovals.1 h).elim hlog hmore,
            List.filter_cons_of_pos (by simpa using hmore), List.cons_append]
    | removed key => exact ih
    | fired change => exact ih
    | called n change entry => exact ih

theorem sublist_registrations (log : List (Event ℓ τ)) :
    (registered log).Sublist (registrations log) := by
  induction log with
  | nil => exact .slnil
  | cons event log ih =>
    cases event with
    | added key listener =>
      rw [registered]
      split
      · exact ih.cons _
      · exact ih.cons_cons _
    | removed key => exact ih
    | fired change => exact ih
    | called n change entry => exact ih

theorem firedIn_concat : firedIn (log ++ [event]) = firedIn log + if event.isFired then 1 else 0 := by
  rw [firedIn, List.countP_append, List.countP_singleton, firedIn]

theorem callsIn_concat (n : Nat) :
    callsIn n (log ++ [event]) = callsIn n log ++ (event.callIn? n).toList := by
  rw [callsIn, List.filterMap_append, callsIn]
  cases h : event.callIn? n <;> simp [h]

/-- every change has its number -/
theorem exists_fired {n : Nat} (h : n < firedIn log) : ∃ before change after,
    log = before ++ .fired change :: after ∧ firedIn before = n := by
  induction log using List.reverseRecOn with
  | nil => exact absurd h (Nat.not_lt_zero n)
  | append_singleton log event ih =>
    rw [firedIn_concat] at h
    by_cases hold : n < firedIn log
    · obtain ⟨before, change, after, rfl, hn⟩ := ih hold
      exact ⟨before, change, after ++ [event], by simp, hn⟩
    · cases event with
      | fired change =>
        have hnew : n < firedIn log + 1 := h
        exact ⟨log, change, [], rfl, by omega⟩
      | _ => exact absurd h hold

/-! ## What the list holds -/

/-- the list holds what is registered, under keys that go up by one -/
structure Enrolled (log : List (Event ℓ τ)) (ls : Listeners ℓ) : Prop where
  keys : (registrations log).map Prod.fst = List.range' 1 ls.lastKey
  entries : ls.entries = registered log

namespace Enrolled

variable {ls : Listeners ℓ}

theorem empty : Enrolled ([] : List (Event ℓ τ)) ∅ := ⟨rfl, rfl⟩

theorem add (h : Enrolled log ls) (listener : ℓ) :
    Enrolled (log ++ [.added (ls.add listener).1 listener]) (ls.add listener).2 := by
  constructor
  · rw [registrations_append, List.map_append, h.keys]
    show _ ++ [ls.lastKey + 1] = List.range' 1 (ls.lastKey + 1)
    rw [List.range'_1_concat, Nat.add_comm]
  · have hkept : (registered log).filter (fun e => e.1 ∉ removals
        [(.added (ls.add listener).1 listener : Event ℓ τ)]) = registered log :=
      List.filter_eq_self.2 fun e _ => by simp [removals, Event.removal?]
    rw [registered_append, hkept, ← h.entries]
    rfl

theorem remove (h : Enrolled log ls) (key : Nat) :
    Enrolled (log ++ [.removed key]) (ls.remove key) := by
  constructor
  · rw [registrations_append, List.map_append, h.keys]
    exact List.append_nil _
  · rw [registered_append, ← h.entries]
    show ls.entries.filter _ = ls.entries.filter _ ++ []
    rw [List.append_nil]
    refine List.filter_congr fun e _ => ?_
    show (e.1 != key) = decide (e.1 ∉ [key])
    rw [Bool.eq_iff_iff, bne_iff_ne, decide_eq_true_iff, List.mem_singleton]

/-- a change and a call leave the list as it is -/
theorem skip (h : Enrolled log ls) (hadded : event.registration? = none)
    (hremoved : event.removal? = none) : Enrolled (log ++ [event]) ls := by
  have hevent : registered [event] = [] := by
    cases event with
    | added key listener => cases hadded
    | _ => rfl
  constructor
  · rw [registrations_append, List.map_append, h.keys]
    simp [registrations, hadded]
  · rw [registered_append, hevent, List.append_nil, h.entries]
    exact (List.filter_eq_self.2 fun e _ => by simp [removals, hremoved]).symm

/-- no key is used twice -/
theorem nodup_registrations (h : Enrolled log ls) : ((registrations log).map Prod.fst).Nodup := by
  rw [h.keys]
  exact List.nodup_range'

/-- nor is one used twice among those that are registered at some time -/
theorem nodup_registered (h : Enrolled (before ++ after) ls) :
    ((registered before).map Prod.fst).Nodup := by
  have hnodup := h.nodup_registrations
  rw [registrations_append, List.map_append] at hnodup
  exact (List.nodup_append.1 hnodup).1.sublist ((sublist_registrations before).map Prod.fst)

end Enrolled

/-- a key takes out its own entry and no other -/
theorem remove_entries {ls : Listeners ℓ} (hnodup : (ls.entries.map Prod.fst).Nodup)
    {before after : List (Nat × ℓ)} {entry : Nat × ℓ} (he : ls.entries = before ++ entry :: after) :
    (ls.remove entry.1).entries = before ++ after := by
  rw [he, List.map_append, List.map_cons] at hnodup
  obtain ⟨-, hafter, hbefore⟩ := List.nodup_append.1 hnodup
  have hkept (e : Nat × ℓ) (hmem : e ∈ before ++ after) : e.1 ≠ entry.1 := by
    rcases List.mem_append.1 hmem with hmem | hmem
    · exact hbefore _ (List.mem_map_of_mem hmem) _ (List.mem_cons_self ..)
    · intro hsame
      exact (List.nodup_cons.1 hafter).1 (hsame ▸ List.mem_map_of_mem hmem)
  show ls.entries.filter _ = _
  rw [he, List.filter_append, List.filter_cons_of_neg (by simp), ← List.filter_append]
  exact List.filter_eq_self.2 fun e hmem => bne_iff_ne.2 (hkept e hmem)

/-! ## What the rounds call -/

/-- every change has a round, which calls the registrations of its moment -/
structure Paired (log : List (Event ℓ τ)) (rounds : List (Round ℓ τ)) : Prop where
  fired : firedIn log = rounds.length
  calls : ∀ {before change after}, log = before ++ .fired change :: after →
    ∃ rest, rounds[firedIn before]? = some ⟨change, rest⟩ ∧
      callsIn (firedIn before) log ++ rest.map (change, ·) = (registered before).map (change, ·)
  /-- a call follows the change of its round -/
  asked : ∀ {before n change entry after}, log = before ++ .called n change entry :: after →
    ∃ earlier later, before = earlier ++ .fired change :: later ∧ firedIn earlier = n

theorem firedIn_lt (earlier later : List (Event ℓ τ)) (change : DataChange τ) :
    firedIn earlier < firedIn (earlier ++ .fired change :: later) := by
  rw [firedIn, firedIn, List.countP_append, List.countP_cons_of_pos rfl]
  omega

namespace Paired

variable {rounds : List (Round ℓ τ)}

theorem empty : Paired ([] : List (Event ℓ τ)) [] where
  fired := rfl
  calls h := by simp at h
  asked h := by simp at h

/-- a round that is to come has no calls yet -/
theorem callsIn_eq_nil (h : Paired log rounds) {n : Nat} (hn : rounds.length ≤ n) :
    callsIn n log = [] := by
  refine List.filterMap_eq_nil_iff.2 fun event hevent => ?_
  cases event with
  | called m change entry =>
    refine if_neg ?_
    rintro rfl
    obtain ⟨before, after, hsplit⟩ := List.append_of_mem hevent
    obtain ⟨earlier, later, hbefore, hm⟩ := h.asked hsplit
    have hlt := firedIn_lt earlier (later ++ .called m change entry :: after) change
    rw [← List.cons_append, ← List.append_assoc, ← hbefore, ← hsplit, h.fired, hm] at hlt
    omega
  | _ => rfl

/-- the number of a round is that of its change -/
theorem exists_change (h : Paired log rounds) {n : Nat} {round : Round ℓ τ}
    (hn : rounds[n]? = some round) :
    ∃ before after, log = before ++ .fired round.change :: after ∧ firedIn before = n := by
  have hlt : n < firedIn log := by
    rw [h.fired]
    exact (List.getElem?_eq_some_iff.1 hn).1
  obtain ⟨before, change, after, hsplit, rfl⟩ := exists_fired hlt
  obtain ⟨rest, hround, -⟩ := h.calls hsplit
  rw [hn] at hround
  cases hround
  exact ⟨before, after, hsplit, rfl⟩

/-- adding and removing leave the rounds as they are -/
theorem skip (h : Paired log rounds) (hfired : event.isFired = false)
    (hcalled : ∀ n, event.callIn? n = none) : Paired (log ++ [event]) rounds := by
  constructor
  case fired =>
    rw [firedIn_concat, hfired, h.fired]
    rfl
  case calls =>
    intro before change after hsplit
    rcases concat_eq_append_cons hsplit with ⟨-, rfl, -⟩ | ⟨after', -, hlog⟩
    · cases hfired
    · obtain ⟨rest, hround, hcalls⟩ := h.calls hlog
      rw [callsIn_concat, hcalled, Option.toList_none, List.append_nil]
      exact ⟨rest, hround, hcalls⟩
  case asked =>
    intro before n change entry after hsplit
    rcases concat_eq_append_cons hsplit with ⟨-, rfl, -⟩ | ⟨after', -, hlog⟩
    · have hn : Event.callIn? n (.called n change entry) = some (change, entry) := if_pos rfl
      rw [hcalled] at hn
      cases hn
    · exact h.asked hlog

/-- a new round is to call what is registered -/
theorem fire (h : Paired log rounds) (change : DataChange τ) :
    Paired (log ++ [.fired change]) (rounds ++ [⟨change, registered log⟩]) := by
  have hcalls (n : Nat) : callsIn n (log ++ [.fired change]) = callsIn n log := by
    rw [callsIn_concat]
    exact List.append_nil _
  constructor
  case fired =>
    rw [firedIn_concat, h.fired, List.length_append]
    rfl
  case calls =>
    intro before change' after hsplit
    rcases concat_eq_append_cons hsplit with ⟨rfl, hlast, -⟩ | ⟨after', -, hlog⟩
    · cases hlast
      rw [hcalls, h.fired, h.callsIn_eq_nil (Nat.le_refl _)]
      exact ⟨registered log, List.getElem?_concat_length, rfl⟩
    · obtain ⟨rest, hround, hpaired⟩ := h.calls hlog
      rw [hcalls, List.getElem?_append_left (List.getElem?_eq_some_iff.1 hround).1]
      exact ⟨rest, hround, hpaired⟩
  case asked =>
    intro before n change' entry after hsplit
    rcases concat_eq_append_cons hsplit with ⟨-, hlast, -⟩ | ⟨after', -, hlog⟩
    · cases hlast
    · exact h.asked hlog

/-- the next listener of a round is called -/
theorem call (h : Paired log rounds) {n : Nat} {change : DataChange τ} {entry : Nat × ℓ}
    {rest : List (Nat × ℓ)} (hn : rounds[n]? = some ⟨change, entry :: rest⟩) :
    Paired (log ++ [.called n change entry]) (rounds.set n ⟨change, rest⟩) := by
  constructor
  case fired =>
    rw [firedIn_concat, h.fired, List.length_set]
    rfl
  case calls =>
    intro before change' after hsplit
    rcases concat_eq_append_cons hsplit with ⟨-, hlast, -⟩ | ⟨after', -, hlog⟩
    · cases hlast
    · obtain ⟨rest', hround, hpaired⟩ := h.calls hlog
      rw [callsIn_concat]
      by_cases hsame : n = firedIn before
      · subst hsame
        rw [hn] at hround
        cases hround
        have hcall : Event.callIn? (firedIn before) (.called (firedIn before) change entry) =
            some (change, entry) := if_pos rfl
        refine ⟨rest, List.getElem?_set_self (List.getElem?_eq_some_iff.1 hn).1, ?_⟩
        rw [hcall, Option.toList_some, List.append_assoc, List.singleton_append, ← List.map_cons]
        exact hpaired
      · have hother : Event.callIn? (firedIn before) (.called n change entry) = none := if_neg hsame
        refine ⟨rest', (List.getElem?_set_ne hsame).trans hround, ?_⟩
        rw [hother, Option.toList_none, List.append_nil]
        exact hpaired
  case asked =>
    intro before m change' entry' after hsplit
    rcases concat_eq_append_cons hsplit with ⟨rfl, hlast, -⟩ | ⟨after', -, hlog⟩
    · cases hlast
      exact h.exists_change hn
    · exact h.asked hlog

end Paired

/-! ## Runs -/

/-- one step keeps both -/
theorem Logs.keeps {s s' : Listening ℓ τ} (h : Logs s event s') (he : Enrolled log s.listeners)
    (hp : Paired log s.rounds) :
    Enrolled (log ++ [event]) s'.listeners ∧ Paired (log ++ [event]) s'.rounds := by
  cases h with
  | add listener => exact ⟨he.add listener, hp.skip rfl fun _ => rfl⟩
  | remove key => exact ⟨he.remove key, hp.skip rfl fun _ => rfl⟩
  | fire change => exact ⟨he.skip rfl rfl, he.entries ▸ hp.fire change⟩
  | call hn => exact ⟨he.skip rfl rfl, hp.call hn⟩

theorem Runs.keeps {s : Listening ℓ τ} (h : Runs new log s) :
    Enrolled log s.listeners ∧ Paired log s.rounds := by
  generalize hstart : (new : Listening ℓ τ) = start at h
  induction h with
  | refl =>
    subst hstart
    exact ⟨.empty, .empty⟩
  | tail _ hlast ih =>
    obtain ⟨he, hp⟩ := ih
    exact hlast.keeps he hp

/-! ## Telling in one go -/

/-- what can be done to listeners by adding, removing and firing, if those who are told do no more
than that either -/
inductive Does (τ : Type) : Listeners ℓ → Listeners ℓ → Prop
  | nothing (ls : Listeners ℓ) : Does τ ls ls
  | add {ls ls' : Listeners ℓ} (listener : ℓ) : Does τ ls ls' → Does τ ls (ls'.add listener).2
  | remove {ls ls' : Listeners ℓ} (key : Nat) : Does τ ls ls' → Does τ ls (ls'.remove key)
  | fire {ls : Listeners ℓ} {ω : Type} {view : ω → Listeners ℓ} {notify : ω → Nat × ℓ → ω} {w : ω}
      (change : DataChange τ) : Does τ ls (view w) →
        (∀ w entry, Does τ (view w) (view (notify w entry))) →
          Does τ ls (view ((view w).fire notify w))

/-- every call of a round was made -/
def Over (rounds : List (Round ℓ τ)) : Prop := ∀ round ∈ rounds, round.rest = []

theorem over_nil : Over ([] : List (Round ℓ τ)) := fun _ hround => by cases hround

theorem over_append {rounds more : List (Round ℓ τ)} (h : Over rounds) (h' : Over more) :
    Over (rounds ++ more) := fun round hround => (List.mem_append.1 hround).elim (h round) (h' round)

/-- the listeners get from `ls` to `ls'` by steps whose rounds all come to an end, whatever other
rounds there are -/
def Settles (τ : Type) (ls ls' : Listeners ℓ) : Prop :=
  ∀ rounds : List (Round ℓ τ), ∃ log more,
    Runs ⟨ls, rounds⟩ log ⟨ls', rounds ++ more⟩ ∧ Over more

/-- a run that begins no round -/
theorem settles_of_runs {ls ls' : Listeners ℓ}
    (h : ∀ rounds : List (Round ℓ τ), ∃ log, Runs ⟨ls, rounds⟩ log ⟨ls', rounds⟩) :
    Settles τ ls ls' := by
  intro rounds
  obtain ⟨log, hruns⟩ := h rounds
  exact ⟨log, [], by rwa [List.append_nil], over_nil⟩

theorem Settles.trans {ls ls' ls'' : Listeners ℓ} (h : Settles τ ls ls') (h' : Settles τ ls' ls'') :
    Settles τ ls ls'' := by
  intro rounds
  obtain ⟨log, more, hruns, hover⟩ := h rounds
  obtain ⟨log', more', hruns', hover'⟩ := h' (rounds ++ more)
  rw [List.append_assoc] at hruns'
  exact ⟨log ++ log', more ++ more', hruns.trans hruns', over_append hover hover'⟩

section

variable {ω : Type} {view : ω → Listeners ℓ} {notify : ω → Nat × ℓ → ω}

/-- the rest of a round is called -/
theorem runs_tell (h : ∀ w entry, Settles τ (view w) (view (notify w entry)))
    (entries : List (Nat × ℓ)) (w : ω) (change : DataChange τ) (rounds later : List (Round ℓ τ)) :
    ∃ log more, Runs ⟨view w, rounds ++ ⟨change, entries⟩ :: later⟩ log
      ⟨view (entries.foldl notify w), rounds ++ ⟨change, []⟩ :: (later ++ more)⟩ ∧ Over more := by
  induction entries generalizing w later with
  | nil =>
    refine ⟨[], [], ?_, over_nil⟩
    rw [List.append_nil]
    exact .refl _
  | cons entry entries ih =>
    have hcall := logs_next (view w) rounds later change entry entries
    -- what the listener does comes before the next call
    obtain ⟨log₁, more₁, hruns₁, hover₁⟩ := h w entry (rounds ++ ⟨change, entries⟩ :: later)
    rw [List.append_assoc, List.cons_append] at hruns₁
    obtain ⟨log₂, more₂, hruns₂, hover₂⟩ := ih (notify w entry) (later ++ more₁)
    rw [List.append_assoc] at hruns₂
    exact ⟨_, more₁ ++ more₂, .head hcall (hruns₁.trans hruns₂), over_append hover₁ hover₂⟩

/-- telling everyone of a change is a round of its own, and it comes to its end -/
theorem runs_fire (h : ∀ w entry, Settles τ (view w) (view (notify w entry))) (w : ω)
    (change : DataChange τ) (rounds : List (Round ℓ τ)) : ∃ log more,
      Runs ⟨view w, rounds⟩ (.fired change :: log)
        ⟨view ((view w).fire notify w), rounds ++ ⟨change, []⟩ :: more⟩ ∧ Over more := by
  obtain ⟨log, more, hruns, hover⟩ := runs_tell h (view w).entries w change rounds []
  have hfire : Logs ⟨view w, rounds⟩ (.fired change) ⟨view w, rounds ++ [⟨change, _⟩]⟩ :=
    .fire change
  exact ⟨log, more, .head hfire hruns, hover⟩

end

/-- whatever is done comes to the end of every round it begins -/
theorem Does.settles {ls ls' : Listeners ℓ} (h : Does τ ls ls') : Settles τ ls ls' := by
  induction h with
  | nothing ls => exact settles_of_runs fun rounds => ⟨[], .refl _⟩
  | @add ls ls' listener _ ih =>
    exact ih.trans (settles_of_runs fun rounds => ⟨_, (Logs.add (s := ⟨ls', rounds⟩) listener).runs⟩)
  | @remove ls ls' key _ ih =>
    exact ih.trans (settles_of_runs fun rounds => ⟨_, (Logs.remove (s := ⟨ls', rounds⟩) key).runs⟩)
  | @fire ls ω view notify w change _ _ ih ihnotify =>
    refine ih.trans fun rounds => ?_
    obtain ⟨log, more, hruns, hover⟩ := runs_fire ihnotify w change rounds
    exact ⟨_, _, hruns, List.forall_mem_cons.2 ⟨rfl, hover⟩⟩

/-! ## Every run -/

/-- what is so once `log` has happened, and `s` is where it led -/
structure Exact (log : List (Event ℓ τ)) (s : Listening ℓ τ) : Prop where
  /-- every registration has a key of its own -/
  keys : ((registrations log).map Prod.fst).Nodup
  size : s.listeners.size = (registered log).length
  /-- a key takes out its own entry and no other -/
  removes : ∀ before entry after, s.listeners.entries = before ++ entry :: after →
    (s.listeners.remove entry.1).entries = before ++ after
  /-- the calls that were made for a change, and after them those still to be made, are calls of the
  registrations there were at its moment, each once and in order -/
  calls : ∀ before change after, log = before ++ .fired change :: after →
    ∃ rest, s.rounds[firedIn before]? = some ⟨change, rest⟩ ∧
      callsIn (firedIn before) log ++ rest.map (change, ·) = (registered before).map (change, ·) ∧
      ((registered before).map Prod.fst).Nodup
  /-- no one else is called -/
  asked : ∀ before n change entry after, log = before ++ .called n change entry :: after →
    ∃ earlier later, before = earlier ++ .fired change :: later ∧ firedIn earlier = n
  /-- firing tells those that are registered, one after the other, and each one finds what the one
  before it has left -/
  told : ∀ (ω : Type) (notify : ω → Nat × ℓ → ω) (w : ω),
    s.listeners.fire notify w = (registered log).foldl notify w
  /-- these calls are a round that comes to its end, whatever those who are told do to the listeners -/
  fires : ∀ (ω : Type) (view : ω → Listeners ℓ) (notify : ω → Nat × ℓ → ω) (w : ω)
    (change : DataChange τ), view w = s.listeners →
      (∀ w entry, Does τ (view w) (view (notify w entry))) → ∃ log' more,
        Runs s (.fired change :: log')
          ⟨view (s.listeners.fire notify w), s.rounds ++ ⟨change, []⟩ :: more⟩ ∧ Over more ∧
        callsIn (firedIn log) (log ++ .fired change :: log') = (registered log).map (change, ·)

theorem Runs.exact {s : Listening ℓ τ} (h : Runs new log s) : Exact log s := by
  obtain ⟨he, hp⟩ := h.keeps
  constructor
  case keys =>
    exact he.nodup_registrations
  case size =>
    rw [Listeners.size, he.entries]
  case removes =>
    intro before entry after hsplit
    rw [← List.append_nil log] at he
    refine remove_entries ?_ hsplit
    rw [he.entries, List.append_nil]
    exact he.nodup_registered
  case calls =>
    intro before change after hsplit
    obtain ⟨rest, hround, hcalls⟩ := hp.calls hsplit
    exact ⟨rest, hround, hcalls, (hsplit ▸ he).nodup_registered⟩
  case asked =>
    intro before n change entry after hsplit
    exact hp.asked hsplit
  case told =>
    intro ω notify w
    show s.listeners.entries.foldl notify w = _
    rw [he.entries]
  case fires =>
    intro ω view notify w change hview hnotify
    have hsettles (w : ω) (entry : Nat × ℓ) := (hnotify w entry).settles
    obtain ⟨log', more, hruns, hover⟩ := runs_fire hsettles w change s.rounds
    rw [hview] at hruns
    refine ⟨log', more, hruns, hover, ?_⟩
    obtain ⟨rest, hround, hcalls⟩ := (h.trans hruns).keeps.2.calls rfl
    have hlast : (s.rounds ++ ⟨change, []⟩ :: more)[firedIn log]? = some ⟨change, []⟩ := by
      simp [hp.fired]
    cases hround.symm.trans hlast
    rwa [List.map_nil, List.append_nil] at hcalls

end Listening

end UiSync
