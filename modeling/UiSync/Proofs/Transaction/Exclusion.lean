import UiSync.Proofs.Session.Delivering
import UiSync.Proofs.Transaction.Threads
import UiSync.Server

/-!
# One transaction at a time

Lock, holder and transactions agree after every step that threads take on a shared context
(`Exclusive.step`), and starting and finishing as the server does it are series of steps
(`steps_start`, `steps_finish`).  From this follows who is let in and who is not (`exclusion`).
-/

namespace UiSync

open Relation

variable {υ ℓ ω μ η σ : Type}

/-! ## What every step keeps -/

open SharedContext

/-- lock, holder, counter and transactions agree -/
structure Exclusive (id : SessionId) (s : SharedContext υ ℓ ω) : Prop where
  id : s.context.id = id
  alone : s.holds.length ≤ 1
  holder : s.context.holder = s.holds.head?.map Hold.thread
  current : s.context.current = s.holds.head?.map Hold.transaction
  requests : s.context.requests = s.begun.length
  numbered : s.begun.map (fun e => e.2.request) = List.range' 1 s.begun.length
  latest : ∀ hold ∈ s.holds, s.begun.getLast? = some (hold.thread, hold.transaction.info)

theorem Hooks.info_told {h : Hooks ℓ ω} {phase : Phase} {listener : ℓ} {t t' : Transaction ℓ}
    {w w' : ω} (ht : h.told phase listener t w = (w', t')) : t'.info = t.info := by
  obtain ⟨-, rfl⟩ := Prod.mk.inj ht
  rfl

/-- a turn of the thread that holds the session -/
theorem Hold.Turn.keeps {c c' : Context υ ℓ} {w w' : ω} {hold : Hold ℓ} {hold' : Option (Hold ℓ)}
    (h : Turn c w hold c' w' hold') (hholder : c.holder = some hold.thread)
    (hcurrent : c.current = some hold.transaction) :
    c'.id = c.id ∧ c'.requests = c.requests ∧ c'.holder = hold'.map Hold.thread ∧
      c'.current = hold'.map Hold.transaction ∧
      ∀ k ∈ hold', k.thread = hold.thread ∧ k.transaction.info = hold.transaction.info := by
  cases h with
  | tell h ht =>
    refine ⟨rfl, rfl, hholder, rfl, fun k hk => ?_⟩
    obtain rfl := Option.some.inj hk
    exact ⟨rfl, Hooks.info_told ht⟩
  | handOut | work | leave =>
    refine ⟨rfl, rfl, hholder, hcurrent, fun k hk => ?_⟩
    obtain rfl := Option.some.inj hk
    exact ⟨rfl, rfl⟩
  | release => exact ⟨rfl, rfl, rfl, rfl, fun k hk => by cases hk⟩

theorem Context.admission_eq_free_iff {c : Context υ ℓ} {thread : ThreadId} {patience : Patience} :
    c.admission thread patience = .free ↔ c.holder ≠ some thread ∧ c.current = none := by
  unfold admission
  by_cases hh : c.holder = some thread
  · simp [hh]
  · cases hc : c.current with
    | none => simp [hh]
    | some t => cases patience <;> simp [hh]

namespace Exclusive

variable {id : SessionId} {s s' : SharedContext υ ℓ ω}

theorem fresh (id : SessionId) (ui : υ) (w : ω) :
    Exclusive id (SharedContext.fresh id ui w : SharedContext υ ℓ ω) := by
  refine ⟨rfl, Nat.zero_le 1, rfl, rfl, rfl, rfl, fun hold hh => ?_⟩
  cases hh

theorem holds_eq_nil (h : Exclusive id s) (hc : s.context.current = none) : s.holds = [] := by
  rw [h.current, Option.map_eq_none_iff, List.head?_eq_none_iff] at hc
  exact hc

/-- there is no other transaction, before or after one that is open -/
theorem split (h : Exclusive id s) {before after : List (Hold ℓ)} {hold : Hold ℓ}
    (hs : s.holds = before ++ hold :: after) : before = [] ∧ after = [] := by
  have halone := h.alone
  rw [hs, List.length_append, List.length_cons] at halone
  exact ⟨List.length_eq_zero_iff.1 (by omega), List.length_eq_zero_iff.1 (by omega)⟩

theorem holds_eq_singleton (h : Exclusive id s) {hold : Hold ℓ} (hh : hold ∈ s.holds) :
    s.holds = [hold] := by
  obtain ⟨before, after, hs⟩ := List.append_of_mem hh
  obtain ⟨rfl, rfl⟩ := h.split hs
  exact hs

theorem holder_of_mem (h : Exclusive id s) {hold : Hold ℓ} (hh : hold ∈ s.holds) :
    s.context.holder = some hold.thread := by
  rw [h.holder, h.holds_eq_singleton hh]
  rfl

theorem current_of_mem (h : Exclusive id s) {hold : Hold ℓ} (hh : hold ∈ s.holds) :
    s.context.current = some hold.transaction := by
  rw [h.current, h.holds_eq_singleton hh]
  rfl

theorem request_eq (h : Exclusive id s) {k : Nat} {e : ThreadId × TransactionInfo}
    (he : s.begun[k]? = some e) : e.2.request = k + 1 := by
  have hk : k < s.begun.length := (List.getElem?_eq_some_iff.1 he).1
  have hrequest : (s.begun.map fun e => e.2.request)[k]? = some e.2.request := by
    rw [List.getElem?_map, he]
    rfl
  rw [h.numbered, List.getElem?_range' hk, Option.some.injEq] at hrequest
  omega

theorem admission_free (h : Exclusive id s) (hs : s.holds = []) (thread : ThreadId)
    (patience : Patience) : s.context.admission thread patience = .free := by
  have hholder := h.holder
  have hcurrent := h.current
  rw [hs] at hholder hcurrent
  exact Context.admission_eq_free_iff.2 ⟨by simp [hholder], hcurrent⟩

theorem admission_self (h : Exclusive id s) {hold : Hold ℓ} (hh : hold ∈ s.holds)
    (patience : Patience) :
    s.context.admission hold.thread patience = .refused (.reentrant id) := by
  unfold Context.admission
  rw [if_pos (h.holder_of_mem hh), h.id]

theorem admission_other (h : Exclusive id s) {hold : Hold ℓ} (hh : hold ∈ s.holds)
    {thread : ThreadId} (ht : thread ≠ hold.thread) (patience : Patience) :
    s.context.admission thread patience =
      match patience with
      | .leaves => .refused (.busy id)
      | .waits => .waiting := by
  have hne : ¬ s.context.holder = some thread := by
    rw [h.holder_of_mem hh, Option.some.injEq]
    exact fun he => ht he.symm
  unfold Context.admission
  rw [if_neg hne, h.current_of_mem hh, h.id]
  rfl

theorem taken (h : Exclusive id s) {thread : ThreadId} {patience : Patience}
    (hfree : s.context.admission thread patience = .free) : Exclusive id (s.taken thread) := by
  have hnil := h.holds_eq_nil (Context.admission_eq_free_iff.1 hfree).2
  have hholds : (s.taken thread).holds =
      [⟨thread, s.context.upcoming, .telling .starting s.context.listeners⟩] := by
    rw [SharedContext.taken, hnil]
    rfl
  have hlength : (s.taken thread).begun.length = s.begun.length + 1 := List.length_append
  refine ⟨h.id, ?_, ?_, ?_, ?_, ?_, fun hold hh => ?_⟩
  · simp [hholds]
  · rw [hholds]
    rfl
  · rw [hholds]
    rfl
  · rw [hlength, ← h.requests]
    rfl
  · show (s.begun ++ [_]).map _ = _
    rw [hlength, List.map_append, h.numbered, List.range'_1_concat, Nat.add_comm 1, ← h.requests]
    rfl
  · rw [hholds, List.mem_singleton] at hh
    rw [hh]
    exact List.getLast?_concat

theorem turn (h : Exclusive id s) {before after : List (Hold ℓ)} {hold : Hold ℓ}
    {c : Context υ ℓ} {w : ω} {hold' : Option (Hold ℓ)} (hs : s.holds = before ++ hold :: after)
    (ht : Hold.Turn s.context s.world hold c w hold') :
    Exclusive id ⟨c, w, before ++ hold'.toList ++ after, s.begun⟩ := by
  have hmem : hold ∈ s.holds := by simp [hs]
  obtain ⟨rfl, rfl⟩ := h.split hs
  obtain ⟨hid, hrequests, hholder, hcurrent, hsame⟩ :=
    ht.keeps (h.holder_of_mem hmem) (h.current_of_mem hmem)
  have hlatest := h.latest hold hmem
  simp only [List.nil_append, List.append_nil]
  cases hold' with
  | none => exact ⟨hid.trans h.id, Nat.zero_le 1, hholder, hcurrent, hrequests.trans h.requests,
      h.numbered, fun k hk => by cases hk⟩
  | some k =>
    obtain ⟨hthread, hinfo⟩ := hsame k rfl
    refine ⟨hid.trans h.id, le_refl 1, hholder, hcurrent, hrequests.trans h.requests, h.numbered,
      fun k' hk' => ?_⟩
    rw [List.mem_singleton.1 hk', hthread, hinfo]
    exact hlatest

theorem step [DecidableEq ℓ] (h : Exclusive id s) (hs : Step s s') : Exclusive id s' := by
  cases hs with
  | take thread patience hfree => exact h.taken hfree
  | turn hsplit ht => exact h.turn hsplit ht
  | addListener | removeListener =>
    exact ⟨h.id, h.alone, h.holder, h.current, h.requests, h.numbered, h.latest⟩

end Exclusive

theorem SharedContext.Reachable.exclusive [DecidableEq ℓ] {id : SessionId} {ui : υ} {w : ω}
    {s : SharedContext υ ℓ ω} (h : Reachable id ui w s) : Exclusive id s := by
  induction h with
  | refl => exact .fresh id ui w
  | tail _ hlast ih => exact ih.step hlast

/-! ## Starting and finishing in steps -/

section

variable [DecidableEq ℓ] (h : Hooks ℓ ω) (thread : ThreadId)

/-- a start on a free session, from taking it to handing out the transaction -/
theorem steps_start {s : SharedContext υ ℓ ω} {patience : Patience} (hs : s.holds = [])
    (hfree : s.context.admission thread patience = .free) {w' : ω} {c' : Context υ ℓ}
    {t' : Transaction ℓ} (hstart : s.context.start h thread s.world = (w', c', t')) :
    ReflTransGen Step s
      ⟨c', w', [⟨thread, t', .opened⟩], s.begun ++ [(thread, s.context.upcoming.info)]⟩ :=
  (runs_start h thread hs hfree hstart).steps

/-- the end of a transaction, from its last work to giving the session free -/
theorem steps_finish {c : Context υ ℓ} {w : ω} {t : Transaction ℓ}
    (hc : c.current = some t) (begun : List (ThreadId × TransactionInfo)) {w' : ω}
    {c' : Context υ ℓ} {report : TransactionReport}
    (hfinish : c.finish h t w = (w', c', report)) : ReflTransGen Step
      ⟨c, w, [⟨thread, t, .opened⟩], begun⟩ ⟨c', w', [], begun⟩ :=
  (runs_finish h thread false hc begun hfinish).steps

theorem SharedContext.Reachable.finish {id : SessionId} {ui : υ} {w₀ : ω}
    {s : SharedContext υ ℓ ω} (hs : Reachable id ui w₀ s) {hold : Hold ℓ} (hh : hold ∈ s.holds)
    (hopened : hold.stage = .opened) {w' : ω} {c' : Context υ ℓ} {report : TransactionReport}
    (hfinish : s.context.finish h hold.transaction s.world = (w', c', report)) :
    Reachable id ui w₀ ⟨c', w', [], s.begun⟩ := by
  have hsteps := steps_finish h hold.thread (hs.exclusive.current_of_mem hh) s.begun hfinish
  rw [← hopened, ← hs.exclusive.holds_eq_singleton hh] at hsteps
  exact hs.trans hsteps

end

/-! ## Asking the server -/

namespace Server

variable (site : Site μ η σ ℓ ω) {s : Server μ η ℓ} {id : SessionId} {key : Nat}
  {c : Context (Session μ η) ℓ} {thread : ThreadId} {patience : Patience}

theorem context_of_context? (hc : s.context? id = some (key, c)) :
    s.context site id = (key, c, s) := by
  rw [context, hc]

theorem start_of_refused {e : TransactionError} (hc : s.context? id = some (key, c))
    (ha : c.admission thread patience = .refused e) (w : ω) :
    s.start site w thread patience id = (w, s, .refused e) := by
  rw [start, context_of_context? site hc]
  simp only [ha]

theorem start_of_waiting (hc : s.context? id = some (key, c))
    (ha : c.admission thread patience = .waiting) (w : ω) :
    s.start site w thread patience id = (w, s, .waiting) := by
  rw [start, context_of_context? site hc]
  simp only [ha]

theorem start_of_free (hc : s.context? id = some (key, c))
    (ha : c.admission thread patience = .free) (w : ω) :
    s.start site w thread patience id = ((c.start site.hooks thread w).1,
      s.setContext key (c.start site.hooks thread w).2.1, .started key) := by
  rw [start, context_of_context? site hc]
  simp only [ha]

theorem finish_of_current {t : Transaction ℓ} (hc : s.contexts.get? key = some c)
    (ht : c.current = some t) (w : ω) : s.finish site w key = ((c.finish site.hooks t w).1,
      s.setContext key (c.finish site.hooks t w).2.1, some (c.finish site.hooks t w).2.2) := by
  simp only [finish, hc, Option.bind_some, ht]

theorem context?_eq_some_iff : s.context? id = some (key, c) ↔
    s.sessions.get? id = some key ∧ s.contexts.get? key = some c := by
  simp only [context?, Option.bind_eq_some_iff, Option.map_eq_some_iff, Prod.mk.injEq]
  constructor
  · rintro ⟨_, hid, c', hc, rfl, rfl⟩
    exact ⟨hid, hc⟩
  · rintro ⟨hid, hc⟩
    exact ⟨key, hid, c, hc, rfl, rfl⟩

theorem context?_setContext (hc : s.context? id = some (key, c))
    (c' : Context (Session μ η) ℓ) : (s.setContext key c').context? id = some (key, c') :=
  context?_eq_some_iff.2 ⟨(context?_eq_some_iff.1 hc).1, Dict.get?_insert_self ..⟩

end Server

/-- the session of `id`, which a server keeps under `key` and threads brought to `s`, is open to one
transaction at a time -/
structure OneAtATime [DecidableEq ℓ] (ui : Session μ η) (w₀ : ω) (site : Site μ η σ ℓ ω)
    (server : Server μ η ℓ) (id : SessionId) (key : Nat) (s : SharedContext (Session μ η) ℓ ω) :
    Prop where
  alone : s.holds.length ≤ 1
  holder : s.context.holder = s.holds.head?.map Hold.thread
  numbered : ∀ k e, s.begun[k]? = some e → e.2.request = k + 1
  latest : ∀ hold ∈ s.holds, s.begun.getLast? = some (hold.thread, hold.transaction.info)
  /-- at any stage, so also while its own listeners are told -/
  reentrant : ∀ hold ∈ s.holds, ∀ patience,
    server.start site s.world hold.thread patience id = (s.world, server, .refused (.reentrant id))
  busy : ∀ hold ∈ s.holds, ∀ thread, thread ≠ hold.thread →
    server.start site s.world thread .leaves id = (s.world, server, .refused (.busy id))
  waiting : ∀ hold ∈ s.holds, ∀ thread, thread ≠ hold.thread →
    server.start site s.world thread .waits id = (s.world, server, .waiting)
  starts : s.holds = [] → ∀ thread patience, ∃ s' t, Reachable id ui w₀ s' ∧
    s'.holds = [⟨thread, t, .opened⟩] ∧ server.start site s.world thread patience id =
      (s'.world, server.setContext key s'.context, .started key)
  /-- a transaction that ends, or whose work broke off, leaves the session to whoever comes next -/
  ends : ∀ hold ∈ s.holds, hold.stage = .opened → ∃ s' report, Reachable id ui w₀ s' ∧
    s'.holds = [] ∧ server.finish site s.world key =
      (s'.world, server.setContext key s'.context, some report) ∧
    ∀ thread patience, ∃ w server', (server.setContext key s'.context).start site s'.world thread
      patience id = (w, server', .started key)

section

variable [DecidableEq ℓ] {ui : Session μ η} {w₀ : ω} {id : SessionId} {key : Nat}
  {server : Server μ η ℓ} {s : SharedContext (Session μ η) ℓ ω}

/-- Whatever steps threads took, the session has one transaction at most, the thread of that one is
refused as reentrant and others as busy, and a free session is open to all. -/
theorem exclusion (hs : Reachable id ui w₀ s) (hc : server.context? id = some (key, s.context))
    (site : Site μ η σ ℓ ω) : OneAtATime ui w₀ site server id key s := by
  have h := hs.exclusive
  refine
    { alone := h.alone
      holder := h.holder
      numbered := fun k e he => h.request_eq he
      latest := h.latest
      reentrant := fun hold hh patience =>
        Server.start_of_refused site hc (h.admission_self hh patience) s.world
      busy := fun hold hh thread ht =>
        Server.start_of_refused site hc (h.admission_other hh ht .leaves) s.world
      waiting := fun hold hh thread ht =>
        Server.start_of_waiting site hc (h.admission_other hh ht .waits) s.world
      starts := fun hnone thread patience => ?_
      ends := fun hold hh hopened => ?_ }
  · have hfree := h.admission_free hnone thread patience
    exact ⟨_, _, hs.trans (steps_start site.hooks thread hnone hfree rfl), rfl,
      Server.start_of_free site hc hfree s.world⟩
  · have hend := hs.finish site.hooks hh hopened rfl
    refine ⟨_, _, hend, rfl, Server.finish_of_current site (Server.context?_eq_some_iff.1 hc).2
      (h.current_of_mem hh) s.world, fun thread patience => ?_⟩
    have hnext := Server.start_of_free site (Server.context?_setContext hc _)
      (hend.exclusive.admission_free rfl thread patience)
      (s.context.finish site.hooks hold.transaction s.world).1
    exact ⟨_, _, hnext⟩

end

/-! ### A listener that registers another one -/

/-- listeners, known by their names, note what they are told -/
def logging : Hooks String (List String) where
  name listener := listener
  run listener phase _ log := (log ++ [listener ++ " " ++ phase.name], .done)

def loggingSite : Site Unit Unit Unit String (List String) where
  build _ config := Session.ofRoot ⟨"Page", .empty, ()⟩ config
  behaviour := .idle
  hooks := logging

/-- thread 1 took the session, and while its listener is told another one is registered -/
def underway : SharedContext (Session Unit Unit) String (List String) :=
  let idle := { fresh "s" (loggingSite.build "s" {}) [] with
    context := (Context.ofUi "s" (loggingSite.build "s" {})).addListener "audit" }
  { idle.taken ⟨1⟩ with context := (idle.taken ⟨1⟩).context.addListener "late" }

theorem reachable_underway : Reachable "s" (loggingSite.build "s" {}) [] underway :=
  ((ReflTransGen.refl.tail (.addListener "audit")).tail (.take ⟨1⟩ .waits rfl)).tail
    (.addListener "late")

def underwayServer : Server Unit Unit String where
  config := {}
  sessions := (∅ : Dict SessionId Nat).insert "s" 1
  contexts := (∅ : Dict Nat (Context (Session Unit Unit) String)).insert 1 underway.context
  lastKey := 1

theorem exclusion_underway : underwayServer.context? "s" = some (1, underway.context) ∧
    underwayServer.start loggingSite underway.world ⟨1⟩ .waits "s" =
      (underway.world, underwayServer, .refused (.reentrant "s")) ∧
    underwayServer.start loggingSite underway.world ⟨2⟩ .leaves "s" =
      (underway.world, underwayServer, .refused (.busy "s")) := by
  have hserver : underwayServer.context? "s" = some (1, underway.context) :=
    Server.context?_eq_some_iff.2 ⟨Dict.get?_insert_self .., Dict.get?_insert_self ..⟩
  have hone := exclusion reachable_underway hserver loggingSite
  have hhold : ⟨⟨1⟩, ⟨⟨"s", 1⟩, ["audit"], []⟩, .telling .starting ["audit"]⟩ ∈ underway.holds :=
    List.mem_cons_self ..
  exact ⟨hserver, hone.reentrant _ hhold .waits, hone.busy _ hhold ⟨2⟩ (by decide)⟩

end UiSync
