import UiSync.Proofs.Client
import UiSync.Proofs.Session.History

/-!
# A client that hears of some responses, in any order

`Reception log c place` says that a client got to `c` while responses of `log` were delivered to
it, any of them, any number of times and in any order, as long as each was fewer than half a turn
of the circle of numbers away from the last one that was applied.  `place` is the place of that
one in the log.

Such a client never fails, and what it shows is what was committed with the response at its place
(`reception_mirrors`).  The invariant is that its replica is the one of a client that applied every
response up to there: a response is followed only right after the one before it, or when it does
not depend on what came before.
-/

namespace UiSync

open SequenceNumber

variable {μ η σ : Type}

/-- the response at place `n` is near the last one that was applied, or the very first -/
def Near : Option Nat → Nat → Prop
  | none, n => n = 0
  | some k, n => n < k + 2 ^ 15 ∧ k < n + 2 ^ 15

/-- the place of the last response that was applied, once the one at place `n` was delivered -/
def arrival (place : Option Nat) (n : Nat) : Except ReplicaError ApplyOutcome → Option Nat
  | .ok .applied => some n
  | _ => place

/-- a client and the place of the last response of `log` it applied -/
inductive Reception (log : List (Commit μ)) : Client → Option Nat → Prop
  | start : Reception log Client.new none
  | invoke {c : Client} {place : Option Nat} (component : ComponentId) (interface method : String)
      (args : List Json.Value) : Reception log c place →
        Reception log (c.invoke component interface method args).2 place
  | request {c : Client} {place : Option Nat} :
      Reception log c place → Reception log c.takeRequest.2 place
  | takeCalls {c : Client} {place : Option Nat} :
      Reception log c place → Reception log c.takeCalls.2 place
  | deliver {c : Client} {place : Option Nat} {n : Nat} {commit : Commit μ} :
      Reception log c place → log[n]? = some commit → Near place n →
        Reception log (c.apply commit.message).1
          (arrival place n (c.apply commit.message).2)

/-! ## The invariant -/

/-- how many responses a client at a place has caught up with -/
def caughtUp : Option Nat → Nat
  | none => 0
  | some n => n + 1

structure Follows (log : List (Commit μ)) (c : Client) (place : Option Nat) : Prop where
  last : c.lastResponse = place.map ofNat
  replica : replay (log.take (caughtUp place)) = .ok c.replica
  known : ∀ n, place = some n → ∃ commit, log[n]? = some commit

namespace Faithful

variable {log : List (Commit μ)} {n : Nat} {commit : Commit μ}

theorem replay_succ (h : Faithful log) (hn : log[n]? = some commit) {r : Replica}
    (hr : replay (log.take n) = .ok r) :
    ∃ r', r.follow commit.message = .ok r' ∧ replay (log.take (n + 1)) = .ok r' ∧
      r'.Mirrors FieldBag.sent commit.tree := by
  obtain ⟨-, r₁, r₂, hr₁, hr₂, hm⟩ := h n commit hn
  obtain rfl : r₁ = r := Except.ok.inj (hr₁.symm.trans hr)
  refine ⟨r₂, hr₂, ?_, hm⟩
  rw [List.take_add_one, hn]
  exact (replay_append_singleton hr commit).trans hr₂

/-- a response that builds the replica anew leads to the same one from anywhere -/
theorem follow_resynchronize (h : Faithful log) (hn : log[n]? = some commit)
    (hflag : commit.message.resynchronize = true) (r : Replica) :
    ∃ r', r.follow commit.message = .ok r' ∧ replay (log.take (n + 1)) = .ok r' := by
  obtain ⟨-, r₁, -, hr₁, -⟩ := h n commit hn
  obtain ⟨r', hr', hreplay, -⟩ := h.replay_succ hn hr₁
  exact ⟨r', (Replica.follow_resynchronize hflag r r₁).trans hr', hreplay⟩

end Faithful

namespace Follows

variable {log : List (Commit μ)} {c : Client} {place : Option Nat} {n : Nat} {commit : Commit μ}

theorem start (log : List (Commit μ)) : Follows log Client.new none := by
  refine ⟨rfl, ?_, fun n h => by cases h⟩
  rw [caughtUp, List.take_zero]
  rfl

theorem applied (hf : Faithful log) (hn : log[n]? = some commit) {r : Replica}
    (hj : c.judge commit.message = .applied) (hr : c.replica.follow commit.message = .ok r)
    (hreplay : replay (log.take (n + 1)) = .ok r) :
    ∃ c' outcome, c.apply commit.message = (c', .ok outcome) ∧
      Follows log c' (arrival place n (.ok outcome)) := by
  refine ⟨_, .applied, Client.apply_followed hj hr, ?_, hreplay, fun m hm => ?_⟩
  · exact congrArg some (hf n commit hn).1
  · cases hm
    exact ⟨commit, hn⟩

theorem dropped (h : Follows log c place) {outcome : ApplyOutcome}
    (hj : c.judge commit.message = outcome) (hne : outcome ≠ .applied) :
    ∃ c' outcome, c.apply commit.message = (c', .ok outcome) ∧
      Follows log c' (arrival place n (.ok outcome)) := by
  refine ⟨c, outcome, Client.apply_dropped hj hne, ?_⟩
  cases outcome with
  | applied => exact absurd rfl hne
  | stale => exact h
  | outOfSync => exact h

/-- delivering a near response succeeds, and the client is where it led to or where it was -/
theorem apply (hf : Faithful log) (h : Follows log c place) (hn : log[n]? = some commit)
    (hnear : Near place n) : ∃ c' outcome, c.apply commit.message = (c', .ok outcome) ∧
      Follows log c' (arrival place n (.ok outcome)) := by
  have hseq : commit.message.sequence = ofNat n := (hf n commit hn).1
  cases place with
  | none =>
    -- the very first response: whether it begins anew makes no difference yet
    obtain rfl : n = 0 := hnear
    obtain ⟨r, hr, hreplay, -⟩ := hf.replay_succ hn h.replica
    exact applied hf hn (Client.judge_first h.last) hr hreplay
  | some k =>
    have hlast : c.lastResponse = some (ofNat k) := h.last
    obtain ⟨hnk, hkn⟩ := hnear
    rcases Nat.lt_or_ge k n with hlt | hle
    -- ahead: a response that begins anew is followed from anywhere, another one only from `k`
    · have hnewer : commit.message.sequence.isNewerThan (ofNat k) = true := by
        rw [hseq]
        exact isNewerThan_ofNat hlt (by omega)
      cases hflag : commit.message.resynchronize with
      | true =>
        obtain ⟨r, hr, hreplay⟩ := hf.follow_resynchronize hn hflag c.replica
        exact applied hf hn (Client.judge_resynchronize hlast hnewer hflag) hr hreplay
      | false =>
        by_cases hnext : n = k + 1
        · subst hnext
          obtain ⟨r, hr, hreplay, -⟩ := hf.replay_succ hn h.replica
          have hsucc : commit.message.sequence = (ofNat k).next := hseq.trans (next_ofNat k).symm
          exact applied hf hn (Client.judge_next hlast hsucc) hr hreplay
        · have hne : commit.message.sequence ≠ (ofNat k).next := by
            rw [hseq, next_ofNat]
            exact ofNat_ne (by omega) (by omega)
          exact h.dropped (Client.judge_outOfSync hlast hnewer hflag hne) (by decide)
    -- not ahead, so it was seen before or comes too late
    · have hold : commit.message.sequence.isNewerThan (ofNat k) = false := by
        rw [hseq]
        exact not_isNewerThan_ofNat hle (by omega)
      exact h.dropped (Client.judge_stale hlast hold) (by decide)

/-- a client at a place shows what was committed there -/
theorem mirrors (hf : Faithful log) (h : Follows log c (some n)) :
    ∃ commit, log[n]? = some commit ∧ c.replica.Mirrors FieldBag.sent commit.tree := by
  obtain ⟨commit, hcommit⟩ := h.known n rfl
  obtain ⟨-, r, -, hr, -⟩ := hf n commit hcommit
  obtain ⟨r', -, hreplay, hm⟩ := hf.replay_succ hcommit hr
  have hreplica : replay (log.take (n + 1)) = .ok c.replica := h.replica
  rw [hreplay] at hreplica
  obtain rfl := Except.ok.inj hreplica
  exact ⟨commit, hcommit, hm⟩

end Follows

theorem Reception.follows {log : List (Commit μ)} (hf : Faithful log) {c : Client}
    {place : Option Nat} (h : Reception log c place) : Follows log c place := by
  induction h with
  | start => exact .start log
  | invoke _ _ _ _ _ ih => exact ⟨ih.last, ih.replica, ih.known⟩
  | request _ ih => exact ⟨ih.last, ih.replica, ih.known⟩
  | takeCalls _ ih => exact ⟨ih.last, ih.replica, ih.known⟩
  | deliver _ hn hnear ih =>
    obtain ⟨c', outcome, happly, hfollows⟩ := ih.apply hf hn hnear
    rw [happly]
    exact hfollows

/-- the first response reaches every new client -/
theorem exists_reception {log : List (Commit μ)} (hf : Faithful log) (h : 0 < log.length) :
    ∃ c, Reception log c (some 0) := by
  have hfirst : log[0]? = some log[0] := List.getElem?_eq_getElem h
  have hempty : replay (log.take 0) = .ok ∅ := by
    rw [List.take_zero]
    rfl
  obtain ⟨r, hr, -⟩ := hf.replay_succ hfirst hempty
  have happly := Client.apply_followed (c := Client.new) (Client.judge_first rfl) hr
  have hc := Reception.deliver .start hfirst (show Near none 0 from rfl)
  rw [happly] at hc
  exact ⟨_, hc⟩

/-! ## What the client shows -/

/-- No near response makes the client fail, and a client at place `n` shows what was committed with
the `n`-th response. -/
theorem reception_mirrors {log : List (Commit μ)} {s : Session μ η} (h : History σ log s)
    {c : Client} {place : Option Nat} (hc : Reception log c place) :
    c.lastResponse = place.map ofNat ∧
      (∀ n, place = some n → ∃ commit, log[n]? = some commit ∧
        c.replica.Mirrors FieldBag.sent commit.tree) ∧
      ∀ n commit, log[n]? = some commit → Near place n →
        ∃ outcome, (c.apply commit.message).2 = .ok outcome := by
  have hf : Faithful log := h.recorded.faithful
  have hfollows := hc.follows hf
  refine ⟨hfollows.last, fun n hn => ?_, fun n commit hn hnear => ?_⟩
  · subst hn
    exact hfollows.mirrors hf
  · obtain ⟨c', outcome, happly, -⟩ := hfollows.apply hf hn hnear
    exact ⟨outcome, congrArg Prod.snd happly⟩

/-! ### A page that gets a note, and a badge in its place -/

def flushed (s : Session Unit Unit) : Session Unit Unit :=
  (s.respond (.idle : Behaviour Unit Unit Unit)).1

def nextMessage (s : Session Unit Unit) : ServerMessage :=
  s.pendingMessage (Cascade.reached (s.finalize (.idle : Behaviour Unit Unit Unit)))

theorem History.flush {log : List (Commit Unit)} {s : Session Unit Unit} (h : History Unit log s)
    (hr : ∃ response : Response, response.message = nextMessage s ∧
      s.respond (.idle : Behaviour Unit Unit Unit) = (flushed s, .ok response)) :
    History Unit (log ++ [⟨nextMessage s, (flushed s).tree⟩]) (flushed s) := by
  obtain ⟨response, hmessage, hr⟩ := hr
  rw [← hmessage]
  exact h.respond hr

def withChild (kind : String) (s : Session Unit Unit) : Session Unit Unit :=
  match s.attach ⟨1⟩ ⟨kind, .empty, ()⟩ with
  | .ok (_, s) => s
  | .error _ => s

/-- the page was sent, and then it got a note -/
def withNote : Session Unit Unit := withChild "Note" (flushed (Session.ofRoot page {}))

/-- the note was sent, and then it was taken away -/
def withoutNote : Session Unit Unit :=
  match (flushed withNote).detach ⟨2⟩ with
  | .ok s => s
  | .error _ => withNote

/-- the page got a badge, and everything is to be sent anew -/
def withBadge : Session Unit Unit := (withChild "Badge" withoutNote).requestResync

def pageLog : List (Commit Unit) :=
  [⟨nextMessage (Session.ofRoot page {}), (flushed (Session.ofRoot page {})).tree⟩,
    ⟨nextMessage withNote, (flushed withNote).tree⟩,
    ⟨nextMessage withBadge, (flushed withBadge).tree⟩]

theorem history_pageLog : History Unit pageLog (flushed withBadge) := by
  have hnote : (flushed (Session.ofRoot page {})).attach ⟨1⟩ ⟨"Note", .empty, ()⟩ =
    .ok (⟨2⟩, withNote) := rfl
  have hgone : (flushed withNote).detach ⟨2⟩ = .ok withoutNote := rfl
  have hbadge : withoutNote.attach ⟨1⟩ ⟨"Badge", .empty, ()⟩ =
    .ok (⟨3⟩, withChild "Badge" withoutNote) := rfl
  have hstart : History Unit [] (Session.ofRoot page {} : Session Unit Unit) :=
    .start {} unsent_page
  have hfirst := hstart.flush ⟨_, rfl, rfl⟩
  have hsecond := (hfirst.act (.attach (FieldBag.unsent_ofFields ∅) hnote)).flush ⟨_, rfl, rfl⟩
  have hreplaced := (hsecond.act (.detach hgone)).act (.attach (FieldBag.unsent_ofFields ∅) hbadge)
  exact (hreplaced.act .resync).flush ⟨_, rfl, rfl⟩

/-- a new client once the responses at these places were delivered to it -/
def clientTold (places : List Nat) : Client :=
  places.foldl (fun c n => (pageLog[n]?.elim c) fun commit => (c.apply commit.message).1) Client.new

/-- the first response arrives twice, and the second one after the third -/
theorem reception_pageLog : Reception pageLog (clientTold [0, 0, 2, 1]) (some 2) := by
  have hfirst : Reception pageLog (clientTold [0]) (some 0) := .deliver (n := 0) .start rfl rfl
  have hagain : Reception pageLog (clientTold [0, 0]) (some 0) :=
    hfirst.deliver (n := 0) rfl (by simp [Near])
  have hanew : Reception pageLog (clientTold [0, 0, 2]) (some 2) :=
    hagain.deliver (n := 2) rfl (by simp [Near])
  exact hanew.deliver (n := 1) rfl (by simp [Near])

theorem reception_mirrors_page :
    History Unit pageLog (flushed withBadge) ∧
      pageLog.map (fun c => c.message.resynchronize) = [false, false, true] ∧
      Reception pageLog (clientTold [0, 0, 2, 1]) (some 2) ∧
      (clientTold [0, 0, 2, 1]).lastResponse = some (ofNat 2) ∧
      (flushed withBadge).tree.preOrder = [⟨1⟩, ⟨3⟩] ∧
      (clientTold [0, 0, 2, 1]).replica.Mirrors FieldBag.sent (flushed withBadge).tree ∧
      ∃ outcome, ((clientTold [0, 0, 2, 1]).apply (nextMessage withNote)).2 = .ok outcome := by
  obtain ⟨hlast, hmirrors, hheard⟩ := reception_mirrors history_pageLog reception_pageLog
  obtain ⟨commit, hcommit, hm⟩ := hmirrors 2 rfl
  obtain rfl := Option.some.inj hcommit
  exact ⟨history_pageLog, rfl, reception_pageLog, hlast, rfl, hm,
    hheard 1 _ rfl (by simp [Near])⟩

end UiSync
