import UiSync.Client
import UiSync.Proofs.Lists
import UiSync.Proofs.SequenceNumber
import UiSync.Proofs.Session.Delivering

/-!
# Invocations pass once and in order

A client numbers its invocations along a series (`Client.Sends.numbered`), while a session decides
on the circle which of them pass its guard.  `Receives` follows a session while invocations of one
client are delivered to it, lost, late or repeated; every delivery leaves a `Receipt`.

As long as deliveries stay within half a turn of the last one that passed, the guard decides as the
places in the series would (`Decided.passed_iff`), so what passes is strictly increasing
(`passes_once_in_order`).
-/

namespace UiSync

open SequenceNumber

variable {μ η σ : Type}

/-! ## The invocations of a client -/

namespace Client

inductive Sends : List ClientMessage → Client → Prop
  | new : Sends [] Client.new
  | invoke {sent : List ClientMessage} {c : Client} (component : ComponentId)
      (interface method : String) (args : List Json.Value) : Sends sent c →
        Sends sent (c.invoke component interface method args).2
  | takeRequest {sent : List ClientMessage} {c : Client} : Sends sent c →
      Sends (sent ++ [c.takeRequest.1]) c.takeRequest.2
  | apply {sent : List ClientMessage} {c : Client} (m : ServerMessage) : Sends sent c →
      Sends sent (c.apply m).1
  | takeCalls {sent : List ClientMessage} {c : Client} : Sends sent c → Sends sent c.takeCalls.2

/-- the invocations of a client in order, those of its requests and those still waiting -/
def issued (sent : List ClientMessage) (c : Client) : List Invocation :=
  sent.flatMap ClientMessage.invocations ++ c.outgoing.toList

def Numbered (calls : List Invocation) : Prop :=
  ∀ k call, calls[k]? = some call → call.sequence = ofNat k

theorem Numbered.append_singleton {calls : List Invocation} (h : Numbered calls)
    {call : Invocation} (hc : call.sequence = ofNat calls.length) : Numbered (calls ++ [call]) := by
  intro k call' hk
  rcases lt_trichotomy k calls.length with hlt | rfl | hgt
  · rw [List.getElem?_append_left hlt] at hk
    exact h k call' hk
  · rw [List.getElem?_concat_length] at hk
    obtain rfl := Option.some.inj hk
    exact hc
  · have hlen : (calls ++ [call]).length ≤ k := by
      rw [List.length_append, List.length_singleton]
      omega
    rw [List.getElem?_eq_none hlen] at hk
    cases hk

theorem apply_outgoing (c : Client) (m : ServerMessage) :
    (c.apply m).1.outgoing = c.outgoing ∧ (c.apply m).1.nextSequence = c.nextSequence := by
  unfold apply
  split
  · split
    · exact ⟨rfl, rfl⟩
    · exact ⟨rfl, rfl⟩
  · exact ⟨rfl, rfl⟩

theorem issued_takeRequest (sent : List ClientMessage) (c : Client) :
    issued (sent ++ [c.takeRequest.1]) c.takeRequest.2 = issued sent c := by
  simp [issued, takeRequest]

theorem issued_invoke (sent : List ClientMessage) (c : Client) (component : ComponentId)
    (interface method : String) (args : List Json.Value) :
    issued sent (c.invoke component interface method args).2 =
      issued sent c ++ [⟨component, interface, method, args, c.nextSequence⟩] := by
  simp [issued, invoke]

/-- taking requests does not disturb the numbers, and the next number is the one that is due -/
theorem Sends.numbered {sent : List ClientMessage} {c : Client} (h : Sends sent c) :
    Numbered (issued sent c) ∧ c.nextSequence = ofNat (issued sent c).length := by
  induction h with
  | new =>
    refine ⟨fun k call hk => ?_, rfl⟩
    cases hk
  | @invoke sent c component interface method args _ ih =>
    rw [issued_invoke, List.length_append, List.length_singleton, ← next_ofNat, ← ih.2]
    exact ⟨ih.1.append_singleton ih.2, rfl⟩
  | takeRequest _ ih =>
    rw [issued_takeRequest]
    exact ih
  | @apply sent c m _ ih =>
    obtain ⟨hout, hnext⟩ := apply_outgoing c m
    rw [issued, hout, hnext]
    exact ih
  | takeCalls _ ih => exact ih

end Client

/-! ## The guard -/

namespace SequenceGuard

variable {g : SequenceGuard}

theorem check_ok_iff {n : SequenceNumber} :
    g.check n = .ok () ↔ ∀ last, g.lastApplied = some last → g.isStale n last = false := by
  unfold check
  cases g.lastApplied with
  | none => simp
  | some last => by_cases hs : g.isStale n last = true <;> simp [hs]

theorem check_error {n : SequenceNumber} (h : g.check n ≠ .ok ()) :
    ∃ last, g.lastApplied = some last ∧ g.check n = .error (.staleSequence n last) := by
  unfold check at h ⊢
  cases hl : g.lastApplied with
  | none => simp [hl] at h
  | some last =>
    by_cases hs : g.isStale n last = true
    · exact ⟨last, rfl, by simp [hs]⟩
    · simp [hl, hs] at h

/-- within half a turn the guard decides as the places in the series do -/
theorem isStale_ofNat {m n : Nat} (h : n < m + 32768) (h' : m < n + 32768) :
    g.isStale (ofNat n) (ofNat m) = false ↔ m < n ∨ m = n ∧ g.allowDuplicate = true := by
  have holder : (ofNat n).isOlderThan (ofNat m) = (ofNat m).isNewerThan (ofNat n) := rfl
  rw [isStale, holder]
  rcases lt_trichotomy n m with hlt | rfl | hgt
  · rw [isNewerThan_ofNat hlt h']
    simp only [Bool.true_or, Bool.true_eq_false, false_iff]
    omega
  · rw [not_isNewerThan_ofNat (le_refl n) h]
    simp
  · rw [not_isNewerThan_ofNat hgt.le h]
    have hne : ofNat n ≠ ofNat m := ofNat_ne hgt (by omega)
    simp [hne, hgt]

end SequenceGuard

/-! ## Receipts -/

/-- what became of one delivery of the invocation with the given place -/
structure Receipt (η : Type) where
  number : Nat
  passed : Bool
  /-- the handler that ran for it -/
  handler : Option η

variable {rs rs' : List (Receipt η)}

def accepted (rs : List (Receipt η)) : List Nat := (rs.filter Receipt.passed).map Receipt.number

def lastAccepted (rs : List (Receipt η)) : Option Nat := (accepted rs).getLast?

theorem accepted_append (rs rs' : List (Receipt η)) :
    accepted (rs ++ rs') = accepted rs ++ accepted rs' := by
  rw [accepted, List.filter_append, List.map_append, accepted, accepted]

theorem accepted_singleton (r : Receipt η) :
    accepted [r] = if r.passed then [r.number] else [] := by
  cases h : r.passed <;> simp [accepted, h]

theorem lastAccepted_concat (rs : List (Receipt η)) (r : Receipt η) :
    lastAccepted (rs ++ [r]) = if r.passed then some r.number else lastAccepted rs := by
  rw [lastAccepted, accepted_append, accepted_singleton, lastAccepted]
  cases r.passed with
  | true => simp
  | false => simp

/-- in an increasing list of places the last one is the greatest -/
theorem forall_accepted_iff (h : (accepted rs).Pairwise (· < ·)) (n : Nat) :
    (∀ m ∈ accepted rs, m < n) ↔ ∀ m, lastAccepted rs = some m → m < n := by
  constructor
  · intro hall m hm
    exact hall m (List.mem_of_getLast? hm)
  · intro hlast m hm
    rcases List.eq_nil_or_concat (accepted rs) with hnil | ⟨before, l, hl⟩
    · rw [hnil] at hm
      cases hm
    · rw [List.concat_eq_append] at hl
      have hln : l < n := hlast l (by rw [lastAccepted, hl, List.getLast?_concat])
      rw [hl] at h hm
      rcases List.mem_append.1 hm with hm | hm
      · have hml : m < l := (List.pairwise_append.1 h).2.2 m hm l (List.mem_singleton.2 rfl)
        omega
      · rw [List.mem_singleton.1 hm]
        exact hln

/-- every delivery stays within half a turn of the one that passed last -/
def NearLast (rs : List (Receipt η)) : Prop :=
  ∀ before r after, rs = before ++ r :: after → ∀ m, lastAccepted before = some m →
    r.number < m + 32768 ∧ m < r.number + 32768

theorem NearLast.left (h : NearLast (rs ++ rs')) : NearLast rs := by
  intro before r after hrs
  refine h before r (after ++ rs') ?_
  rw [hrs, List.append_assoc, List.cons_append]

theorem NearLast.concat (h : NearLast rs) {r : Receipt η} (hr : ∀ m, lastAccepted rs = some m →
    r.number < m + 32768 ∧ m < r.number + 32768) : NearLast (rs ++ [r]) := by
  intro before r' after hrs
  rcases concat_eq_append_cons hrs with ⟨rfl, rfl, -⟩ | ⟨rest, -, hrs⟩
  · exact hr
  · exact h before r' rest hrs

/-! ## Decisions of the guard -/

namespace SequenceGuard

variable {g : SequenceGuard}

def afterReceipt (g : SequenceGuard) (r : Receipt η) : SequenceGuard :=
  if r.passed then g.record (ofNat r.number) else g

def afterReceipts (g : SequenceGuard) (rs : List (Receipt η)) : SequenceGuard :=
  rs.foldl afterReceipt g

/-- every delivery was decided by the guard as the ones before had left it, and a handler ran only
for what passed -/
def Decided : SequenceGuard → List (Receipt η) → Prop
  | _, [] => True
  | g, r :: rs =>
    ((r.passed = true ↔ g.check (ofNat r.number) = .ok ()) ∧
      (r.handler.isSome = true → r.passed = true)) ∧ (g.afterReceipt r).Decided rs

theorem afterReceipts_append :
    g.afterReceipts (rs ++ rs') = (g.afterReceipts rs).afterReceipts rs' := List.foldl_append

theorem decided_append :
    g.Decided (rs ++ rs') ↔ g.Decided rs ∧ (g.afterReceipts rs).Decided rs' := by
  induction rs generalizing g with
  | nil => simp [Decided, afterReceipts]
  | cons r rs ih =>
    rw [List.cons_append, Decided, Decided, ih]
    exact and_assoc.symm

/-- the guard remembers the one that passed last, and nothing else of it changes -/
theorem afterReceipts_eq (g : SequenceGuard) (rs : List (Receipt η)) :
    g.afterReceipts rs =
      ⟨((lastAccepted rs).map ofNat).or g.lastApplied, g.allowDuplicate⟩ := by
  induction rs using List.reverseRecOn with
  | nil => rfl
  | append_singleton rs r ih =>
    rw [afterReceipts_append, ih, lastAccepted_concat, afterReceipts, List.foldl_cons,
      List.foldl_nil, afterReceipt]
    cases r.passed with
    | true => rfl
    | false => rfl

/-- a delivery that stays within half a turn passes when its place is ahead of the last one that
passed, or equal to it where that is allowed -/
theorem Decided.passed_iff {duplicate : Bool} {r : Receipt η}
    (h : (start duplicate).Decided (rs ++ [r])) (hnear : ∀ m, lastAccepted rs = some m →
      r.number < m + 32768 ∧ m < r.number + 32768) :
    r.passed = true ↔
      ∀ m, lastAccepted rs = some m → m < r.number ∨ m = r.number ∧ duplicate = true := by
  obtain ⟨⟨hpass, -⟩, -⟩ := (decided_append.1 h).2
  rw [hpass, check_ok_iff, afterReceipts_eq]
  cases hlast : lastAccepted rs with
  | none => simp [start]
  | some m =>
    obtain ⟨h₁, h₂⟩ := hnear m hlast
    simp [start, isStale_ofNat h₁ h₂]

theorem Decided.left (h : g.Decided (rs ++ rs')) : g.Decided rs := (decided_append.1 h).1

theorem Decided.pairwise (h : (start false).Decided rs) (hnear : NearLast rs) :
    (accepted rs).Pairwise (· < ·) := by
  induction rs using List.reverseRecOn with
  | nil => exact .nil
  | append_singleton rs r ih =>
    have hrs := ih h.left hnear.left
    rw [accepted_append, accepted_singleton, List.pairwise_append]
    cases hr : r.passed with
    | false => simp [hrs]
    | true =>
      have hlast := (h.passed_iff (hnear rs r [] rfl)).1 hr
      have hall := (forall_accepted_iff hrs r.number).2 fun m hm => by
        simpa using hlast m hm
      simpa [hrs] using hall

/-- in order and without a loss everything passes -/
theorem Decided.all_passed {duplicate : Bool} (h : (start duplicate).Decided rs) {k : Nat}
    (hrs : rs.map Receipt.number = List.range k) :
    (∀ r ∈ rs, r.passed = true) ∧ accepted rs = List.range k := by
  induction rs using List.reverseRecOn generalizing k with
  | nil =>
    refine ⟨fun r hr => absurd hr List.not_mem_nil, ?_⟩
    rw [← hrs]
    rfl
  | append_singleton rs r ih =>
    rw [List.map_append, List.map_singleton] at hrs
    obtain ⟨j, rfl⟩ : ∃ j, k = j + 1 := by
      cases k with
      | zero => simp at hrs
      | succ j => exact ⟨j, rfl⟩
    rw [List.range_succ] at hrs
    obtain ⟨hbefore, hr⟩ := List.append_inj' hrs rfl
    obtain ⟨hall, hacc⟩ := ih h.left hbefore
    have hrj : r.number = j := List.singleton_inj.1 hr
    -- the one before it was the last to pass
    have hlast : ∀ m, lastAccepted rs = some m → m + 1 = r.number := by
      intro m hm
      rw [lastAccepted, hacc] at hm
      cases j with
      | zero => cases hm
      | succ i =>
        rw [List.range_succ, List.getLast?_concat] at hm
        rw [hrj, Option.some.inj hm]
    have hpass : r.passed = true := by
      refine (h.passed_iff fun m hm => ?_).2 fun m hm => ?_
      · have := hlast m hm
        omega
      · have := hlast m hm
        omega
    refine ⟨fun x hx => ?_, ?_⟩
    · rcases List.mem_append.1 hx with hx | hx
      · exact hall x hx
      · rw [List.mem_singleton.1 hx]
        exact hpass
    · rw [accepted_append, accepted_singleton, hpass, hacc, hrj, List.range_succ]
      rfl

theorem Decided.handled (h : g.Decided rs) {r : Receipt η} (hr : r ∈ rs)
    (hh : r.handler.isSome = true) : r.passed = true := by
  obtain ⟨before, after, rfl⟩ := List.append_of_mem hr
  exact (decided_append.1 h).2.1.2 hh

end SequenceGuard

theorem countP_handled_le {g : SequenceGuard} (h : g.Decided rs)
    (hpair : (accepted rs).Pairwise (· < ·)) (n : Nat) :
    rs.countP (fun r => r.number == n && r.handler.isSome) ≤ 1 := by
  have hle : rs.countP (fun r => r.number == n && r.handler.isSome) ≤ (accepted rs).count n := by
    rw [accepted, List.count_eq_countP, List.countP_map, List.countP_filter]
    refine List.countP_mono_left fun r hr hn => ?_
    rw [Bool.and_eq_true, beq_iff_eq] at hn
    simp [hn.1, h.handled hr hn.2]
  have hone : (accepted rs).count n ≤ 1 :=
    List.nodup_iff_count_le_one.1 (hpair.imp fun hlt => hlt.ne) n
  omega

/-! ## Deliveries to a session -/

namespace Session

variable {s : Session μ η} {b : Behaviour μ η σ} {call : Invocation}

def receiptFor (s : Session μ η) (n : Nat) (call : Invocation) : Receipt η :=
  match s.guard.check call.sequence with
  | .ok () => ⟨n, true, s.handlerFor? call⟩
  | .error _ => ⟨n, false, none⟩

theorem receiptFor_number (s : Session μ η) (n : Nat) (call : Invocation) :
    (s.receiptFor n call).number = n := by
  unfold receiptFor
  cases s.guard.check call.sequence with
  | ok => rfl
  | error e => rfl

/-- what does not pass the guard leaves the session as it is -/
theorem deliver_refused (h : s.guard.check call.sequence ≠ .ok ()) (b : Behaviour μ η σ) :
    ∃ last, s.guard.lastApplied = some last ∧
      s.deliver b call = (s, .error (.staleSequence call.sequence last)) := by
  obtain ⟨last, hlast, he⟩ := SequenceGuard.check_error h
  exact ⟨last, hlast, by rw [deliver, he]⟩

/-! ### Behaviours that deliver nothing themselves -/

theorem across_guard (hb : ∀ setup s id, (b.setup setup s id).1.guard = s.guard) :
    Across b fun s s' => s'.guard = s.guard where
  refl _ := rfl
  trans h h' := h'.trans h
  edit _ _ _ _ := rfl
  call hc := by rw [call_ok hc]
  mark s id := by
    rcases mark_cases s id with he | he
    · rw [he]
    · rw [he]
  request handler c call q hq s := by
    rcases applyRequest_cases b s q with he | ⟨_, _, _, id, s', -, ha, he⟩ | ⟨_, s', -, hd, he⟩
    · rw [he]
    · obtain ⟨t', -, rfl⟩ := attach_ok ha
      rcases he with he | ⟨x, he⟩
      · rw [he]
      · rw [he, hb]
    · obtain ⟨removed, t', -, rfl⟩ := detach_ok hd
      rw [he]

end Session

/-- the session `s` gets to `s'` while invocations of `calls` are delivered to it; anything else
may happen to it in between that leaves its guard alone -/
inductive Receives (σ : Type) (calls : List Invocation) :
    List (Receipt η) → Session μ η → Session μ η → Prop
  | refl (s : Session μ η) : Receives σ calls [] s s
  | other {rs : List (Receipt η)} {s s₁ s₂ : Session μ η} : Receives σ calls rs s s₁ →
      s₂.guard = s₁.guard → Receives σ calls rs s s₂
  | refused {rs : List (Receipt η)} {s s₁ : Session μ η} {b : Behaviour μ η σ} {n : Nat}
      {call : Invocation} : Receives σ calls rs s s₁ → calls[n]? = some call →
        s₁.guard.check call.sequence ≠ .ok () →
          Receives σ calls (rs ++ [⟨n, false, none⟩]) s (s₁.deliver b call).1
  /-- `nested` are deliveries that the setups of its handler make -/
  | passed {rs nested : List (Receipt η)} {s s₁ : Session μ η} {b : Behaviour μ η σ} {n : Nat}
      {call : Invocation} : Receives σ calls rs s s₁ → calls[n]? = some call →
        s₁.guard.check call.sequence = .ok () →
          Receives σ calls nested { s₁ with guard := s₁.guard.record call.sequence }
            (s₁.deliver b call).1 →
          Receives σ calls (rs ++ ⟨n, true, s₁.handlerFor? call⟩ :: nested) s (s₁.deliver b call).1

namespace Receives

variable {calls : List Invocation} {s s' : Session μ η}

/-- the receipts tell what the guard decided and where it is now -/
theorem decided (h : Receives σ calls rs s s') (hn : Client.Numbered calls) :
    s.guard.Decided rs ∧ s'.guard = s.guard.afterReceipts rs := by
  -- the deliveries of setups come after the one they belong to, from the guard it has moved
  induction h with
  | refl s => exact ⟨trivial, rfl⟩
  | other _ hg ih => exact ⟨ih.1, hg.trans ih.2⟩
  | @refused rs s s₁ b n call _ hcall hcheck ih =>
    obtain ⟨last, -, he⟩ := Session.deliver_refused hcheck b
    rw [he, SequenceGuard.decided_append, SequenceGuard.afterReceipts_append, ← ih.2]
    rw [hn n call hcall] at hcheck
    exact ⟨⟨ih.1, ⟨by simpa using hcheck, by simp⟩, trivial⟩, rfl⟩
  | @passed rs nested s s₁ b n call _ hcall hcheck _ ih ihn =>
    rw [SequenceGuard.decided_append, SequenceGuard.afterReceipts_append, ← ih.2]
    rw [hn n call hcall] at hcheck ihn
    exact ⟨⟨ih.1, ⟨by simpa using hcheck, fun _ => rfl⟩, ihn.1⟩, ihn.2⟩

/-- one more delivery, with a behaviour whose setups deliver nothing themselves -/
theorem deliver (h : Receives σ calls rs s s') {b : Behaviour μ η σ}
    (hb : ∀ setup s id, (b.setup setup s id).1.guard = s.guard) {n : Nat} {call : Invocation}
    (hcall : calls[n]? = some call) :
    Receives σ calls (rs ++ [s'.receiptFor n call]) s (s'.deliver b call).1 := by
  unfold Session.receiptFor
  by_cases hcheck : s'.guard.check call.sequence = .ok ()
  · rw [hcheck]
    refine .passed h hcall hcheck (.other (.refl _) ?_)
    rw [Session.deliver_passed hcheck]
    exact (Session.across_guard hb).dispatch _ call
  · obtain ⟨last, -, he⟩ := SequenceGuard.check_error hcheck
    rw [he]
    exact .refused h hcall hcheck

/-- every list of deliveries leaves receipts, whatever is lost, repeated or late -/
theorem exists_receipts {b : Behaviour μ η σ}
    (hb : ∀ setup s id, (b.setup setup s id).1.guard = s.guard) (s : Session μ η)
    {ns : List Nat} (hns : ∀ n ∈ ns, n < calls.length) :
    ∃ (rs : List (Receipt η)) (s' : Session μ η), rs.map Receipt.number = ns ∧
      Receives σ calls rs s s' ∧
      s' = (ns.filterMap fun n => calls[n]?).foldl (fun s call => (s.deliver b call).1) s := by
  induction ns using List.reverseRecOn with
  | nil => exact ⟨[], s, rfl, .refl s, rfl⟩
  | append_singleton ns n ih =>
    obtain ⟨rs, s', hnum, hr, hs⟩ := ih fun m hm => hns m (List.mem_append_left _ hm)
    have hlt : n < calls.length := hns n (List.mem_append_right _ (List.mem_singleton.2 rfl))
    have hcall : calls[n]? = some calls[n] := List.getElem?_eq_getElem hlt
    refine ⟨_, _, ?_, hr.deliver hb hcall, ?_⟩
    · rw [List.map_append, hnum, List.map_singleton, Session.receiptFor_number]
    · rw [List.filterMap_append, List.foldl_append, ← hs]
      simp [hcall]

end Receives

/-! ## What passes -/

/-- the invocation with place `k` carries `k` modulo 65536; while deliveries stay within half a
turn, what passes is ahead of all that passed before, so nothing is handled twice (or, where
duplicates are allowed, it is not behind the last one); in order and without a loss everything
passes; and what does not pass leaves the whole session as it is -/
theorem passes_once_in_order {sent : List ClientMessage} {c : Client} (hc : Client.Sends sent c)
    {duplicate : Bool} {s s' : Session μ η} (hs : s.guard = .start duplicate)
    (h : Receives σ (Client.issued sent c) rs s s') :
    (∀ k call, (Client.issued sent c)[k]? = some call →
      call.sequence.value.toNat = k % 65536) ∧
    (duplicate = false → NearLast rs →
      (∀ before r after, rs = before ++ r :: after →
        (r.passed = true ↔ ∀ m ∈ accepted before, m < r.number)) ∧
      (accepted rs).Pairwise (· < ·) ∧
      ∀ n, rs.countP (fun r => r.number == n && r.handler.isSome) ≤ 1) ∧
    (duplicate = true → NearLast rs → ∀ before r after, rs = before ++ r :: after →
      (r.passed = true ↔ ∀ m, lastAccepted before = some m → m ≤ r.number)) ∧
    (∀ k, rs.map Receipt.number = List.range k → ∀ r ∈ rs, r.passed = true) ∧
    ∀ (s : Session μ η) (b : Behaviour μ η σ) call, s.guard.check call.sequence ≠ .ok () →
      ∃ last, s.guard.lastApplied = some last ∧
        s.deliver b call = (s, .error (.staleSequence call.sequence last)) := by
  have hnumbered := hc.numbered.1
  have hdec := (h.decided hnumbered).1
  rw [hs] at hdec
  -- the delivery `r` of a split, as the guard decided it
  have hsplit : ∀ before r after, rs = before ++ r :: after → NearLast rs →
      (SequenceGuard.start duplicate).Decided before ∧ NearLast before ∧ (r.passed = true ↔
        ∀ m, lastAccepted before = some m → m < r.number ∨ m = r.number ∧ duplicate = true) := by
    intro before r after hrs hnear
    have hrs' : rs = (before ++ [r]) ++ after := by rw [hrs, List.append_assoc, List.singleton_append]
    have hone : (SequenceGuard.start duplicate).Decided (before ++ [r]) := by
      rw [hrs'] at hdec
      exact hdec.left
    exact ⟨hone.left, (hrs ▸ hnear).left, hone.passed_iff (hnear before r after hrs)⟩
  refine ⟨fun k call hk => ?_, ?_, ?_, fun k hk => (hdec.all_passed hk).1,
    fun s b call hcheck => Session.deliver_refused hcheck b⟩
  · rw [hnumbered k call hk, ofNat, UInt16.toNat_ofNat']
  · rintro rfl hnear
    have hpair := hdec.pairwise hnear
    refine ⟨fun before r after hrs => ?_, hpair, countP_handled_le hdec hpair⟩
    obtain ⟨hbefore, hnearBefore, hpass⟩ := hsplit before r after hrs hnear
    rw [hpass, forall_accepted_iff (hbefore.pairwise hnearBefore)]
    simp
  · rintro rfl hnear before r after hrs
    rw [(hsplit before r after hrs hnear).2.2]
    simp [le_iff_lt_or_eq]

/-! ### A page that is opened and closed -/

def openPage : Invocation := ⟨⟨1⟩, "View", "open", [], first⟩
def closePage : Invocation := ⟨⟨1⟩, "View", "close", [], ofNat 1⟩

namespace Client

def opener : Client :=
  (((Client.new.invoke ⟨1⟩ "View" "open" []).2).takeRequest.2.invoke ⟨1⟩ "View" "close" []).2

theorem sends_opener : Sends [⟨none, [openPage]⟩] opener :=
  .invoke ⟨1⟩ "View" "close" [] (.takeRequest (.invoke ⟨1⟩ "View" "open" [] .new))

theorem issued_opener : issued [⟨none, [openPage]⟩] opener = [openPage, closePage] := rfl

end Client

def viewed : Session Unit Unit :=
  { (Session.ofRoot ⟨"Page", .empty, ()⟩ {} : Session Unit Unit) with
    registry := (∅ : Registry Unit).register ⟨1⟩ "View" () }

/-- opening arrives, closing arrives, and opening arrives once more -/
def viewReceipts : List (Receipt Unit) :=
  [⟨0, true, some ()⟩, ⟨1, true, some ()⟩, ⟨0, false, none⟩]

theorem nearLast_viewReceipts : NearLast viewReceipts := by
  have hnil : NearLast ([] : List (Receipt Unit)) := by
    intro before r after h
    exact absurd h (by simp)
  refine ((hnil.concat ?_).concat ?_).concat ?_
  · rintro m ⟨⟩
  · rintro m ⟨⟩
    decide
  · rintro m ⟨⟩
    decide

theorem receives_viewReceipts :
    ∃ s' : Session Unit Unit, Receives Unit [openPage, closePage] viewReceipts viewed s' := by
  have hb : ∀ (setup : Unit) (s : Session Unit Unit) id,
      ((Behaviour.idle : Behaviour Unit Unit Unit).setup setup s id).1.guard = s.guard :=
    fun _ _ _ => rfl
  have hnone : Receives Unit [openPage, closePage] [] viewed viewed := .refl viewed
  have hopen := hnone.deliver hb (show [openPage, closePage][0]? = some openPage from rfl)
  have hclose := hopen.deliver hb (show [openPage, closePage][1]? = some closePage from rfl)
  exact ⟨_, hclose.deliver hb (show [openPage, closePage][0]? = some openPage from rfl)⟩

theorem passes_once_in_order_page : ∃ s' : Session Unit Unit,
    Receives Unit (Client.issued [⟨none, [openPage]⟩] Client.opener) viewReceipts viewed s' ∧
    NearLast viewReceipts ∧ (accepted viewReceipts).Pairwise (· < ·) := by
  obtain ⟨s', h⟩ := receives_viewReceipts
  have hprop := (passes_once_in_order Client.sends_opener (show viewed.guard = .start false from rfl)
    (Client.issued_opener ▸ h)).2.1 rfl nearLast_viewReceipts
  exact ⟨s', h, nearLast_viewReceipts, hprop.2.1⟩

end UiSync
