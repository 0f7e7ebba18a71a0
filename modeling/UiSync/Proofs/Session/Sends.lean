import UiSync.Proofs.Session.Chronicle

/-!
# What was last sent

`lastSend id events` are the fields of a component when it was last listed in a response, unless a
client asked for everything anew since then.  Field bags remember as much of it as they need
(`Chronicle.remembered`): whether there was a last send, and what its values were.  So what a bag has
to send is what its fields owe to their last send (`FieldBag.Tracked.pendingDiff_eq_some_iff`).
-/

namespace UiSync

open Json (Value)

variable {μ η σ : Type}

/-! ## Fields and their last send -/

namespace FieldBag

def difference (now before : Option Value) : Option Value :=
  if sameField now before then none else some (now.getD .null)

/-- what has to be sent of fields: all of them when none were sent, and otherwise those that differ
from their last send, if there are any -/
def Owed (last : Option Fields) (fields : Fields) (diff : Diff) : Prop :=
  match last with
  | none => diff = fields
  | some last => ¬ SameFields fields last ∧
      ∀ name, diff.get? name = difference (fields.get? name) (last.get? name)

def Remembers (b : FieldBag) : Option Fields → Prop
  | none => b.everSent = false
  | some last => b.everSent = true ∧ SameFields b.sent last

theorem difference_eq_none_iff {now before : Option Value} :
    difference now before = none ↔ sameField now before = true := by
  unfold difference
  split
  · next h => exact ⟨fun _ => h, fun _ => rfl⟩
  · next h => exact ⟨fun he => (by cases he), fun hs => absurd hs h⟩

theorem difference_congr {now before before' : Option Value}
    (h : sameField before before' = true) : difference now before = difference now before' := by
  have hiff : sameField now before = true ↔ sameField now before' = true :=
    ⟨fun hs => sameField_trans hs h, fun hs => sameField_trans hs (sameField_symm h)⟩
  rw [difference, difference]
  simp only [hiff]

variable {b : FieldBag} {last : Option Fields}

theorem Tracked.get?_changed (h : b.Tracked) (hs : b.everSent = true) (name : String) :
    b.changed.get? name = difference (b.fields.get? name) (b.sent.get? name) := by
  rw [FieldBag.get?_changed]
  cases ht : b.touched.get? name with
  | none => exact (difference_eq_none_iff.2 (h.touched hs name ht)).symm
  | some _ => rfl

/-- a bag that remembers its last send has to send what its fields owe -/
theorem Tracked.pendingDiff_eq_some_iff (h : b.Tracked) (hl : b.Remembers last) (diff : Diff) :
    b.pendingDiff = some diff ↔ Owed last b.fields diff := by
  cases last with
  | none =>
    have hs : b.everSent = false := hl
    have hall : b.pendingDiff = some b.fields := by
      rw [pendingDiff, hs]
      rfl
    rw [hall, Option.some.injEq]
    exact eq_comm
  | some last =>
    obtain ⟨hs, hlast⟩ := hl
    have hget : ∀ name, b.changed.get? name =
        difference (b.fields.get? name) (last.get? name) := fun name =>
      (h.get?_changed hs name).trans (difference_congr (hlast name))
    have hempty : b.changed.isEmpty = true ↔ SameFields b.fields last := by
      rw [Dict.isEmpty_iff]
      refine forall_congr' fun name => ?_
      rw [hget]
      exact difference_eq_none_iff
    have hpending : b.pendingDiff = if b.changed.isEmpty then none else some b.changed := by
      rw [pendingDiff, if_pos hs]
    rw [hpending]
    constructor
    · intro hd
      split at hd
      · cases hd
      · next hne =>
        obtain rfl := Option.some.inj hd
        exact ⟨fun hsame => hne (hempty.2 hsame), hget⟩
    · rintro ⟨hne, hdiff⟩
      have heq : b.changed = diff := Dict.ext_get? fun name => (hget name).trans (hdiff name).symm
      rw [if_neg fun he => hne (hempty.1 he), heq]

theorem Unsent.remembers (h : b.Unsent) : b.Remembers none := h.everSent

theorem remembers_commit (b : FieldBag) : b.commit.Remembers (some b.fields) :=
  ⟨rfl, .refl b.fields⟩

/-- a commit that sent nothing is none, as far as the last send goes -/
theorem Remembers.commit (h : b.Remembers last) (ht : b.Tracked) (hd : b.pendingDiff = none) :
    b.commit.Remembers last := by
  have hs : b.everSent = true := by
    by_contra hs
    rw [pendingDiff, if_neg hs] at hd
    cases hd
  cases last with
  | none =>
    have hfalse : b.everSent = false := h
    rw [hs] at hfalse
    cases hfalse
  | some last => exact ⟨rfl, (ht.sameFields_of_pendingDiff_none hd).symm.trans h.2⟩

end FieldBag

open FieldBag

theorem Component.Edited.remembers {c d : Component μ} (h : c.Edited d) {last : Option Fields}
    (hl : c.fields.Remembers last) : d.fields.Remembers last := by
  cases last with
  | none => exact h.everSent.trans hl
  | some last => exact ⟨h.everSent.trans hl.1, h.sent ▸ hl.2⟩

/-! ## The last send of a component -/

/-- the last send of `id` after one more event; asking for everything anew forgets it -/
def Event.lastSend (id : ComponentId) (last : Option Fields) : Event μ → Option Fields
  | .committed commit _ =>
    if id ∈ commit.message.changes.map FieldChange.component then
      (commit.tree.get? id).map fun c => c.fields.fields
    else last
  | .resynced _ => none
  | .attached .. | .detached .. | .called _ | .gaveUp _ => last

def lastSend (id : ComponentId) (events : List (Event μ)) : Option Fields :=
  events.foldl (Event.lastSend id) none

theorem lastSend_append_singleton (id : ComponentId) (events : List (Event μ)) (e : Event μ) :
    lastSend id (events ++ [e]) = e.lastSend id (lastSend id events) := by
  rw [lastSend, List.foldl_append]
  rfl

namespace Session

variable {b : Behaviour μ η σ} {s s' : Session μ η} {c : Cascade μ} {id : ComponentId}

/-- the changes of a response are what the components whose hooks ran have to send -/
theorem mem_changes_iff {diff : Diff} :
    (∃ version, ⟨id, version, diff⟩ ∈ (s.pendingMessage c).changes) ↔
      id ∈ c.finalized ∧ ∃ k, c.tree.get? id = some k ∧ k.fields.pendingDiff = some diff := by
  have hchange : ∀ x version, changeOf c.tree x = some ⟨id, version, diff⟩ ↔
      x = id ∧ ∃ k, c.tree.get? id = some k ∧ k.fields.pendingDiff = some diff ∧
        k.fields.version + 1 = version := by
    intro x version
    constructor
    · intro h
      obtain ⟨k, hk, h⟩ := Option.bind_eq_some_iff.1 h
      obtain ⟨d, hd, he⟩ := Option.map_eq_some_iff.1 h
      obtain ⟨rfl, hversion, rfl⟩ := FieldChange.mk.inj he
      exact ⟨rfl, k, hk, hd, hversion⟩
    · rintro ⟨rfl, k, hk, hd, rfl⟩
      rw [changeOf, hk, Option.bind_some, hd]
      rfl
  constructor
  · rintro ⟨version, hm⟩
    obtain ⟨x, hx, he⟩ := List.mem_filterMap.1 hm
    obtain ⟨rfl, k, hk, hd, -⟩ := (hchange x version).1 he
    exact ⟨hx, k, hk, hd⟩
  · rintro ⟨hid, k, hk, hd⟩
    have hc := (hchange id (k.fields.version + 1)).2 ⟨rfl, k, hk, hd, rfl⟩
    exact ⟨k.fields.version + 1, List.mem_filterMap.2 ⟨id, hid, hc⟩⟩

theorem mem_map_changes_iff :
    id ∈ (s.pendingMessage c).changes.map FieldChange.component ↔ id ∈ c.finalized ∧
      ∃ k diff, c.tree.get? id = some k ∧ k.fields.pendingDiff = some diff := by
  constructor
  · intro h
    obtain ⟨⟨x, version, diff⟩, hm, rfl⟩ := List.mem_map.1 h
    obtain ⟨hid, k, hk, hd⟩ := mem_changes_iff.1 ⟨version, hm⟩
    exact ⟨hid, k, diff, hk, hd⟩
  · rintro ⟨hid, k, diff, hk, hd⟩
    obtain ⟨version, hm⟩ := mem_changes_iff.2 ⟨hid, k, hk, hd⟩
    exact List.mem_map.2 ⟨_, hm, rfl⟩

/-- a component that was listed remembers its fields as they were then, and any other one what it
remembered before -/
theorem remembers_commitFields (hw : c.tree.WellFormed) (ht : c.tree.Tracked) {last : Option Fields}
    (hl : ∀ k, c.tree.get? id = some k → k.fields.Remembers last) {d : Component μ}
    (hd : (commitFields c.tree c.finalized).get? id = some d) (hookCalls : List ClientCall) :
    d.fields.Remembers (Event.lastSend id last
      (.committed ⟨s.pendingMessage c, commitFields c.tree c.finalized⟩ hookCalls)) := by
  have hget := hd
  rw [Event.lastSend]
  by_cases hid : id ∈ c.finalized
  · rw [get?_commitFields_of_mem (Cascade.nodup_finalized hw) hid, Option.map_eq_some_iff] at hd
    obtain ⟨k, hk, rfl⟩ := hd
    cases hp : k.fields.pendingDiff with
    | some diff =>
      rw [if_pos (mem_map_changes_iff.2 ⟨hid, k, diff, hk, hp⟩), hget]
      exact remembers_commit k.fields
    | none =>
      have hno : id ∉ (s.pendingMessage c).changes.map FieldChange.component := by
        rw [mem_map_changes_iff]
        rintro ⟨-, k', diff, hk', hp'⟩
        rw [hk] at hk'
        obtain rfl := Option.some.inj hk'
        rw [hp] at hp'
        cases hp'
      rw [if_neg hno]
      exact (hl k hk).commit (ht id k hk) hp
  · rw [if_neg fun hm => hid (mem_map_changes_iff.1 hm).1]
    rw [get?_commitFields_of_notMem hid] at hd
    exact hl d hd

/-! ## What field bags remember -/

/-- every bag remembers the last send of its component, and identities to come have none -/
structure Remembered (events : List (Event μ)) (s : Session μ η) : Prop where
  fields : ∀ id c, s.tree.get? id = some c → c.fields.Remembers (lastSend id events)
  fresh : ∀ id : ComponentId, s.tree.nextId ≤ id.value → lastSend id events = none

namespace Remembered

variable {events es : List (Event μ)}

theorem edited (h : Remembered events s) (he : Tree.Edited s.tree s'.tree)
    (hl : ∀ id, lastSend id (events ++ es) = lastSend id events) :
    Remembered (events ++ es) s' := by
  refine ⟨fun id d hd => ?_, fun id hid => ?_⟩
  · obtain ⟨c, hc, hcd⟩ := he.before hd
    rw [hl]
    exact hcd.remembers (h.fields id c hc)
  · rw [he.shape.nextId] at hid
    rw [hl]
    exact h.fresh id hid

theorem attach (h : Remembered events s) (hw : s.tree.WellFormed) {parent id : ComponentId}
    {c : Component μ} (hc : c.fields.Unsent) (ha : s.attach parent c = .ok (id, s')) :
    Remembered (events ++ [.attached id (some parent) c.kind]) s' := by
  obtain ⟨t', ht, rfl⟩ := attach_ok ha
  obtain ⟨n, hn⟩ := hw.attached ht
  refine ⟨fun x d hd => ?_, fun x hx => ?_⟩
  · rw [lastSend_append_singleton]
    obtain ⟨m, hm, rfl⟩ := Tree.get?_eq_some_iff.1 hd
    rcases hn.cases hm with ⟨rfl, rfl⟩ | ⟨m₀, hm₀, hcomp, -⟩
    · have hnone : lastSend x events = none := h.fresh x (by rw [hn.idEq])
      show c.fields.Remembers (lastSend x events)
      rw [hnone]
      exact hc.remembers
    · rw [hcomp]
      exact h.fields x _ (Tree.get?_eq_some_iff.2 ⟨m₀, hm₀, rfl⟩)
  · rw [lastSend_append_singleton]
    change t'.nextId ≤ x.value at hx
    rw [hn.nextId] at hx
    exact h.fresh x (by omega)

theorem detach (h : Remembered events s) (hw : s.tree.WellFormed) {id : ComponentId}
    {removed : List ComponentId} (hd : s.detach id = .ok s') :
    Remembered (events ++ [.detached id removed]) s' := by
  obtain ⟨removed', t', ht, rfl⟩ := detach_ok hd
  have hdet := hw.detached ht
  refine ⟨fun x c hc => ?_, fun x hx => ?_⟩
  · rw [lastSend_append_singleton]
    exact h.fields x c (hdet.get? hc)
  · rw [lastSend_append_singleton]
    change t'.nextId ≤ x.value at hx
    rw [hdet.nextId] at hx
    exact h.fresh x hx

theorem requestResync (s : Session μ η) (events : List (Event μ)) :
    Remembered (events ++ [.resynced (announcement s.tree)]) s.requestResync := by
  refine ⟨fun x d hd => ?_, fun x _ => lastSend_append_singleton ..⟩
  rw [lastSend_append_singleton]
  have hget : s.requestResync.tree.get? x =
      (s.tree.get? x).map fun c => { c with fields := c.fields.forgetSent } :=
    Tree.get?_component_updateAll ..
  rw [hget, Option.map_eq_some_iff] at hd
  obtain ⟨c, -, rfl⟩ := hd
  show c.fields.forgetSent.everSent = false
  rfl

theorem step {clears : Bool} (h : Remembered events s) (hw : s.tree.WellFormed)
    (hs : Step FieldBag.Unsent clears s es s') : Remembered (events ++ es) s' := by
  cases hs with
  | attach hc ha => exact h.attach hw hc ha
  | detach _ hd => exact h.detach hw hd
  | call hc =>
    rw [call_ok hc]
    exact h.edited (.refl _) fun id => lastSend_append_singleton ..
  | resync => exact requestResync s events
  | silent _ hsilent => exact h.edited hsilent.tree fun id => by rw [List.append_nil]

theorem respond (h : Remembered events s) (hw : s.tree.WellFormed) (ht : s.tree.Tracked)
    {response : Response} (hr : s.respond b = (s', .ok response)) (hookCalls : List ClientCall) :
    Remembered (events ++ [.committed ⟨response.message, s'.tree⟩ hookCalls]) s' := by
  obtain ⟨c, hc, rfl, hm⟩ := respond_ok hr
  have hedit := edited_of_finalize hc
  have hshape := sameShape_commitFields c.finalized c.tree
  rw [hm]
  refine ⟨fun x d hd => ?_, fun x hx => ?_⟩
  · rw [lastSend_append_singleton]
    refine remembers_commitFields (hedit.shape.wellFormed hw) (hedit.allTracked ht) ?_ hd hookCalls
    intro k hk
    obtain ⟨k₀, hk₀, he⟩ := hedit.before hk
    exact he.remembers (h.fields x k₀ hk₀)
  · have hsame : (s.commit c).tree.nextId = s.tree.nextId := hshape.nextId.trans hedit.shape.nextId
    rw [hsame] at hx
    -- what was listed is attached, so its identity was handed out before
    have hno : x ∉ (s.pendingMessage c).changes.map FieldChange.component := by
      rw [mem_map_changes_iff]
      rintro ⟨-, k, diff, hk, -⟩
      obtain ⟨k₀, hk₀, -⟩ := hedit.before hk
      obtain ⟨n, hn, -⟩ := Tree.get?_eq_some_iff.1 hk₀
      have hlt : x.value < s.tree.nextId := hw.fresh x n hn
      omega
    rw [lastSend_append_singleton, Event.lastSend, if_neg hno]
    exact h.fresh x hx

end Remembered

end Session

namespace Chronicle

variable {events : List (Event μ)} {s : Session μ η}

theorem tracked (h : Chronicle FieldBag.Unsent σ events s) : s.tree.Tracked := by
  obtain ⟨r, -, ht⟩ := h.history.recorded.tracks
  exact ht.tracked

theorem remembered (h : Chronicle FieldBag.Unsent σ events s) : s.Remembered events := by
  induction h with
  | @start root config hroot =>
    refine ⟨fun id c hc => ?_, fun id _ => rfl⟩
    obtain ⟨n, hn, rfl⟩ := Tree.get?_eq_some_iff.1 hc
    obtain ⟨-, rfl⟩ := Tree.eq_of_get?_ofRoot hn
    exact hroot.remembers
  | step h hs ih => exact ih.step h.wellFormed hs
  | respond h hr ih => exact ih.respond h.wellFormed h.tracked hr _
  | unanswered _ hr ih =>
    exact ih.edited (Session.respond_error hr).1 fun id => lastSend_append_singleton ..

end Chronicle

end UiSync
