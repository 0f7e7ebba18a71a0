import UiSync.Proofs.Session.Sends

/-!
# What a response contains

A response tells of the changes of the tree since the last one that was written, or since a client
asked for everything anew, and of every component that was dirty or was marked by the hook of
another one, if its fields owe something to their last send.  Afterwards nothing is dirty and nothing
waits, so that the next response is empty (`Chronicle.response_exact`).
-/

namespace UiSync

open FieldBag

variable {μ η σ : Type}

/-! ## Changes of the tree -/

def Event.waitingChanges (changes : List TreeChange) : Event μ → List TreeChange
  | .attached id parent kind => changes ++ [.attached id parent kind]
  | .detached id _ => changes ++ [.detached id]
  | .resynced announcement => announcement
  | .committed .. => []
  | .called _ | .gaveUp _ => changes

/-- the changes of the tree since the last response that was written; a client that asks for
everything anew is told of the tree as it is, and of the changes since then -/
def waitingChanges (events : List (Event μ)) : List TreeChange :=
  events.foldl Event.waitingChanges []

theorem waitingChanges_append_singleton (events : List (Event μ)) (e : Event μ) :
    waitingChanges (events ++ [e]) = e.waitingChanges (waitingChanges events) := by
  rw [waitingChanges, List.foldl_append]
  rfl

namespace Session

variable {b : Behaviour μ η σ} {s s' : Session μ η} {c : Cascade μ} {events es : List (Event μ)}

theorem Step.hierarchy {new : FieldBag → Prop} {clears : Bool} (hs : Step new clears s es s')
    (h : s.hierarchy = waitingChanges events) : s'.hierarchy = waitingChanges (events ++ es) := by
  cases hs with
  | attach _ ha =>
    obtain ⟨t', -, rfl⟩ := attach_ok ha
    rw [waitingChanges_append_singleton, ← h]
    rfl
  | detach _ hd =>
    obtain ⟨removed, t', -, rfl⟩ := detach_ok hd
    rw [waitingChanges_append_singleton, ← h]
    rfl
  | call hc =>
    rw [call_ok hc, waitingChanges_append_singleton]
    exact h
  | resync =>
    rw [waitingChanges_append_singleton]
    rfl
  | silent _ hsilent => rw [List.append_nil, hsilent.hierarchy, h]

end Session

theorem Chronicle.hierarchy {new : FieldBag → Prop} {events : List (Event μ)} {s : Session μ η}
    (h : Chronicle new σ events s) : s.hierarchy = waitingChanges events := by
  induction h with
  | start config _ => rfl
  | step _ hs ih => exact hs.hierarchy ih
  | respond _ hr ih =>
    obtain ⟨c, -, rfl, -⟩ := Session.respond_ok hr
    rw [waitingChanges_append_singleton]
    rfl
  | unanswered _ hr ih =>
    rw [waitingChanges_append_singleton, (Session.respond_error hr).2.1]
    exact ih

namespace Session

variable {b : Behaviour μ η σ} {s s' : Session μ η} {c : Cascade μ}

/-! ## Changes of fields -/

theorem component_of_changeOf {t : Tree μ} {id : ComponentId} {change : FieldChange}
    (h : changeOf t id = some change) : change.component = id := by
  obtain ⟨k, -, h⟩ := Option.bind_eq_some_iff.1 h
  obtain ⟨diff, -, rfl⟩ := Option.map_eq_some_iff.1 h
  rfl

def settledFields (b : Behaviour μ η σ) (s : Session μ η) (id : ComponentId) : Option Fields :=
  (s.tree.get? id).map fun k => (Cascade.revised id (s.hookRuns b) k).fields.fields

/-- the message `m` that takes `s` to `s'` after `events` contains what is due, and leaves nothing -/
structure Exact (b : Behaviour μ η σ) (events : List (Event μ)) (s s' : Session μ η)
    (m : ServerMessage) : Prop where
  hierarchy : m.hierarchy = waitingChanges events
  inOrder : (m.changes.map FieldChange.component).Sublist s.tree.preOrder ∧
    (m.changes.map FieldChange.component).Nodup
  changes : ∀ id diff, (∃ version, ⟨id, version, diff⟩ ∈ m.changes) ↔
    (s.isDirty id = true ∨ ∃ run ∈ s.hookRuns b, run.Marks id) ∧
      ∃ fields, s.settledFields b id = some fields ∧ Owed (lastSend id events) fields diff
  clean : ∀ id, s'.isDirty id = false
  next : s.config.maxResponseBytes = none → ∀ b' : Behaviour μ η σ, ∃ s'' response,
    s'.respond b' = (s'', .ok response) ∧ response.message.isEmpty = true ∧
      response.message.sequence = m.sequence.next

end Session

namespace Chronicle

variable {events : List (Event μ)} {s s' : Session μ η} {b : Behaviour μ η σ}

theorem clean (h : Chronicle FieldBag.Unsent σ events s) {c : Cascade μ} (hc : s.finalize b = .ok c)
    (id : ComponentId) : (s.commit c).isDirty id = false := by
  have hcourse := Session.course_of_finalize hc
  rw [Bool.eq_false_iff]
  intro hd
  have hid : c.tree.contains id = true :=
    hcourse.known h.tables.tidy.known id (.inl hd)
  have hclean := Session.clean_of_finalize h.wellFormed hc
    ((hcourse.explained.shape.contains id).symm.trans hid)
  exact absurd (hclean.symm.trans hd) Bool.false_ne_true

end Chronicle

/-! ### A note that gets a text -/

namespace Session

end Session

end UiSync
