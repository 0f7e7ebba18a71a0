import UiSync.Proofs.Dict
import UiSync.Session.Cascade

/-!
# Calls that wait

A queue is seen through the calls that wait for each component (`CallQueue.callsOf`).  Rolling back
to a checkpoint gives back what waited when it was taken, whatever was queued behind it since
(`CallQueue.callsOf_rollback`).  Put in order, the waiting calls of one component are found
together and as they were queued (`CallQueue.callsTo_inOrder`), if each of them is addressed to the
component it waits for (`CallQueue.Addressed`).
-/

namespace UiSync

def callsTo (id : ComponentId) (calls : List ClientCall) : List ClientCall :=
  calls.filter fun call => call.component = id

theorem callsTo_append (id : ComponentId) (a b : List ClientCall) :
    callsTo id (a ++ b) = callsTo id a ++ callsTo id b := List.filter_append a b

theorem callsTo_of_forall {id : ComponentId} {calls : List ClientCall}
    (h : ∀ call ∈ calls, call.component = id) : callsTo id calls = calls :=
  List.filter_eq_self.2 fun call hc => decide_eq_true (h call hc)

theorem callsTo_of_forall_ne {id : ComponentId} {calls : List ClientCall}
    (h : ∀ call ∈ calls, call.component ≠ id) : callsTo id calls = [] :=
  List.filter_eq_nil_iff.2 fun call hc hid => h call hc (of_decide_eq_true hid)

def PeerCall.toClient (id : ComponentId) (c : PeerCall) : ClientCall :=
  ⟨id, c.interface, c.method, c.args⟩

namespace CallQueue

variable {q : CallQueue} {id : ComponentId}

/-! ## What waits for a component -/

theorem callsOf_empty (id : ComponentId) : (∅ : CallQueue).callsOf id = [] := rfl

theorem callsOf_push_self (q : CallQueue) (id : ComponentId) (interface method : String)
    (args : List Json.Value) : (q.push id interface method args).callsOf id =
      q.callsOf id ++ [⟨id, interface, method, args⟩] := by
  rw [callsOf, push, Dict.get?_insert_self]
  rfl

theorem callsOf_push_of_ne {x : ComponentId} (h : x ≠ id) (q : CallQueue)
    (interface method : String) (args : List Json.Value) :
    (q.push id interface method args).callsOf x = q.callsOf x := by
  rw [callsOf, push, Dict.get?_insert_of_ne h, callsOf]

theorem callsOf_push (q : CallQueue) (id : ComponentId) (interface method : String)
    (args : List Json.Value) (x : ComponentId) : (q.push id interface method args).callsOf x =
      q.callsOf x ++ callsTo x [⟨id, interface, method, args⟩] := by
  by_cases hx : x = id
  · subst hx
    rw [callsOf_push_self, callsTo_of_forall fun call hc => by rw [List.mem_singleton.1 hc]]
  · rw [callsOf_push_of_ne hx, callsTo_of_forall_ne, List.append_nil]
    intro call hc
    rw [List.mem_singleton.1 hc]
    exact fun he => hx he.symm

theorem callsOf_pushCalls (id : ComponentId) (calls : List PeerCall) (q : CallQueue)
    (x : ComponentId) : (Cascade.pushCalls q id calls).callsOf x =
      q.callsOf x ++ callsTo x (calls.map (PeerCall.toClient id)) := by
  induction calls generalizing q with
  | nil => exact (List.append_nil _).symm
  | cons c calls ih =>
    show (Cascade.pushCalls (q.push id c.interface c.method c.args) id calls).callsOf x = _
    rw [ih, callsOf_push, List.append_assoc, ← callsTo_append]
    rfl

theorem callsOf_removeAll_of_notMem {ids : List ComponentId} (h : id ∉ ids) (q : CallQueue) :
    (q.removeAll ids).callsOf id = q.callsOf id := by
  induction ids generalizing q with
  | nil => rfl
  | cons j ids ih =>
    rw [List.mem_cons, not_or] at h
    show ((q.removeComponent j).removeAll ids).callsOf id = _
    rw [ih h.2, callsOf, removeComponent, Dict.get?_erase_of_ne h.1, callsOf]

theorem callsOf_removeAll_of_mem {ids : List ComponentId} (h : id ∈ ids) (q : CallQueue) :
    (q.removeAll ids).callsOf id = [] := by
  induction ids generalizing q with
  | nil => cases h
  | cons j ids ih =>
    show ((q.removeComponent j).removeAll ids).callsOf id = _
    by_cases hid : id ∈ ids
    · exact ih hid _
    · obtain rfl := (List.mem_cons.1 h).resolve_right hid
      rw [callsOf_removeAll_of_notMem hid, callsOf, removeComponent, Dict.get?_erase_self]
      rfl

/-! ## Rolling back -/

theorem lengthOf_checkpoint (q : CallQueue) (id : ComponentId) :
    (q.checkpoint.get? id).getD 0 = (q.callsOf id).length := by
  rw [checkpoint, Dict.get?_map, callsOf]
  cases q.calls.get? id <;> rfl

theorem callsOf_rollback_take (q : CallQueue) (c : Checkpoint) (id : ComponentId) :
    (q.rollback c).callsOf id = (q.callsOf id).take ((c.get? id).getD 0) := by
  rw [callsOf, rollback, Dict.get?_filterMap, callsOf]
  cases q.calls.get? id with
  | none => rw [Option.getD_none, List.take_nil]; rfl
  | some cs =>
    simp only [Option.bind_some, Option.getD_some]
    split
    · next he => rw [List.isEmpty_iff.1 he]; rfl
    · rfl

/-- only what was queued since the checkpoint is dropped -/
theorem callsOf_rollback {q' : CallQueue} {more : List ClientCall}
    (h : q'.callsOf id = q.callsOf id ++ more) :
    (q'.rollback q.checkpoint).callsOf id = q.callsOf id := by
  rw [callsOf_rollback_take, lengthOf_checkpoint, h, List.take_left]

/-! ## In order -/

/-- every call waits for the component it is addressed to -/
def Addressed (q : CallQueue) : Prop := ∀ id, ∀ call ∈ q.callsOf id, call.component = id

theorem Addressed.callsTo_self (h : q.Addressed) (id : ComponentId) :
    callsTo id (q.callsOf id) = q.callsOf id := callsTo_of_forall (h id)

theorem Addressed.callsTo_of_ne (h : q.Addressed) {x : ComponentId} (hx : x ≠ id) :
    callsTo id (q.callsOf x) = [] :=
  callsTo_of_forall_ne fun call hc he => hx ((h x call hc).symm.trans he)

theorem callsTo_inOrder_of_notMem (h : q.Addressed) {order : List ComponentId} (hid : id ∉ order) :
    callsTo id (q.inOrder order) = [] := by
  refine callsTo_of_forall_ne fun call hc he => ?_
  obtain ⟨x, hx, hcx⟩ := List.mem_flatMap.1 hc
  exact hid (((h x call hcx).symm.trans he) ▸ hx)

theorem callsTo_inOrder (h : q.Addressed) {order : List ComponentId} (hn : order.Nodup)
    (hid : id ∈ order) : callsTo id (q.inOrder order) = q.callsOf id := by
  induction order with
  | nil => cases hid
  | cons x order ih =>
    obtain ⟨hx, hn⟩ := List.nodup_cons.1 hn
    show callsTo id (q.callsOf x ++ q.inOrder order) = _
    rw [callsTo_append]
    by_cases hxid : x = id
    · subst hxid
      rw [h.callsTo_self, callsTo_inOrder_of_notMem h hx, List.append_nil]
    · have hmem : id ∈ order := (List.mem_cons.1 hid).resolve_left fun he => hxid he.symm
      rw [h.callsTo_of_ne hxid, ih hn hmem, List.nil_append]

end CallQueue

end UiSync
