import UiSync.Message.Decode
import UiSync.Proofs.Json.RoundTrip

/-!
# Messages are read back

A message whose numbers are words of 64 bits and whose values are free of doubles is read back
from its text when no value in it is nested deeper than 123 arrays and objects, as four more are
around it; else reading stops at the limit (`decode_encode`).

* `RecordShape.reads`   a record, from its fields;
* `reads_treeChange`    a change of the tree, read as plain values first;
* `reads_server`, `reads_client`   whole messages, with any room for nesting.
-/

namespace UiSync

open Json

/-! ## Records -/

namespace Json

variable {δ α β : Type} {p q : Prop}

theorem FieldReader.reads_required {read : Nat → Bytes → Reading β} {room : Nat} {text : Bytes}
    {b : β} (h : Reads (read room) text b p) (name : String) (isSet : δ → Bool)
    (set : δ → β → δ) (d : δ) :
    Reads ((FieldReader.required name isSet read set).read room d) text (set d b) p := by
  refine ⟨h.starts, fun {rest} hr => ⟨fun hp => ?_, fun hp => ?_⟩⟩
  · show (read room (text ++ rest)).map _ = _
    rw [(h.gives hr).ok hp]
    rfl
  · obtain ⟨f, hf, hlimit⟩ := (h.gives hr).stops hp
    refine ⟨f, ?_, hlimit⟩
    show (read room (text ++ rest)).map _ = _
    rw [hf]
    rfl

namespace RecordShape

variable {shape : RecordShape δ α} {room : Nat}

/-- the first of the fields that are left is read -/
theorem gathers_field {f : FieldReader δ} {key : String} {d d' d'' : δ} {text : Bytes}
    {ms : List (String × Bytes)} (hf : shape.field? key = some f) (hd : f.isSet d = false)
    (h : Reads (f.read room d) text d' p) (hms : Gathers (shape.readMember room) d' ms d'' q) :
    Gathers (shape.readMember room) d ((key, text) :: ms) d'' (p ∧ q) := by
  refine .cons (reads_colon fun {rest} hr => ?_) hms
  have hread : shape.readMember room d key (0x3A :: (text ++ rest)) =
      f.read room d (text ++ rest) := by
    rw [readMember, hf]
    dsimp only
    rw [hd, if_neg Bool.false_ne_true]
    rfl
  rw [hread]
  exact h.gives hr

theorem reads {ms : List (String × Bytes)} {draft : δ} {a : α}
    (h : Gathers (shape.readMember room) shape.blank ms draft p)
    (ha : shape.finish draft = .ok a) : Reads (shape.read (room + 1)) (Write.object ms) a p := by
  refine reads_enclosed rfl (by decide) fun rest => ?_
  have hmembers := h.enclosed (length_lt_members ms rest) rest
  have hconclude : shape.conclude (draft, 0x7D :: rest) = .ok (a, 0x7D :: rest) := by
    rw [conclude, ha]
  exact (hmembers.followed hconclude).closeObject

end RecordShape

end Json

/-! ## Fields -/

def IsWord (n : Nat) : Prop := n < 0x10000000000000000

variable {room : Nat}

theorem natBelow_ofNat {n bits : Nat} (h : IsWord n) (hbits : n < 2 ^ bits) (expected : String) :
    Scalar.natBelow bits expected (.number (.integer (.ofNat n h))) = .ok n := by
  have hle : (0 : Int) ≤ n ∧ (n : Int) ≤ ((1 <<< bits : Nat) : Int) - 1 := by
    rw [Nat.one_shiftLeft]
    omega
  show (if (0 : Int) ≤ n ∧ (n : Int) ≤ ((1 <<< bits : Nat) : Int) - 1 then _ else _ :
    Except Reason Int).map Int.toNat = _
  rw [if_pos hle]
  rfl

theorem asId_ofNat {i : ComponentId} (h : IsWord i.value) :
    Decode.asId (.number (.integer (.ofNat i.value h))) = .ok i := by
  rw [Decode.asId, natBelow_ofNat h h]
  rfl

theorem isWord_sequence (s : SequenceNumber) : IsWord s.value.toNat := by
  have hlt := s.value.toNat_lt
  rw [IsWord]
  omega

theorem asSequence_ofNat (s : SequenceNumber) :
    Decode.asSequence (.number (.integer (.ofNat s.value.toNat (isWord_sequence s)))) = .ok s := by
  rw [Decode.asSequence, natBelow_ofNat _ s.value.toNat_lt]
  show Except.ok (⟨UInt16.ofNat s.value.toNat⟩ : SequenceNumber) = _
  rw [UInt16.ofNat_toNat]

theorem reads_id {i : ComponentId} (h : IsWord i.value) :
    Reads (Decode.id room) (Encode.id i) i True := (reads_nat h).view (asId_ofNat h)

theorem reads_sequence (s : SequenceNumber) :
    Reads (Decode.sequence room) (Encode.sequence s) s True :=
  (reads_nat (isWord_sequence s)).view (asSequence_ofNat s)

theorem reads_lastSequence (s : Option SequenceNumber) :
    Reads (Decode.lastSequence room) (Write.optional Encode.sequence s) s True := by
  cases s with
  | none => exact reads_null.view rfl
  | some s =>
    refine (reads_nat (isWord_sequence s)).view ?_
    show (Decode.asSequence _).map some = _
    rw [asSequence_ofNat]
    rfl

theorem reads_version {n : Nat} (h : IsWord n) :
    Reads (Decode.version room) (Write.nat n) n True := (reads_nat h).view (natBelow_ofNat h h _)

theorem reads_text (s : String) : Reads (Decode.text room) (Write.string s) s True :=
  (reads_string s).view rfl

theorem reads_flag (b : Bool) : Reads (Decode.flag room) (Write.bool b) b True :=
  (reads_bool b).view rfl

theorem reads_args {vs : List Value} (h : ∀ v ∈ vs, v.Plain) :
    Reads (Decode.args (room + 1)) (Encode.args vs) vs (∀ v ∈ vs, v.depth ≤ room) := by
  rw [Encode.args, Value.itemBytes_eq]
  exact reads_list fun v hv => reads_value (h v hv) room

/-! ## Changes of the tree -/

def TreeChange.ids : TreeChange → List ComponentId
  | .attached i parent _ => i :: parent.toList
  | .detached i => [i]

def ComponentId.toValue (i : ComponentId) : Value := Value.ofNat i.value

def parentValue : Option ComponentId → Value
  | none => .null
  | some i => i.toValue

theorem ofNat_eq {n : Nat} (h : IsWord n) : Value.ofNat n = .integer (.ofNat n h) := by
  have hlt : n < 0x10000000000000000 := h
  have hint : Integer.ofInt? n = some (.ofNat n h) := dif_pos ⟨by omega, by omega⟩
  rw [Value.ofNat, Value.ofInt, hint]
  rfl

theorem bytes_toValue {i : ComponentId} (h : IsWord i.value) : i.toValue.bytes = Encode.id i := by
  rw [ComponentId.toValue, ofNat_eq h, Value.bytes]
  exact int_ofNat h

theorem bytes_parentValue {parent : Option ComponentId} (h : ∀ i ∈ parent, IsWord i.value) :
    (parentValue parent).bytes = Write.optional Encode.id parent := by
  cases parent with
  | none => rfl
  | some i => exact bytes_toValue (h i rfl)

namespace Decode

/-- a member of a change that is read as a plain value -/
structure IsField (m : String × Value) : Prop where
  key : m.1 ≠ "type"
  plain : m.2.Plain
  flat : m.2.depth = 0

theorem isField_toValue {key : String} (hkey : key ≠ "type") {i : ComponentId}
    (h : IsWord i.value) : IsField (key, i.toValue) := by
  rw [ComponentId.toValue, ofNat_eq h]
  exact ⟨hkey, .integer _, rfl⟩

theorem isField_parent {parent : Option ComponentId} (h : ∀ i ∈ parent, IsWord i.value) :
    IsField ("parent", parentValue parent) := by
  cases parent with
  | none => exact ⟨by decide, .null, rfl⟩
  | some i => exact isField_toValue (by decide) (h i rfl)

theorem gathers_others {ms : List (String × Value)} (h : ∀ m ∈ ms, IsField m)
    (c : ChangeMembers) :
    Gathers (readChangeMember room) c (Value.memberBytes ms)
      { c with others := ms.reverse ++ c.others } True := by
  induction ms generalizing c with
  | nil => exact .nil c
  | cons m ms ih =>
    obtain ⟨hm, hms⟩ := List.forall_mem_cons.1 h
    have hfits : m.2.depth ≤ room := hm.flat.le.trans (Nat.zero_le room)
    have hv := (reads_value hm.plain room).cast (iff_true_intro hfits)
    have hread : Reads (readChangeMember room c m.1) (0x3A :: m.2.bytes)
        { c with others := m :: c.others } True := by
      refine reads_colon fun hr => ?_
      rw [readChangeMember, if_neg hm.key]
      exact (hv.gives hr).map fun v => { c with others := (m.1, v) :: c.others }
    have hothers := ih hms { c with others := m :: c.others }
    rw [List.reverse_cons, List.append_assoc]
    exact (Gathers.cons hread hothers).cast (and_self_iff)

/-- a change whose tag stands in front -/
theorem reads_tagged {name : String} {tag : ChangeTag} {ms : List (String × Value)}
    {change : TreeChange} (hname : ChangeTag.ofScalar (.string name) = .ok tag)
    (h : ∀ m ∈ ms, IsField m) (hchange : (ChangeContent.members ms).change tag = .ok change) :
    Reads (treeChange (room + 1))
      (Write.object (("type", Write.string name) :: Value.memberBytes ms)) change True := by
  have htag : Reads (readChangeMember room {} "type") (0x3A :: Write.string name)
      { tag := some tag } True := by
    refine reads_colon fun hr => ?_
    have hread := ((reads_string name).view hname).gives hr
    exact hread.map fun t => ({ tag := some t } : ChangeMembers)
  have hmembers := (Gathers.cons htag (gathers_others h { tag := some tag })).cast and_self_iff
  refine reads_enclosed rfl (by decide) fun rest => ?_
  have htagged : taggedMembers (⟨some tag, ms.reverse ++ []⟩, 0x7D :: rest) =
      .ok ((tag, .members ms), 0x7D :: rest) := by
    rw [List.append_nil, taggedMembers, List.reverse_reverse]
  have hread := (hmembers.enclosed (length_lt_members _ rest) rest).followed htagged
  refine hread.closeObject.followed ?_
  dsimp only
  rw [hchange]

theorem putMember_ok {tag : ChangeTag} {d d' : ChangeDraft} {key : String} {v : Value}
    (hkey : key ∈ tag.fields) (hd : d.has key = false) (hput : d.put key v = .ok d') :
    d.putMember tag (key, v) = .ok d' := by
  rw [ChangeDraft.putMember, if_pos (List.contains_iff_mem.2 hkey), hd,
    if_neg Bool.false_ne_true, hput]

theorem put_id {i : ComponentId} (h : IsWord i.value) (d : ChangeDraft) :
    d.put "id" i.toValue = .ok { d with id := some i } := by
  rw [ChangeDraft.put, if_pos rfl, ComponentId.toValue, ofNat_eq h, Value.scalar, asId_ofNat h]
  rfl

theorem put_parent {parent : Option ComponentId} (h : ∀ i ∈ parent, IsWord i.value)
    (d : ChangeDraft) : d.put "parent" (parentValue parent) = .ok { d with parent := some parent } := by
  cases parent with
  | none => rfl
  | some i =>
    have hi : IsWord i.value := h i rfl
    have hview : Scalar.orNull asId (.number (.integer (.ofNat i.value hi))) = .ok (some i) := by
      show (asId _).map some = _
      rw [asId_ofNat hi]
      rfl
    rw [ChangeDraft.put, if_neg (by decide), if_pos rfl, parentValue, ComponentId.toValue,
      ofNat_eq hi, Value.scalar, hview]
    rfl

theorem change_detached {i : ComponentId} (h : IsWord i.value) :
    (ChangeContent.members [("id", i.toValue)]).change .detached = .ok (.detached i) := by
  have hid : ChangeDraft.putMember .detached {} ("id", i.toValue) = .ok { id := some i } :=
    putMember_ok (by decide) rfl (put_id h {})
  rw [ChangeContent.change, List.foldlM_cons, hid]
  rfl

theorem change_attached {i : ComponentId} {parent : Option ComponentId} (hi : IsWord i.value)
    (hparent : ∀ p ∈ parent, IsWord p.value) (kind : String) :
    (ChangeContent.members [("id", i.toValue), ("parent", parentValue parent),
      ("kind", .string kind)]).change .attached = .ok (.attached i parent kind) := by
  have hid : ChangeDraft.putMember .attached {} ("id", i.toValue) = .ok { id := some i } :=
    putMember_ok (by decide) rfl (put_id hi {})
  have hput : ChangeDraft.putMember .attached { id := some i } ("parent", parentValue parent) =
      .ok { id := some i, parent := some parent } :=
    putMember_ok (by decide) rfl (put_parent hparent { id := some i })
  rw [ChangeContent.change, List.foldlM_cons, hid]
  show (do
    ChangeDraft.finish .attached (← List.foldlM (ChangeDraft.putMember .attached) { id := some i }
      [("parent", parentValue parent), ("kind", .string kind)]) : Except Reason TreeChange) = _
  rw [List.foldlM_cons, hput]
  rfl

end Decode

theorem reads_treeChange {c : TreeChange} (h : ∀ i ∈ c.ids, IsWord i.value) :
    Reads (Decode.treeChange (room + 1)) (Encode.treeChange c) c True := by
  cases c with
  | detached i =>
    have hi : IsWord i.value := h i List.mem_cons_self
    have hwrite : Encode.treeChange (.detached i) = Write.object (("type", Write.string "detached") ::
        Value.memberBytes [("id", i.toValue)]) := by
      rw [Value.memberBytes_eq, List.map_singleton, bytes_toValue hi]
      rfl
    rw [hwrite]
    refine Decode.reads_tagged rfl ?_ (Decode.change_detached hi)
    rw [List.forall_mem_singleton]
    exact Decode.isField_toValue (by decide) hi
  | attached i parent kind =>
    have hi : IsWord i.value := h i List.mem_cons_self
    have hparent : ∀ p ∈ parent, IsWord p.value := fun p hp =>
      h p (List.mem_cons_of_mem i (Option.mem_toList.2 hp))
    have hwrite : Encode.treeChange (.attached i parent kind) =
        Write.object (("type", Write.string "attached") :: Value.memberBytes [("id", i.toValue),
          ("parent", parentValue parent), ("kind", .string kind)]) := by
      rw [Value.memberBytes_eq, List.map_cons, List.map_cons, List.map_singleton,
        bytes_toValue hi, bytes_parentValue hparent]
      rfl
    rw [hwrite]
    refine Decode.reads_tagged rfl ?_ (Decode.change_attached hi hparent kind)
    rw [List.forall_mem_cons, List.forall_mem_cons, List.forall_mem_singleton]
    exact ⟨Decode.isField_toValue (by decide) hi, Decode.isField_parent hparent,
      (by decide : "kind" ≠ "type"), .string kind, rfl⟩

/-! ## The parts of messages -/

open RecordShape (gathers_field)
open FieldReader (reads_required)

theorem reads_fieldChange {c : FieldChange} (hid : IsWord c.component.value)
    (hversion : IsWord c.version) (hplain : ∀ m ∈ c.diff.entries, m.2.Plain) :
    Reads (Decode.fieldChangeShape.read (room + 2)) (Encode.fieldChange c) c
      (∀ m ∈ c.diff.entries, m.2.depth ≤ room) := by
  refine Reads.cast (RecordShape.reads
    (gathers_field rfl rfl (reads_required (reads_id hid) ..)
    (gathers_field rfl rfl (reads_required (reads_version hversion) ..)
    (gathers_field rfl rfl (reads_required (reads_map hplain) ..) (.nil _)))) rfl) ?_
  rw [true_and, true_and, and_true]

theorem reads_clientCall {c : ClientCall} (hid : IsWord c.component.value)
    (hplain : ∀ v ∈ c.args, v.Plain) :
    Reads (Decode.callShape.read (room + 2)) (Encode.clientCall c) c
      (∀ v ∈ c.args, v.depth ≤ room) := by
  refine Reads.cast (RecordShape.reads
    (gathers_field rfl rfl (reads_required (reads_id hid) ..)
    (gathers_field rfl rfl (reads_required (reads_text c.interface) ..)
    (gathers_field rfl rfl (reads_required (reads_text c.method) ..)
    (gathers_field rfl rfl (reads_required (reads_args hplain) ..) (.nil _))))) rfl) ?_
  rw [true_and, true_and, true_and, and_true]

theorem reads_invocation {c : Invocation} (hid : IsWord c.component.value)
    (hplain : ∀ v ∈ c.args, v.Plain) :
    Reads (Decode.invocationShape.read (room + 2)) (Encode.invocation c) c
      (∀ v ∈ c.args, v.depth ≤ room) := by
  refine Reads.cast (RecordShape.reads
    (gathers_field rfl rfl (reads_required (reads_id hid) ..)
    (gathers_field rfl rfl (reads_required (reads_text c.interface) ..)
    (gathers_field rfl rfl (reads_required (reads_text c.method) ..)
    (gathers_field rfl rfl (reads_required (reads_args hplain) ..)
    (gathers_field rfl rfl (reads_required (reads_sequence c.sequence) ..) (.nil _)))))) rfl) ?_
  rw [true_and, true_and, true_and, and_true, and_true]

/-! ## Whole messages -/

def ServerMessage.values (m : ServerMessage) : List Value :=
  (m.changes.flatMap fun c => c.diff.entries.map Prod.snd) ++ m.calls.flatMap ClientCall.args

def ClientMessage.values (m : ClientMessage) : List Value := m.invocations.flatMap Invocation.args

/-- identities and versions are words of 64 bits, and no value has a double in it -/
structure ServerMessage.Plain (m : ServerMessage) : Prop where
  hierarchy : ∀ c ∈ m.hierarchy, ∀ i ∈ c.ids, IsWord i.value
  changes : ∀ c ∈ m.changes, IsWord c.component.value ∧ IsWord c.version
  calls : ∀ c ∈ m.calls, IsWord c.component.value
  values : ∀ v ∈ m.values, v.Plain

/-- identities are words of 64 bits, and no value has a double in it -/
structure ClientMessage.Plain (m : ClientMessage) : Prop where
  invocations : ∀ c ∈ m.invocations, IsWord c.component.value
  values : ∀ v ∈ m.values, v.Plain

theorem ServerMessage.forall_mem_values {m : ServerMessage} {P : Value → Prop} :
    (∀ v ∈ m.values, P v) ↔ (∀ c ∈ m.changes, ∀ e ∈ c.diff.entries, P e.2) ∧
      ∀ c ∈ m.calls, ∀ v ∈ c.args, P v := by
  rw [values, List.forall_mem_append, List.forall_mem_flatMap, List.forall_mem_flatMap]
  simp only [List.forall_mem_map]

theorem ClientMessage.forall_mem_values {m : ClientMessage} {P : Value → Prop} :
    (∀ v ∈ m.values, P v) ↔ ∀ c ∈ m.invocations, ∀ v ∈ c.args, P v := by
  rw [values, List.forall_mem_flatMap]

/-- a server message is read back when there is room for four more than is nested in its values -/
theorem reads_server {m : ServerMessage} (h : m.Plain) :
    Reads (Decode.serverShape.read (room + 4)) m.bytes m (∀ v ∈ m.values, v.depth ≤ room) := by
  obtain ⟨hdiffs, hargs⟩ := ServerMessage.forall_mem_values.1 h.values
  have hhierarchy : Reads (readList (room + 3) Decode.treeChange)
      (Write.array (m.hierarchy.map Encode.treeChange)) m.hierarchy (∀ c ∈ m.hierarchy, True) :=
    reads_list fun c hc => reads_treeChange (h.hierarchy c hc)
  have hchanges : Reads (readList (room + 3) Decode.fieldChangeShape.read)
      (Write.array (m.changes.map Encode.fieldChange)) m.changes
      (∀ c ∈ m.changes, ∀ e ∈ c.diff.entries, e.2.depth ≤ room) :=
    reads_list fun c hc => reads_fieldChange (h.changes c hc).1 (h.changes c hc).2 (hdiffs c hc)
  have hcalls : Reads (readList (room + 3) Decode.callShape.read)
      (Write.array (m.calls.map Encode.clientCall)) m.calls
      (∀ c ∈ m.calls, ∀ v ∈ c.args, v.depth ≤ room) :=
    reads_list fun c hc => reads_clientCall (h.calls c hc) (hargs c hc)
  have hflag : Reads ((FieldReader.required "resynchronize" (·.resynchronize.isSome) Decode.flag
      fun (d : Decode.ServerDraft) a => { d with resynchronize := some a }).read (room + 3)
        { sequence := some m.sequence }) (Write.bool m.resynchronize)
      { sequence := some m.sequence, resynchronize := some m.resynchronize } True :=
    reads_required (reads_flag m.resynchronize) ..
  refine Reads.cast (RecordShape.reads
    (gathers_field rfl rfl (reads_required (reads_sequence m.sequence) ..)
    (gathers_field rfl rfl hflag
    (gathers_field rfl rfl (reads_required hhierarchy ..)
    (gathers_field rfl rfl (reads_required hchanges ..)
    (gathers_field rfl rfl (reads_required hcalls ..) (.nil _)))))) rfl) ?_
  rw [ServerMessage.forall_mem_values]
  simp

theorem reads_client {m : ClientMessage} (h : m.Plain) :
    Reads (Decode.clientShape.read (room + 4)) m.bytes m (∀ v ∈ m.values, v.depth ≤ room) := by
  have hargs := ClientMessage.forall_mem_values.1 h.values
  have hinvocations : Reads (readList (room + 3) Decode.invocationShape.read)
      (Write.array (m.invocations.map Encode.invocation)) m.invocations
      (∀ c ∈ m.invocations, ∀ v ∈ c.args, v.depth ≤ room) :=
    reads_list fun c hc => reads_invocation (h.invocations c hc) (hargs c hc)
  refine Reads.cast (RecordShape.reads
    (gathers_field rfl rfl (reads_required (reads_lastSequence m.lastResponse) ..)
    (gathers_field rfl rfl (reads_required hinvocations ..) (.nil _))) rfl) ?_
  rw [ClientMessage.forall_mem_values, true_and, and_true]

/-- a payload that is read at the greatest depth is a message or nested too deeply -/
theorem payload_of_reads {δ α : Type} {shape : RecordShape δ α} {bytes : Bytes} {a : α} {p : Prop}
    (kind : MessageKind) (h : Reads (shape.read Decode.greatestDepth) bytes a p) :
    (p → Decode.payload kind shape bytes = .ok a) ∧
      (¬p → ∃ e, Decode.payload kind shape bytes = .error e ∧ e.kind = kind ∧
        e.reason = .recursionLimit) := by
  -- nothing follows a payload, which ends what is read of it
  have hgives := h.gives .nil
  rw [List.append_nil] at hgives
  have hwhole : Gives (readWhole (shape.read Decode.greatestDepth) bytes) a p :=
    hgives.followed rfl
  constructor
  · intro hp
    rw [Decode.payload, hwhole.ok hp]
  · intro hp
    obtain ⟨f, hf, hreason, -⟩ := hwhole.stops hp
    rw [Decode.payload, hf]
    exact ⟨_, rfl, rfl, hreason⟩

/-- decoding undoes encoding for every message whose values are nested in at most 123 arrays and
objects, and refuses the text of every other one as nested too deeply -/
theorem decode_encode :
    (∀ m : ServerMessage, m.Plain → ∃ payload, m.encode none = .ok payload ∧
      ((∀ v ∈ m.values, v.depth ≤ 123) → ServerMessage.decode payload = .ok m) ∧
      ((∃ v ∈ m.values, 123 < v.depth) → ∃ e, ServerMessage.decode payload = .error e ∧
        e.kind = .server ∧ e.reason.message = "recursion limit exceeded")) ∧
    ∀ m : ClientMessage, m.Plain →
      ((∀ v ∈ m.values, v.depth ≤ 123) → ClientMessage.decode m.bytes = .ok m) ∧
      ((∃ v ∈ m.values, 123 < v.depth) → ∃ e, ClientMessage.decode m.bytes = .error e ∧
        e.kind = .client ∧ e.reason.message = "recursion limit exceeded") := by
  have hdeep {vs : List Value} (h : ∃ v ∈ vs, 123 < v.depth) : ¬∀ v ∈ vs, v.depth ≤ 123 := by
    obtain ⟨v, hv, hlt⟩ := h
    exact fun hall => absurd (hall v hv) (Nat.not_le.2 hlt)
  constructor
  · intro m hm
    have hread : Reads (Decode.serverShape.read Decode.greatestDepth) m.bytes m
        (∀ v ∈ m.values, v.depth ≤ 123) := reads_server hm
    obtain ⟨hok, hlimit⟩ := payload_of_reads .server hread
    refine ⟨m.bytes, rfl, hok, fun h => ?_⟩
    obtain ⟨e, he, hkind, hreason⟩ := hlimit (hdeep h)
    exact ⟨e, he, hkind, congrArg Reason.message hreason⟩
  · intro m hm
    have hread : Reads (Decode.clientShape.read Decode.greatestDepth) m.bytes m
        (∀ v ∈ m.values, v.depth ≤ 123) := reads_client hm
    obtain ⟨hok, hlimit⟩ := payload_of_reads .client hread
    refine ⟨hok, fun h => ?_⟩
    obtain ⟨e, he, hkind, hreason⟩ := hlimit (hdeep h)
    exact ⟨e, he, hkind, congrArg Reason.message hreason⟩

/-! ### Nested arrays -/

def nested : Nat → Value
  | 0 => .null
  | n + 1 => .array [nested n]

theorem depth_nested (n : Nat) : (nested n).depth = n := by
  induction n with
  | zero => rfl
  | succ n ih => rw [nested, Value.depth, Value.itemDepth, Value.itemDepth, ih, Nat.max_zero]

theorem plain_nested (n : Nat) : (nested n).Plain := by
  induction n with
  | zero => exact .null
  | succ n ih => exact .array (List.forall_mem_singleton.2 ih)

/-- a response that shows a note and calls its page with the least integer -/
def showing (v : Value) : ServerMessage where
  sequence := .ofNat 65535
  resynchronize := true
  hierarchy := [.attached ⟨2⟩ (some ⟨1⟩) "Note", .detached ⟨3⟩]
  changes := [⟨⟨2⟩, 0xFFFFFFFFFFFFFFFF, (∅ : Diff).insert "\n\x01\"é\"" v⟩]
  calls := [⟨⟨1⟩, "View", "open", [.integer ⟨-0x8000000000000000, by decide, by decide⟩]⟩]

def pressing (v : Value) : ClientMessage where
  lastResponse := none
  invocations := [⟨⟨0xFFFFFFFFFFFFFFFF⟩, "View", "press", [v, .object [("a", .bool true),
    ("b", .string "\\")]], .ofNat 0⟩]

theorem plain_showing {v : Value} (h : v.Plain) : (showing v).Plain where
  hierarchy := by simp [showing, TreeChange.ids, IsWord]
  changes := by simp [showing, IsWord]
  calls := by simp [showing, IsWord]
  values := by
    rw [ServerMessage.forall_mem_values]
    exact ⟨List.forall_mem_singleton.2 (List.forall_mem_singleton.2 h),
      List.forall_mem_singleton.2 (List.forall_mem_singleton.2 (.integer _))⟩

theorem plain_pressing {v : Value} (h : v.Plain) : (pressing v).Plain where
  invocations := by simp [pressing, IsWord]
  values := by
    have hsorted : Entries.Sorted [("a", Value.bool true), ("b", Value.string "\\")] :=
      List.pairwise_pair.2 (by decide)
    have hobject : Value.Plain (.object [("a", .bool true), ("b", .string "\\")]) := by
      refine .object hsorted ?_
      rw [List.forall_mem_cons, List.forall_mem_singleton]
      exact ⟨.bool true, .string _⟩
    rw [ClientMessage.forall_mem_values]
    refine List.forall_mem_singleton.2 ?_
    show ∀ w ∈ [v, _], w.Plain
    rw [List.forall_mem_cons, List.forall_mem_singleton]
    exact ⟨h, hobject⟩

theorem decode_encode_nested :
    (∃ payload, (showing (nested 123)).encode none = .ok payload ∧
      ServerMessage.decode payload = .ok (showing (nested 123))) ∧
    ∃ e, ClientMessage.decode (pressing (nested 124)).bytes = .error e ∧
      e.kind = .client ∧ e.reason.message = "recursion limit exceeded" := by
  obtain ⟨hserver, hclient⟩ := decode_encode
  constructor
  · obtain ⟨payload, hpayload, hok, -⟩ := hserver _ (plain_showing (plain_nested 123))
    refine ⟨payload, hpayload, hok (ServerMessage.forall_mem_values.2 ?_)⟩
    refine ⟨List.forall_mem_singleton.2 (List.forall_mem_singleton.2 ?_),
      List.forall_mem_singleton.2 (List.forall_mem_singleton.2 (Nat.zero_le _))⟩
    exact (depth_nested 123).le
  · obtain ⟨-, hlimit⟩ := hclient _ (plain_pressing (plain_nested 124))
    refine hlimit ⟨nested 124, List.mem_cons_self, ?_⟩
    rw [depth_nested]
    decide

end UiSync
