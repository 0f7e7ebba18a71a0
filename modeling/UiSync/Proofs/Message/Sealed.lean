import UiSync.Proofs.Json.Extent
import UiSync.Proofs.Json.RoundTrip
import UiSync.Message.Decode

/-!
# Payloads that were cut or padded

Every text that is read as a message is a complete array or object with blanks around it
(`Decode.run_of_payload`), and the text of a message is one that ends with its bracket
(`Boxed`).  So there is no message in anything shorter, and none when something else than blanks
is appended (`sealed_payloads`).
-/

namespace UiSync

open Json

/-! ## Written texts -/

namespace Json

def Level (c : Bytes) : Prop := ∀ d, Nesting.run (.inside d) c = some (.inside d)

namespace Level

variable {b opening closing : UInt8} {c e : Bytes}

theorem nil : Level [] := fun _ => rfl

theorem append (hc : Level c) (he : Level e) : Level (c ++ e) := by
  intro d
  rw [Nesting.run_append_of (hc d), he d]

theorem cons (hb : isPlain b = true) (hc : Level c) : Level (b :: c) := by
  intro d
  rw [Nesting.run_cons, step_plain hb d]
  exact hc d

theorem of_forall (h : ∀ b ∈ c, isPlain b = true) : Level c := by
  induction c with
  | nil => exact nil
  | cons b c ih => exact cons (h b (by simp)) (ih fun x hx => h x (List.mem_cons_of_mem b hx))

theorem flatMap {α : Type} {xs : List α} {f : α → Bytes} (h : ∀ x ∈ xs, Level (f x)) :
    Level (xs.flatMap f) := by
  induction xs with
  | nil => exact nil
  | cons x xs ih =>
    rw [List.flatMap_cons]
    exact (h x (by simp)).append (ih fun y hy => h y (List.mem_cons_of_mem x hy))

theorem intercalate {parts : List Bytes} (h : ∀ part ∈ parts, Level part) :
    Level ([0x2C].intercalate parts) := by
  cases parts with
  | nil => exact nil
  | cons part parts =>
    rw [intercalate_cons]
    refine (h part (by simp)).append (flatMap fun x hx => cons rfl ?_)
    exact h x (List.mem_cons_of_mem part hx)

theorem null : Level Write.null := fun _ => rfl

theorem bool (b : Bool) : Level (Write.bool b) := by
  cases b <;> exact fun _ => rfl

theorem nat (n : Nat) : Level (Write.nat n) :=
  of_forall fun b hb => isPlain_of_isDigitByte b (isDigitByte_nat hb)

theorem int (n : Int) : Level (Write.int n) := by
  unfold Write.int
  split
  · exact cons rfl (nat _)
  · exact nat _

end Level

/-! ### Strings -/

theorem isHex_control {b : UInt8} (h : b < 0x20) :
    IsHex (Write.hexDigit (b / 16)) ∧ IsHex (Write.hexDigit (b % 16)) := by
  have hb : b.toNat < 32 := UInt8.lt_iff_toNat_lt.1 h
  obtain ⟨hnum, -⟩ := hexNumber?_control ⟨b.toNat, hb⟩
  rw [UInt8.ofNat_toNat] at hnum
  have hhex := isHex_of_hexNumber? (Option.isSome_iff_exists.2 ⟨_, hnum⟩)
  exact ⟨hhex _ (by simp), hhex _ (by simp)⟩

/-- no escape ends the string it stands in -/
theorem run_escaped (b : UInt8) (d : Nat) :
    Nesting.run (.quoted d) (Write.escaped b) = some (.quoted d) := by
  unfold Write.escaped
  split_ifs with h22 h5C h08 h09 h0A h0C h0D hcontrol
  · rfl
  · rfl
  · rfl
  · rfl
  · rfl
  · rfl
  · rfl
  · obtain ⟨hhigh, hlow⟩ := isHex_control hcontrol
    show Nesting.run (.quoted d) [Write.hexDigit (b / 16), Write.hexDigit (b % 16)] = _
    rw [Nesting.run_cons, hhigh.step_quoted, Option.bind_some, Nesting.run_cons, hlow.step_quoted]
    rfl
  · rw [Nesting.run_cons, Nesting.step, if_neg h22, if_neg h5C]
    rfl

theorem Level.string (s : String) : Level (Write.string s) := by
  have hbody (bs : Bytes) (d : Nat) :
      Nesting.run (.quoted d) (bs.flatMap Write.escaped) = some (.quoted d) := by
    induction bs with
    | nil => rfl
    | cons b bs ih => rw [List.flatMap_cons, Nesting.run_append_of (run_escaped b d), ih]
  intro d
  show Nesting.run (.quoted d) ((Bytes.ofString s).flatMap Write.escaped ++ [0x22]) = _
  rw [Nesting.run_append_of (hbody _ d)]
  rfl

/-! ### Doubles -/

/-- whatever holds of digits, points, signs and the letter of the exponent holds of every character
of a rendered decimal -/
theorem forall_mem_render {p : Char → Prop} (hdigit : ∀ c, c.isDigit = true → p c)
    (hpoint : p '.') (hletter : p 'e') (hplus : p '+') (hminus : p '-') (l : Decimal.Layout)
    (x : Decimal) : ∀ c ∈ x.render l, p c := by
  have hdigits (n : Nat) : ∀ c ∈ Nat.toDigits 10 n, p c := fun c hc =>
    hdigit c (Nat.isDigit_of_mem_toDigits (by decide) (by decide) hc)
  have hzeros (n : Nat) : ∀ c ∈ List.replicate n '0', p c := fun c hc =>
    (List.eq_of_mem_replicate hc) ▸ hdigit '0' rfl
  have hds : ∀ c ∈ x.digits, p c := hdigits x.significand
  have hpadded (n : Nat) : ∀ c ∈ x.digits ++ List.replicate n '0', p c :=
    List.forall_mem_append.2 ⟨hds, hzeros n⟩
  unfold Decimal.render
  dsimp only
  split
  · split
    · refine List.forall_mem_append.2 ⟨List.forall_mem_append.2 ⟨?_, hzeros _⟩, hds⟩
      exact List.forall_mem_cons.2 ⟨hdigit '0' rfl, List.forall_mem_singleton.2 hpoint⟩
    · refine List.forall_mem_append.2 ⟨List.forall_mem_append.2 ⟨fun c hc => ?_, ?_⟩, ?_⟩
      · exact hpadded _ c (List.mem_of_mem_take hc)
      · exact List.forall_mem_singleton.2 hpoint
      · split
        · exact List.forall_mem_singleton.2 (hdigit '0' rfl)
        · exact fun c hc => hpadded _ c (List.mem_of_mem_drop hc)
  · refine List.forall_mem_append.2 ⟨List.forall_mem_append.2 ⟨?_, ?_⟩, hdigits _⟩
    · split
      · exact nofun
      · next c hc => exact hc ▸ hds
      · next c more hc =>
        rw [hc, List.forall_mem_cons] at hds
        exact List.forall_mem_cons.2 ⟨hds.1, List.forall_mem_cons.2 ⟨hpoint, hds.2⟩⟩
    · refine List.forall_mem_cons.2 ⟨hletter, List.forall_mem_singleton.2 ?_⟩
      split
      · exact hminus
      · exact hplus

/-- a character a double is written with is one plain byte -/
def IsPlainChar (c : Char) : Prop := isPlain (UInt8.ofNat c.toNat) = true

theorem Level.double (x : Double) : Level (Bytes.ofAscii x.text.toList) := by
  have hdigit : ∀ c : Char, c.isDigit = true → IsPlainChar c := fun c hc =>
    isPlain_of_isDigitByte _ (isDigitByte_digit hc)
  have hrender := forall_mem_render hdigit rfl rfl rfl rfl Decimal.layout
  have htext : ∀ c ∈ x.text.toList, IsPlainChar c := by
    unfold Double.text
    generalize Decimal.shortest x.magnitude = decimal
    have hunsigned : ∀ c ∈ (if x.isZero then ['0', '.', '0'] else decimal.render Decimal.layout),
        IsPlainChar c := by
      split
      · simp only [List.forall_mem_cons]
        exact ⟨rfl, rfl, rfl, nofun⟩
      · exact hrender decimal
    dsimp only
    rw [String.toList_ofList]
    split
    · exact List.forall_mem_cons.2 ⟨rfl, hunsigned⟩
    · exact hunsigned
  refine of_forall fun b hb => ?_
  obtain ⟨c, hc, rfl⟩ := List.mem_map.1 hb
  exact htext c hc

/-! ### Brackets -/

/-- the text of an array or object: level inside one pair of brackets -/
structure Boxed (text : Bytes) : Prop where
  level : Level text
  /-- it is a text by itself -/
  complete : Nesting.run .before text = some .after
  /-- it ends with its bracket -/
  last : ∃ c b, text = c ++ [b] ∧ isBlankByte b = false

theorem boxed_enclosed {opening closing : UInt8} {parts : List Bytes}
    (ho : opens opening = true) (hc : closes closing = true) (h : ∀ part ∈ parts, Level part) :
    Boxed (Write.enclosed opening closing parts) := by
  have hinner := Level.intercalate h
  have hcloses (d : Nat) :
      Nesting.run (.inside d) ([0x2C].intercalate parts ++ [closing]) = some (.up d) := by
    rw [Nesting.run_append_of (hinner d), Nesting.run_cons, step_closes hc]
    rfl
  unfold Write.enclosed
  refine ⟨fun d => ?_, ?_, ⟨_, closing, (List.cons_append ..).symm, ?_⟩⟩
  · rw [Nesting.run_cons, step_opens ho]
    exact hcloses (d + 1)
  · rw [Nesting.run_cons, step_before_opens ho]
    exact hcloses 0
  · simp only [closes, Bool.or_eq_true, beq_iff_eq] at hc
    rcases hc with rfl | rfl <;> rfl

theorem boxed_array {items : List Bytes} (h : ∀ item ∈ items, Level item) :
    Boxed (Write.array items) := boxed_enclosed rfl rfl h

theorem boxed_object {members : List (String × Bytes)} (h : ∀ m ∈ members, Level m.2) :
    Boxed (Write.object members) := by
  refine boxed_enclosed rfl rfl fun part hpart => ?_
  obtain ⟨m, hm, rfl⟩ := List.mem_map.1 hpart
  exact (Level.string m.1).append (.cons rfl (h m hm))

/-! ### Values -/

mutual

theorem Level.value : ∀ v : Value, Level v.bytes
  | .null => .null
  | .bool b => .bool b
  | .integer n => .int n.val
  | .float x => .double x
  | .string s => .string s
  | .array items => (boxed_array (Level.items items)).level
  | .object members => (boxed_object (Level.members members)).level

theorem Level.items : ∀ vs : List Value, ∀ part ∈ Value.itemBytes vs, Level part
  | [] => nofun
  | v :: vs => List.forall_mem_cons.2 ⟨Level.value v, Level.items vs⟩

theorem Level.members : ∀ ms : List (String × Value), ∀ m ∈ Value.memberBytes ms, Level m.2
  | [] => nofun
  | (_, v) :: ms => List.forall_mem_cons.2 ⟨Level.value v, Level.members ms⟩

end

theorem Level.optional {α : Type} {write : α → Bytes} (h : ∀ a, Level (write a)) (a : Option α) :
    Level (Write.optional write a) := by
  cases a with
  | none => exact .null
  | some a => exact h a

end Json

/-! ## Written messages -/

theorem level_id (i : ComponentId) : Level (Encode.id i) := .nat i.value

theorem level_sequence (n : SequenceNumber) : Level (Encode.sequence n) := .nat n.value.toNat

theorem level_args (vs : List Value) : Level (Encode.args vs) :=
  (boxed_array (Level.items vs)).level

theorem boxed_treeChange (c : TreeChange) : Boxed (Encode.treeChange c) := by
  cases c with
  | attached i parent kind =>
    refine boxed_object ?_
    simp only [List.forall_mem_cons]
    exact ⟨.string _, level_id i, .optional level_id parent, .string kind, nofun⟩
  | detached i =>
    refine boxed_object ?_
    simp only [List.forall_mem_cons]
    exact ⟨.string _, level_id i, nofun⟩

theorem boxed_fieldChange (c : FieldChange) : Boxed (Encode.fieldChange c) := by
  refine boxed_object ?_
  simp only [List.forall_mem_cons]
  exact ⟨level_id c.component, .nat c.version, (boxed_object (Level.members _)).level, nofun⟩

theorem boxed_clientCall (c : ClientCall) : Boxed (Encode.clientCall c) := by
  refine boxed_object ?_
  simp only [List.forall_mem_cons]
  exact ⟨level_id c.component, .string c.interface, .string c.method, level_args c.args, nofun⟩

theorem boxed_invocation (c : Invocation) : Boxed (Encode.invocation c) := by
  refine boxed_object ?_
  simp only [List.forall_mem_cons]
  exact ⟨level_id c.component, .string c.interface, .string c.method, level_args c.args,
    level_sequence c.sequence, nofun⟩

theorem level_list {α : Type} {write : α → Bytes} (h : ∀ a, Boxed (write a)) (as : List α) :
    Level (Write.array (as.map write)) := by
  refine (boxed_array fun item hitem => ?_).level
  obtain ⟨a, -, rfl⟩ := List.mem_map.1 hitem
  exact (h a).level

theorem ServerMessage.boxed (m : ServerMessage) : Boxed m.bytes := by
  refine boxed_object ?_
  simp only [List.forall_mem_cons]
  exact ⟨level_sequence m.sequence, .bool m.resynchronize, level_list boxed_treeChange _,
    level_list boxed_fieldChange _, level_list boxed_clientCall _, nofun⟩

theorem ClientMessage.boxed (m : ClientMessage) : Boxed m.bytes := by
  refine boxed_object ?_
  simp only [List.forall_mem_cons]
  exact ⟨.optional level_sequence m.lastResponse, level_list boxed_invocation _, nofun⟩

/-! ## Read messages -/

namespace Decode

theorem measured_args (room : Nat) : Measured (args room) :=
  measured_readList measured_readValue room

theorem measured_invocationShape : ∀ f ∈ invocationShape.fields, f.Measured := by
  have hscalar {α : Type} (view : Scalar → Except Reason α) (_ : Nat) := measured_readAs view
  simp only [invocationShape, List.forall_mem_cons]
  exact ⟨.required (hscalar _), .required (hscalar _), .required (hscalar _),
    .required measured_args, .required (hscalar _), nofun⟩

theorem measured_clientShape : ∀ f ∈ clientShape.fields, f.Measured := by
  simp only [clientShape, List.forall_mem_cons]
  exact ⟨.required fun _ => measured_readAs _,
    .required (measured_readList (RecordShape.measured_read measured_invocationShape)), nofun⟩

theorem measured_fieldChangeShape : ∀ f ∈ fieldChangeShape.fields, f.Measured := by
  simp only [fieldChangeShape, List.forall_mem_cons]
  exact ⟨.required fun _ => measured_readAs _, .required fun _ => measured_readAs _,
    .required measured_readMap, nofun⟩

theorem measured_callShape : ∀ f ∈ callShape.fields, f.Measured := by
  simp only [callShape, List.forall_mem_cons]
  exact ⟨.required fun _ => measured_readAs _, .required fun _ => measured_readAs _,
    .required fun _ => measured_readAs _, .required measured_args, nofun⟩

theorem measured_readChangeMember (room : Nat) (c : ChangeMembers) (key : String) :
    Measured (readChangeMember room c key) := by
  intro s
  unfold readChangeMember
  split
  · split
    · exact .error
    · have htag := (measured_readAs ChangeTag.ofScalar).map fun tag => { c with tag := some tag }
      exact htag.afterColon s
  · have hother := (measured_readValue room).map fun v =>
      ({ c with others := (key, v) :: c.others } : ChangeMembers)
    exact hother.afterColon s

theorem measured_readTaggedItems (room : Nat) : Measured (readTaggedItems room) := by
  intro s
  refine (yields_nextElement true s).bind fun x hx => ?_
  dsimp only
  split
  · refine (measured_readAs _ x.2).bind fun y hy => ?_
    exact (yields_readElements (measured_readValue room) _ _ _ y.2).bind fun _ h =>
      .ok ((hx.trans hy).trans h)
  · exact .error

theorem yields_taggedMembers (read : ChangeMembers × Bytes) :
    Yields (taggedMembers read) fun x => x.2 = read.2 := by
  unfold taggedMembers
  split
  · exact .ok rfl
  · exact .error

theorem measured_readTagged (room : Nat) : Measured (readTagged room) := by
  intro s
  refine (yields_readScalar s).bind fun x hx => ?_
  obtain ⟨scalar, t⟩ := x
  dsimp only
  split
  · exact .error
  · exact .error
  · exact (yields_closeArray (measured_readTaggedItems _ t.tail)).mono fun _ h =>
      hx.level_of_closes (.inl rfl) h
  · next room =>
    have hmembers := (yields_readMembers (measured_readChangeMember room) t.length true {}
      t.tail).bind fun x hx => (yields_taggedMembers x).mono fun _ h => h ▸ hx
    exact (yields_closeObject hmembers).mono fun _ h => hx.level_of_closes (.inr rfl) h
  · exact .error

theorem measured_treeChange (room : Nat) : Measured (treeChange room) := by
  intro s
  refine (measured_readTagged room s).bind fun x hx => ?_
  dsimp only
  split
  · exact .ok hx
  · exact .error

theorem measured_serverShape : ∀ f ∈ serverShape.fields, f.Measured := by
  simp only [serverShape, List.forall_mem_cons]
  exact ⟨.required fun _ => measured_readAs _,
    .withDefault (.required fun _ => measured_readAs _),
    .required (measured_readList measured_treeChange),
    .required (measured_readList (RecordShape.measured_read measured_fieldChangeShape)),
    .required (measured_readList (RecordShape.measured_read measured_callShape)), nofun⟩

variable {δ α : Type} {shape : RecordShape δ α} {kind : MessageKind} {text : Bytes}

theorem run_of_payload (hshape : ∀ f ∈ shape.fields, f.Measured) {a : α}
    (h : payload kind shape text = .ok a) : Nesting.run .before text = some .after := by
  unfold payload at h
  split at h
  · next m hm => exact RecordShape.run_of_readWhole hshape hm
  · cases h

theorem kind_of_payload {e : Malformed} (h : payload kind shape text = .error e) :
    e.kind = kind := by
  unfold payload at h
  split at h
  · cases h
  · cases h
    rfl

end Decode

structure Unreadable (text : Bytes) : Prop where
  server : ∃ e, ServerMessage.decode text = .error e ∧ e.kind = .server
  client : ∃ e, ClientMessage.decode text = .error e ∧ e.kind = .client

theorem unreadable_of_run {text : Bytes} (h : Nesting.run .before text ≠ some .after) :
    Unreadable text := by
  constructor
  · cases hd : ServerMessage.decode text with
    | ok m => exact absurd (Decode.run_of_payload Decode.measured_serverShape hd) h
    | error e => exact ⟨e, rfl, Decode.kind_of_payload hd⟩
  · cases hd : ClientMessage.decode text with
    | ok m => exact absurd (Decode.run_of_payload Decode.measured_clientShape hd) h
    | error e => exact ⟨e, rfl, Decode.kind_of_payload hd⟩

/-! ## Cut or padded -/

/-- nothing can be taken off the end of the text, and nothing but blanks put there -/
structure Sealed (text : Bytes) : Prop where
  cut : ∀ p, p <+: text → p ≠ text → Unreadable p
  padded : ∀ x, (∃ b ∈ x, isBlankByte b = false) → Unreadable (text ++ x)

theorem Json.Boxed.sealed {text : Bytes} (h : Boxed text) : Sealed text := by
  constructor
  · rintro p ⟨t, rfl⟩ hne
    refine unreadable_of_run fun hp => ?_
    -- the bracket at the end would go through behind the last bracket
    have hrun := h.complete
    rw [Nesting.run_append_of hp] at hrun
    obtain ⟨c, b, hc, hb⟩ := h.last
    have ht : t ≠ [] := by
      rintro rfl
      exact hne (List.append_nil p).symm
    have hmem : b ∈ t := by
      have hlast := congrArg List.getLast? hc
      rw [List.getLast?_append_of_ne_nil _ ht, List.getLast?_concat] at hlast
      exact List.mem_of_getLast? hlast
    rw [Nesting.run_after hrun b hmem] at hb
    cases hb
  · rintro x ⟨b, hb, hblank⟩
    refine unreadable_of_run fun hrun => ?_
    rw [Nesting.run_append_of h.complete] at hrun
    rw [Nesting.run_after hrun b hb] at hblank
    cases hblank

/-- No message of either kind can be read from a payload that was cut, however short the rest is,
or to which anything but blanks was appended. -/
theorem sealed_payloads :
    (∀ (m : ServerMessage) (limit : Option Nat) (payload : Bytes),
      m.encode limit = .ok payload → Sealed payload) ∧
    ∀ m : ClientMessage, Sealed m.bytes := by
  refine ⟨fun m limit payload h => ?_, fun m => m.boxed.sealed⟩
  have hpayload : payload = m.bytes := by
    unfold ServerMessage.encode at h
    dsimp only at h
    split at h
    · exact (Except.ok.inj h).symm
    · split at h
      · exact (Except.ok.inj h).symm
      · cases h
  rw [hpayload]
  exact m.boxed.sealed

def dismissing : ServerMessage where
  sequence := .ofNat 7
  resynchronize := false
  hierarchy := [.detached ⟨3⟩]
  changes := []
  calls := [⟨⟨1⟩, "View", "say", [.string "\x7d]\"\n"]⟩]

theorem sealed_payloads_dismissing :
    ∃ payload, dismissing.encode none = .ok payload ∧
      (∀ n < payload.length, Unreadable (payload.take n)) ∧
      Unreadable (payload ++ [0x20, 0x7D]) := by
  have hencode : dismissing.encode none = .ok dismissing.bytes := rfl
  obtain ⟨cut, padded⟩ := sealed_payloads.1 dismissing none dismissing.bytes hencode
  refine ⟨_, hencode, fun n hn => cut _ (List.take_prefix ..) fun h => ?_,
    padded _ ⟨0x7D, by simp, rfl⟩⟩
  have hlength := congrArg List.length h
  rw [List.length_take] at hlength
  omega

end UiSync
