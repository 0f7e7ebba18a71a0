import UiSync.Proofs.Dict
import UiSync.Proofs.Json.Tokens

/-!
# Values are read back

A value without doubles is read back from its text exactly when its arrays and objects are nested
no deeper than there is room; otherwise reading stops at the limit (`reads_value`).

* `readElements_enclosed`   the elements of an array, each read back by its own reader;
* `Gathers`                 the members of an object, each of them taking one state to the next;
* `gathers_values`          the members of an object of values.
-/

namespace UiSync.Json

variable {α β : Type}

/-! ## Brackets -/

theorem Stops.closeArray {r : Reading α} (h : Stops r) : Stops (closeArray r) := by
  obtain ⟨f, rfl, hreason, hspot⟩ := h
  refine ⟨f, ?_, hreason, hspot⟩
  rw [Json.closeArray, Fault.placeInArray, hspot]

theorem Stops.closeObject {r : Reading α} (h : Stops r) : Stops (closeObject r) := by
  obtain ⟨f, rfl, hreason, hspot⟩ := h
  refine ⟨f, ?_, hreason, hspot⟩
  rw [Json.closeObject, Fault.placeInObject, hspot]

variable {p q : Prop} {rest : Bytes}

theorem Gives.closeArray {r : Reading α} {a : α} (h : Gives r (a, 0x5D :: rest) p) :
    Gives (closeArray r) (a, rest) p := by
  refine ⟨fun hp => ?_, fun hp => (h.stops hp).closeArray⟩
  rw [h.ok hp]
  rfl

theorem Gives.closeObject {r : Reading α} {a : α} (h : Gives r (a, 0x7D :: rest) p) :
    Gives (closeObject r) (a, rest) p := by
  refine ⟨fun hp => ?_, fun hp => (h.stops hp).closeObject⟩
  rw [h.ok hp]
  rfl

theorem Gives.map {r : Reading α} {a : α} (h : Gives r (a, rest) p) (f : α → β) :
    Gives (r.bind fun x => .ok (f x.1, x.2)) (f a, rest) p :=
  h.followed (g := fun x => .ok (f x.1, x.2)) rfl

theorem enclosed_append (opening closing : UInt8) (parts : List Bytes) (rest : Bytes) :
    Write.enclosed opening closing parts ++ rest =
      opening :: ([0x2C].intercalate parts ++ closing :: rest) := by
  rw [Write.enclosed, List.cons_append, List.append_assoc, List.singleton_append]

/-- what is read from a bracket on -/
theorem reads_enclosed {read : Bytes → Reading α} {opening closing : UInt8} {parts : List Bytes}
    {a : α} (hblank : isBlankByte opening = false) (hne : opening ≠ 0x5D)
    (h : ∀ rest, Gives (read (opening :: ([0x2C].intercalate parts ++ closing :: rest)))
      (a, rest) p) : Reads read (Write.enclosed opening closing parts) a p := by
  refine ⟨⟨_, _, rfl, hblank, hne⟩, fun {rest} _ => ?_⟩
  rw [enclosed_append]
  exact h rest

/-- what is read from a colon on -/
theorem reads_colon {read : Bytes → Reading α} {text : Bytes} {a : α}
    (h : ∀ {rest}, Ended rest → Gives (read (0x3A :: (text ++ rest))) (a, rest) p) :
    Reads read (0x3A :: text) a p := ⟨⟨_, _, rfl, rfl, by decide⟩, h⟩

theorem intercalate_cons (x : Bytes) (xs : List Bytes) :
    [(0x2C : UInt8)].intercalate (x :: xs) = x ++ xs.flatMap (0x2C :: ·) := by
  induction xs generalizing x with
  | nil =>
    rw [List.intercalate_singleton, List.flatMap_nil, List.append_nil]
  | cons y xs ih =>
    rw [List.intercalate_cons_cons, ih, List.flatMap_cons, List.append_assoc]
    rfl

theorem length_le_intercalate {xs : List Bytes} (h : ∀ x ∈ xs, x ≠ []) :
    xs.length ≤ ([(0x2C : UInt8)].intercalate xs).length := by
  have hrest (ys : List Bytes) : ys.length ≤ (ys.flatMap ((0x2C : UInt8) :: ·)).length := by
    induction ys with
    | nil => exact le_refl 0
    | cons y ys ih =>
      rw [List.flatMap_cons, List.length_append, List.length_cons, List.length_cons]
      omega
  cases xs with
  | nil => exact Nat.zero_le _
  | cons x xs =>
    have hx := List.length_pos_iff.2 (h x List.mem_cons_self)
    have hxs := hrest xs
    rw [intercalate_cons, List.length_append, List.length_cons]
    omega

/-- what follows an element or a member is another one or the closing bracket -/
theorem ended_flatMap {closing : UInt8} (hc : ∀ s, Ended (closing :: s)) (xs : List Bytes) :
    Ended (xs.flatMap (0x2C :: ·) ++ closing :: rest) := by
  cases xs with
  | nil => exact hc rest
  | cons x xs => exact .comma _

/-! ## Arrays -/

section Array

variable {item : Bytes → Reading α} {write : α → Bytes} {fits : α → Prop}

theorem nextElement_first {b : UInt8} (hb : isBlankByte b = false) (hne : b ≠ 0x5D) (s : Bytes) :
    nextElement true (b :: s) = .ok (true, b :: s) := by
  rw [nextElement, skipBlanks_cons hb]
  split
  · next h => cases h
  · next h =>
    cases h
    exact absurd rfl hne
  · next h =>
    cases h
    rfl

theorem nextElement_comma {b : UInt8} (hb : isBlankByte b = false) (hne : b ≠ 0x5D) (s : Bytes) :
    nextElement false (0x2C :: b :: s) = .ok (true, b :: s) := by
  rw [nextElement, skipBlanks_cons rfl]
  split
  · next h => cases h
  · next h => exact absurd (List.cons.inj h).1 (by decide)
  · next h =>
    cases h
    rw [if_neg Bool.false_ne_true, if_pos rfl, skipBlanks_cons hb]
    split
    · next h => cases h
    · next h =>
      cases h
      exact absurd rfl hne
    · rfl

/-- one element and then the others -/
theorem readElements_cons {first : Bool} {fuel : Nat} {read as : List α} {a : α} {s more : Bytes}
    (hs : nextElement first s = .ok (true, write a ++ more))
    (ha : Gives (item (write a ++ more)) (a, more) p)
    (has : Gives (readElements item fuel false (a :: read) more) (as, rest) q) :
    Gives (readElements item (fuel + 1) first read s) (as, rest) (p ∧ q) := by
  rw [readElements, hs]
  exact ha.bind has

theorem readElements_others {as : List α} (h : ∀ a ∈ as, Reads item (write a) a (fits a))
    {fuel : Nat} (hf : as.length < fuel) (read : List α) (rest : Bytes) :
    Gives (readElements item fuel false read
        ((as.map write).flatMap (0x2C :: ·) ++ 0x5D :: rest))
      (read.reverse ++ as, 0x5D :: rest) (∀ a ∈ as, fits a) := by
  -- `read` holds the elements so far, the last one first, and so it varies
  induction as generalizing fuel read with
  | nil =>
    obtain ⟨fuel, rfl⟩ := Nat.exists_eq_succ_of_ne_zero (Nat.ne_zero_of_lt hf)
    rw [List.append_nil]
    exact (Gives.result _).cast (by simp)
  | cons a as ih =>
    obtain ⟨fuel, rfl⟩ := Nat.exists_eq_succ_of_ne_zero (Nat.ne_zero_of_lt hf)
    have ha := h a List.mem_cons_self
    obtain ⟨b, s, hb, hblank, hne⟩ := ha.starts
    have hothers := ih (fun x hx => h x (List.mem_cons_of_mem a hx)) (Nat.lt_of_succ_lt_succ hf)
      (a :: read)
    rw [List.reverse_cons, List.append_assoc, List.singleton_append] at hothers
    have hnext : nextElement false (((a :: as).map write).flatMap (0x2C :: ·) ++ 0x5D :: rest) =
        .ok (true, write a ++ ((as.map write).flatMap (0x2C :: ·) ++ 0x5D :: rest)) := by
      rw [List.map_cons, List.flatMap_cons, List.append_assoc, List.cons_append, hb,
        List.cons_append]
      exact nextElement_comma hblank hne _
    refine (readElements_cons hnext (ha.gives (ended_flatMap .bracket _)) hothers).cast ?_
    rw [List.forall_mem_cons]

theorem readElements_enclosed {as : List α} (h : ∀ a ∈ as, Reads item (write a) a (fits a))
    {fuel : Nat} (hf : as.length < fuel) :
    Gives (readElements item fuel true []
        ([0x2C].intercalate (as.map write) ++ 0x5D :: rest))
      (as, 0x5D :: rest) (∀ a ∈ as, fits a) := by
  obtain ⟨fuel, rfl⟩ := Nat.exists_eq_succ_of_ne_zero (Nat.ne_zero_of_lt hf)
  cases as with
  | nil => exact (Gives.result _).cast (by simp)
  | cons a as =>
    have ha := h a List.mem_cons_self
    obtain ⟨b, s, hb, hblank, hne⟩ := ha.starts
    have hothers := readElements_others (fun x hx => h x (List.mem_cons_of_mem a hx))
      (Nat.lt_of_succ_lt_succ hf) [a] rest
    have hnext : nextElement true ([0x2C].intercalate ((a :: as).map write) ++ 0x5D :: rest) =
        .ok (true, write a ++ ((as.map write).flatMap (0x2C :: ·) ++ 0x5D :: rest)) := by
      rw [List.map_cons, intercalate_cons, List.append_assoc, hb, List.cons_append]
      exact nextElement_first hblank hne _
    refine (readElements_cons hnext (ha.gives (ended_flatMap .bracket _)) hothers).cast ?_
    rw [List.forall_mem_cons]

theorem readArray_enclosed {as : List α} (h : ∀ a ∈ as, Reads item (write a) a (fits a)) :
    Gives (readArray item ([0x2C].intercalate (as.map write) ++ 0x5D :: rest)) (as, rest)
      (∀ a ∈ as, fits a) := by
  refine (readElements_enclosed h ?_).closeArray
  have hne : ∀ x ∈ as.map write, x ≠ [] := by
    intro x hx
    obtain ⟨a, ha, rfl⟩ := List.mem_map.1 hx
    obtain ⟨b, s, hb, -⟩ := (h a ha).starts
    rw [hb]
    exact List.cons_ne_nil b s
  have hlen := length_le_intercalate hne
  rw [List.length_map] at hlen
  rw [List.length_append]
  omega

/-- a list is read back if there is room for it and its elements are -/
theorem reads_list {room : Nat} {item : Nat → Bytes → Reading α} {as : List α}
    (h : ∀ a ∈ as, Reads (item room) (write a) a (fits a)) :
    Reads (readList (room + 1) item) (Write.array (as.map write)) as (∀ a ∈ as, fits a) :=
  reads_enclosed rfl (by decide) fun _ => readArray_enclosed h

end Array

/-! ## Objects -/

section Object

variable {σ : Type} {member : σ → String → Bytes → Reading σ}

inductive Gathers (member : σ → String → Bytes → Reading σ) :
    σ → List (String × Bytes) → σ → Prop → Prop
  | nil (st : σ) : Gathers member st [] st True
  | cons {st st' st'' : σ} {key : String} {text : Bytes} {ms : List (String × Bytes)}
      {p q : Prop} : Reads (member st key) (0x3A :: text) st' p →
      Gathers member st' ms st'' q → Gathers member st ((key, text) :: ms) st'' (p ∧ q)

theorem Gathers.cast {st st' : σ} {ms : List (String × Bytes)} (h : Gathers member st ms st' p)
    (hpq : p ↔ q) : Gathers member st ms st' q := propext hpq ▸ h

theorem readMembers_cons {first : Bool} {fuel : Nat} {st st' st'' : σ} {key : String}
    {text s more : Bytes}
    (hs : nextMember first s =
      .ok (true, (Bytes.ofString key).flatMap Write.escaped ++ 0x22 :: (0x3A :: text ++ more)))
    (h : Gives (member st key (0x3A :: text ++ more)) (st', more) p)
    (hms : Gives (readMembers member fuel false st' more) (st'', rest) q) :
    Gives (readMembers member (fuel + 1) first st s) (st'', rest) (p ∧ q) := by
  rw [readMembers, hs]
  show Gives ((readString ((Bytes.ofString key).flatMap Write.escaped ++
    0x22 :: (0x3A :: text ++ more))).bind fun x => (member st x.1 x.2).bind fun y =>
      readMembers member fuel false y.1 y.2) _ _
  rw [readString_string]
  exact h.bind hms

theorem member_append (key : String) (text more : Bytes) :
    Write.member key text ++ more =
      0x22 :: ((Bytes.ofString key).flatMap Write.escaped ++ 0x22 :: (0x3A :: text ++ more)) := by
  simp [Write.member, Write.string]

theorem Gathers.others {st st' : σ} {ms : List (String × Bytes)}
    (h : Gathers member st ms st' p) {fuel : Nat} (hf : ms.length < fuel) (rest : Bytes) :
    Gives (readMembers member fuel false st
        ((ms.map fun m => Write.member m.1 m.2).flatMap (0x2C :: ·) ++ 0x7D :: rest))
      (st', 0x7D :: rest) p := by
  induction h generalizing fuel with
  | nil st =>
    obtain ⟨fuel, rfl⟩ := Nat.exists_eq_succ_of_ne_zero (Nat.ne_zero_of_lt hf)
    exact Gives.result _
  | @cons st st' st'' key text ms _ _ hm _ ih =>
    obtain ⟨fuel, rfl⟩ := Nat.exists_eq_succ_of_ne_zero (Nat.ne_zero_of_lt hf)
    have hothers := ih (Nat.lt_of_succ_lt_succ hf)
    refine readMembers_cons ?_ (hm.gives (ended_flatMap .brace _)) hothers
    rw [List.map_cons, List.flatMap_cons, List.append_assoc, List.cons_append, member_append]
    rfl

theorem Gathers.enclosed {st st' : σ} {ms : List (String × Bytes)}
    (h : Gathers member st ms st' p) {fuel : Nat} (hf : ms.length < fuel) (rest : Bytes) :
    Gives (readMembers member fuel true st
        ([0x2C].intercalate (ms.map fun m => Write.member m.1 m.2) ++ 0x7D :: rest))
      (st', 0x7D :: rest) p := by
  obtain ⟨fuel, rfl⟩ := Nat.exists_eq_succ_of_ne_zero (Nat.ne_zero_of_lt hf)
  cases h with
  | nil st => exact Gives.result _
  | @cons _ _ _ key text ms _ _ hm hms =>
    have hothers := hms.others (Nat.lt_of_succ_lt_succ hf) rest
    refine readMembers_cons ?_ (hm.gives (ended_flatMap .brace _)) hothers
    rw [List.map_cons, intercalate_cons, List.append_assoc, member_append]
    rfl

/-- there is enough fuel for the members, counting the bytes after the opening bracket -/
theorem length_lt_members (ms : List (String × Bytes)) (rest : Bytes) :
    ms.length < ([(0x2C : UInt8)].intercalate (ms.map fun m => Write.member m.1 m.2) ++
      0x7D :: rest).length + 1 := by
  have hne : ∀ x ∈ ms.map fun m => Write.member m.1 m.2, x ≠ [] := by
    intro x hx
    obtain ⟨m, -, rfl⟩ := List.mem_map.1 hx
    exact List.cons_ne_nil _ _
  have hlen := length_le_intercalate hne
  rw [List.length_map] at hlen
  rw [List.length_append]
  omega

theorem Gathers.readObject {st st' : σ} {ms : List (String × Bytes)}
    (h : Gathers member st ms st' p) :
    Gives (readObject member st
        ([0x2C].intercalate (ms.map fun m => Write.member m.1 m.2) ++ 0x7D :: rest))
      (st', rest) p :=
  (h.enclosed (length_lt_members ms rest) rest).closeObject

end Object

/-! ## Values -/

mutual

/-- how deeply arrays and objects are nested in a value, itself included -/
def Value.depth : Value → Nat
  | .array items => itemDepth items + 1
  | .object members => memberDepth members + 1
  | _ => 0

def Value.itemDepth : List Value → Nat
  | [] => 0
  | v :: vs => max v.depth (itemDepth vs)

def Value.memberDepth : List (String × Value) → Nat
  | [] => 0
  | (_, v) :: ms => max v.depth (memberDepth ms)

end

/-- a value without doubles, whose objects have their members in key order -/
inductive Value.Plain : Value → Prop
  | null : Plain .null
  | bool (b : Bool) : Plain (.bool b)
  | integer (n : Integer) : Plain (.integer n)
  | string (s : String) : Plain (.string s)
  | array {items : List Value} : (∀ v ∈ items, Plain v) → Plain (.array items)
  | object {members : List (String × Value)} : Entries.Sorted members →
      (∀ m ∈ members, Plain m.2) → Plain (.object members)

theorem Value.itemDepth_le {vs : List Value} {n : Nat} :
    Value.itemDepth vs ≤ n ↔ ∀ v ∈ vs, v.depth ≤ n := by
  induction vs with
  | nil => simp [Value.itemDepth]
  | cons v vs ih => rw [Value.itemDepth, max_le_iff, ih, List.forall_mem_cons]

theorem Value.memberDepth_le {ms : List (String × Value)} {n : Nat} :
    Value.memberDepth ms ≤ n ↔ ∀ m ∈ ms, m.2.depth ≤ n := by
  induction ms with
  | nil => simp [Value.memberDepth]
  | cons m ms ih => rw [Value.memberDepth, max_le_iff, ih, List.forall_mem_cons]

theorem Value.itemBytes_eq (vs : List Value) : Value.itemBytes vs = vs.map Value.bytes := by
  induction vs with
  | nil => rfl
  | cons v vs ih => rw [Value.itemBytes, ih, List.map_cons]

theorem Value.memberBytes_eq (ms : List (String × Value)) :
    Value.memberBytes ms = ms.map fun m => (m.1, m.2.bytes) := by
  induction ms with
  | nil => rfl
  | cons m ms ih => rw [Value.memberBytes, ih, List.map_cons]

/-- reading members of an object of values puts them into the state one after the other -/
theorem gathers_values {σ : Type} {room : Nat} {member : σ → String → Bytes → Reading σ}
    (put : σ → String → Value → σ)
    (hm : ∀ st key s, member st key s =
      (readColon s).bind fun s => (readValue room s).bind fun x => .ok (put st key x.1, x.2))
    {ms : List (String × Value)}
    (h : ∀ m ∈ ms, Reads (readValue room) m.2.bytes m.2 (m.2.depth ≤ room)) (st : σ) :
    Gathers member st (Value.memberBytes ms) (ms.foldl (fun st m => put st m.1 m.2) st)
      (∀ m ∈ ms, m.2.depth ≤ room) := by
  induction ms generalizing st with
  | nil => exact (Gathers.nil st).cast (by simp)
  | cons m ms ih =>
    have hv := h m List.mem_cons_self
    have hothers := ih (fun x hx => h x (List.mem_cons_of_mem m hx)) (put st m.1 m.2)
    have hread : Reads (member st m.1) (0x3A :: m.2.bytes) (put st m.1 m.2)
        (m.2.depth ≤ room) := by
      refine reads_colon fun hr => ?_
      rw [hm]
      exact (hv.gives hr).map (put st m.1)
    exact (Gathers.cons hread hothers).cast (by rw [List.forall_mem_cons])

/-- the members of an object in key order make up the object again -/
theorem foldl_insert_entries (d : Dict String Value) :
    d.entries.foldl (fun d m => d.insert m.1 m.2) ∅ = d := by
  refine Dict.ext_get? fun k => ?_
  have hput := Dict.get?_foldl_put some d ∅ k
  rw [Dict.get?_empty] at hput
  refine hput.trans ?_
  cases d.get? k <;> rfl

theorem foldl_insert_sorted {ms : List (String × Value)} (h : Entries.Sorted ms) :
    ms.foldl (fun es m => Entries.insert m.1 m.2 es) [] = ms := by
  have hhom : ms.foldl (fun es m => Entries.insert m.1 m.2 es) (∅ : Dict String Value).entries =
      (ms.foldl (fun d m => d.insert m.1 m.2) (∅ : Dict String Value)).entries :=
    List.foldl_hom Dict.entries fun _ _ => rfl
  exact hhom.trans (congrArg Dict.entries (foldl_insert_entries ⟨ms, h⟩))

theorem reads_scalar_value {v : Value} {text : Bytes} (h : Reads readScalar text v.scalar True)
    (hv : v.depth = 0) (room : Nat) : Reads (readValue room) text v (v.depth ≤ room) := by
  have hfits : v.depth ≤ room := hv.le.trans (Nat.zero_le room)
  refine ⟨h.starts, fun {rest} hr => ⟨fun _ => ?_, fun hn => absurd hfits hn⟩⟩
  have hscalar := (h.gives hr).ok trivial
  rw [readValue, hscalar]
  cases v with
  | array items => cases hv
  | object members => cases hv
  | _ => rfl

/-- a value is read back when there is room for what is nested in it -/
theorem reads_value {v : Value} (h : v.Plain) (room : Nat) :
    Reads (readValue room) v.bytes v (v.depth ≤ room) := by
  -- along how the value is built; what is nested in it is read with one level less of room
  induction h generalizing room with
  | null => exact reads_scalar_value reads_null rfl room
  | bool b => exact reads_scalar_value (reads_bool b) rfl room
  | integer n => exact reads_scalar_value (reads_int n) rfl room
  | string s => exact reads_scalar_value (reads_string s) rfl room
  | @array items _ ih =>
    rw [Value.bytes, Value.itemBytes_eq]
    refine reads_enclosed rfl (by decide) fun rest => ?_
    rw [readValue]
    cases room with
    | zero => exact ⟨fun hn => absurd hn (Nat.not_succ_le_zero _), fun _ => ⟨_, rfl, rfl, rfl⟩⟩
    | succ room =>
      have harray : Gives (readArray (readValue room)
          ([0x2C].intercalate (items.map Value.bytes) ++ 0x5D :: rest)) (items, rest)
          (∀ v ∈ items, v.depth ≤ room) := readArray_enclosed fun v hv => ih v hv room
      refine (harray.map Value.array).cast ?_
      rw [Value.depth, Nat.add_le_add_iff_right, Value.itemDepth_le]
  | @object members hsorted _ ih =>
    rw [Value.bytes]
    refine reads_enclosed rfl (by decide) fun rest => ?_
    rw [readValue]
    cases room with
    | zero => exact ⟨fun hn => absurd hn (Nat.not_succ_le_zero _), fun _ => ⟨_, rfl, rfl, rfl⟩⟩
    | succ room =>
      have hgathers : Gathers (readEntry (readValue room)) [] (Value.memberBytes members) _ _ :=
        gathers_values (fun es key v => Entries.insert key v es) (fun _ _ _ => rfl)
          (fun m hm => ih m hm room) []
      rw [foldl_insert_sorted hsorted] at hgathers
      refine (hgathers.readObject.map Value.object).cast ?_
      rw [Value.depth, Nat.add_le_add_iff_right, Value.memberDepth_le]

/-- a map of values is read back when there is room for what is nested in its values -/
theorem reads_map {room : Nat} {d : Dict String Value} (h : ∀ m ∈ d.entries, m.2.Plain) :
    Reads (readMap (room + 1)) (Write.object (Value.memberBytes d.entries)) d
      (∀ m ∈ d.entries, m.2.depth ≤ room) := by
  have hgathers : Gathers (readMapEntry (readValue room)) ∅ (Value.memberBytes d.entries) _ _ :=
    gathers_values Dict.insert (fun _ _ _ => rfl) (fun m hm => reads_value (h m hm) room) ∅
  rw [foldl_insert_entries] at hgathers
  exact reads_enclosed rfl (by decide) fun _ => hgathers.readObject

end UiSync.Json
