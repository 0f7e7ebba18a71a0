import Mathlib
import UiSync.Json.Reader

/-!
# Tokens are read back

`Reads read text a fits` says that reading undoes writing: `read` takes the text for `a`, whatever
comes after it, if what is nested in it fits, and stops at the limit of nesting if not.  A number
has no end of its own, so what comes after has to be a comma, a closing bracket or nothing
(`Ended`).  Here this is shown for scalars, which always fit.

* `readNumber_nat`    digits below 2^64 become the number they were written for, none dropped;
* `readBytes_escaped` the machine for strings undoes the escapes, byte by byte;
* `reads_int`, `reads_string`   the tokens as a whole.
-/

namespace UiSync.Json

variable {α β : Type}

/-! ## Reading back -/

/-- reading stopped at the bracket of an array or object that is nested too deeply -/
def Stops (r : Except Fault α) : Prop :=
  ∃ f, r = .error f ∧ f.reason = .recursionLimit ∧ f.spot = .next

/-- the reading has the result `a` when what is read fits, and stops when it does not -/
structure Gives (r : Except Fault α) (a : α) (fits : Prop) : Prop where
  ok : fits → r = .ok a
  stops : ¬fits → Stops r

/-- what may follow a value inside a text -/
inductive Ended : Bytes → Prop
  | nil : Ended []
  | comma (s : Bytes) : Ended (0x2C :: s)
  | bracket (s : Bytes) : Ended (0x5D :: s)
  | brace (s : Bytes) : Ended (0x7D :: s)

/-- `read` takes exactly the text and reads `a` from it, if the text fits -/
structure Reads (read : Bytes → Reading α) (text : Bytes) (a : α) (fits : Prop) : Prop where
  starts : ∃ b s, text = b :: s ∧ isBlankByte b = false ∧ b ≠ 0x5D
  gives : ∀ {rest}, Ended rest → Gives (read (text ++ rest)) (a, rest) fits

variable {p q : Prop} {r : Except Fault α} {a : α} {b : β}

theorem Gives.result (a : α) : Gives (.ok a) a True := ⟨fun _ => rfl, fun h => absurd trivial h⟩

theorem Gives.cast (h : Gives r a p) (hpq : p ↔ q) : Gives r a q :=
  ⟨fun hq => h.ok (hpq.2 hq), fun hq => h.stops fun hp => hq (hpq.1 hp)⟩

theorem Stops.bind (h : Stops r) (g : α → Except Fault β) : Stops (r >>= g) := by
  obtain ⟨f, rfl, hf⟩ := h
  exact ⟨f, rfl, hf⟩

/-- one reading after the other stops where the first of them stops -/
theorem Gives.bind {g : α → Except Fault β} (h : Gives r a p) (hg : Gives (g a) b q) :
    Gives (r >>= g) b (p ∧ q) := by
  constructor
  · rintro ⟨hp, hq⟩
    rw [h.ok hp]
    exact hg.ok hq
  · intro hpq
    by_cases hp : p
    · rw [h.ok hp]
      exact hg.stops fun hq => hpq ⟨hp, hq⟩
    · exact (h.stops hp).bind g

/-- what cannot fail after a reading only changes its result -/
theorem Gives.followed {g : α → Except Fault β} (h : Gives r a p) (hg : g a = .ok b) :
    Gives (r >>= g) b p := by
  have hb : Gives (g a) b True := hg ▸ .result b
  exact (h.bind hb).cast (and_iff_left trivial)

theorem Reads.cast {read : Bytes → Reading α} {text : Bytes} (h : Reads read text a p)
    (hpq : p ↔ q) : Reads read text a q := ⟨h.starts, fun hr => (h.gives hr).cast hpq⟩

/-- a scalar is looked at through a view -/
theorem Reads.view {view : Scalar → Except Reason β} {text : Bytes} {x : Scalar}
    (h : Reads readScalar text x True) (hx : view x = .ok b) : Reads (readAs view) text b True := by
  refine ⟨h.starts, fun {rest} hr => ⟨fun _ => ?_, fun hn => absurd trivial hn⟩⟩
  have hscalar := (h.gives hr).ok trivial
  rw [readAs, hscalar]
  dsimp only [bind, Except.bind]
  rw [hx]

theorem skipBlanks_cons {b : UInt8} (h : isBlankByte b = false) (s : Bytes) :
    skipBlanks (b :: s) = b :: s := by
  rw [skipBlanks, List.dropWhile_cons, h, if_neg Bool.false_ne_true]

/-! ## Digits -/

theorem toNat_digit {c : Char} (h : c.isDigit = true) :
    48 ≤ c.toNat ∧ c.toNat ≤ 57 ∧ (UInt8.ofNat c.toNat).toNat = c.toNat := by
  simp only [Char.isDigit, Bool.and_eq_true, decide_eq_true_eq, UInt32.le_iff_toNat_le] at h
  have hlow : 48 ≤ c.toNat := h.1
  have hhigh : c.toNat ≤ 57 := h.2
  exact ⟨hlow, hhigh, UInt8.toNat_ofNat_of_lt' (by show c.toNat < 256; omega)⟩

theorem digitValue_digit {c : Char} (h : c.isDigit = true) :
    digitValue (UInt8.ofNat c.toNat) = c.toNat - '0'.toNat := by
  rw [digitValue, (toNat_digit h).2.2]
  rfl

theorem isDigitByte_digit {c : Char} (h : c.isDigit = true) :
    isDigitByte (UInt8.ofNat c.toNat) = true := by
  obtain ⟨hlow, hhigh, hto⟩ := toNat_digit h
  simp only [isDigitByte, Bool.and_eq_true, decide_eq_true_eq, UInt8.le_iff_toNat_le, hto]
  exact ⟨hlow, hhigh⟩

theorem ne_of_isDigitByte {b c : UInt8} (h : isDigitByte b = true) (hc : isDigitByte c = false) :
    b ≠ c := by
  rintro rfl
  rw [hc] at h
  cases h

theorem isDigitByte_nat {n : Nat} {b : UInt8} (h : b ∈ Write.nat n) : isDigitByte b = true := by
  obtain ⟨c, hc, rfl⟩ := List.mem_map.1 h
  exact isDigitByte_digit (Nat.isDigit_of_mem_toDigits (by decide) (by decide) hc)

/-- only zero is written with a zero in front -/
theorem head_toDigits_ne {n : Nat} (h : n ≠ 0) : (Nat.toDigits 10 n).head? ≠ some '0' := by
  induction n using Nat.strong_induction_on with
  | _ n ih =>
    by_cases hn : n < 10
    · rw [Nat.toDigits_of_lt_base hn]
      interval_cases n <;> simp_all
    · -- the first digit of `n` is that of `n / 10`
      have hrest := ih (n / 10) (by omega) (by omega)
      rw [Nat.toDigits_of_base_le (by decide) (by omega),
        List.head?_append_of_ne_nil _ Nat.toDigits_ne_nil]
      exact hrest

theorem nat_cons {n : Nat} (h : n ≠ 0) :
    ∃ b ds, Write.nat n = b :: ds ∧ isDigitByte b = true ∧ b ≠ 0x30 := by
  have hhead := head_toDigits_ne h
  cases hds : Nat.toDigits 10 n with
  | nil => exact absurd hds Nat.toDigits_ne_nil
  | cons c cs =>
    have hc : c.isDigit = true :=
      Nat.isDigit_of_mem_toDigits (b := 10) (n := n) (by decide) (by decide) (by rw [hds]; simp)
    refine ⟨UInt8.ofNat c.toNat, Bytes.ofAscii cs, by rw [Write.nat, hds]; rfl,
      isDigitByte_digit hc, fun he => ?_⟩
    have hval : c.toNat = 48 := by
      rw [← (toNat_digit hc).2.2, he]
      rfl
    rw [hds, List.head?_cons, ne_eq, Option.some.injEq] at hhead
    exact hhead (Char.toNat_inj.1 hval)

theorem le_ofDigitChars (cs : List Char) (m : Nat) : m ≤ Nat.ofDigitChars 10 cs m := by
  induction cs generalizing m with
  | nil => exact le_refl m
  | cons c cs ih =>
    have hstep := ih (10 * m + (c.toNat - '0'.toNat))
    rw [Nat.ofDigitChars_cons]
    omega

/-- digits are not dropped as long as they make up a number of 64 bits -/
theorem gather_ofAscii {cs : List Char} {m : Nat} (hcs : ∀ c ∈ cs, c.isDigit = true)
    (h : Nat.ofDigitChars 10 cs m < 0x10000000000000000) :
    gather m (Bytes.ofAscii cs) = (Nat.ofDigitChars 10 cs m, 0) := by
  induction cs generalizing m with
  | nil => rfl
  | cons c cs ih =>
    have hc := digitValue_digit (hcs c List.mem_cons_self)
    rw [Nat.ofDigitChars_cons] at h ⊢
    have hle := le_ofDigitChars cs (10 * m + (c.toNat - '0'.toNat))
    have hfits : m * 10 + digitValue (UInt8.ofNat c.toNat) < 0x10000000000000000 := by
      rw [hc]
      omega
    show gather m (UInt8.ofNat c.toNat :: Bytes.ofAscii cs) = _
    rw [gather, if_pos hfits, hc, Nat.mul_comm m 10]
    exact ih (fun x hx => hcs x (List.mem_cons_of_mem c hx)) h

theorem gather_nat {n : Nat} (h : n < 0x10000000000000000) :
    gather 0 (Write.nat n) = (n, 0) := by
  have hval : Nat.ofDigitChars 10 (Nat.toDigits 10 n) 0 = n := Nat.ofDigitChars_ten_toDigits
  have hdigits : ∀ c ∈ Nat.toDigits 10 n, c.isDigit = true := fun c hc =>
    Nat.isDigit_of_mem_toDigits (by decide) (by decide) hc
  rw [Write.nat, gather_ofAscii hdigits (by rw [hval]; exact h), hval]

/-! ## Numbers -/

variable {rest : Bytes}

theorem Ended.leadingDigits (h : Ended rest) : leadingDigits rest = [] := by
  cases h <;> rfl

theorem Ended.afterDigits (h : Ended rest) : afterDigits rest = rest := by
  cases h <;> rfl

theorem Ended.readAfterInteger (h : Ended rest) (negative : Bool) (significand dropped : Nat) :
    readAfterInteger negative significand dropped rest =
      wholeNumber negative significand dropped rest := by
  cases h <;> rfl

theorem readNumber_nat {n : Nat} (hn : n < 0x10000000000000000) (hr : Ended rest)
    (negative : Bool) :
    readNumber negative (Write.nat n ++ rest) = wholeNumber negative n 0 rest := by
  by_cases h0 : n = 0
  · subst h0
    show (if (leadingDigits rest).isEmpty then readAfterInteger negative 0 0 rest else _) = _
    rw [hr.leadingDigits, if_pos List.isEmpty_nil, hr.readAfterInteger]
  · obtain ⟨b, ds, hnat, hb, hne⟩ := nat_cons h0
    have hds : ∀ d ∈ ds, isDigitByte d = true := fun d hd =>
      isDigitByte_nat (by rw [hnat]; exact List.mem_cons_of_mem b hd)
    have hlead : leadingDigits (ds ++ rest) = ds := by
      rw [leadingDigits, List.takeWhile_append_of_pos hds]
      exact (congrArg (ds ++ ·) hr.leadingDigits).trans (List.append_nil ds)
    have hafter : afterDigits (ds ++ rest) = rest := by
      rw [afterDigits, List.dropWhile_append_of_pos hds]
      exact hr.afterDigits
    rw [hnat, List.cons_append, readNumber, if_neg hne, if_pos hb, hlead, hafter, ← hnat,
      gather_nat hn]
    exact hr.readAfterInteger negative n 0

theorem wholeNumber_natAbs {n : Integer} {negative : Bool} (s : Bytes)
    (hneg : negative = decide (n.val < 0)) :
    wholeNumber negative n.val.natAbs 0 s = .ok (.integer n, s) := by
  have hlow := n.lower
  have hup := n.upper
  have hval : (if negative then -(n.val.natAbs : Int) else n.val.natAbs) = n.val := by
    rw [hneg]
    by_cases h : n.val < 0
    · rw [decide_eq_true h, if_pos rfl]
      omega
    · rw [decide_eq_false h, if_neg Bool.false_ne_true]
      omega
  have hzero : (negative && n.val.natAbs == 0) = false := by
    rw [hneg, Bool.and_eq_false_iff, decide_eq_false_iff_not, beq_eq_false_iff_ne]
    omega
  have hint : Integer.ofInt? n.val = some n := dif_pos ⟨hlow, hup⟩
  rw [wholeNumber, hval, hzero, if_pos ⟨rfl, rfl⟩, hint]

theorem not_blank_of_isDigitByte {b : UInt8} (h : isDigitByte b = true) :
    isBlankByte b = false := by
  simp only [isBlankByte, Bool.or_eq_false_iff, beq_eq_false_iff_ne]
  exact ⟨⟨⟨ne_of_isDigitByte h rfl, ne_of_isDigitByte h rfl⟩, ne_of_isDigitByte h rfl⟩,
    ne_of_isDigitByte h rfl⟩

theorem readScalar_digit {b : UInt8} (h : isDigitByte b = true) (s : Bytes) :
    readScalar (b :: s) = (readNumber false (b :: s)).bind fun x => .ok (.number x.1, x.2) := by
  rw [readScalar, skipBlanks_cons (not_blank_of_isDigitByte h)]
  dsimp only
  rw [if_neg (ne_of_isDigitByte h rfl), if_neg (ne_of_isDigitByte h rfl),
    if_neg (ne_of_isDigitByte h rfl), if_neg (ne_of_isDigitByte h rfl), if_pos h]
  rfl

theorem exists_nat_cons (n : Nat) : ∃ b ds, Write.nat n = b :: ds ∧ isDigitByte b = true := by
  cases hds : Write.nat n with
  | nil => exact absurd (List.map_eq_nil_iff.1 hds) Nat.toDigits_ne_nil
  | cons b ds => exact ⟨b, ds, rfl, isDigitByte_nat (by rw [hds]; exact List.mem_cons_self)⟩

theorem reads_int (n : Integer) :
    Reads readScalar (Write.int n.val) (.number (.integer n)) True := by
  have hlow := n.lower
  have hup := n.upper
  obtain ⟨b, ds, hnat, hb⟩ := exists_nat_cons n.val.natAbs
  by_cases h : n.val < 0
  · rw [Write.int, if_pos h]
    refine ⟨⟨_, _, rfl, rfl, by decide⟩, fun {rest} hr => ?_⟩
    have hread := readNumber_nat (n := n.val.natAbs) (by omega) hr true
    rw [wholeNumber_natAbs rest (decide_eq_true h).symm] at hread
    show Gives ((readNumber true (Write.nat n.val.natAbs ++ rest)).bind fun x =>
      .ok (Scalar.number x.1, x.2)) _ _
    rw [hread]
    exact .result _
  · rw [Write.int, if_neg h]
    refine ⟨⟨b, ds, hnat, not_blank_of_isDigitByte hb, ne_of_isDigitByte hb rfl⟩,
      fun {rest} hr => ?_⟩
    have hread := readNumber_nat (n := n.val.natAbs) (by omega) hr false
    rw [wholeNumber_natAbs rest (decide_eq_false h).symm] at hread
    rw [hnat, List.cons_append] at hread ⊢
    rw [readScalar_digit hb, hread]
    exact .result _

def Integer.ofNat (n : Nat) (h : n < 0x10000000000000000) : Integer := ⟨n, by omega, by omega⟩

theorem int_ofNat {n : Nat} (h : n < 0x10000000000000000) :
    Write.int (Integer.ofNat n h).val = Write.nat n := if_neg (by
  show ¬(n : Int) < 0
  omega)

theorem reads_nat {n : Nat} (h : n < 0x10000000000000000) :
    Reads readScalar (Write.nat n) (.number (.integer (.ofNat n h))) True := by
  rw [← int_ofNat h]
  exact reads_int _

/-! ## Words -/

theorem reads_null : Reads readScalar Write.null .null True :=
  ⟨⟨_, _, rfl, rfl, by decide⟩, fun {_} _ => .result _⟩

theorem reads_bool (b : Bool) : Reads readScalar (Write.bool b) (.bool b) True := by
  cases b
  · exact ⟨⟨_, _, rfl, rfl, by decide⟩, fun {_} _ => .result _⟩
  · exact ⟨⟨_, _, rfl, rfl, by decide⟩, fun {_} _ => .result _⟩

/-! ## Strings -/

/-- the four digits a control character is written with, and the character -/
theorem hexNumber?_control : ∀ n : Fin 32,
    hexNumber? [0x30, 0x30, Write.hexDigit (UInt8.ofNat n / 16),
      Write.hexDigit (UInt8.ofNat n % 16)] = some n.val ∧
    Bytes.ofCodePoint n = [UInt8.ofNat n] := by
  decide

theorem readBytes_control {b : UInt8} (h : b < 0x20) (read s : Bytes) :
    readBytes .plain read ([0x5C, 0x75, 0x30, 0x30, Write.hexDigit (b / 16),
      Write.hexDigit (b % 16)] ++ s) = readBytes .plain (b :: read) s := by
  have hb : b.toNat < 32 := UInt8.lt_iff_toNat_lt.1 h
  obtain ⟨hnum, hpoint⟩ := hexNumber?_control ⟨b.toNat, hb⟩
  rw [UInt8.ofNat_toNat] at hnum hpoint
  have hcomplete : Mode.complete none b.toNat = .emit [b] .plain := by
    rw [← hpoint, Mode.complete, if_neg (by omega), if_neg (by omega)]
  have hlast : Mode.step (.hex none [0x30, 0x30, Write.hexDigit (b / 16)])
      (Write.hexDigit (b % 16)) = .emit [b] .plain := by
    have hlength : ¬[0x30, 0x30, Write.hexDigit (b / 16)].length < 3 := lt_irrefl 3
    rw [Mode.step, if_neg hlength, List.cons_append, List.cons_append, List.singleton_append, hnum]
    exact hcomplete
  show readBytes (.hex none [0x30, 0x30, Write.hexDigit (b / 16)]) read
    (Write.hexDigit (b % 16) :: s) = _
  rw [readBytes, hlast]
  rfl

theorem readBytes_escaped (b : UInt8) (read s : Bytes) :
    readBytes .plain read (Write.escaped b ++ s) = readBytes .plain (b :: read) s := by
  unfold Write.escaped
  split_ifs with h22 h5C h08 h09 h0A h0C h0D hcontrol
  · rw [h22]
    rfl
  · rw [h5C]
    rfl
  · rw [h08]
    rfl
  · rw [h09]
    rfl
  · rw [h0A]
    rfl
  · rw [h0C]
    rfl
  · rw [h0D]
    rfl
  · exact readBytes_control hcontrol read s
  · rw [List.singleton_append, readBytes, Mode.step, if_neg h22, if_neg h5C, if_neg hcontrol]
    rfl

theorem readBytes_flatMap_escaped (bs read s : Bytes) :
    readBytes .plain read (bs.flatMap Write.escaped ++ s) =
      readBytes .plain (bs.reverse ++ read) s := by
  induction bs generalizing read with
  | nil => rfl
  | cons b bs ih =>
    rw [List.flatMap_cons, List.append_assoc, readBytes_escaped, ih, List.reverse_cons,
      List.append_assoc]
    rfl

theorem toString?_ofString (text : String) :
    Bytes.toString? (Bytes.ofString text) = some text := by
  have hbytes : (⟨(Bytes.ofString text).toArray⟩ : ByteArray) = text.toUTF8 := by
    rw [Bytes.ofString, Array.toArray_toList]
  have hvalid : text.toUTF8.IsValidUTF8 := text.isValidUTF8
  rw [Bytes.toString?, hbytes, String.fromUTF8?, dif_pos hvalid]
  rfl

theorem readString_string (text : String) (s : Bytes) :
    readString ((Bytes.ofString text).flatMap Write.escaped ++ 0x22 :: s) = .ok (text, s) := by
  have hbytes : readBytes .plain [] ((Bytes.ofString text).flatMap Write.escaped ++ 0x22 :: s) =
      .ok (Bytes.ofString text, s) := by
    rw [readBytes_flatMap_escaped, List.append_nil]
    show Except.ok ((Bytes.ofString text).reverse.reverse, s) = _
    rw [List.reverse_reverse]
  rw [readString, hbytes]
  dsimp only
  rw [toString?_ofString]

theorem reads_string (text : String) : Reads readScalar (Write.string text) (.string text) True := by
  refine ⟨⟨_, _, rfl, rfl, by decide⟩, fun {rest} _ => ?_⟩
  rw [Write.string, List.cons_append, List.append_assoc]
  show Gives ((readString ((Bytes.ofString text).flatMap Write.escaped ++ 0x22 :: rest)).bind fun x =>
    .ok (Scalar.string x.1, x.2)) _ _
  rw [readString_string]
  exact .result _

end UiSync.Json
