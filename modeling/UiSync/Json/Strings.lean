import UiSync.Json.Reading

/-!
# Reading strings

A string is read byte by byte by a small machine: `Mode` says what the bytes before call for,
`step` what the next byte does. The machine undoes escapes and hands out the bytes of the string;
whether they are UTF-8 is asked once, at the closing quote.

A string whose value is not wanted is skipped by a machine of its own (`skipStep`), which only
checks escapes.
-/

namespace UiSync.Json

/-! ## UTF-8 -/

namespace Bytes

/-- the number of bytes, from `i` on, before the first that starts no UTF-8 character -/
def validFrom (bytes : ByteArray) : Nat → Nat → Nat
  | 0, i => i
  | fuel + 1, i =>
    match bytes.utf8DecodeChar? i with
    | some c => validFrom bytes fuel (i + c.utf8Size)
    | none => i

/-- the number of bytes before the first that starts no UTF-8 character -/
def validLength (bs : Bytes) : Nat := validFrom ⟨bs.toArray⟩ bs.length 0

/-- the UTF-8 bytes of a code point -/
def ofCodePoint (n : Nat) : Bytes := String.utf8EncodeChar (Char.ofNat n)

end Bytes

/-! ## Escapes -/

/-- the value of a hexadecimal digit -/
def hexValue? (b : UInt8) : Option Nat :=
  if 0x30 ≤ b ∧ b ≤ 0x39 then some (b.toNat - 0x30)
  else if 0x41 ≤ b ∧ b ≤ 0x46 then some (b.toNat - 0x37)
  else if 0x61 ≤ b ∧ b ≤ 0x66 then some (b.toNat - 0x57)
  else none

/-- the number written by hexadecimal digits -/
def hexNumber? (digits : Bytes) : Option Nat :=
  digits.foldlM (fun n b => (hexValue? b).map (16 * n + ·)) 0

/-- the byte a one-letter escape stands for -/
def escapedByte? (b : UInt8) : Option UInt8 :=
  if b = 0x22 then some 0x22
  else if b = 0x5C then some 0x5C
  else if b = 0x2F then some 0x2F
  else if b = 0x62 then some 0x08
  else if b = 0x66 then some 0x0C
  else if b = 0x6E then some 0x0A
  else if b = 0x72 then some 0x0D
  else if b = 0x74 then some 0x09
  else none

/-- what the bytes before call for -/
inductive Mode where
  | plain
  /-- a backslash was read -/
  | escape
  /-- four hexadecimal digits are being read, after a high surrogate if there is one -/
  | hex (high : Option Nat) (digits : Bytes)
  /-- a high surrogate was read, a backslash must follow -/
  | pairSlash (high : Nat)
  /-- a high surrogate and a backslash were read, the letter `u` must follow -/
  | pairLetter (high : Nat)

/-- what a byte does -/
inductive Outcome where
  | emit (bytes : Bytes) (mode : Mode)
  | close
  | refuse (reason : Reason)

/-- the number of a complete hexadecimal escape, after a high surrogate if there is one -/
def Mode.complete (high : Option Nat) (n : Nat) : Outcome :=
  match high with
  | some h =>
    if 0xDC00 ≤ n ∧ n ≤ 0xDFFF then
      .emit (Bytes.ofCodePoint (0x10000 + (h - 0xD800) * 0x400 + (n - 0xDC00))) .plain
    else .refuse .loneSurrogate
  | none =>
    if 0xDC00 ≤ n ∧ n ≤ 0xDFFF then .refuse .loneSurrogate
    else if 0xD800 ≤ n ∧ n ≤ 0xDBFF then .emit [] (.pairSlash n)
    else .emit (Bytes.ofCodePoint n) .plain

/-- what the byte `b` does -/
def Mode.step (mode : Mode) (b : UInt8) : Outcome :=
  match mode with
  | .plain =>
    if b = 0x22 then .close
    else if b = 0x5C then .emit [] .escape
    else if b < 0x20 then .refuse .controlCharacter
    else .emit [b] .plain
  | .escape =>
    if b = 0x75 then .emit [] (.hex none [])
    else match escapedByte? b with
      | some c => .emit [c] .plain
      | none => .refuse .invalidEscape
  | .hex high digits =>
    if digits.length < 3 then .emit [] (.hex high (digits ++ [b]))
    else match hexNumber? (digits ++ [b]) with
      | some n => Mode.complete high n
      | none => .refuse .invalidEscape
  | .pairSlash high =>
    if b = 0x5C then .emit [] (.pairLetter high) else .refuse .hexEscapeEnd
  | .pairLetter high =>
    if b = 0x75 then .emit [] (.hex (some high) []) else .refuse .hexEscapeEnd

/-- reads up to the closing quote; `read` holds the bytes of the string so far, last first -/
def readBytes : Mode → Bytes → Bytes → Reading Bytes
  | _, _, [] => .error (.here .endInString [])
  | mode, read, b :: s =>
    match mode.step b with
    | .emit bytes mode => readBytes mode (bytes.reverse ++ read) s
    | .close => .ok (read.reverse, s)
    | .refuse reason => .error (.here reason s)

/-- reads a string after its opening quote -/
def readString (s : Bytes) : Reading String :=
  match readBytes .plain [] s with
  | .error f => .error f
  | .ok (bytes, rest) =>
    match Bytes.toString? bytes with
    | some text => .ok (text, rest)
    | none => .error ⟨.invalidCodePoint, rest, .here, bytes.length - Bytes.validLength bytes⟩

/-! ## Skipping -/

/-- what the bytes before call for, in a string that is skipped -/
inductive SkipMode where
  | plain
  | escape
  | hex (digits : Bytes)

/-- skips a string after its opening quote -/
def skipString : SkipMode → Bytes → Except Fault Bytes
  | _, [] => .error (.here .endInString [])
  | .plain, b :: s =>
    if b = 0x22 then .ok s
    else if b = 0x5C then skipString .escape s
    else if b < 0x20 then .error (.here .controlCharacter (b :: s))
    else skipString .plain s
  | .escape, b :: s =>
    if b = 0x75 then skipString (.hex []) s
    else if (escapedByte? b).isSome then skipString .plain s
    else .error (.here .invalidEscape s)
  | .hex digits, b :: s =>
    if digits.length < 3 then skipString (.hex (digits ++ [b])) s
    else if (hexNumber? (digits ++ [b])).isSome then skipString .plain s
    else .error (.here .invalidEscape s)

end UiSync.Json
