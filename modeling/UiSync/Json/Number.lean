import UiSync.Json.Reading

/-!
# Reading numbers

An integer without point or exponent stays an integer when 64 bits can hold it. Everything else
is a double, built from a significand below 2^64 and a power of ten. Digits are gathered into the
significand until the next one would not fit; that digit and the ones after it are dropped, and
every dropped digit of the integer part counts in the exponent.

The product or quotient of the significand and the power of ten, each rounded to a double, is
rounded once more (`scale?`), so the result is not always the double nearest to the text.
-/

namespace UiSync.Json

/-- a number of either kind -/
inductive Number where
  | integer (n : Integer)
  | float (x : Double)

def Number.value : Number → Value
  | integer n => .integer n
  | float x => .float x

def Number.found : Number → Found
  | integer n => .integer n.val
  | float x => .float x

def digitValue (b : UInt8) : Nat := b.toNat - 0x30

/-- gathers digits into a significand below 2^64; answers with it and the digits dropped -/
def gather : Nat → Bytes → Nat × Nat
  | n, [] => (n, 0)
  | n, b :: ds =>
    if n * 10 + digitValue b < 0x10000000000000000 then gather (n * 10 + digitValue b) ds
    else (n, ds.length + 1)

/-- `x` divided by 10^`n`, in steps of 10^308 -/
def scaleDown (x : Double) (n : Nat) : Option Double :=
  if n ≤ 308 then do x.div? (← Double.ofInt? (Nat.pow 10 n))
  else if x.isZero then some x
  else do
    let y ← x.div? (← Double.ofInt? (Nat.pow 10 308))
    scaleDown y (n - 308)
  termination_by n

/-- `x` times 10^`exponent`; `none` when that is too large -/
def scale? (x : Double) (exponent : Int) : Option Double :=
  if exponent < 0 then scaleDown x exponent.natAbs
  else if exponent ≤ 308 then do x.mul? (← Double.ofInt? (Nat.pow 10 exponent.toNat))
  else if x.isZero then some x
  else none

/-- the double for a significand and an exponent, at the end of the number -/
def readFloat (negative : Bool) (significand : Nat) (exponent : Int) (s : Bytes) :
    Reading Number :=
  match (Double.ofInt? significand).bind (scale? · exponent) with
  | some x => .ok (.float (if negative then x.neg else x), s)
  | none => .error (.here .numberOutOfRange s)

/-- the digits at the front -/
def leadingDigits (s : Bytes) : Bytes := s.takeWhile isDigitByte

/-- the bytes left after the digits at the front -/
def afterDigits (s : Bytes) : Bytes := s.dropWhile isDigitByte

/-- the greatest exponent that is told apart -/
def greatestExponent : Nat := 0x7FFFFFFF

/-- reads the digits of an exponent; past the greatest one `none` with the bytes left then -/
def readExponentDigits : Nat → Bytes → Option Nat × Bytes
  | n, [] => (some n, [])
  | n, b :: s =>
    if isDigitByte b then
      if n * 10 + digitValue b ≤ greatestExponent then
        readExponentDigits (n * 10 + digitValue b) s
      else (none, s)
    else (some n, b :: s)

/-- reads an exponent after its letter -/
def readExponent (negative : Bool) (significand : Nat) (exponent : Int) (s : Bytes) :
    Reading Number :=
  let (down, s) := match s with
    | 0x2B :: s => (false, s)
    | 0x2D :: s => (true, s)
    | s => (false, s)
  match s with
  | [] => .error (.here .endInValue [])
  | b :: s =>
    if isDigitByte b then
      match readExponentDigits (digitValue b) s with
      | (some n, s) =>
        readFloat negative significand (if down then exponent - n else exponent + n) s
      | (none, s) =>
        if significand ≠ 0 ∧ !down then .error (.here .numberOutOfRange s)
        else .ok (.float (if negative then Double.zero.neg else Double.zero), afterDigits s)
    else .error (.here .invalidNumber s)

/-- reads an exponent, if there is one, and ends the number -/
def readScaled (negative : Bool) (significand : Nat) (exponent : Int) (s : Bytes) :
    Reading Number :=
  match s with
  | b :: rest =>
    if b = 0x65 ∨ b = 0x45 then readExponent negative significand exponent rest
    else readFloat negative significand exponent (b :: rest)
  | [] => readFloat negative significand exponent []

/-- reads a fraction after its point -/
def readFraction (negative : Bool) (significand : Nat) (dropped : Nat) (s : Bytes) :
    Reading Number :=
  match leadingDigits s with
  | [] => .error (.next (if s.isEmpty then .endInValue else .invalidNumber) s)
  | ds =>
    let (significand, lost) := gather significand ds
    readScaled negative significand ((dropped : Int) - (ds.length - lost : Nat)) (afterDigits s)

/-- an integer without point and exponent: zero has no negative integer -/
def wholeNumber (negative : Bool) (significand : Nat) (dropped : Nat) (s : Bytes) :
    Reading Number :=
  let n : Int := if negative then -significand else significand
  match if dropped = 0 ∧ !(negative && significand == 0) then Integer.ofInt? n else none with
  | some n => .ok (.integer n, s)
  | none => readFloat negative significand dropped s

/-- reads what follows the integer part -/
def readAfterInteger (negative : Bool) (significand : Nat) (dropped : Nat) (s : Bytes) :
    Reading Number :=
  match s with
  | [] => wholeNumber negative significand dropped []
  | b :: rest =>
    if b = 0x2E then readFraction negative significand dropped rest
    else if b = 0x65 ∨ b = 0x45 then readExponent negative significand dropped rest
    else wholeNumber negative significand dropped (b :: rest)

/-- reads a number after its sign -/
def readNumber (negative : Bool) (s : Bytes) : Reading Number :=
  match s with
  | [] => .error (.here .endInValue [])
  | b :: s =>
    if b = 0x30 then
      if (leadingDigits s).isEmpty then readAfterInteger negative 0 0 s
      else .error (.next .invalidNumber s)
    else if isDigitByte b then
      let (significand, dropped) := gather 0 (b :: leadingDigits s)
      readAfterInteger negative significand dropped (afterDigits s)
    else .error (.here .invalidNumber s)

/-! ## Skipping -/

/-- skips an exponent after its letter -/
def skipExponent (s : Bytes) : Except Fault Bytes :=
  let s := match s with
    | 0x2B :: s => s
    | 0x2D :: s => s
    | s => s
  match s with
  | [] => .error (.here .invalidNumber [])
  | b :: s => if isDigitByte b then .ok (afterDigits s) else .error (.here .invalidNumber s)

/-- skips what follows the integer part -/
def skipAfterInteger (s : Bytes) : Except Fault Bytes :=
  match s with
  | [] => .ok []
  | b :: rest =>
    if b = 0x2E then
      if (leadingDigits rest).isEmpty then .error (.next .invalidNumber rest)
      else
        match afterDigits rest with
        | [] => .ok []
        | c :: after => if c = 0x65 ∨ c = 0x45 then skipExponent after else .ok (c :: after)
    else if b = 0x65 ∨ b = 0x45 then skipExponent rest
    else .ok (b :: rest)

/-- skips a number after its sign -/
def skipNumber (s : Bytes) : Except Fault Bytes :=
  match s with
  | [] => .error (.here .invalidNumber [])
  | b :: s =>
    if b = 0x30 then
      if (leadingDigits s).isEmpty then skipAfterInteger s else .error (.next .invalidNumber s)
    else if isDigitByte b then skipAfterInteger (afterDigits s)
    else .error (.here .invalidNumber s)

end UiSync.Json
