/-!
# Finite doubles

A finite double is a sign and a magnitude: the 63 bits below the sign bit, which order the
doubles of one sign as numbers. `Double.parts` splits a magnitude into `(m, q)`, standing for
`m · 2^(q - 1074)`.

All arithmetic is exact on natural numbers and rounded once, to the nearest double, a tie going
to the even magnitude (`roundRatio`). A result too large for a finite double is `none`.
-/

namespace UiSync.Json

/-- the first magnitude that is not finite -/
def infiniteMagnitude : Nat := 0x7FF0000000000000

/-- a finite double -/
structure Double where
  negative : Bool
  magnitude : Nat
  finite : magnitude < infiniteMagnitude
  deriving DecidableEq

namespace Double

def zero : Double := ⟨false, 0, by decide⟩

instance : Inhabited Double := ⟨zero⟩

/-- the magnitudes that share an exponent, `2^52` of them -/
def binade : Nat := 0x10000000000000

/-- `(m, q)` for a magnitude worth `m · 2^(q - 1074)` -/
def parts (magnitude : Nat) : Nat × Nat :=
  if magnitude < binade then (magnitude, 0)
  else (binade + magnitude % binade, magnitude / binade - 1)

/-- `num / den` rounded to a whole number, a tie going to the even neighbour -/
def roundHalfEven (num den : Nat) : Nat :=
  let q := num / den
  let r := num % den
  if 2 * r < den then q
  else if den < 2 * r then q + 1
  else if q % 2 = 0 then q else q + 1

/-- the magnitude nearest to `num / den` -/
def roundRatio (num den : Nat) : Nat :=
  let scaled := num <<< 1074
  let q := (scaled / den).log2 - 52
  q * binade + roundHalfEven scaled (den <<< q)

/-- a double from its magnitude, when that is finite -/
def ofMagnitude? (negative : Bool) (magnitude : Nat) : Option Double :=
  if h : magnitude < infiniteMagnitude then some ⟨negative, magnitude, h⟩ else none

/-- the double nearest to `num / den` -/
def ofRatio? (negative : Bool) (num den : Nat) : Option Double :=
  ofMagnitude? negative (roundRatio num den)

/-- the double nearest to a whole number -/
def ofInt? (n : Int) : Option Double := ofRatio? (n < 0) n.natAbs 1

def isZero (x : Double) : Bool := x.magnitude == 0

def neg (x : Double) : Double := ⟨!x.negative, x.magnitude, x.finite⟩

def mul? (x y : Double) : Option Double :=
  let (m, p) := parts x.magnitude
  let (n, q) := parts y.magnitude
  ofRatio? (x.negative != y.negative) ((m * n) <<< (p + q)) (1 <<< 2148)

def div? (x y : Double) : Option Double :=
  let (m, p) := parts x.magnitude
  let (n, q) := parts y.magnitude
  ofRatio? (x.negative != y.negative) (m <<< p) (n <<< q)

/-- equality of numbers: the two zeros are equal -/
def same (x y : Double) : Bool :=
  x.magnitude == y.magnitude && (x.negative == y.negative || x.magnitude == 0)

end Double

end UiSync.Json
