import RequestTrail.Text

/-!
# JSON numbers

A number as it is written: sign, whole part, fraction and exponent, each as its digits. Integers
are read from numbers that have a whole part only. A number that is to be stored must have a finite
double precision value; that value is formed from the digits that fit into 64 bits.
-/

namespace RequestTrail.Json

/-- The parts of a written number. -/
structure Number where
  negative : Bool := false
  whole : List Char
  fraction : List Char := []
  /-- Whether the exponent is negative, and its digits. -/
  exponent : Option (Bool × List Char) := none
deriving DecidableEq, Repr

namespace Number

/-- The number written as a natural number is. -/
def ofNat (n : Nat) : Number where
  whole := Text.numeral n

/-- The characters of a number. -/
def render (n : Number) : List Char :=
  (if n.negative then ['-'] else []) ++ n.whole ++
    (if n.fraction.isEmpty then [] else '.' :: n.fraction) ++
    match n.exponent with
    | none => []
    | some (negative, digits) => 'e' :: (if negative then ['-'] else []) ++ digits

/-- Splits off the digits at the front, of which there must be one. -/
def takeDigits? (cs : List Char) : Option (List Char × List Char) :=
  match cs.takeWhile Char.isDigit with
  | [] => none
  | digits => some (digits, cs.dropWhile Char.isDigit)

/-- Reads a fraction, if a point stands at the front. -/
def takeFraction? : List Char → Option (List Char × List Char)
  | '.' :: cs => takeDigits? cs
  | cs => some ([], cs)

/-- Reads a signed exponent, of which the mark has been read. -/
def takeSignedDigits? : List Char → Option ((Bool × List Char) × List Char)
  | '-' :: cs => (takeDigits? cs).map fun (digits, cs) => ((true, digits), cs)
  | '+' :: cs => (takeDigits? cs).map fun (digits, cs) => ((false, digits), cs)
  | cs => (takeDigits? cs).map fun (digits, cs) => ((false, digits), cs)

/-- Reads an exponent, if its mark stands at the front. -/
def takeExponent? : List Char → Option (Option (Bool × List Char) × List Char)
  | 'e' :: cs => (takeSignedDigits? cs).map fun (e, cs) => (some e, cs)
  | 'E' :: cs => (takeSignedDigits? cs).map fun (e, cs) => (some e, cs)
  | cs => some (none, cs)

/-- Reads a number without its sign. -/
def takeUnsigned? (negative : Bool) (cs : List Char) : Option (Number × List Char) := do
  let (whole, cs) ← takeDigits? cs
  if !Text.isCanonical whole then none
  let (fraction, cs) ← takeFraction? cs
  let (exponent, cs) ← takeExponent? cs
  return ({ negative, whole, fraction, exponent }, cs)

/-- Reads a number from the front. -/
def take? : List Char → Option (Number × List Char)
  | '-' :: cs => takeUnsigned? true cs
  | cs => takeUnsigned? false cs

/-- The natural number below `bound` that is written without sign, fraction and exponent. -/
def toNatBelow? (bound : Nat) (n : Number) : Option Nat :=
  if !n.negative && n.fraction.isEmpty && n.exponent.isNone then
    Text.canonicalBelow? bound n.whole
  else none

/-- Appends digits to a 64-bit significand while they fit; also counts the digits left over. -/
def absorb (significand : Nat) : List Char → Nat × Nat
  | [] => (significand, 0)
  | c :: cs =>
    let next := significand * 10 + Text.digitValue c
    if next < 2 ^ 64 then absorb next cs else (significand, cs.length + 1)

/-- The significand and the decimal exponent from which the value is formed: digits of the whole
part that do not fit raise the exponent, digits of the fraction that do not fit are dropped. -/
def parts (n : Number) : Nat × Int :=
  let (whole, left) := absorb 0 n.whole
  let (significand, dropped) := absorb whole n.fraction
  let shift : Int := left - (n.fraction.length - dropped : Nat)
  match n.exponent with
  | none => (significand, shift)
  | some (negative, digits) =>
    let e : Int := Text.value digits
    (significand, if negative then shift - e else shift + e)

/-- Whether the number has no finite double precision value. -/
def overflows (n : Number) : Bool :=
  match n.parts with
  | (significand, .ofNat e) =>
    significand != 0 && (decide (309 ≤ e) ||
      decide (Binary64.limit ≤ Binary64.roundNat significand * Binary64.roundNat (Nat.pow 10 e)))
  | (_, .negSucc _) => false

end Number

end RequestTrail.Json
