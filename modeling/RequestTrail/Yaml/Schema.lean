import RequestTrail.Text

/-!
# What plain words mean

Plain scalars that stand for nothing, for a truth value or for a number. Integers are decimal,
hexadecimal, octal or binary; a row of digits with a leading zero is no number. The writer of texts
asks the same rules which texts must be quoted.
-/

namespace RequestTrail.Yaml

/-- Whether a word stands for nothing. -/
def isNullWord (word : List Char) : Bool :=
  ["null", "Null", "NULL", "~"].any fun w => w.toList == word

/-- The truth value of a word. -/
def boolWord? (word : List Char) : Option Bool :=
  if ["true", "True", "TRUE"].any fun w => w.toList == word then some true
  else if ["false", "False", "FALSE"].any fun w => w.toList == word then some false
  else none

/-- Whether a character is a sign of a number. -/
def isSign (c : Char) : Bool :=
  c == '+' || c == '-'

/-- A word without the sign at its front. -/
def dropSign : List Char → List Char
  | [] => []
  | c :: rest => if isSign c then rest else c :: rest

/-- Whether a word is a row of digits, perhaps with a sign, that begins with a needless zero. -/
def hasLeadingZero (word : List Char) : Bool :=
  match dropSign word with
  | '0' :: c :: rest => (c :: rest).all Char.isDigit
  | _ => false

/-- The number below `bound` that digits of a base write. -/
def radixBelow? (base bound : Nat) (digits : List Char) : Option Nat :=
  if digits.isEmpty then none
  else
    let step (n : Nat) (c : Char) : Option Nat := do
      let d ← Text.digitValue? c
      let next := n * base + d
      if d < base ∧ next < bound then some next else none
    digits.foldlM step 0

/-- The base that the mark at the front of a word names, and the digits after the mark. -/
def based? : List Char → Option (Nat × List Char)
  | '0' :: 'x' :: digits => some (16, digits)
  | '0' :: 'o' :: digits => some (8, digits)
  | '0' :: 'b' :: digits => some (2, digits)
  | _ => none

/-- The number below `bound` that a word without sign writes. -/
def unsignedBelow? (bound : Nat) (word : List Char) : Option Nat :=
  match based? word with
  | some (base, digits) => radixBelow? base bound digits
  | none => radixBelow? 10 bound word

/-- The natural number below `bound` that a word writes; a plus may stand before it. -/
def natWord? (bound : Nat) (word : List Char) : Option Nat :=
  if hasLeadingZero word then none
  else
    match word with
    | '+' :: word => unsignedBelow? bound word
    | word => unsignedBelow? bound word

/-- Whether a word writes a negative number down to `-bound`. -/
def isNegativeWord (bound : Nat) (word : List Char) : Bool :=
  match word with
  | '-' :: rest => !hasLeadingZero word && (unsignedBelow? (bound + 1) rest).isSome
  | _ => false

/-- The digits and the decimal exponent of a number with a point or an exponent, without sign. -/
def decimalParts? (word : List Char) : Option (List Char × Int) := do
  let whole := word.takeWhile Char.isDigit
  let rest := word.dropWhile Char.isDigit
  let (fraction, rest) :=
    match rest with
    | '.' :: rest => (rest.takeWhile Char.isDigit, rest.dropWhile Char.isDigit)
    | rest => ([], rest)
  if whole.isEmpty && fraction.isEmpty then none
  let exponent : Int ←
    match rest with
    | [] => some 0
    | mark :: rest =>
      if mark == 'e' || mark == 'E' then
        let digits := dropSign rest
        if digits.isEmpty || !digits.all Char.isDigit then none
        else if rest.head? == some '-' then some (-(Text.value digits : Int))
        else some (Text.value digits : Int)
      else none
  return (whole ++ fraction, exponent - fraction.length)

/-- Whether a word writes a finite decimal number, or infinity or "not a number" by name. -/
def isFloatWord (word : List Char) : Bool :=
  let unsigned :=
    match word with
    | '+' :: rest => rest
    | word => word
  let isWord (words : List String) (word : List Char) : Bool := words.any fun w => w.toList == word
  isWord [".inf", ".Inf", ".INF"] unsigned || isWord ["-.inf", "-.Inf", "-.INF"] word ||
    isWord [".nan", ".NaN", ".NAN"] word ||
    ((decimalParts? (dropSign word)).any fun (digits, exponent) =>
      !Binary64.decimalOverflows (Text.value digits) exponent)

/-- Whether a text would be read as something else than a text if it were written plainly. -/
def looksTyped (text : List Char) : Bool :=
  text.isEmpty || isNullWord text || (boolWord? text).isSome ||
    (natWord? (Nat.pow 2 128) text).isSome || isNegativeWord (Nat.pow 2 127) text ||
    isFloatWord text || hasLeadingZero text

end RequestTrail.Yaml
