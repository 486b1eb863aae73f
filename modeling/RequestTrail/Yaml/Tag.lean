import RequestTrail.Text
import RequestTrail.Yaml.Scalar.Block
import RequestTrail.Yaml.Token

/-!
# Tags and directives

Reading the names that the other tokens carry: tags, of the forms `!<uri>`, `!handle!suffix` and
`!suffix`, and the directives for the version and for tag handles.
-/

namespace RequestTrail.Yaml

/-! ### Names in tags -/

/-- Whether a character may stand in a tag; `verbatim` tags may hold flow signs too. -/
def isUriChar (verbatim : Bool) (c : Char) : Bool :=
  isNameChar c || ";/?:@&=+$.%!~*'()".toList.contains c ||
    (verbatim && (c == ',' || c == '[' || c == ']'))

/-- The character of the octets of an escaped character; one that stands for none is replaced. -/
def octetsChar (size n : Nat) : Char :=
  let least := match size with
    | 1 => 0
    | 2 => 0x80
    | 3 => 0x800
    | _ => 0x10000
  if least ≤ n ∧ n.isValidChar then Char.ofNat n else Char.ofNat 0xFFFD

/-- The number of octets of a character and the bits of the first one, given the first octet. -/
def firstOctet? (n : Nat) : Option (Nat × Nat) :=
  if n < 0x80 then some (1, n)
  else if n < 0xC0 then none
  else if n < 0xE0 then some (2, n - 0xC0)
  else if n < 0xF0 then some (3, n - 0xE0)
  else if n < 0xF8 then some (4, n - 0xF0)
  else none

/-- Reads the escapes among the characters of a tag. An escaped character is written octet by octet;
`octets` are the number of octets of one that has been begun, those still to come, and the bits so
far. -/
def unescapeUri? (octets : Option (Nat × Nat × Nat)) : List Char → Option (List Char)
  | [] => if octets.isNone then some [] else none
  | '%' :: a :: b :: rest =>
    match Text.digitValue? a, Text.digitValue? b with
    | some a, some b =>
      let n := a * 16 + b
      match octets with
      | none =>
        match firstOctet? n with
        | none => none
        | some (1, bits) => (unescapeUri? none rest).map (octetsChar 1 bits :: ·)
        | some (size, bits) => unescapeUri? (some (size, size - 1, bits)) rest
      | some (size, left, bits) =>
        if n / 64 = 2 then
          let bits := bits * 64 + n % 64
          if left = 1 then (unescapeUri? none rest).map (octetsChar size bits :: ·)
          else unescapeUri? (some (size, left - 1, bits)) rest
        else none
    | _, _ => none
  | c :: rest =>
    if octets.isSome || c == '%' then none else (unescapeUri? none rest).map (c :: ·)

/-- The name that the characters of a tag give. An escaped null character ends it. -/
def tagName? (uri : List Char) : Option (List Char) :=
  (unescapeUri? none uri).map fun name => name.takeWhile (· != '\x00')

/-- Reads a tag handle: an exclamation mark, a name, and the closing mark if there is one. -/
def takeHandle? : List Char → Option (List Char × List Char)
  | '!' :: cs =>
    let name := cs.takeWhile isNameChar
    match cs.dropWhile isNameChar with
    | '!' :: rest => some ('!' :: name ++ ['!'], rest)
    | rest => some ('!' :: name, rest)
  | _ => none

/-- Reads a tag as its handle and suffix, with the number of its characters. The tag `!`, which
names nothing more, has no handle. -/
def takeTag? : List Char → Option (List Char × List Char × Nat)
  | '!' :: '<' :: cs => do
    let uri := cs.takeWhile (isUriChar true)
    if uri.isEmpty || (cs.dropWhile (isUriChar true)).head? != some '>' then none
    return ([], ← tagName? uri, uri.length + 3)
  | cs => do
    let (handle, rest) ← takeHandle? cs
    let uri := rest.takeWhile (isUriChar false)
    let length := handle.length + uri.length
    if 1 < handle.length ∧ handle.getLast? = some '!' then
      if uri.isEmpty then none else return (handle, ← tagName? uri, length)
    else
      match ← tagName? (handle.tail ++ uri) with
      | [] => return ([], ['!'], length)
      | suffix => return (['!'], suffix, length)

/-! ### Directives -/

/-- Reads a number of at most nine digits. -/
def takeVersionNumber? (cs : List Char) : Option (Nat × List Char) :=
  let digits := cs.takeWhile Char.isDigit
  if digits.isEmpty ∨ 9 < digits.length then none
  else some (Text.value digits, cs.dropWhile Char.isDigit)

/-- Reads what follows the name of a version directive. -/
def takeVersion? (cs : List Char) : Option (Token × List Char) := do
  let (major, rest) ← takeVersionNumber? (cs.dropWhile isBlank)
  match rest with
  | '.' :: rest =>
    let (minor, rest) ← takeVersionNumber? rest
    return (.version major minor, rest)
  | _ => none

/-- Whether a handle may be declared. -/
def isDeclarable (handle : List Char) : Bool :=
  handle == ['!'] || (decide (1 < handle.length) && handle.getLast? == some '!')

/-- Reads what follows the name of a tag directive. -/
def takeTagHandle? (cs : List Char) : Option (Token × List Char) := do
  let (handle, rest) ← takeHandle? (cs.dropWhile isBlank)
  if !isDeclarable handle then none
  match rest with
  | c :: _ =>
    if !isBlank c then none
    let rest := rest.dropWhile isBlank
    let uri := rest.takeWhile (isUriChar true)
    let rest := rest.dropWhile (isUriChar true)
    if uri.isEmpty || !endsWord rest then none
    return (.tagHandle handle (← tagName? uri), rest)
  | [] => none

/-- Reads a directive after its sign, up to the line break. -/
def takeDirective? (cs : List Char) : Option (Token × List Char) := do
  let name := cs.takeWhile isNameChar
  let rest := cs.dropWhile isNameChar
  if !endsWord rest then none
  let (token, rest) ←
    if name = "YAML".toList then takeVersion? rest
    else if name = "TAG".toList then takeTagHandle? rest
    else none
  return (token, ← restOfLine? rest)

end RequestTrail.Yaml
