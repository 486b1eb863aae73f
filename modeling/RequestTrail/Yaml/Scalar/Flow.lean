import RequestTrail.Text
import RequestTrail.Yaml.Character

/-!
# Plain and quoted scalars

Reading scalars whose text flows over lines. A plain scalar goes on over lines that are indented far
enough, and ends at a comment, at a document marker and at a colon that a blank follows; inside
brackets or braces it ends at their signs too. In single quotes a quote is written twice; in double
quotes characters may be written as escapes, and an escaped line break leaves nothing.
-/

namespace RequestTrail.Yaml

/-! ### Gaps between words

Blanks stay as they are if no line ends; a single line feed is read as a space; otherwise the breaks
after the first line feed are kept.
-/

/-- The blanks and line breaks since the last word. -/
structure Gap where
  /-- The blanks before the first line break, latest first. -/
  blanks : List Char := []
  /-- The first line break, which is empty if it was escaped, and those after it, latest first. -/
  breaks : Option (List Char × List Char) := none
deriving DecidableEq, Repr

namespace Gap

/-- No gap. -/
def empty : Gap where

/-- The gap after an escaped line break. -/
def escapedBreak : Gap where
  breaks := some ([], [])

/-- Whether nothing stands in the gap. -/
def isEmpty (gap : Gap) : Bool :=
  gap.blanks.isEmpty && gap.breaks.isNone

/-- Whether a line ends in the gap. -/
def isBroken (gap : Gap) : Bool :=
  gap.breaks.isSome

/-- Adds a blank, which counts only before the first line break. -/
def addBlank (gap : Gap) (c : Char) : Gap :=
  match gap.breaks with
  | none => { gap with blanks := c :: gap.blanks }
  | some _ => gap

/-- Adds a line break. -/
def addBreak (gap : Gap) (c : Char) : Gap :=
  match gap.breaks with
  | none => { breaks := some ([c], []) }
  | some (first, more) => { gap with breaks := some (first, c :: more) }

/-- What the gap contributes to the text. -/
def text (gap : Gap) : List Char :=
  match gap.breaks with
  | none => gap.blanks.reverse
  | some (first, more) =>
    if first = ['\n'] then (if more.isEmpty then [' '] else more.reverse) else first ++ more.reverse

end Gap

/-- Puts characters before the text of a result. -/
def prepend {α : Type} (front : List Char) (result : Option (List Char × α)) :
    Option (List Char × α) :=
  result.map fun (text, rest) => (front ++ text, rest)

/-! ### Plain scalars -/

/-- The signs that end a plain scalar inside brackets or braces. -/
def isFlowSign (c : Char) : Bool :=
  c == ',' || c == '[' || c == ']' || c == '{' || c == '}'

/-- Whether a sign comes next that may not follow a colon inside brackets or braces. -/
def clashesWithColon : List Char → Bool
  | [] => false
  | c :: _ => isFlowSign c || c == '?'

/-- Whether a plain scalar ends at the character `c` that `rest` follows. -/
def endsPlain (flow : Bool) (c : Char) (rest : List Char) : Bool :=
  (c == ':' && endsWord rest) || (flow && isFlowSign c)

/-- Whether the line after a gap does not go on with the scalar. -/
def endsAfterGap (flow : Bool) (margin column : Nat) (rest : List Char) : Bool :=
  (!flow && decide (column < margin)) || (column == 0 && startsMarker rest) ||
    rest.head? == some '#'

/-- Reads a plain scalar whose further lines are indented by at least `margin`. Also tells whether
a line ended after its last word. -/
def takePlain (flow : Bool) (margin : Nat) (gap : Gap) (pos : Position) :
    List Char → Option (List Char × Bool × Cursor)
  | [] => some ([], gap.isBroken, .place pos [])
  | c :: rest =>
    if isBlank c then
      if gap.isBroken && decide (pos.column < margin) && c == '\t' then none
      else takePlain flow margin (gap.addBlank c) (pos.next c) rest
    else if isBreak c then takePlain flow margin (gap.addBreak c) pos.newLine rest
    else if (!gap.isEmpty && endsAfterGap flow margin pos.column (c :: rest)) then
      some ([], gap.isBroken, .place pos (c :: rest))
    else if flow && c == ':' && clashesWithColon rest then none
    else if endsPlain flow c rest then
      some ([], gap.isBroken, .place pos (c :: rest))
    else prepend (gap.text ++ [c]) (takePlain flow margin .empty (pos.next c) rest)

/-! ### Quoted scalars -/

/-- Reads a single-quoted scalar after its opening quote. -/
def takeSingle (gap : Gap) (pos : Position) : List Char → Option (List Char × Cursor)
  | [] => none
  | '\'' :: '\'' :: rest =>
    prepend (gap.text ++ ['\'']) (takeSingle .empty (pos.nextAll ['\'', '\'']) rest)
  | '\'' :: rest => some (gap.text, .place (pos.next '\'') rest)
  | c :: rest =>
    if isBlank c then takeSingle (gap.addBlank c) (pos.next c) rest
    else if isBreak c then takeSingle (gap.addBreak c) pos.newLine rest
    else if pos.column = 0 ∧ startsMarker (c :: rest) then none
    else prepend (gap.text ++ [c]) (takeSingle .empty (pos.next c) rest)

/-- The character that a one-letter escape stands for. -/
def escaped? : Char → Option Char
  | '0' => some '\x00'
  | 'a' => some '\x07'
  | 'b' => some '\x08'
  | 't' => some '\t'
  | '\t' => some '\t'
  | 'n' => some '\n'
  | 'v' => some '\x0b'
  | 'f' => some '\x0c'
  | 'r' => some '\r'
  | 'e' => some '\x1b'
  | ' ' => some ' '
  | '"' => some '"'
  | '/' => some '/'
  | '\\' => some '\\'
  | 'N' => some nextLine
  | '_' => some (Char.ofNat 0xA0)
  | 'L' => some lineSeparator
  | 'P' => some paragraphSeparator
  | _ => none

/-- The number written by hexadecimal digits. -/
def hexValue? (digits : List Char) : Option Nat :=
  digits.foldlM (fun n c => (Text.digitValue? c).map (n * 16 + ·)) 0

/-- The character of a code point. -/
def charOfCode? (n : Nat) : Option Char :=
  if (0xD800 ≤ n ∧ n ≤ 0xDFFF) ∨ 0x10FFFF < n then none else some (Char.ofNat n)

/-- The character that hexadecimal digits stand for. -/
def hexChar? (digits : List Char) : Option Char :=
  (hexValue? digits).bind charOfCode?

/-- Reads a double-quoted scalar after its opening quote. -/
def takeDouble (gap : Gap) (pos : Position) : List Char → Option (List Char × Cursor)
  | [] => none
  | '"' :: rest => some (gap.text, .place (pos.next '"') rest)
  | '\\' :: 'x' :: a :: b :: rest =>
    (hexChar? [a, b]).bind fun decoded =>
      prepend (gap.text ++ [decoded]) (takeDouble .empty (pos.nextAll ['\\', 'x', a, b]) rest)
  | '\\' :: 'u' :: a :: b :: c :: d :: rest =>
    (hexChar? [a, b, c, d]).bind fun decoded =>
      prepend (gap.text ++ [decoded])
        (takeDouble .empty (pos.nextAll ['\\', 'u', a, b, c, d]) rest)
  | '\\' :: 'U' :: a :: b :: c :: d :: e :: f :: g :: h :: rest =>
    (hexChar? [a, b, c, d, e, f, g, h]).bind fun decoded =>
      prepend (gap.text ++ [decoded])
        (takeDouble .empty (pos.nextAll ['\\', 'U', a, b, c, d, e, f, g, h]) rest)
  | '\\' :: c :: rest =>
    if isBreak c then prepend gap.text (takeDouble .escapedBreak pos.newLine rest)
    else
      (escaped? c).bind fun decoded =>
        prepend (gap.text ++ [decoded]) (takeDouble .empty (pos.nextAll ['\\', c]) rest)
  | c :: rest =>
    if isBlank c then takeDouble (gap.addBlank c) (pos.next c) rest
    else if isBreak c then takeDouble (gap.addBreak c) pos.newLine rest
    else if pos.column = 0 ∧ startsMarker (c :: rest) then none
    else prepend (gap.text ++ [c]) (takeDouble .empty (pos.next c) rest)

end RequestTrail.Yaml
