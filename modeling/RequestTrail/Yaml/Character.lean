/-!
# Characters of YAML text

Which characters may stand in a text, which end a line, and which may be written as they are. The
three spellings of a line feed are brought to one before anything else is read, so that later
stages know only the line feed and the two Unicode separators as line breaks.
-/

namespace RequestTrail.Yaml

/-- The Unicode line separator. -/
def lineSeparator : Char := Char.ofNat 0x2028

/-- The Unicode paragraph separator. -/
def paragraphSeparator : Char := Char.ofNat 0x2029

/-- The control character that moves to the next line. -/
def nextLine : Char := Char.ofNat 0x85

/-- The byte order mark. -/
def byteOrderMark : Char := Char.ofNat 0xFEFF

/-- Whether a character may stand in a text at all. -/
def isAllowed (c : Char) : Bool :=
  let n := c.toNat
  n == 0x09 || n == 0x0A || n == 0x0D || (0x20 ≤ n && n ≤ 0x7E) || n == 0x85 ||
    (0xA0 ≤ n && n ≤ 0xD7FF) || (0xE000 ≤ n && n ≤ 0xFFFD) || 0x10000 ≤ n

/-- Whether a character is written as it is; a line feed is, where lines are kept. -/
def isPrintable (c : Char) : Bool :=
  let n := c.toNat
  n == 0x0A || (0x20 ≤ n && n ≤ 0x7E) || (0xA0 ≤ n && n ≤ 0xD7FF) ||
    (0xE000 ≤ n && n ≤ 0xFFFD && n != 0xFEFF) || 0x10000 ≤ n

/-- Brings carriage returns, with or without a line feed, and next-line characters to line feeds. -/
def unifyBreaks : List Char → List Char
  | [] => []
  | '\r' :: '\n' :: rest => '\n' :: unifyBreaks rest
  | c :: rest => (if c = '\r' ∨ c = nextLine then '\n' else c) :: unifyBreaks rest

/-- Whether a character ends a line, once line feeds have one spelling. -/
def isBreak (c : Char) : Bool :=
  c == '\n' || c == lineSeparator || c == paragraphSeparator

/-- Whether a character is a space or a tab. -/
def isBlank (c : Char) : Bool :=
  c == ' ' || c == '\t'

/-- Whether a space, a tab, a line break or the end of the text comes next. -/
def endsWord : List Char → Bool
  | [] => true
  | c :: _ => isBlank c || isBreak c

/-- Whether a line break or the end of the text comes next. -/
def endsLine : List Char → Bool
  | [] => true
  | c :: _ => isBreak c

/-- Whether a character may stand in the name of an anchor, a directive or a tag handle. -/
def isNameChar (c : Char) : Bool :=
  c.isAlphanum || c == '_' || c == '-'

/-- Whether a line that starts here is a document marker. -/
def startsMarker : List Char → Bool
  | '-' :: '-' :: '-' :: rest => endsWord rest
  | '.' :: '.' :: '.' :: rest => endsWord rest
  | _ => false

/-! ### Places in a text -/

/-- A place in a text: its line, and what stands before it in the line, counted in characters and in
bytes of UTF-8. Indentation goes by characters, the reach of a key by bytes. -/
structure Position where
  line : Nat := 0
  column : Nat := 0
  offset : Nat := 0
deriving DecidableEq, Repr

namespace Position

/-- The place after a character of the line. -/
def next (position : Position) (c : Char) : Position :=
  { position with column := position.column + 1, offset := position.offset + c.utf8Size }

/-- The place after characters of the line. -/
def nextAll (position : Position) (cs : List Char) : Position :=
  cs.foldl next position

/-- The start of the following line. -/
def newLine (position : Position) : Position where
  line := position.line + 1

end Position

/-- A place in a text with the characters from there on. -/
structure Cursor extends Position where
  rest : List Char
deriving DecidableEq, Repr

namespace Cursor

/-- The place with the given characters from there on. -/
def place (position : Position) (rest : List Char) : Cursor :=
  { position with rest }

/-- Moves on within the line. -/
def skip (cursor : Cursor) (count : Nat) : Cursor :=
  place (cursor.nextAll (cursor.rest.take count)) (cursor.rest.drop count)

end Cursor

end RequestTrail.Yaml
