import RequestTrail.Yaml.Character
import RequestTrail.Yaml.Schema

/-!
# Writing YAML text

Documents of nested fields, lists and texts are written in block style. A text is written plainly
if it then reads back as itself, else in quotes; a text of several lines is written line by line if
that keeps it, and characters that cannot be written as they are become escapes in double quotes.
-/

namespace RequestTrail.Yaml

/-! ### Which styles a text allows -/

/-- The line breaks that a text may hold, in any spelling. -/
def isAnyBreak (c : Char) : Bool :=
  isBreak c || c == '\r' || c == nextLine

/-- Whether a blank, a line break or the end comes next. -/
def endsAnyWord : List Char → Bool
  | [] => true
  | c :: _ => isBlank c || isAnyBreak c

/-- Whether two neighbours satisfy the tests. -/
def hasNeighbours (left right : Char → Bool) : List Char → Bool
  | [] => false
  | c :: rest => (left c && rest.head?.any right) || hasNeighbours left right rest

/-- Whether a space stands right before a line break. -/
def hasSpaceBeforeBreak (text : List Char) : Bool :=
  hasNeighbours (· == ' ') isAnyBreak text

/-- Whether a space stands right after a line break. -/
def hasSpaceAfterBreak (text : List Char) : Bool :=
  hasNeighbours isAnyBreak (· == ' ') text

/-- Whether some character must be written as an escape. -/
def needsEscape (text : List Char) : Bool :=
  text.any fun c => !isPrintable c

/-- Whether the rest of a text, after the character `before`, holds a sign that would end it. -/
def hasInnerSign (before : Char) : List Char → Bool
  | [] => false
  | c :: rest =>
    (c == ':' && endsAnyWord rest) || (c == '#' && (isBlank before || isAnyBreak before)) ||
      hasInnerSign c rest

/-- Whether the signs of a text would be read as more than text. -/
def hasSign : List Char → Bool
  | [] => false
  | c :: rest =>
    startsDots (c :: rest) || "#,[]\x7b\x7d&*!|>'\"%@`".toList.contains c ||
      ((c == '?' || c == ':' || c == '-') && endsAnyWord rest) || hasInnerSign c rest
where
  /-- Whether a text begins like a document marker. -/
  startsDots : List Char → Bool
    | '-' :: '-' :: '-' :: _ => true
    | '.' :: '.' :: '.' :: _ => true
    | _ => false

/-- Whether a text may be written plainly. -/
def allowsPlain (text : List Char) : Bool :=
  !needsEscape text && !text.any isAnyBreak && text.head? != some ' ' &&
    text.getLast? != some ' ' && !hasSign text

/-- Whether a text may be written in single quotes. -/
def allowsSingle (text : List Char) : Bool :=
  !needsEscape text && !hasSpaceBeforeBreak text && !hasSpaceAfterBreak text

/-- Whether a text may be written line by line. -/
def allowsLines (text : List Char) : Bool :=
  !needsEscape text && !hasSpaceBeforeBreak text && text.getLast? != some ' '

/-! ### Styles -/

/-- A number of spaces. -/
def spaces (count : Nat) : List Char :=
  List.replicate count ' '

/-- Writes what stands in single quotes. A line feed is written twice, so that it is not read as a
space, and lines are indented. -/
def renderSingle (indent : Nat) (broken : Bool) : List Char → List Char
  | [] => if broken then spaces indent else []
  | c :: rest =>
    if isBreak c then
      (if !broken && c == '\n' then ['\n'] else []) ++ c :: renderSingle indent true rest
    else
      (if broken then spaces indent else []) ++ (if c == '\'' then ['\'', '\''] else [c]) ++
        renderSingle indent false rest

/-- The hexadecimal digit of a number below sixteen, in upper case. -/
def hexDigit (n : Nat) : Char :=
  if n < 10 then Char.ofNat (48 + n) else Char.ofNat (55 + n)

/-- The last `width` hexadecimal digits of a number. -/
def hexDigits : Nat → Nat → List Char
  | 0, _ => []
  | width + 1, n => hexDigits width (n / 16) ++ [hexDigit (n % 16)]

/-- The escape of a character, after the backslash. -/
def escapeCode (c : Char) : List Char :=
  let n := c.toNat
  if n = 0x00 then ['0']
  else if n = 0x07 then ['a']
  else if n = 0x08 then ['b']
  else if n = 0x09 then ['t']
  else if n = 0x0A then ['n']
  else if n = 0x0B then ['v']
  else if n = 0x0C then ['f']
  else if n = 0x0D then ['r']
  else if n = 0x1B then ['e']
  else if n = 0x22 then ['"']
  else if n = 0x5C then ['\\']
  else if n = 0x85 then ['N']
  else if n = 0xA0 then ['_']
  else if n = 0x2028 then ['L']
  else if n = 0x2029 then ['P']
  else if n ≤ 0xFF then 'x' :: hexDigits 2 n
  else if n ≤ 0xFFFF then 'u' :: hexDigits 4 n
  else 'U' :: hexDigits 8 n

/-- Writes what stands in double quotes. -/
def renderDouble (text : List Char) : List Char :=
  text.flatMap fun c =>
    if !isPrintable c || isBreak c || c == '"' || c == '\\' then '\\' :: escapeCode c else [c]

/-- The signs of a text that is written line by line: the margin if the text begins with a space or
a line break, and what becomes of the line breaks at its end. -/
def lineSigns (text : List Char) : List Char :=
  (match text with
    | c :: _ => if c == ' ' || isBreak c then ['2'] else []
    | [] => []) ++
  match text.reverse with
  | [] => ['-']
  | last :: before =>
    if !isBreak last then ['-']
    else
      match before with
      | [] => ['+']
      | c :: _ => if isBreak c then ['+'] else []

/-- Writes the lines of a text, each indented unless it is empty. -/
def renderLines (indent : Nat) (broken : Bool) : List Char → List Char
  | [] => []
  | c :: rest =>
    if isBreak c then c :: renderLines indent true rest
    else (if broken then spaces indent else []) ++ c :: renderLines indent false rest

/-- A text in single quotes, or in double quotes if it does not allow single ones. -/
def renderQuoted (indent : Nat) (text : List Char) : List Char :=
  if allowsSingle text then '\'' :: renderSingle indent false text ++ ['\'']
  else '"' :: renderDouble text ++ ['"']

/-- A text in the style that fits it. -/
def renderText (indent : Nat) (text : List Char) : List Char :=
  if text.contains '\n' then
    if allowsLines text then '|' :: lineSigns text ++ '\n' :: renderLines indent true text
    else '"' :: renderDouble text ++ ['"']
  else if !looksTyped text && allowsPlain text then text
  else renderQuoted indent text

/-! ### Documents -/

/-- What a document is written from. -/
inductive Block where
  /-- A word that is written as it is. -/
  | word (word : List Char)
  /-- A text in the style that fits it. -/
  | text (text : String)
  /-- A character, always in quotes. -/
  | char (c : Char)
  /-- A list of texts. -/
  | texts (items : List String)
  /-- Named fields. -/
  | fields (fields : List (String × Block))

/-- Ends a line, unless a line break has ended it. -/
def endLine (line : List Char) : List Char :=
  if line.getLast?.any isBreak then line else line ++ ['\n']

namespace Block

/-- An item of a list. -/
def renderItem (indent : Nat) (item : String) : List Char :=
  spaces indent ++ '-' :: ' ' :: endLine (renderText (indent + 2) item.toList)

mutual

/-- Writes what follows the colon of a field. -/
def renderValue (indent : Nat) : Block → List Char
  | .word w => ' ' :: w ++ ['\n']
  | .text s => ' ' :: endLine (renderText (indent + 2) s.toList)
  | .char c => ' ' :: endLine (renderQuoted (indent + 2) [c])
  | .texts [] => [' ', '[', ']', '\n']
  | .texts items => '\n' :: items.flatMap (renderItem indent)
  | .fields [] => [' ', '{', '}', '\n']
  | .fields (first :: more) => '\n' :: renderFields (indent + 2) (first :: more)

/-- Writes fields, each on lines of its own. -/
def renderFields (indent : Nat) : List (String × Block) → List Char
  | [] => []
  | (name, value) :: more =>
    spaces indent ++ name.toList ++ ':' :: value.renderValue indent ++ renderFields indent more

end

end Block

/-- The text of a document of fields. -/
def renderDocument : List (String × Block) → String
  | [] => "\x7b\x7d\n"
  | fields => String.ofList (Block.renderFields 0 fields)

end RequestTrail.Yaml
