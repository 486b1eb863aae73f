import RequestTrail.Yaml.Scalar.Block
import RequestTrail.Yaml.Scalar.Flow
import RequestTrail.Yaml.Tag

/-!
# From text to tokens

The tokens of a text are found one by one. A key is known as such only when the colon after it is
met: the lexer remembers where a key may have begun, one place for each level of brackets and
braces, and puts the key token there in retrospect. Such a key must fit into one line and into 1024
bytes. Columns at which blocks begin are kept on a stack, and leaving a column ends its block.
-/

namespace RequestTrail.Yaml

/-- A place where a key may have begun. -/
structure PossibleKey extends Position where
  /-- The number of tokens before the place. -/
  index : Nat
  /-- Whether the text is wrong if this is no key. -/
  required : Bool
deriving DecidableEq, Repr

/-- The state of reading tokens. -/
structure Lexer where
  cursor : Cursor
  /-- The columns of the open blocks, innermost first. -/
  indents : List Nat := []
  /-- The possible key at the innermost level of brackets and braces. -/
  key : Option PossibleKey := none
  /-- The possible keys at the outer levels, innermost first. -/
  outerKeys : List (Option PossibleKey) := []
  /-- Whether a key may begin here. -/
  keyAllowed : Bool := true
  tokens : TokenLog := {}
deriving Repr

namespace Lexer

/-- Whether the place is inside brackets or braces. -/
def inFlow (l : Lexer) : Bool :=
  !l.outerKeys.isEmpty

/-- The number of columns that the open blocks take up. -/
def depth (l : Lexer) : Nat :=
  match l.indents with
  | [] => 0
  | column :: _ => column + 1

/-- Adds a token. -/
def emit (l : Lexer) (token : Token) : Lexer :=
  { l with tokens := l.tokens.push token }

/-- Puts a token before those from the given index on. -/
def insertToken (l : Lexer) (index : Nat) (token : Token) : Lexer :=
  { l with tokens := l.tokens.insertAt index token }

/-- Adds a token of `count` characters. -/
def emitSkip (l : Lexer) (count : Nat) (token : Token) : Lexer :=
  { l with cursor := l.cursor.skip count }.emit token

/-! ### Keys and blocks -/

/-- The most bytes between the start of a key and the colon after it. -/
def keyReach : Nat := 1024

/-- Gives up a possible key that the place has left behind, unless it is required. -/
def expireKey (cursor : Cursor) : Option PossibleKey → Option (Option PossibleKey)
  | none => some none
  | some key =>
    if key.line < cursor.line ∨ key.offset + keyReach < cursor.offset then
      if key.required then none else some none
    else some (some key)

/-- Gives up the possible keys that the place has left behind. -/
def expireKeys (l : Lexer) : Option Lexer := do
  return { l with
    key := ← expireKey l.cursor l.key
    outerKeys := ← l.outerKeys.mapM (expireKey l.cursor) }

/-- Gives up the possible key of the innermost level, unless it is required. -/
def dropKey (l : Lexer) : Option Lexer :=
  match l.key with
  | none => some l
  | some key => if key.required then none else some { l with key := none }

/-- Remembers that a key may begin here. It is required if it stands where the keys of the open
block do. -/
def saveKey (l : Lexer) : Option Lexer :=
  if l.keyAllowed then do
    let required := !l.inFlow && l.indents.head? == some l.cursor.column
    let l ← l.dropKey
    return { l with key := some { l.cursor.toPosition with index := l.tokens.size, required } }
  else some l

/-- Opens a block at a column, if it is further to the right than the open ones. Its token goes to
the given index, else to the end. -/
def openBlock (l : Lexer) (column : Nat) (index : Option Nat) (token : Token) : Lexer :=
  if l.inFlow || decide (column < l.depth) then l
  else
    let l := { l with indents := column :: l.indents }
    match index with
    | some index => l.insertToken index token
    | none => l.emit token

/-- Closes the innermost blocks that satisfy a test of their column; none inside brackets or
braces. -/
def closeBlocks (l : Lexer) (test : Nat → Bool) : Lexer :=
  if l.inFlow then l
  else
    (l.indents.takeWhile test).foldl (fun l _ => l.emit .blockEnd)
      { l with indents := l.indents.dropWhile test }

/-! ### Tokens -/

/-- Whether a character counts as a blank between tokens: a byte order mark only at the start of a
line, a tab only where no key may begin. -/
def isSkipped (flow keyAllowed : Bool) (column : Nat) (c : Char) : Bool :=
  c == ' ' || (c == byteOrderMark && column == 0) || (c == '\t' && (flow || !keyAllowed))

/-- Skips blanks, comments and line breaks. A new line may start a key, except inside brackets and
braces. -/
def skipSpace (flow keyAllowed comment : Bool) (pos : Position) : List Char → Cursor × Bool
  | [] => (.place pos [], keyAllowed)
  | c :: rest =>
    if isBreak c then skipSpace flow (keyAllowed || !flow) false pos.newLine rest
    else if comment then skipSpace flow keyAllowed true (pos.next c) rest
    else if isSkipped flow keyAllowed pos.column c then
      skipSpace flow keyAllowed false (pos.next c) rest
    else if c = '#' then skipSpace flow keyAllowed true (pos.next c) rest
    else (.place pos (c :: rest), keyAllowed)

/-- Moves on to the next token. -/
def advance (l : Lexer) : Lexer :=
  let (cursor, keyAllowed) :=
    skipSpace l.inFlow l.keyAllowed false l.cursor.toPosition l.cursor.rest
  { l with cursor, keyAllowed }

/-- Ends all blocks before a token that stands for the document as a whole. -/
def leaveBlocks (l : Lexer) : Option Lexer := do
  let l ← (l.closeBlocks fun _ => true).dropKey
  return { l with keyAllowed := false }

/-- Reads a directive. -/
def lexDirective (l : Lexer) (rest : List Char) : Option Lexer := do
  let l ← l.leaveBlocks
  let (token, rest) ← takeDirective? rest
  let cursor : Cursor :=
    match rest with
    | [] => .place l.cursor.toPosition []
    | _ :: rest => .place l.cursor.newLine rest
  return { l with cursor }.emit token

/-- Reads a document marker. -/
def lexMarker (l : Lexer) (token : Token) : Option Lexer := do
  return (← l.leaveBlocks).emitSkip 3 token

/-- Reads an opening bracket or brace, which may begin a key and before a key. -/
def lexFlowStart (l : Lexer) (token : Token) : Option Lexer := do
  let l ← l.saveKey
  return { l with key := none, outerKeys := l.key :: l.outerKeys, keyAllowed := true }.emitSkip 1 token

/-- Reads a closing bracket or brace. -/
def lexFlowEnd (l : Lexer) (token : Token) : Option Lexer := do
  let l ← l.dropKey
  let l :=
    match l.outerKeys with
    | [] => l
    | key :: outerKeys => { l with key, outerKeys }
  return { l with keyAllowed := false }.emitSkip 1 token

/-- Reads a comma between the items of brackets or braces. -/
def lexFlowEntry (l : Lexer) : Option Lexer := do
  let l ← l.dropKey
  return { l with keyAllowed := true }.emitSkip 1 .flowEntry

/-- Reads the dash of an item, which may open a block. -/
def lexBlockEntry (l : Lexer) : Option Lexer := do
  if !l.inFlow && !l.keyAllowed then none
  let l ← (l.openBlock l.cursor.column none .blockSequence).dropKey
  return { l with keyAllowed := true }.emitSkip 1 .blockEntry

/-- Reads the question mark of an explicit key, which may open a block. -/
def lexKey (l : Lexer) : Option Lexer := do
  if !l.inFlow && !l.keyAllowed then none
  let l ← (l.openBlock l.cursor.column none .blockMapping).dropKey
  return { l with keyAllowed := !l.inFlow }.emitSkip 1 .key

/-- Reads the colon before a value. If a key may have begun before, it did. -/
def lexValue (l : Lexer) : Option Lexer :=
  match l.key with
  | some key =>
    let l := (l.insertToken key.index .key).openBlock key.column (some key.index) .blockMapping
    some ({ l with key := none, keyAllowed := false }.emitSkip 1 .value)
  | none =>
    if !l.inFlow && !l.keyAllowed then none
    else
      let l := l.openBlock l.cursor.column none .blockMapping
      some ({ l with keyAllowed := !l.inFlow }.emitSkip 1 .value)

/-- The signs that may follow the name of an anchor, besides blanks. -/
def isNameEnd : List Char → Bool
  | [] => true
  | c :: _ => isBlank c || isBreak c || "?:,]\x7d%@`".toList.contains c

/-- Reads an anchor or an alias, whose sign `rest` follows. -/
def lexName (l : Lexer) (token : List Char → Token) (rest : List Char) : Option Lexer := do
  let l ← l.saveKey
  let name := rest.takeWhile isNameChar
  if name.isEmpty || !isNameEnd (rest.dropWhile isNameChar) then none
  return { l with keyAllowed := false }.emitSkip (name.length + 1) (token name)

/-- Reads a tag. -/
def lexTag (l : Lexer) : Option Lexer := do
  let l ← l.saveKey
  let (handle, suffix, length) ← takeTag? l.cursor.rest
  let l := { l with keyAllowed := false }.emitSkip length (.tag handle suffix)
  if endsWord l.cursor.rest || (l.inFlow && l.cursor.rest.head? == some ',') then some l else none

/-- Reads a block scalar, whose sign `rest` follows. A key may begin after it. -/
def lexBlock (l : Lexer) (folded : Bool) (rest : List Char) : Option Lexer := do
  let l ← l.dropKey
  let (text, cursor) ← takeBlock folded l.depth l.cursor.toPosition rest
  return { l with keyAllowed := true, cursor }.emit
    (.scalar (if folded then .folded else .literal) text)

/-- Reads a quoted scalar, whose opening quote `rest` follows. -/
def lexQuoted (l : Lexer) (double : Bool) (rest : List Char) : Option Lexer := do
  let l ← l.saveKey
  let take := if double then takeDouble else takeSingle
  let (text, cursor) ← take .empty (l.cursor.next (if double then '"' else '\'')) rest
  return { l with keyAllowed := false, cursor }.emit
    (.scalar (if double then .doubleQuoted else .singleQuoted) text)

/-- Reads a plain scalar. A key may begin after it if its line has ended. -/
def lexPlain (l : Lexer) : Option Lexer := do
  let l ← l.saveKey
  let (text, ended, cursor) ←
    takePlain l.inFlow l.depth .empty l.cursor.toPosition l.cursor.rest
  return { l with keyAllowed := ended, cursor }.emit (.scalar .plain text)

/-- Whether a plain scalar may begin with the character `c` that `rest` follows. -/
def startsPlain (flow : Bool) (c : Char) (rest : List Char) : Bool :=
  !(isBlank c || isBreak c || "-?:,[]\x7b\x7d#&*!|>'\"%@`".toList.contains c) ||
    (c == '-' && !rest.head?.any isBlank) ||
    (!flow && (c == '?' || c == ':') && !endsWord rest)

/-- Reads the next token, which begins with the character `c`. -/
def lexToken (l : Lexer) (c : Char) (rest : List Char) : Option Lexer :=
  if l.cursor.column = 0 ∧ c = '%' then l.lexDirective rest
  else if l.cursor.column = 0 ∧ c = '-' ∧ startsMarker (c :: rest) then l.lexMarker .documentStart
  else if l.cursor.column = 0 ∧ c = '.' ∧ startsMarker (c :: rest) then l.lexMarker .documentEnd
  else if c = '[' then l.lexFlowStart .flowSequence
  else if c = '{' then l.lexFlowStart .flowMapping
  else if c = ']' then l.lexFlowEnd .flowSequenceEnd
  else if c = '}' then l.lexFlowEnd .flowMappingEnd
  else if c = ',' then l.lexFlowEntry
  else if c = '-' ∧ endsWord rest then l.lexBlockEntry
  else if c = '?' ∧ (l.inFlow || endsWord rest) then l.lexKey
  else if c = ':' ∧ (l.inFlow || endsWord rest) then l.lexValue
  else if c = '*' then l.lexName .alias rest
  else if c = '&' then l.lexName .anchor rest
  else if c = '!' then l.lexTag
  else if c = '|' ∧ !l.inFlow then l.lexBlock false rest
  else if c = '>' ∧ !l.inFlow then l.lexBlock true rest
  else if c = '\'' then l.lexQuoted false rest
  else if c = '"' then l.lexQuoted true rest
  else if startsPlain l.inFlow c rest then l.lexPlain
  else none

/-- Reads the tokens up to the end of the text. Every token takes a character, so the length of the
text bounds their number. -/
def run : Nat → Lexer → Option (List Token)
  | 0, _ => none
  | n + 1, l => do
    let l ← l.advance.expireKeys
    let l := l.closeBlocks fun column => decide (l.cursor.column < column)
    match l.cursor.rest with
    | [] =>
      let l ← l.leaveBlocks
      return l.tokens.toList
    | c :: rest => run n (← l.lexToken c rest)

end Lexer

/-- The tokens of a text. -/
def tokens? (text : List Char) : Option (List Token) :=
  if text.all isAllowed then
    let text := unifyBreaks text
    Lexer.run (text.length + 1) { cursor := { rest := text } }
  else none

end RequestTrail.Yaml
