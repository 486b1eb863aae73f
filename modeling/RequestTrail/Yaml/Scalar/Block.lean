import RequestTrail.Text
import RequestTrail.Yaml.Scalar.Flow

/-!
# Block scalars

Reading scalars that a bar or an angle introduces and whose lines stand at a common margin. The
margin is given in the header or is that of the first line with text. Literal scalars keep their
lines; folded ones join neighbouring lines that begin with no blank.
-/

namespace RequestTrail.Yaml

/-- What becomes of the line breaks at the end. -/
inductive Chomping where
  /-- All are dropped. -/
  | strip
  /-- The first is kept. -/
  | clip
  /-- All are kept. -/
  | keep
deriving DecidableEq, Repr

/-- The breaks at the end that are kept, of the first one and those after it, latest first. -/
def Chomping.tail (chomping : Chomping) (first more : List Char) : List Char :=
  match chomping with
  | .strip => []
  | .clip => first
  | .keep => first ++ more.reverse

/-- Reads a chomping sign, if there is one. -/
def takeChomping : List Char → Option Chomping × List Char
  | '+' :: rest => (some .keep, rest)
  | '-' :: rest => (some .strip, rest)
  | rest => (none, rest)

/-- Reads the digit for the margin, if there is one; it may not be zero. -/
def takeIncrement? : List Char → Option (Option Nat × List Char)
  | '0' :: _ => none
  | c :: rest => if c.isDigit then some (some (Text.digitValue c), rest) else some (none, c :: rest)
  | [] => some (none, [])

/-- Reads the two signs of a header, in either order. -/
def takeSigns? (cs : List Char) : Option (Chomping × Option Nat × List Char) :=
  match takeChomping cs with
  | (some chomping, rest) =>
    (takeIncrement? rest).map fun (increment, rest) => (chomping, increment, rest)
  | (none, rest) =>
    (takeIncrement? rest).map fun (increment, rest) =>
      match increment with
      | none => (.clip, none, rest)
      | some n =>
        let (chomping, rest) := takeChomping rest
        (chomping.getD .clip, some n, rest)

/-- Skips blanks and a comment; nothing else may stand before the line break or the end. Leaves the
line break. -/
def restOfLine? (cs : List Char) : Option (List Char) :=
  match cs.dropWhile isBlank with
  | '#' :: rest => some (rest.dropWhile fun c => !isBreak c)
  | rest => if endsLine rest then some rest else none

/-- Skips spaces and line breaks before the first line with text. Returns the line breaks and the
widest indentation that was met. -/
def takeLeading (widest : Nat) (pos : Position) : List Char → Option (List Char × Nat × Cursor)
  | [] => some ([], max widest pos.column, .place pos [])
  | c :: rest =>
    if c = ' ' then takeLeading widest (pos.next c) rest
    else if c = '\t' then none
    else if isBreak c then prepend [c] (takeLeading (max widest pos.column) pos.newLine rest)
    else some ([], max widest pos.column, .place pos (c :: rest))

/-- Where the reader of a block scalar stands. -/
inductive BlockPlace where
  /-- In a line with text, which may have begun with a blank. -/
  | text (blank : Bool)
  /-- In the margin, after the break of the last line with text, further breaks, latest first, and a
  last line that may have begun with a blank. -/
  | margin (first more : List Char) (blank : Bool)
deriving DecidableEq, Repr

/-- What stands for the breaks between two lines with text; those after the first are given latest
first. -/
def joinLines (folded : Bool) (first more : List Char) (blank nextBlank : Bool) : List Char :=
  if folded && first == ['\n'] && !blank && !nextBlank then
    (if more.isEmpty then [' '] else more.reverse)
  else first ++ more.reverse

/-- Reads the lines of a block scalar whose text stands at the column `margin`. -/
def takeLines (folded : Bool) (chomping : Chomping) (margin : Nat) (place : BlockPlace)
    (pos : Position) : List Char → Option (List Char × Cursor)
  | [] =>
    match place with
    | .text _ => some ([], .place pos [])
    | .margin first more _ => some (chomping.tail first more, .place pos [])
  | c :: rest =>
    match place with
    | .text blank =>
      if isBreak c then
        takeLines folded chomping margin (.margin [c] [] blank) pos.newLine rest
      else prepend [c] (takeLines folded chomping margin (.text blank) (pos.next c) rest)
    | .margin first more blank =>
      if c = ' ' ∧ pos.column < margin then
        takeLines folded chomping margin (.margin first more blank) (pos.next c) rest
      else if c = '\t' ∧ pos.column < margin then none
      else if isBreak c then
        takeLines folded chomping margin (.margin first (c :: more) blank) pos.newLine rest
      else if pos.column = margin then
        prepend (joinLines folded first more blank (isBlank c) ++ [c])
          (takeLines folded chomping margin (.text (isBlank c)) (pos.next c) rest)
      else some (chomping.tail first more, .place pos (c :: rest))

/-- Reads a block scalar after its sign. The enclosing blocks take up `depth` columns. -/
def takeBlock (folded : Bool) (depth : Nat) (pos : Position) (cs : List Char) :
    Option (List Char × Cursor) := do
  let (chomping, increment, cs) ← takeSigns? cs
  let cs ← restOfLine? cs
  match cs with
  | [] => some ([], .place pos [])
  | _ :: cs =>
    match increment with
    | some n =>
      takeLines folded chomping (depth - 1 + n) (.margin [] [] false) pos.newLine cs
    | none =>
      let (breaks, widest, cursor) ← takeLeading 0 pos.newLine cs
      takeLines folded chomping (max widest (max depth 1)) (.margin [] breaks.reverse false)
        cursor.toPosition cursor.rest

end RequestTrail.Yaml
