import RequestTrail.Json.Basic

/-!
# Reading JSON text

`Json.ofText?` reads one value and allows nothing but blanks around it. Every reader takes the
characters at hand and returns the value with the characters that follow it. The number that
decreases bounds the values still to be read; the length of the text is enough, since every value
takes a character.
-/

namespace RequestTrail.Json

/-- The blanks that may stand between the signs of a text. -/
def isBlank (c : Char) : Bool :=
  c == ' ' || c == '\t' || c == '\n' || c == '\r'

/-- The characters after the blanks at the front. -/
def skipBlanks (cs : List Char) : List Char :=
  cs.dropWhile isBlank

mutual

/-- Reads a value. -/
def readValue : Nat → List Char → Option (Json × List Char)
  | 0, _ => none
  | n + 1, cs =>
    match skipBlanks cs with
    | 'n' :: 'u' :: 'l' :: 'l' :: cs => some (.null, cs)
    | 't' :: 'r' :: 'u' :: 'e' :: cs => some (.bool true, cs)
    | 'f' :: 'a' :: 'l' :: 's' :: 'e' :: cs => some (.bool false, cs)
    | '"' :: cs => (take? cs).map fun (raw, cs) => (.string raw, cs)
    | '[' :: cs =>
      match skipBlanks cs with
      | ']' :: cs => some (.array [], cs)
      | cs => (readItems n cs).map fun (items, cs) => (.array items, cs)
    | '{' :: cs =>
      match skipBlanks cs with
      | '}' :: cs => some (.object [], cs)
      | cs => (readMembers n cs).map fun (members, cs) => (.object members, cs)
    | cs => (Number.take? cs).map fun (n, cs) => (.number n, cs)

/-- Reads the items of an array that has some, and the bracket after them. -/
def readItems : Nat → List Char → Option (List Json × List Char)
  | 0, _ => none
  | n + 1, cs =>
    match readValue n cs with
    | none => none
    | some (item, cs) =>
      match skipBlanks cs with
      | ',' :: cs => (readItems n cs).map fun (items, cs) => (item :: items, cs)
      | ']' :: cs => some ([item], cs)
      | _ => none

/-- Reads the members of an object that has some, and the brace after them. -/
def readMembers : Nat → List Char → Option (List (List Char × Json) × List Char)
  | 0, _ => none
  | n + 1, cs =>
    match skipBlanks cs with
    | '"' :: cs =>
      match take? cs with
      | none => none
      | some (key, cs) =>
        match skipBlanks cs with
        | ':' :: cs =>
          match readValue n cs with
          | none => none
          | some (value, cs) =>
            match skipBlanks cs with
            | ',' :: cs => (readMembers n cs).map fun (rest, cs) => ((key, value) :: rest, cs)
            | '}' :: cs => some ([(key, value)], cs)
            | _ => none
        | _ => none
    | _ => none

end

/-- The value that a text writes. -/
def ofText? (text : String) : Option Json :=
  let cs := text.toList
  match readValue (cs.length + 1) cs with
  | some (value, cs) => if (skipBlanks cs).isEmpty then some value else none
  | none => none

end RequestTrail.Json
