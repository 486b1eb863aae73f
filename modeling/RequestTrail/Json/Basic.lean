import RequestTrail.Json.Literal
import RequestTrail.Json.Number

/-!
# JSON values

A value keeps its string literals and numbers as they are written, so that a reader of a typed
value can decide what to accept. Members of an object keep their order and may repeat a key. Values
are written without blanks, literals and numbers as they are held.

A record is written as an object, or as the array of its values in field order. `fields?` brings
both forms to the list of the values given for the named fields. In an object no named field may
be given twice, and other keys are ignored; in an array the last fields may be left out.
-/

namespace RequestTrail

/-- A JSON value over unread literals. -/
inductive Json where
  | null
  | bool (value : Bool)
  | number (value : Json.Number)
  | string (raw : List Char)
  | array (items : List Json)
  | object (members : List (List Char × Json))
deriving Repr

namespace Json

/-- A text as a string value. -/
def ofString (text : String) : Json :=
  .string (escape text.toList)

/-- A natural number as a value. -/
def ofNat (n : Nat) : Json :=
  .number (Number.ofNat n)

/-- A list of texts as an array. -/
def ofStrings (texts : List String) : Json :=
  .array (texts.map ofString)

/-- An object with the given keys. -/
def ofFields (fields : List (String × Json)) : Json :=
  .object (fields.map fun (key, value) => (escape key.toList, value))

/-- The text of a literal. -/
def literalText? (raw : List Char) : Option String :=
  (unescape? raw).map String.ofList

/-- The text of a string value. -/
def text? : Json → Option String
  | .string raw => literalText? raw
  | _ => none

/-- The truth value. -/
def bool? : Json → Option Bool
  | .bool value => some value
  | _ => none

/-- The natural number below `bound`. -/
def natBelow? (bound : Nat) : Json → Option Nat
  | .number n => n.toNatBelow? bound
  | _ => none

/-- The 32-bit word. -/
def word32? (j : Json) : Option UInt32 :=
  (j.natBelow? UInt32.size).map UInt32.ofNat

/-- The only character of a string value. -/
def char? (j : Json) : Option Char :=
  match j.text?.map String.toList with
  | some [c] => some c
  | _ => none

/-- The items of an array, each read by `read`. -/
def list? {α : Type} (read : Json → Option α) : Json → Option (List α)
  | .array items => items.mapM read
  | _ => none

mutual

/-- Whether a value can be held before its type is known: it nests at most `room` containers, its
texts can be read, and its numbers are finite. -/
def isStorable (room : Nat) : Json → Bool
  | .null => true
  | .bool _ => true
  | .number n => !n.overflows
  | .string raw => (unescape? raw).isSome
  | .array items => decide (0 < room) && allStorable (room - 1) items
  | .object members => decide (0 < room) && membersStorable (room - 1) members

/-- Whether every item can be held. -/
def allStorable (room : Nat) : List Json → Bool
  | [] => true
  | item :: items => item.isStorable room && allStorable room items

/-- Whether every key and value of an object can be held. -/
def membersStorable (room : Nat) : List (List Char × Json) → Bool
  | [] => true
  | (key, value) :: members =>
    (unescape? key).isSome && value.isStorable room && membersStorable room members

end

/-! ### Records -/

/-- The members of an object with their keys read. -/
def keyed? (members : List (List Char × Json)) : Option (List (String × Json)) :=
  members.mapM fun (key, value) => (literalText? key).map fun key => (key, value)

/-- The value given for a field, if there is one; a field given twice is refused. -/
def field? (members : List (String × Json)) (name : String) : Option (Option Json) :=
  match members.filter fun m => m.1 == name with
  | [] => some none
  | [m] => some (some m.2)
  | _ => none

/-- The values given for the named fields of a record, in the order of the names. -/
def fields? (names : List String) : Json → Option (List (Option Json))
  | .object members => do
    let members ← keyed? members
    names.mapM (field? members)
  | .array items =>
    if items.length ≤ names.length then
      some (items.map some ++ List.replicate (names.length - items.length) none)
    else none
  | _ => none

/-- A field that must be given. -/
def required {α : Type} (read : Json → Option α) (field : Option Json) : Option α :=
  field.bind read

/-- A field that has a value when it is not given. -/
def orElse {α : Type} (absent : α) (read : Json → Option α) : Option Json → Option α
  | none => some absent
  | some j => read j

/-- A field that may be missing or `null`. -/
def nullable {α : Type} (read : Json → Option α) : Option Json → Option (Option α)
  | none => some none
  | some .null => some none
  | some j => (read j).map some

/-! ### Text -/

mutual

/-- The characters of a value. -/
def render : Json → List Char
  | .null => ['n', 'u', 'l', 'l']
  | .bool true => ['t', 'r', 'u', 'e']
  | .bool false => ['f', 'a', 'l', 's', 'e']
  | .number n => n.render
  | .string raw => '"' :: raw ++ ['"']
  | .array items => '[' :: renderItems items ++ [']']
  | .object members => '{' :: renderMembers members ++ ['}']

/-- The characters of the items of an array. -/
def renderItems : List Json → List Char
  | [] => []
  | [item] => item.render
  | item :: items => item.render ++ ',' :: renderItems items

/-- The characters of the members of an object. -/
def renderMembers : List (List Char × Json) → List Char
  | [] => []
  | [(key, value)] => '"' :: key ++ '"' :: ':' :: value.render
  | (key, value) :: members => '"' :: key ++ '"' :: ':' :: value.render ++ ',' :: renderMembers members

end

/-- The text of a value. -/
def toText (j : Json) : String :=
  String.ofList j.render

end Json

end RequestTrail
