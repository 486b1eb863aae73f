import RequestTrail.Error
import RequestTrail.Index.Graph
import RequestTrail.Json.Basic
import RequestTrail.Json.Reader

/-!
# Snapshots as JSON

The JSON forms of sites, calls, literals, method entries, string tables and snapshots. The site of
a method entry is spread over the object of the entry, so an entry cannot be written as an array,
and every value in it but the text is held before it is read.

An index is loaded from the JSON text of a snapshot, or from the bytes of a file that holds it.
-/

namespace RequestTrail

namespace Site

def toJson (site : Site) : Json :=
  .ofFields [
    ("class_name", .ofString site.className),
    ("name", .ofString site.name),
    ("descriptor", .ofString site.descriptor)]

/-- The names of the fields, in order. -/
def fieldNames : List String := ["class_name", "name", "descriptor"]

/-- Reads a site from the values of its fields. -/
def ofFields? : List (Option Json) → Option Site
  | [className, name, descriptor] => do
    let className ← Json.required Json.text? className
    let name ← Json.required Json.text? name
    let descriptor ← Json.orElse "" Json.text? descriptor
    return { className, name, descriptor }
  | _ => none

def ofJson? (j : Json) : Option Site := do
  ofFields? (← j.fields? fieldNames)

end Site

namespace Call

def toJson (call : Call) : Json :=
  .ofFields [
    ("caller", call.caller.toJson),
    ("callee", call.callee.toJson),
    ("offset", .ofNat call.offset.toNat)]

def ofJson? (j : Json) : Option Call := do
  match ← j.fields? ["caller", "callee", "offset"] with
  | [caller, callee, offset] =>
    let caller ← Json.required Site.ofJson? caller
    let callee ← Json.required Site.ofJson? callee
    let offset ← Json.orElse 0 Json.word32? offset
    return { caller, callee, offset }
  | _ => none

end Call

namespace Literal

def toJson (literal : Literal) : Json :=
  .ofFields [
    ("value", .ofString literal.value),
    ("xref_from", .array (literal.references.map Site.toJson))]

def ofJson? (j : Json) : Option Literal := do
  match ← j.fields? ["value", "xref_from"] with
  | [value, references] =>
    let value ← Json.required Json.text? value
    let references ← Json.orElse [] (Json.list? Site.ofJson?) references
    return { value, references }
  | _ => none

end Literal

namespace Snapshot

/-- How many containers may be nested in a document that is held before it is read. -/
def nestingLimit : Nat := 127

namespace MethodEntry

def toJson (m : MethodEntry) : Json :=
  .ofFields <|
    [("class_name", .ofString m.site.className),
      ("name", .ofString m.site.name),
      ("descriptor", .ofString m.site.descriptor)] ++
      match m.source with
      | some text => [("source", .ofString text)]
      | none => []

/-- Reads an entry that stands inside `depth` containers. -/
def ofJson? (depth : Nat) : Json → Option MethodEntry
  | .object members => do
    let members ← Json.keyed? members
    let held := members.filter fun m => m.1 != "source"
    if !held.all fun m => m.2.isStorable (nestingLimit - (depth + 1)) then none
    let source ← Json.nullable Json.text? (← Json.field? members "source")
    let site ← Site.ofFields? (← Site.fieldNames.mapM (Json.field? held))
    return { site, source }
  | _ => none

end MethodEntry

namespace Table

/-- The strings of a table as an object whose keys are the identifiers. -/
def stringsToJson (strings : StringTable) : Json :=
  .object (strings.toList.map fun (id, value) => (Text.numeral id.toNat, .ofString value))

/-- Reads an entry of a table's strings. The key is an identifier as it is written. -/
def stringOfJson? : List Char × Json → Option (UInt64 × String)
  | (key, value) => do
    let id ← Text.canonicalBelow? UInt64.size key
    let value ← value.text?
    return (UInt64.ofNat id, value)

/-- Reads the strings of a table; the last one of an identifier wins. -/
def stringsOfJson? : Json → Option StringTable
  | .object members => (members.mapM stringOfJson?).map SortedMap.ofList
  | _ => none

def toJson (t : Table) : Json :=
  .ofFields [
    ("package", .ofString t.package),
    ("locale", .ofString t.locale),
    ("strings", stringsToJson t.strings)]

def ofJson? (j : Json) : Option Table := do
  match ← j.fields? ["package", "locale", "strings"] with
  | [package, locale, strings] =>
    let package ← Json.required Json.text? package
    let locale ← Json.required Json.text? locale
    let strings ← Json.orElse {} stringsOfJson? strings
    return { package, locale, strings }
  | _ => none

end Table

def toJson (s : Snapshot) : Json :=
  .ofFields [
    ("methods", .array (s.methods.map MethodEntry.toJson)),
    ("calls", .array (s.calls.map Call.toJson)),
    ("strings", .array (s.literals.map Literal.toJson)),
    ("resources", .array (s.tables.map Table.toJson))]

/-- Reads a snapshot. Its method entries stand inside the snapshot and the array of methods. -/
def ofJson? (j : Json) : Option Snapshot := do
  match ← j.fields? ["methods", "calls", "strings", "resources"] with
  | [methods, calls, literals, tables] =>
    let methods ← Json.orElse [] (Json.list? (MethodEntry.ofJson? 2)) methods
    let calls ← Json.orElse [] (Json.list? Call.ofJson?) calls
    let literals ← Json.orElse [] (Json.list? Literal.ofJson?) literals
    let tables ← Json.orElse [] (Json.list? Table.ofJson?) tables
    return { methods, calls, literals, tables }
  | _ => none

/-! ### Loading -/

def ofJsonText (text : String) : Except Error Snapshot :=
  match (Json.ofText? text).bind ofJson? with
  | some snapshot => .ok snapshot
  | none => .error .malformedSnapshot

/-- The snapshot in a file, given by its bytes if it exists. -/
def ofFile (contents : Option ByteArray) : Except Error Snapshot :=
  match contents.bind String.fromUTF8? with
  | some text => ofJsonText text
  | none => .error .unreadable

end Snapshot

namespace Index

/-- The index of a snapshot's text. -/
def ofJsonText (text : String) : Except Error Index :=
  (Snapshot.ofJsonText text).map ofSnapshot

end Index

namespace GraphIndex

def ofJsonText (text : String) : Except Error GraphIndex :=
  (Snapshot.ofJsonText text).map ofSnapshot

def ofFile (contents : Option ByteArray) : Except Error GraphIndex :=
  (Snapshot.ofFile contents).map ofSnapshot

end GraphIndex

end RequestTrail
