import RequestTrail.Index.Lists

/-!
# Snapshots of an index

A snapshot is an index as a document: its methods with their texts, calls, literals and string
tables. Loading a snapshot records its parts in this order.
-/

namespace RequestTrail

namespace Snapshot

/-- A method and its text, if it is known. -/
structure MethodEntry where
  site : Site
  source : Option String := none
deriving DecidableEq, Repr

/-- The strings of a package and locale. -/
structure Table where
  package : String
  locale : String
  strings : StringTable := {}
deriving DecidableEq

end Snapshot

/-- The document form of an index. -/
structure Snapshot where
  methods : List Snapshot.MethodEntry := []
  calls : List Call := []
  literals : List Literal := []
  tables : List Snapshot.Table := []
deriving DecidableEq

namespace Snapshot

/-- The log entry of a method: its text if it is known, else its mention. -/
def MethodEntry.entry (m : MethodEntry) : Index.Entry :=
  match m.source with
  | some text => .source m.site text
  | none => .method m.site

/-- The log entries of a string table. -/
def Table.entries (t : Table) : List Index.Entry :=
  .table t.package t.locale ::
    t.strings.toList.map fun (id, value) => .string t.package t.locale id value

/-- The log that a snapshot stands for. -/
def log (s : Snapshot) : List Index.Entry :=
  s.methods.map MethodEntry.entry ++ s.calls.map .call ++ s.literals.map .literal ++
    s.tables.flatMap Table.entries

end Snapshot

/-- The index that a snapshot stands for. -/
def Index.ofSnapshot (s : Snapshot) : Index :=
  .ofLog s.log

end RequestTrail
