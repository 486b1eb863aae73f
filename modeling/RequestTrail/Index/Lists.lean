import RequestTrail.Index.Basic
import RequestTrail.SortedMap

/-!
# The index as lists

The plain form of an index. Methods, calls and literals are kept in the order of their entries, the
texts of methods and the string tables under their keys.
-/

namespace RequestTrail

/-- Sets the value at a key of an association list. -/
def setAssoc {κ β : Type} [DecidableEq κ] (key : κ) (value : β) : List (κ × β) → List (κ × β)
  | [] => [(key, value)]
  | entry :: rest => if entry.1 = key then (key, value) :: rest else entry :: setAssoc key value rest

theorem lookup_setAssoc {κ β : Type} [DecidableEq κ] [BEq κ] [LawfulBEq κ] (key : κ) (value : β)
    (entries : List (κ × β)) (k : κ) :
    (setAssoc key value entries).lookup k = if k = key then some value else entries.lookup k := by
  induction entries with
  | nil => grind [setAssoc]
  | cons entry rest ih => grind [setAssoc]

/-- Strings by resource identifier. -/
abbrev StringTable := SortedMap UInt64 String

/-- The methods, calls, texts, literals and string tables of an application. -/
structure ListIndex where
  /-- The registered methods, in the order of their first mention. -/
  methods : List Site := []
  /-- The calls in the order of their entries, repeated ones included. -/
  calls : List Call := []
  sources : List (Site × String) := []
  literals : List Literal := []
  /-- The string tables by package and locale. -/
  tables : List ((String × String) × StringTable) := []

namespace ListIndex

/-- The index that knows nothing. -/
def empty : ListIndex where

/-! ### Building -/

/-- Registers a method, if it is new. -/
def addMethod (index : ListIndex) (site : Site) : ListIndex :=
  if site ∈ index.methods then index else { index with methods := index.methods ++ [site] }

/-- Registers methods in turn. -/
def addMethods (index : ListIndex) (sites : List Site) : ListIndex :=
  sites.foldl addMethod index

/-- Records a call. -/
def addCall (index : ListIndex) (call : Call) : ListIndex :=
  let index := (index.addMethod call.caller).addMethod call.callee
  { index with calls := index.calls ++ [call] }

/-- Sets the text of a method. -/
def setSource (index : ListIndex) (site : Site) (source : String) : ListIndex :=
  let index := index.addMethod site
  { index with sources := setAssoc site source index.sources }

/-- Records a string literal. -/
def addLiteral (index : ListIndex) (literal : Literal) : ListIndex :=
  let index := index.addMethods literal.references
  { index with literals := index.literals ++ [literal] }

/-- The string table of a package and locale. -/
def table? (index : ListIndex) (package locale : String) : Option StringTable :=
  index.tables.lookup (package, locale)

/-- Creates the string table of a package and locale, if there is none. -/
def addTable (index : ListIndex) (package locale : String) : ListIndex :=
  let table := (index.table? package locale).getD SortedMap.empty
  { index with tables := setAssoc (package, locale) table index.tables }

/-- Sets the string of a resource identifier, in a table that is created if there is none. -/
def addString (index : ListIndex) (package locale : String) (id : UInt64) (value : String) :
    ListIndex :=
  let table := (index.table? package locale).getD SortedMap.empty
  { index with tables := setAssoc (package, locale) (table.insert id value) index.tables }

/-- The index after one more entry. -/
def record (index : ListIndex) : Index.Entry → ListIndex
  | .method site => index.addMethod site
  | .call call => index.addCall call
  | .source site text => index.setSource site text
  | .literal literal => index.addLiteral literal
  | .table package locale => index.addTable package locale
  | .string package locale id value => index.addString package locale id value

/-- The index after the entries of a log. -/
def recordAll (index : ListIndex) (log : List Index.Entry) : ListIndex :=
  log.foldl record index

/-- The index of a log. -/
def ofLog (log : List Index.Entry) : ListIndex :=
  empty.recordAll log

/-! ### Asking -/

/-- The calls of a method, in the order of their entries. -/
def callersOf (index : ListIndex) (site : Site) : List Call :=
  index.calls.filter fun call => call.callee == site

/-- The text of a method. -/
def source? (index : ListIndex) (site : Site) : Option String :=
  index.sources.lookup site

def hasTable (index : ListIndex) (package locale : String) : Bool :=
  (index.table? package locale).isSome

/-- The string of a resource identifier. -/
def string? (index : ListIndex) (package locale : String) (id : UInt64) : Option String :=
  (index.table? package locale).bind fun table => table.find? id

theorem mem_callees_of_callersOf {index : ListIndex} {site : Site} (h : index.callersOf site ≠ []) :
    site ∈ index.calls.map Call.callee := by
  obtain ⟨call, hcall⟩ := List.exists_mem_of_ne_nil _ h
  obtain ⟨hmem, hcallee⟩ := List.mem_filter.1 hcall
  exact eq_of_beq hcallee ▸ List.mem_map_of_mem hmem

/-- The answers of the lists. -/
def toIndex (index : ListIndex) : Index where
  methods := index.methods
  callersOf := index.callersOf
  source? := index.source?
  literals := index.literals
  hasTable := index.hasTable
  string? := index.string?
  finite := ⟨index.calls.map Call.callee, fun _ => mem_callees_of_callersOf⟩

end ListIndex

/-- The index of a log. -/
def Index.ofLog (log : List Index.Entry) : Index :=
  (ListIndex.ofLog log).toIndex

end RequestTrail
