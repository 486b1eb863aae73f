import RequestTrail.Site

/-!
# The application index

What an analysis asks of an application: its methods, the calls of a method, the texts of methods,
the string literals with the methods that load them, and the tables of resolved strings by package
and locale. An index is built from a log of entries; every entry that mentions a site registers it.

An `Index` is nothing but its answers, and whoever gives them may be analysed; the strings need not
come from where the methods come from. There are two forms in which the entries of a log are kept
and that answer from them: plain lists in `ListIndex`, and a graph in `GraphIndex`.
-/

namespace RequestTrail

/-- A call, at an offset into the caller's code. -/
structure Call where
  caller : Site
  callee : Site
  offset : UInt32 := 0
deriving DecidableEq, Repr

/-- A string literal and the methods that load it. -/
structure Literal where
  value : String
  references : List Site := []
deriving DecidableEq, Repr

namespace Literal

/-- Whether a method loads the literal. -/
def isReferencedBy (literal : Literal) (site : Site) : Bool :=
  literal.references.contains site

end Literal

/-- The answers to what is asked of an application. -/
@[ext]
structure Index where
  /-- The registered methods, in the order of their first mention. -/
  methods : List Site
  /-- The calls of a method in the order of their entries, repeated ones included. -/
  callersOf : Site → List Call
  /-- The text of a method. -/
  source? : Site → Option String
  literals : List Literal
  /-- Whether there is a table of resolved strings for a package and locale. -/
  hasTable : (package locale : String) → Bool
  /-- The string of a resource identifier. -/
  string? : (package locale : String) → UInt64 → Option String
  /-- No more than finitely many methods are called, so that a search over callers ends. -/
  finite : ∃ called : List Site, ∀ site, callersOf site ≠ [] → site ∈ called

namespace Index

/-- The methods whose name begins with the given text. -/
def methodsNamed (index : Index) (start : String) : List Site :=
  index.methods.filter fun site => Text.startsWith site.name start

/-- The text of a method, empty if there is none. -/
def sourceOf (index : Index) (site : Site) : String :=
  (index.source? site).getD ""

/-- An entry of the log from which an index is built. -/
inductive Entry where
  | method (site : Site)
  | call (call : Call)
  | source (site : Site) (text : String)
  | literal (literal : Literal)
  | table (package locale : String)
  | string (package locale : String) (id : UInt64) (value : String)
deriving DecidableEq, Repr

end Index

end RequestTrail
