import RequestTrail.Index.Snapshot

/-!
# The index as a graph

The form in which an index is kept for use. The methods are the nodes of a graph and the calls its
edges, both numbered in the order in which they are added, and a map gives the number of a site.
Texts are kept by site; resolved strings are kept by package, under it by locale, under it by
identifier.

The edges at a node may come in any order. They are sorted by number before they are read, so that
the answers of the graph do not tell in which order it lists them.
-/

namespace RequestTrail

/-- A call between two nodes, given by their numbers. -/
structure Edge where
  source : Nat
  target : Nat
  offset : UInt32
deriving DecidableEq, Repr

/-- The way in which edges are followed: from a callee to its callers, or from a caller to its
callees. -/
inductive Direction where
  | incoming
  | outgoing
deriving DecidableEq, Repr

/-- The end of an edge from which it is followed. -/
def Direction.node : Direction → Edge → Nat
  | .incoming, edge => edge.target
  | .outgoing, edge => edge.source

/-- Methods and calls, numbered by their places. -/
structure Graph where
  nodes : List Site := []
  edges : List Edge := []
deriving DecidableEq, Repr

namespace Graph

/-- The graph with one more node, and the number of the node. -/
def addNode (graph : Graph) (site : Site) : Graph × Nat :=
  ({ graph with nodes := graph.nodes ++ [site] }, graph.nodes.length)

def addEdge (graph : Graph) (edge : Edge) : Graph :=
  { graph with edges := graph.edges ++ [edge] }

/-- The call that an edge stands for, if both its ends are nodes of the graph. -/
def call? (graph : Graph) (edge : Edge) : Option Call := do
  let caller ← graph.nodes[edge.source]?
  let callee ← graph.nodes[edge.target]?
  return { caller, callee, offset := edge.offset }

/-- The edges at a node with their numbers. -/
def edgesAt (graph : Graph) (direction : Direction) (node : Nat) : List (Edge × Nat) :=
  graph.edges.zipIdx.filter fun numbered => direction.node numbered.1 == node

/-- A way to list the edges at a node with their numbers: each once, in whatever order. -/
structure Incidence where
  list : Graph → Direction → Nat → List (Edge × Nat)
  perm : ∀ graph direction node, (list graph direction node).Perm (graph.edgesAt direction node)

/-- The edges at a node, those added last first. -/
def Incidence.latestFirst : Incidence where
  list graph direction node := (graph.edgesAt direction node).reverse
  perm _ _ _ := List.reverse_perm _

end Graph

/-- An index with its methods and calls in a graph. -/
structure GraphIndex where
  graph : Graph := {}
  /-- The numbers of the registered methods. -/
  numbers : List (Site × Nat) := []
  sources : List (Site × String) := []
  literals : List Literal := []
  /-- The string tables by package, then by locale. -/
  tables : List (String × List (String × StringTable)) := []

namespace GraphIndex

def empty : GraphIndex where

/-! ### Building -/

/-- Registers a method, if it is new, and gives its number. -/
def addMethod (index : GraphIndex) (site : Site) : GraphIndex × Nat :=
  match index.numbers.lookup site with
  | some number => (index, number)
  | none =>
    let (graph, number) := index.graph.addNode site
    ({ index with graph, numbers := setAssoc site number index.numbers }, number)

def addMethods (index : GraphIndex) (sites : List Site) : GraphIndex :=
  sites.foldl (fun index site => (index.addMethod site).1) index

/-- Records a call, between the numbers of its two methods. -/
def addCall (index : GraphIndex) (call : Call) : GraphIndex :=
  let (index, source) := index.addMethod call.caller
  let (index, target) := index.addMethod call.callee
  { index with graph := index.graph.addEdge { source, target, offset := call.offset } }

def setSource (index : GraphIndex) (site : Site) (source : String) : GraphIndex :=
  let (index, _) := index.addMethod site
  { index with sources := setAssoc site source index.sources }

def addLiteral (index : GraphIndex) (literal : Literal) : GraphIndex :=
  let index := index.addMethods literal.references
  { index with literals := index.literals ++ [literal] }

/-- The string tables of a package, by locale. -/
def locales (index : GraphIndex) (package : String) : List (String × StringTable) :=
  (index.tables.lookup package).getD []

/-- The string table of a package and locale. -/
def table? (index : GraphIndex) (package locale : String) : Option StringTable :=
  (index.locales package).lookup locale

/-- Puts a string table in the place of that of a package and locale. -/
def setTable (index : GraphIndex) (package locale : String) (table : StringTable) : GraphIndex :=
  let locales := setAssoc locale table (index.locales package)
  { index with tables := setAssoc package locales index.tables }

/-- Creates the string table of a package and locale, if there is none. -/
def addTable (index : GraphIndex) (package locale : String) : GraphIndex :=
  index.setTable package locale ((index.table? package locale).getD SortedMap.empty)

/-- Sets the string of a resource identifier, in a table that is created if there is none. -/
def addString (index : GraphIndex) (package locale : String) (id : UInt64) (value : String) :
    GraphIndex :=
  let table := (index.table? package locale).getD SortedMap.empty
  index.setTable package locale (table.insert id value)

/-- The index after one more entry. -/
def record (index : GraphIndex) : Index.Entry → GraphIndex
  | .method site => (index.addMethod site).1
  | .call call => index.addCall call
  | .source site text => index.setSource site text
  | .literal literal => index.addLiteral literal
  | .table package locale => index.addTable package locale
  | .string package locale id value => index.addString package locale id value

def recordAll (index : GraphIndex) (log : List Index.Entry) : GraphIndex :=
  log.foldl record index

/-- The index of a log. -/
def ofLog (log : List Index.Entry) : GraphIndex :=
  empty.recordAll log

/-- The index that a snapshot stands for. -/
def ofSnapshot (s : Snapshot) : GraphIndex :=
  ofLog s.log

/-! ### Asking -/

/-- The registered methods, in the order of their numbers. -/
def methods (index : GraphIndex) : List Site :=
  index.graph.nodes

def callCount (index : GraphIndex) : Nat :=
  index.graph.edges.length

/-- The methods whose name begins with the given text. -/
def methodsNamed (index : GraphIndex) (start : String) : List Site :=
  index.methods.filter fun site => Text.startsWith site.name start

/-- The calls at a method, in the order of their numbers. -/
def callsAt (index : GraphIndex) (incidence : Graph.Incidence) (direction : Direction)
    (site : Site) : List Call :=
  match index.numbers.lookup site with
  | none => []
  | some node =>
    let edges := incidence.list index.graph direction node
    (edges.mergeSort fun a b => a.2 ≤ b.2).filterMap fun numbered => index.graph.call? numbered.1

/-- The calls of a method. -/
def callersOf (index : GraphIndex) (incidence : Graph.Incidence) (site : Site) : List Call :=
  index.callsAt incidence .incoming site

/-- The calls that a method makes. -/
def calleesOf (index : GraphIndex) (incidence : Graph.Incidence) (site : Site) : List Call :=
  index.callsAt incidence .outgoing site

def source? (index : GraphIndex) (site : Site) : Option String :=
  index.sources.lookup site

def hasTable (index : GraphIndex) (package locale : String) : Bool :=
  (index.table? package locale).isSome

/-- The string of a resource identifier. -/
def string? (index : GraphIndex) (package locale : String) (id : UInt64) : Option String :=
  (index.table? package locale).bind fun table => table.find? id

theorem mem_sites_of_callersOf {index : GraphIndex} {incidence : Graph.Incidence} {site : Site}
    (h : index.callersOf incidence site ≠ []) : site ∈ index.numbers.map Prod.fst := by
  unfold callersOf callsAt at h
  split at h
  · exact absurd rfl h
  · rename_i number hnumber
    obtain ⟨before, after, hnumbers, -⟩ := List.lookup_eq_some_iff.1 hnumber
    simp [hnumbers]

/-- The answers of the graph, when its edges are listed in the given way. -/
def toIndex (index : GraphIndex) (incidence : Graph.Incidence) : Index where
  methods := index.methods
  callersOf := index.callersOf incidence
  source? := index.source?
  literals := index.literals
  hasTable := index.hasTable
  string? := index.string?
  finite := ⟨index.numbers.map Prod.fst, fun _ => mem_sites_of_callersOf⟩

end GraphIndex

end RequestTrail
