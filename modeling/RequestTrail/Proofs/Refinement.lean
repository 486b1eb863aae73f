import Mathlib.Data.List.Forall2
import RequestTrail.Index.Graph
import RequestTrail.Proofs.Log
import RequestTrail.Proofs.Traversal
import RequestTrail.Service

/-!
# The graph tells the log

An index that is kept as a graph answers every question as the log of its entries does. The proof
is a simulation: beside the graph runs the index that keeps methods and calls as plain lists, and
every entry takes a graph that represents an index to a graph that represents the next one. What
carries it is that the map of numbers and the list of nodes are inverse to each other, so that an
edge stands for the same call however many nodes come after it.

An analysis reads an index through its answers alone, and so a run on the graph is a run on the log.
-/

namespace RequestTrail

/-! ### Places in a list that grows -/

section Places

variable {α : Type} {xs : List α} {x y : α} {i : Nat}

lemma getElem?_mono {ys : List α} (h : xs <+: ys) (hx : xs[i]? = some x) :
    ys[i]? = some x := by
  obtain ⟨rest, rfl⟩ := h
  rwa [List.getElem?_append_left (List.getElem?_eq_some_iff.1 hx).1]

lemma getElem?_concat_eq_some_iff :
    (xs ++ [x])[i]? = some y ↔ xs[i]? = some y ∨ i = xs.length ∧ x = y := by
  rw [List.getElem?_append]
  split
  · rename_i hlt
    simp [Nat.ne_of_lt hlt]
  · rename_i hge
    have hnone : xs[i]? = none := by simpa using hge
    rw [hnone, List.getElem?_singleton]
    grind

end Places

/-- The end of a call from which it is followed. -/
def Direction.site : Direction → Call → Site
  | .incoming, call => call.callee
  | .outgoing, call => call.caller

namespace Graph

variable {graph : Graph} {edge : Edge} {call : Call}

/-! ### Edges and calls -/

lemma call?_eq_some_iff :
    graph.call? edge = some call ↔
      graph.nodes[edge.source]? = some call.caller ∧
        graph.nodes[edge.target]? = some call.callee ∧ edge.offset = call.offset := by
  obtain ⟨caller, callee, offset⟩ := call
  simp [call?, Option.bind_eq_some_iff]

/-- An edge that stands for a call has the sites of the call at its ends. -/
lemma getElem?_node_of_call? (h : graph.call? edge = some call) (direction : Direction) :
    graph.nodes[direction.node edge]? = some (direction.site call) := by
  obtain ⟨hsource, htarget, -⟩ := call?_eq_some_iff.1 h
  cases direction with
  | incoming => exact htarget
  | outgoing => exact hsource

/-- An edge stands for the same call in a graph with more nodes. -/
lemma call?_mono {other : Graph} (hnodes : graph.nodes <+: other.nodes)
    (h : graph.call? edge = some call) : other.call? edge = some call := by
  obtain ⟨hsource, htarget, hoffset⟩ := call?_eq_some_iff.1 h
  exact call?_eq_some_iff.2
    ⟨getElem?_mono hnodes hsource, getElem?_mono hnodes htarget, hoffset⟩

/-! ### Edges in the order of their numbers -/

lemma mem_edgesAt {direction : Direction} {node number : Nat} :
    (edge, number) ∈ graph.edgesAt direction node ↔
      graph.edges[number]? = some edge ∧ direction.node edge = node := by
  simp [edgesAt, List.mem_zipIdx_iff_getElem?]

lemma pairwise_edgesAt (graph : Graph) (direction : Direction) (node : Nat) :
    (graph.edgesAt direction node).Pairwise fun a b => a.2 ≤ b.2 := by
  have hnumbers : (graph.edges.zipIdx.map Prod.snd).Pairwise (· < ·) := by
    rw [List.zipIdx_map_snd]
    exact List.pairwise_lt_range'
  refine ((List.pairwise_map.1 hnumbers).filter _).imp ?_
  intro a b hlt
  exact Nat.le_of_lt hlt

/-- However the edges at a node are listed, sorting puts them in the order in which they were
added. -/
lemma mergeSort_incidence (incidence : Incidence) (graph : Graph) (direction : Direction)
    (node : Nat) :
    ((incidence.list graph direction node).mergeSort fun a b => a.2 ≤ b.2) =
      graph.edgesAt direction node := by
  have hperm : ((incidence.list graph direction node).mergeSort fun a b => a.2 ≤ b.2).Perm
      (graph.edgesAt direction node) :=
    (List.mergeSort_perm _ _).trans (incidence.perm graph direction node)
  refine hperm.eq_of_pairwise ?_ ?_ (pairwise_edgesAt graph direction node)
  · -- two edges of one number are the same edge
    rintro ⟨e, i⟩ ⟨e', i'⟩ he he' hle hge
    obtain rfl : i = i' := Nat.le_antisymm hle hge
    have hedge := (mem_edgesAt.1 (hperm.mem_iff.1 he)).1
    rw [(mem_edgesAt.1 he').1] at hedge
    rw [Option.some.inj hedge]
  · have htrans : ∀ a b c : Edge × Nat, decide (a.2 ≤ b.2) = true → decide (b.2 ≤ c.2) = true →
        decide (a.2 ≤ c.2) = true := by
      simp only [decide_eq_true_eq]
      omega
    have htotal : ∀ a b : Edge × Nat, (decide (a.2 ≤ b.2) || decide (b.2 ≤ a.2)) = true := by
      simp only [Bool.or_eq_true, decide_eq_true_eq]
      omega
    simpa using List.pairwise_mergeSort htrans htotal (incidence.list graph direction node)

/-- The calls at a node are those of the edges at it. -/
lemma filterMap_edgesAt (graph : Graph) (direction : Direction) (node : Nat) :
    ((graph.edgesAt direction node).filterMap fun numbered => graph.call? numbered.1) =
      (graph.edges.filter fun edge => direction.node edge == node).filterMap graph.call? := by
  conv_rhs => rw [← List.zipIdx_map_fst 0 graph.edges, List.filter_map, List.filterMap_map]
  rfl

/-- The calls of chosen edges are the chosen calls. -/
lemma filterMap_call?_filter {edges : List Edge} {calls : List Call}
    (h : List.Forall₂ (fun edge call => graph.call? edge = some call) edges calls)
    {p : Edge → Bool} {q : Call → Bool}
    (hpq : ∀ edge call, graph.call? edge = some call → p edge = q call) :
    (edges.filter p).filterMap graph.call? = calls.filter q := by
  induction h with
  | nil => rfl
  | cons hcall _ ih =>
    rw [List.filter_cons, List.filter_cons, hpq _ _ hcall]
    split
    · rw [List.filterMap_cons_some hcall, ih]
    · exact ih

end Graph

namespace GraphIndex

/-! ### One operation -/

lemma lookup_addMethod (graph : GraphIndex) (site : Site) :
    (graph.addMethod site).1.numbers.lookup site = some (graph.addMethod site).2 := by
  unfold addMethod
  split
  · assumption
  · simp [lookup_setAssoc]

lemma table?_setTable (graph : GraphIndex) (p l package locale : String) (table : StringTable) :
    (graph.setTable p l table).table? package locale =
      if (package, locale) = (p, l) then some table else graph.table? package locale := by
  simp only [setTable, table?, locales, lookup_setAssoc, Prod.mk.injEq]
  by_cases hp : package = p
  · subst hp
    simp [lookup_setAssoc]
  · simp [hp]

/-! ### The index that a graph represents -/

/-- The graph holds the methods and calls of the index by their numbers, and everything else of it
by the same keys. -/
structure Represents (graph : GraphIndex) (index : ListIndex) : Prop where
  methods : graph.graph.nodes = index.methods
  /-- The numbers of sites are their places among the methods. -/
  numbers : ∀ site number,
    graph.numbers.lookup site = some number ↔ index.methods[number]? = some site
  /-- Every edge stands for the call of its number. -/
  calls : List.Forall₂ (fun edge call => graph.graph.call? edge = some call) graph.graph.edges
    index.calls
  sources : ∀ site, graph.source? site = index.source? site
  literals : graph.literals = index.literals
  tables : ∀ package locale, graph.table? package locale = index.table? package locale

namespace Represents

variable {graph : GraphIndex} {index : ListIndex} {site : Site}

lemma empty : GraphIndex.empty.Represents .empty where
  methods := rfl
  numbers := by simp [GraphIndex.empty, ListIndex.empty]
  calls := .nil
  sources _ := rfl
  literals := rfl
  tables _ _ := rfl

lemma lookup_eq_none_iff (h : graph.Represents index) :
    graph.numbers.lookup site = none ↔ site ∉ index.methods := by
  rw [Option.eq_none_iff_forall_ne_some, List.mem_iff_getElem?, not_exists]
  simp only [ne_eq, h.numbers]

lemma addMethod (h : graph.Represents index) (site : Site) :
    (graph.addMethod site).1.Represents (index.addMethod site) := by
  unfold GraphIndex.addMethod
  split
  · rename_i number hnumber
    have hmem : site ∈ index.methods := List.mem_of_getElem? ((h.numbers site number).1 hnumber)
    rwa [ListIndex.addMethod, if_pos hmem]
  · rename_i hnew
    have hsite : site ∉ index.methods := h.lookup_eq_none_iff.1 hnew
    rw [ListIndex.addMethod, if_neg hsite]
    refine ⟨congrArg (· ++ [site]) h.methods, ?_, ?_, h.sources, h.literals, h.tables⟩
    · intro other number
      simp only [Graph.addNode, lookup_setAssoc, h.methods]
      rw [getElem?_concat_eq_some_iff]
      split
      · rename_i heq
        have hplace : ¬ index.methods[number]? = some site :=
          fun hplace => hsite (List.mem_of_getElem? hplace)
        simp only [heq, hplace, and_true, false_or, Option.some.injEq]
        exact eq_comm
      · rename_i hne
        simp [h.numbers, Ne.symm hne]
    · exact h.calls.imp fun _ _ => Graph.call?_mono (List.prefix_append _ _)

/-- The number that is given for a method is its place. -/
lemma getElem?_addMethod (h : graph.Represents index) (site : Site) :
    (index.addMethod site).methods[(graph.addMethod site).2]? = some site :=
  ((h.addMethod site).numbers site _).1 (lookup_addMethod graph site)

lemma addMethods (h : graph.Represents index) (sites : List Site) :
    (graph.addMethods sites).Represents (index.addMethods sites) := by
  unfold GraphIndex.addMethods ListIndex.addMethods
  induction sites generalizing graph index with
  | nil => exact h
  | cons site sites ih => exact ih (h.addMethod site)

lemma addCall (h : graph.Represents index) (call : Call) :
    (graph.addCall call).Represents (index.addCall call) := by
  have hcaller := h.addMethod call.caller
  have hcallee := hcaller.addMethod call.callee
  have hkept : (index.addMethod call.caller).methods <+:
      ((index.addMethod call.caller).addMethod call.callee).methods :=
    ListIndex.prefix_addMethod _ call.callee
  refine ⟨hcallee.methods, hcallee.numbers, ?_, hcallee.sources, hcallee.literals, hcallee.tables⟩
  refine List.rel_append hcallee.calls (.cons ?_ .nil)
  refine Graph.call?_eq_some_iff.2 ⟨?_, ?_, rfl⟩
  · rw [hcallee.methods]
    exact getElem?_mono hkept (h.getElem?_addMethod call.caller)
  · rw [hcallee.methods]
    exact hcaller.getElem?_addMethod call.callee

lemma setSource (h : graph.Represents index) (site : Site) (text : String) :
    (graph.setSource site text).Represents (index.setSource site text) := by
  have hsite := h.addMethod site
  refine ⟨hsite.methods, hsite.numbers, hsite.calls, ?_, hsite.literals, hsite.tables⟩
  intro other
  simp only [GraphIndex.source?, ListIndex.source?, GraphIndex.setSource, ListIndex.setSource,
    lookup_setAssoc]
  split
  · rfl
  · exact hsite.sources other

lemma addLiteral (h : graph.Represents index) (literal : Literal) :
    (graph.addLiteral literal).Represents (index.addLiteral literal) := by
  have hsites := h.addMethods literal.references
  exact ⟨hsites.methods, hsites.numbers, hsites.calls, hsites.sources,
    congrArg (· ++ [literal]) hsites.literals, hsites.tables⟩

lemma addTable (h : graph.Represents index) (package locale : String) :
    (graph.addTable package locale).Represents (index.addTable package locale) := by
  refine ⟨h.methods, h.numbers, h.calls, h.sources, h.literals, ?_⟩
  intro p l
  rw [GraphIndex.addTable, table?_setTable, ListIndex.table?_addTable, h.tables, h.tables]
  split
  · rename_i heq
    obtain ⟨rfl, rfl⟩ := Prod.mk.inj heq
    rfl
  · rfl

lemma addString (h : graph.Represents index) (package locale : String) (id : UInt64)
    (value : String) :
    (graph.addString package locale id value).Represents
      (index.addString package locale id value) := by
  refine ⟨h.methods, h.numbers, h.calls, h.sources, h.literals, ?_⟩
  intro p l
  rw [GraphIndex.addString, table?_setTable, ListIndex.table?_addString, h.tables, h.tables]
  split
  · rename_i heq
    obtain ⟨rfl, rfl⟩ := Prod.mk.inj heq
    rfl
  · rfl

/-- An entry takes a graph that represents an index to a graph that represents the next one. -/
lemma record (h : graph.Represents index) (e : Index.Entry) :
    (graph.record e).Represents (index.record e) := by
  cases e with
  | method site => exact h.addMethod site
  | call call => exact h.addCall call
  | source site text => exact h.setSource site text
  | literal literal => exact h.addLiteral literal
  | table package locale => exact h.addTable package locale
  | string package locale id value => exact h.addString package locale id value

lemma recordAll (h : graph.Represents index) (log : List Index.Entry) :
    (graph.recordAll log).Represents (index.recordAll log) := by
  unfold GraphIndex.recordAll ListIndex.recordAll
  induction log generalizing graph index with
  | nil => exact h
  | cons e log ih => exact ih (h.record e)

lemma ofLog (log : List Index.Entry) : (GraphIndex.ofLog log).Represents (.ofLog log) :=
  empty.recordAll log

/-! ### Answers -/

/-- The calls at a site are those of the index, in its order. -/
lemma callsAt_eq (h : graph.Represents index) (incidence : Graph.Incidence) (direction : Direction)
    (site : Site) :
    graph.callsAt incidence direction site =
      index.calls.filter fun call => direction.site call == site := by
  have hplace : ∀ edge call, graph.graph.call? edge = some call →
      graph.numbers.lookup (direction.site call) = some (direction.node edge) := by
    intro edge call hcall
    rw [h.numbers, ← h.methods]
    exact Graph.getElem?_node_of_call? hcall direction
  unfold callsAt
  split
  · rename_i hnew
    -- no edge is at a site without a number
    have hnone := Graph.filterMap_call?_filter h.calls (p := fun _ => false)
      (q := fun call => direction.site call == site) (by
        intro edge call hcall
        symm
        rw [beq_eq_false_iff_ne]
        rintro rfl
        simp [hplace edge call hcall] at hnew)
    simpa using hnone
  · rename_i node hnode
    simp only [Graph.mergeSort_incidence, Graph.filterMap_edgesAt]
    apply Graph.filterMap_call?_filter h.calls
    intro edge call hcall
    have hedge := hplace edge call hcall
    rw [Bool.eq_iff_iff, beq_iff_eq, beq_iff_eq]
    constructor
    · rintro rfl
      rw [h.numbers] at hedge hnode
      exact Option.some.inj (hedge.symm.trans hnode)
    · rintro rfl
      exact Option.some.inj (hedge.symm.trans hnode)

/-- In whatever order its edges are listed, the graph answers as the lists do. -/
lemma toIndex_eq (h : graph.Represents index) (incidence : Graph.Incidence) :
    graph.toIndex incidence = index.toIndex := by
  apply Index.ext
  · exact h.methods
  · exact funext fun site => h.callsAt_eq incidence .incoming site
  · exact funext h.sources
  · exact h.literals
  · funext package locale
    exact congrArg Option.isSome (h.tables package locale)
  · funext package locale id
    exact congrArg (Option.bind · _) (h.tables package locale)

end Represents

/-! ### The whole log -/

/-- The answers of an index, read off the log of its entries. -/
structure Answers (graph : GraphIndex) (log : List Index.Entry) : Prop where
  methods : graph.methods = Index.mentioned log
  /-- A method is given its place among the first mentions as its number, -/
  number : ∀ site,
    (graph.addMethod site).2 = (Index.mentioned (log ++ [.method site])).idxOf site
  /-- and the same number again, whatever is recorded in between. -/
  number_stable : ∀ site later,
    (((graph.addMethod site).1.recordAll later).addMethod site).2 = (graph.addMethod site).2
  callers : ∀ incidence site, graph.callersOf incidence site =
    (log.filterMap Index.Entry.call?).filter fun call => call.callee == site
  callees : ∀ incidence site, graph.calleesOf incidence site =
    (log.filterMap Index.Entry.call?).filter fun call => call.caller == site
  callCount : graph.callCount = (log.filterMap Index.Entry.call?).length
  named : ∀ start, graph.methodsNamed start =
    (Index.mentioned log).filter fun site => Text.startsWith site.name start
  sources : ∀ site, graph.source? site = (log.filterMap (Index.Entry.textOf? site)).getLast?
  literals : graph.literals = log.filterMap Index.Entry.literal?
  tables : ∀ package locale,
    graph.hasTable package locale = log.any (Index.Entry.namesTable package locale)
  strings : ∀ package locale id, graph.string? package locale id =
    (log.filterMap (Index.Entry.stringAt? package locale id)).getLast?

lemma ofLog_append (log later : List Index.Entry) :
    ofLog (log ++ later) = (ofLog log).recordAll later := by
  simp [ofLog, recordAll]

lemma number_ofLog (log : List Index.Entry) (site : Site) :
    ((ofLog log).addMethod site).2 = (Index.mentioned (log ++ [.method site])).idxOf site := by
  have hplace := (Represents.ofLog log).getElem?_addMethod site
  have hlog : ((ListIndex.ofLog log).addMethod site).methods =
      Index.mentioned (log ++ [.method site]) := by
    rw [← Index.methods_ofLog]
    simp [Index.ofLog, ListIndex.toIndex, ListIndex.ofLog, ListIndex.recordAll, ListIndex.record]
  rw [hlog] at hplace
  obtain ⟨hlt, hsite⟩ := List.getElem?_eq_some_iff.1 hplace
  have hdistinct : (Index.mentioned (log ++ [.method site])).Nodup := nodup_eraseDups _
  have hnumber := hdistinct.idxOf_getElem _ hlt
  rw [hsite] at hnumber
  exact hnumber.symm

lemma number_stable_ofLog (log later : List Index.Entry) (site : Site) :
    ((((ofLog log).addMethod site).1.recordAll later).addMethod site).2 =
      ((ofLog log).addMethod site).2 := by
  have hlog : ((ofLog log).addMethod site).1.recordAll later =
      ofLog (log ++ [.method site] ++ later) := by
    rw [ofLog_append, ofLog_append]
    rfl
  rw [hlog, number_ofLog, number_ofLog, List.append_assoc _ later]
  obtain ⟨rest, hrest⟩ := Index.prefix_mentioned_append (log ++ [.method site])
    (later ++ [.method site])
  have hsite : site ∈ Index.mentioned (log ++ [.method site]) := by
    simp [Index.mentioned, Index.Entry.sites]
  rw [← hrest, List.idxOf_append_of_mem hsite]

/-- An index that is kept as a graph is the index of its log. -/
theorem toIndex_ofLog (log : List Index.Entry) (incidence : Graph.Incidence) :
    (ofLog log).toIndex incidence = .ofLog log :=
  (Represents.ofLog log).toIndex_eq incidence

/-- An index that is kept as a graph tells its log: whatever entries it is built from and in
whatever order the graph lists its edges, it answers from them as they stand in the log. -/
theorem ofLog_answers (log : List Index.Entry) : (ofLog log).Answers log := by
  have h := Represents.ofLog log
  have hmethods : (ofLog log).methods = Index.mentioned log :=
    h.methods.trans (Index.methods_ofLog log)
  refine ⟨hmethods, number_ofLog log, fun site later => number_stable_ofLog log later site,
    ?_, ?_, ?_, ?_, ?_, ?_, ?_, ?_⟩
  · intro incidence site
    rw [callersOf, h.callsAt_eq, ListIndex.calls_ofLog]
    rfl
  · intro incidence site
    rw [calleesOf, h.callsAt_eq, ListIndex.calls_ofLog]
    rfl
  · rw [callCount, h.calls.length_eq, ListIndex.calls_ofLog]
  · intro start
    rw [methodsNamed, hmethods]
  · intro site
    exact (h.sources site).trans (Index.source?_ofLog log site)
  · exact h.literals.trans (Index.literals_ofLog log)
  · intro package locale
    rw [← Index.hasTable_ofLog, hasTable, h.tables]
    rfl
  · intro package locale id
    rw [← Index.string?_ofLog, string?, h.tables]
    rfl

end GraphIndex

/-! ### Analyses on the graph -/

namespace Analysis

/-- On an index that is kept as a graph an analysis does what it does on the log of the index,
whichever way the graph lists its edges: it discovers the same requests, finds the same paths and
leaves the same report, or fails with the same error. -/
theorem runInPlace_graph (log : List Index.Entry) (incidence : Graph.Incidence) (config : Config)
    (accepts : Classifier) :
    let analysis : Analysis := { index := .ofLog log, config, accepts }
    let analysis' : Analysis :=
      { index := (GraphIndex.ofLog log).toIndex incidence, config, accepts }
    analysis'.discover = analysis.discover ∧
    (∀ entry site visited, analysis'.index.backtrace entry site visited =
      analysis.index.backtrace entry site visited) ∧
    (∀ entry request caller, analysis'.index.traceThrough entry request caller =
      analysis.index.traceThrough entry request caller) ∧
    ∀ entry report, (analysis'.runInPlace entry).run report =
      (analysis.runInPlace entry).run report := by
  intro analysis analysis'
  have hsame : analysis' = analysis :=
    congrArg (Analysis.mk · config accepts) (GraphIndex.toIndex_ofLog log incidence)
  rw [hsame]
  exact ⟨rfl, fun _ _ _ => rfl, fun _ _ _ => rfl, fun _ _ => rfl⟩

end Analysis

end RequestTrail
