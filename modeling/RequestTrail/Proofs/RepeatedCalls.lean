import RequestTrail.Proofs.Dependence
import RequestTrail.Proofs.Requests

/-!
# Repeated calls

How often one site calls another, and at which offsets, plays no part in an analysis. A log may get
other offsets and further calls between sites that have called each other before, and the analysis
discovers the same requests, finds the same paths and makes the same report.

The two logs are followed entry by entry. Their indexes differ in the calls alone, and every site
keeps its callers in the order of their first calls.
-/

namespace RequestTrail

namespace Index

/-- The second log has the entries of the first, with calls at other offsets, and calls that repeat
an earlier one. -/
inductive Repeats : List Entry → List Entry → Prop
  | nil : Repeats [] []
  | entry {log other : List Entry} (e : Entry) (h : Repeats log other) :
      Repeats (log ++ [e]) (other ++ [e])
  | offset {log other : List Entry} (call : Call) (offset : UInt32) (h : Repeats log other) :
      Repeats (log ++ [.call call]) (other ++ [.call { call with offset }])
  | again {log other : List Entry} (call : Call) (offset : UInt32) (h : Repeats log other)
      (hcall : .call call ∈ log) : Repeats log (other ++ [.call { call with offset }])

/-- The caller that an entry gives to a site. -/
def Entry.callerOf? (site : Site) (e : Entry) : Option Site :=
  e.call?.bind fun call => if call.callee == site then some call.caller else none

lemma callerSites_ofLog (log : List Entry) (site : Site) :
    (ofLog log).callerSites site = log.filterMap (Entry.callerOf? site) := by
  rw [callerSites, callersOf_ofLog, List.filter_filterMap, List.map_filterMap]
  congr 1
  funext e
  cases e with
  | call call => by_cases h : call.callee = site <;> simp [Entry.callerOf?, Entry.call?, h]
  | _ => rfl

/-- Indexes that differ in how often and at which offsets calls are made. -/
structure SameLinks (index other : Index) : Prop where
  methods : index.methods = other.methods
  callers : index.SameCallers other
  literals : index.literals = other.literals
  sources : ∀ site, index.source? site = other.source? site
  tables : ∀ package locale, index.hasTable package locale = other.hasTable package locale
  strings : ∀ package locale id,
    index.string? package locale id = other.string? package locale id

namespace SameLinks

variable {index other third : Index}

lemma refl (index : Index) : index.SameLinks index :=
  ⟨rfl, fun _ => rfl, rfl, fun _ => rfl, fun _ _ => rfl, fun _ _ _ => rfl⟩

lemma trans (h : index.SameLinks other) (h' : other.SameLinks third) : index.SameLinks third where
  methods := h.methods.trans h'.methods
  callers site := (h.callers site).trans (h'.callers site)
  literals := h.literals.trans h'.literals
  sources site := (h.sources site).trans (h'.sources site)
  tables package locale := (h.tables package locale).trans (h'.tables package locale)
  strings package locale id := (h.strings package locale id).trans (h'.strings package locale id)

/-! ### One entry -/

variable {log log' : List Entry}

lemma concat (h : (ofLog log).SameLinks (ofLog log')) (e : Entry) :
    (ofLog (log ++ [e])).SameLinks (ofLog (log' ++ [e])) where
  methods := by
    have hmethods := h.methods
    simp only [methods_ofLog, mentioned, List.flatMap_append] at hmethods ⊢
    exact eraseDups_append_congr hmethods _
  callers site := by
    have hcallers := h.callers site
    simp only [callerSites_ofLog, List.filterMap_append] at hcallers ⊢
    exact eraseDups_append_congr hcallers _
  literals := by
    have hliterals := h.literals
    simp only [literals_ofLog, List.filterMap_append] at hliterals ⊢
    rw [hliterals]
  sources site := by
    have hsources := h.sources site
    simp only [source?_ofLog, List.filterMap_append, List.getLast?_append] at hsources ⊢
    rw [hsources]
  tables package locale := by
    have htables := h.tables package locale
    simp only [hasTable_ofLog, List.any_append] at htables ⊢
    rw [htables]
  strings package locale id := by
    have hstrings := h.strings package locale id
    simp only [string?_ofLog, List.filterMap_append, List.getLast?_append] at hstrings ⊢
    rw [hstrings]

lemma concat_offset (log : List Entry) (call : Call) (offset : UInt32) :
    (ofLog (log ++ [.call call])).SameLinks (ofLog (log ++ [.call { call with offset }])) where
  methods := by
    simp only [methods_ofLog, mentioned, List.flatMap_append]
    rfl
  callers site := by
    simp only [callerSites_ofLog, List.filterMap_append]
    rfl
  literals := by
    simp only [literals_ofLog, List.filterMap_append]
    rfl
  sources site := by
    simp only [source?_ofLog, List.filterMap_append]
    rfl
  tables package locale := by
    simp only [hasTable_ofLog, List.any_append]
    rfl
  strings package locale id := by
    simp only [string?_ofLog, List.filterMap_append]
    rfl

/-- A call between sites that have called each other changes nothing. -/
lemma concat_again {call : Call} (hcall : .call call ∈ log) :
    (ofLog log).SameLinks (ofLog (log ++ [.call call])) where
  methods := by
    have hsites : (Entry.call call).sites ⊆ log.flatMap Entry.sites :=
      fun site hsite => List.mem_flatMap.2 ⟨_, hcall, hsite⟩
    simp only [methods_ofLog, mentioned, List.flatMap_append, List.flatMap_singleton]
    exact (eraseDups_append_of_subset hsites).symm
  callers site := by
    have hcallers : [Entry.call call].filterMap (Entry.callerOf? site) ⊆
        log.filterMap (Entry.callerOf? site) :=
      List.filterMap_subset _ (by simpa using hcall)
    simp only [callerSites_ofLog, List.filterMap_append]
    exact (eraseDups_append_of_subset hcallers).symm
  literals := by
    simp [literals_ofLog, Entry.literal?]
  sources site := by
    simp [source?_ofLog, Entry.textOf?]
  tables package locale := by
    simp [hasTable_ofLog, Entry.namesTable]
  strings package locale id := by
    simp [string?_ofLog, Entry.stringAt?]

lemma agreeOn (h : index.SameLinks other) (config : Config) (package : String)
    (callers : Set Site) : AgreeOn config package callers index other where
  literals := h.literals
  resolve _ := resolve_congr (h.tables package config.defaultLocale)
    (h.strings package config.defaultLocale)
  sources caller _ := h.sources caller

end SameLinks

/-! ### Whole logs -/

lemma Repeats.sameLinks {log other : List Entry} (h : Repeats log other) :
    (ofLog log).SameLinks (ofLog other) := by
  induction h with
  | nil => exact .refl _
  | entry e _ ih => exact ih.concat e
  | offset call offset _ ih =>
    exact (ih.concat (.call call)).trans (.concat_offset _ call offset)
  | again call offset _ hcall ih =>
    -- the first index would not change under the call either
    exact (SameLinks.concat_again hcall).trans
      ((ih.concat (.call call)).trans (.concat_offset _ call offset))

end Index

namespace Analysis

lemma discover_congr {analysis other : Analysis} (hconfig : analysis.config = other.config)
    (h : analysis.index.SameLinks other.index) : analysis.discover = other.discover := by
  have hcallers : analysis.applicationCallers = other.applicationCallers :=
    funext (applicationCallers_congr hconfig h.callers)
  simp only [discover, Index.methodsNamed, hconfig, h.methods, hcallers]

/-- How often and at which offsets calls are made is of no consequence: the same requests are
discovered, the same paths are found and runs come out the same. -/
theorem runInPlace_repeatedCalls (log other : List Index.Entry) (h : Index.Repeats log other)
    (config : Config) (accepts : Classifier) :
    let analysis : Analysis := { index := .ofLog log, config, accepts }
    let analysis' : Analysis := { index := .ofLog other, config, accepts }
    analysis'.discover = analysis.discover ∧
    (∀ entry site visited, analysis'.index.backtrace entry site visited =
      analysis.index.backtrace entry site visited) ∧
    (∀ entry site, analysis'.index.trace entry site = analysis.index.trace entry site) ∧
    (∀ entry request caller, analysis'.index.traceThrough entry request caller =
      analysis.index.traceThrough entry request caller) ∧
    ∀ entry report, (analysis'.runInPlace entry).run report =
      (analysis.runInPlace entry).run report := by
  intro analysis analysis'
  have hlinks : analysis.index.SameLinks analysis'.index := h.sameLinks
  have hdiscover : analysis.discover = analysis'.discover := discover_congr rfl hlinks
  refine ⟨hdiscover.symm, ?_, ?_, ?_, ?_⟩
  · intro entry site visited
    exact (hlinks.callers.backtrace_eq entry site visited).symm
  · intro entry site
    exact (hlinks.callers.backtrace_eq entry site .empty).symm
  · intro entry request caller
    exact (hlinks.callers.traceThrough_eq entry request caller).symm
  · intro entry report
    have hagree : AgreeOn report analysis analysis' := {
      config := rfl
      accepts := rfl
      pairs := by rw [pairs, pairs, hdiscover]
      callers := hlinks.callers
      index := hlinks.agreeOn config report.package (analysis.consulted report) }
    exact hagree.runInPlace_eq.symm

end Analysis

/-! ### The application with two callers, at other offsets -/

namespace Sample

def repeatedLog : List Index.Entry :=
  [.call { caller := asker, callee := request, offset := 4 },
    .call { caller := silent, callee := request },
    .call { caller := asker, callee := request, offset := 8 },
    .call { caller := silent, callee := request, offset := 6 }, .source asker "ask(CAMERA, SMS)",
    .literal { value := "to scan codes", references := [asker] }, .table "app" "DEFAULT"]

lemma repeats_log : Index.Repeats log repeatedLog := by
  have hfirst := Index.Repeats.nil.offset { caller := asker, callee := request } 4
  have hcalls := (hfirst.entry (.call { caller := silent, callee := request })).entry
    (.call { caller := asker, callee := request, offset := 8 })
  have hagain := hcalls.again { caller := silent, callee := request } 6 (by decide)
  exact ((hagain.entry (.source asker "ask(CAMERA, SMS)")).entry
    (.literal { value := "to scan codes", references := [asker] })).entry (.table "app" "DEFAULT")

end Sample

namespace Analysis

theorem runInPlace_repeatedCalls_sample :
    let analysis' : Analysis := { Sample.analysis with index := .ofLog Sample.repeatedLog }
    Index.Repeats Sample.log Sample.repeatedLog ∧
      analysis'.pairs = [(Sample.request, Sample.asker), (Sample.request, Sample.silent)] ∧
      analysis'.index.traceThrough "Main" Sample.request Sample.asker =
        [Sample.request, Sample.asker] ∧
      (analysis'.runInPlace "Main").run Sample.report = .ok () Sample.explained := by
  intro analysis'
  obtain ⟨hdiscover, -, -, hpath, hrun⟩ := runInPlace_repeatedCalls Sample.log Sample.repeatedLog
    Sample.repeats_log Sample.analysis.config Sample.analysis.accepts
  refine ⟨Sample.repeats_log, ?_, ?_, ?_⟩
  · rw [pairs, hdiscover]
    exact Sample.pairs_eq_askers
  · rw [hpath]
    exact Sample.traceThrough_asker
  · rw [hrun]
    exact runInPlace_eq_ok_iff.2 Sample.run_report

end Analysis

end RequestTrail
