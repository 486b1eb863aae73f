import RequestTrail.Proofs.Discovery
import RequestTrail.Proofs.Log
import RequestTrail.Proofs.SeenSet
import RequestTrail.Proofs.Service

/-!
# What a run reads

A run reads little of an index. Of the calls it reads which callers a site has and in what order
they come first. Of the texts it reads those of the callers that it looks at: the discovered ones
and those of findings that the report already has. Beyond that it reads the literals and the one
table of strings that the settings select. Indexes that agree in all this give the same outcome.
-/

namespace RequestTrail

namespace Index

variable {index other : Index} {entry : String} {visited : VisitedSet}

/-! ### Calls -/

/-- Indexes in which every site has the same callers, in the order of their first calls. -/
def SameCallers (index other : Index) : Prop :=
  ∀ site, (index.callerSites site).eraseDups = (other.callerSites site).eraseDups

lemma firstBacktrace_eraseDups (sites : List Site) :
    index.firstBacktrace entry sites.eraseDups visited =
      index.firstBacktrace entry sites visited := by
  rw [firstBacktrace, firstBacktrace, findSome?_eraseDups]

lemma firstBacktrace_congr {sites : List Site}
    (h : ∀ site ∈ sites, index.backtrace entry site visited = other.backtrace entry site visited) :
    index.firstBacktrace entry sites visited = other.firstBacktrace entry sites visited := by
  unfold firstBacktrace
  congr 1
  apply findSome?_congr_of_mem
  intro site hsite
  rw [h site hsite]

namespace SameCallers

/-- A caller that is tried again has failed before, so a search does not see repeated calls. -/
lemma backtrace_eq (h : index.SameCallers other) (entry : String) (site : Site)
    (visited : VisitedSet) :
    index.backtrace entry site visited = other.backtrace entry site visited := by
  induction site, visited using search_induction index with
  | step site visited ih =>
    by_cases hsite : site ∈ visited
    · rw [backtrace_of_mem hsite, backtrace_of_mem hsite]
    cases hc : site.inComponent entry with
    | true => rw [backtrace_of_inComponent hsite hc, backtrace_of_inComponent hsite hc]
    | false =>
      have hcallers : index.firstBacktrace entry (index.callerSites site) (visited.insert site) =
          other.firstBacktrace entry (other.callerSites site) (visited.insert site) := by
        rw [← other.firstBacktrace_eraseDups (other.callerSites site), ← h site,
          firstBacktrace_eraseDups]
        apply firstBacktrace_congr
        intro caller hcaller
        obtain ⟨call, hcall, rfl⟩ := List.mem_map.1 hcaller
        exact ih hsite call hcall
      rw [backtrace_eq_firstBacktrace hsite hc, backtrace_eq_firstBacktrace hsite hc, hcallers]

lemma traceThrough_eq (h : index.SameCallers other) (entry : String) (request caller : Site) :
    index.traceThrough entry request caller = other.traceThrough entry request caller := by
  rw [traceThrough, traceThrough, h.backtrace_eq]

end SameCallers

/-! ### Texts -/

/-- Indexes that hold the same literals, resolve the same strings of a package, and have the same
texts of the given callers. -/
structure AgreeOn (config : Config) (package : String) (callers : Set Site)
    (index other : Index) : Prop where
  literals : index.literals = other.literals
  resolve : ∀ source, index.resolve config package source = other.resolve config package source
  sources : ∀ caller ∈ callers, index.source? caller = other.source? caller

namespace AgreeOn

variable {config : Config} {package source : String} {callers : Set Site} {caller : Site}
  {permissions : PermissionSet}

lemma sourceOf_eq (h : AgreeOn config package callers index other) (hcaller : caller ∈ callers) :
    index.sourceOf caller = other.sourceOf caller := by
  rw [sourceOf, sourceOf, h.sources caller hcaller]

lemma attributions_eq (h : AgreeOn config package callers index other) :
    index.attributions config package caller source permissions =
      other.attributions config package caller source permissions := by
  apply attributions_congr (h.resolve source)
  intro permission
  rw [isReferencedNear, isReferencedNear, h.literals]

end AgreeOn

/-- An entry that has no part in what indexes agree on. -/
structure Entry.Irrelevant (config : Config) (package : String) (callers : Set Site)
    (e : Entry) : Prop where
  literal : e.literal? = none
  table : e.namesTable package config.defaultLocale = false
  text : ∀ caller ∈ callers, e.textOf? caller = none

lemma Entry.stringAt?_eq_none {e : Entry} {package locale : String}
    (h : e.namesTable package locale = false) (id : UInt64) :
    e.stringAt? package locale id = none := by
  cases e with
  | string p l i value =>
    simp only [namesTable, beq_eq_false_iff_ne, ne_eq, Prod.mk.injEq] at h
    simp only [stringAt?, Prod.mk.injEq, ite_eq_right_iff, reduceCtorEq, imp_false]
    exact fun heq => h ⟨heq.1, heq.2.1⟩
  | _ => rfl

lemma filterMap_append_of_none {β : Type} {item? : Entry → Option β} {extra : List Entry}
    (h : ∀ e ∈ extra, item? e = none) (log : List Entry) :
    log.filterMap item? = (log ++ extra).filterMap item? := by
  rw [List.filterMap_append, List.filterMap_eq_nil_iff.2 h, List.append_nil]

lemma agreeOn_ofLog_append {config : Config} {package : String} {callers : Set Site}
    {extra : List Entry} (h : ∀ e ∈ extra, e.Irrelevant config package callers)
    (log : List Entry) : AgreeOn config package callers (ofLog log) (ofLog (log ++ extra)) where
  literals := by
    rw [literals_ofLog, literals_ofLog]
    exact filterMap_append_of_none (fun e he => (h e he).literal) log
  resolve source := by
    apply resolve_congr
    · have hextra : extra.any (Entry.namesTable package config.defaultLocale) = false :=
        List.any_eq_false.2 fun e he => by simp [(h e he).table]
      rw [hasTable_ofLog, hasTable_ofLog, List.any_append, hextra, Bool.or_false]
    · intro id
      rw [string?_ofLog, string?_ofLog]
      rw [filterMap_append_of_none (fun e he => Entry.stringAt?_eq_none (h e he).table id) log]
  sources caller hcaller := by
    rw [source?_ofLog, source?_ofLog]
    rw [filterMap_append_of_none (fun e he => (h e he).text caller hcaller) log]

end Index

namespace Analysis

variable {analysis other : Analysis} {entry : String} {report : Report}

/-! ### Runs -/

/-- The callers whose texts a run reads: those of request methods, and those of the findings that
the report already has. -/
def consulted (analysis : Analysis) (report : Report) : Set Site :=
  {caller | (∃ request ∈ analysis.discover, caller ∈ request.callers) ∨
    ∃ f ∈ report.findings, f.caller = caller}

instance (analysis : Analysis) (report : Report) (caller : Site) :
    Decidable (caller ∈ analysis.consulted report) :=
  inferInstanceAs (Decidable ((∃ request ∈ analysis.discover, caller ∈ request.callers) ∨
    ∃ f ∈ report.findings, f.caller = caller))

lemma mem_consulted_of_mem_pairs {request caller : Site} (h : (request, caller) ∈ analysis.pairs)
    (report : Report) : caller ∈ analysis.consulted report := by
  obtain ⟨found, hfound, hpair⟩ := List.mem_flatMap.1 h
  obtain ⟨_, hcaller, heq⟩ := List.mem_map.1 hpair
  exact .inl ⟨found, hfound, (Prod.mk.inj heq).2 ▸ hcaller⟩

lemma applicationCallers_eq_filter (analysis : Analysis) (request : Site) :
    analysis.applicationCallers request = (analysis.index.callerSites request).eraseDups.filter
      fun caller => !analysis.config.isSdkSite caller := by
  rw [filter_eraseDups]
  rfl

lemma applicationCallers_congr (hconfig : analysis.config = other.config)
    (hcallers : analysis.index.SameCallers other.index) (request : Site) :
    analysis.applicationCallers request = other.applicationCallers request := by
  rw [applicationCallers_eq_filter, applicationCallers_eq_filter, hcallers request, hconfig]

/-- Analyses under the same settings that agree in all that a run reads. -/
structure AgreeOn (report : Report) (analysis other : Analysis) : Prop where
  config : analysis.config = other.config
  accepts : analysis.accepts = other.accepts
  pairs : analysis.pairs = other.pairs
  callers : analysis.index.SameCallers other.index
  index : Index.AgreeOn analysis.config report.package (analysis.consulted report) analysis.index
    other.index

namespace AgreeOn

lemma analyzeCaller_eq (h : AgreeOn report analysis other) {pair : Site × Site}
    (hpair : pair ∈ analysis.pairs) :
    analysis.analyzeCaller pair.1 pair.2 report.permissions report.package entry =
      other.analyzeCaller pair.1 pair.2 report.permissions report.package entry := by
  have hsource := h.index.sourceOf_eq (mem_consulted_of_mem_pairs hpair report)
  rw [analyzeCaller_eq_map, analyzeCaller_eq_map, ← h.config, hsource, h.index.attributions_eq,
    h.callers.traceThrough_eq]

lemma requestFindings_eq (h : AgreeOn report analysis other) :
    analysis.requestFindings report.permissions report.package entry =
      other.requestFindings report.permissions report.package entry := by
  unfold requestFindings
  rw [← h.pairs, mapM_congr fun pair hpair => h.analyzeCaller_eq hpair]

lemma explain_eq (h : AgreeOn report analysis other) {f : Finding}
    (hf : f.caller ∈ analysis.consulted report) :
    analysis.explain report.package f = other.explain report.package f := by
  have hexplanations :
      analysis.explanations report.package f = other.explanations report.package f := by
    rw [explanations_eq_map, explanations_eq_map, ← h.config, ← h.accepts, ← h.index.literals,
      h.index.sourceOf_eq hf, h.index.resolve]
  rw [explain, explain, hexplanations]

lemma run_eq (h : AgreeOn report analysis other) :
    analysis.run entry report = other.run entry report := by
  rw [run, run, analyzeRequests_eq_map, analyzeRequests_eq_map, ← h.requestFindings_eq]
  cases hfound : analysis.requestFindings report.permissions report.package entry with
  | error e => rfl
  | ok found =>
    change analysis.analyzeExplanations (report.pushAll found).1 =
      other.analyzeExplanations (report.pushAll found).1
    -- the second phase looks at old findings, and at those that the first phase made of pairs
    have hconsulted : ∀ f ∈ (report.pushAll found).1.findings,
        f.caller ∈ analysis.consulted report := by
      intro f hf
      rcases Report.mem_of_mem_pushAll hf with hold | hnew
      · exact .inr ⟨f, hold, rfl⟩
      · exact mem_consulted_of_mem_pairs (mem_pairs_of_requestFindings hfound hnew) report
    obtain ⟨after, hafter⟩ := report.exists_findings_pushAll found
    rw [hafter] at hconsulted ⊢
    rw [analyzeExplanations, analyzeExplanations,
      mapM_congr fun f hf => h.explain_eq (hconsulted f hf)]

lemma runInPlace_eq (h : AgreeOn report analysis other) :
    (analysis.runInPlace entry).run report = (other.runInPlace entry).run report := by
  rw [run_runInPlace, run_runInPlace, h.run_eq]

end AgreeOn

end Analysis

end RequestTrail
