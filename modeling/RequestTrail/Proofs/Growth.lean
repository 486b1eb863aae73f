import RequestTrail.Proofs.Dependence
import RequestTrail.Proofs.Requests

/-!
# More calls

Calls that are added to an index bring in callers and request methods, and may lead a search into
branches that it did not have before. No finding is lost by that. Each pair that was discovered is
discovered again, the same permissions are tied to its caller, and where there was a path there
still is one. It need not be the same path, since an earlier branch may now succeed.
-/

namespace RequestTrail

namespace Index

/-- An index that holds more methods and calls, and nothing else that is new. -/
structure GrowsTo (index later : Index) : Prop where
  methods : ∀ site ∈ index.methods, site ∈ later.methods
  callers : ∀ site, ∀ call ∈ index.callersOf site, call ∈ later.callersOf site
  agree : ∀ config package, AgreeOn config package Set.univ index later

lemma GrowsTo.isCaller {index later : Index} (h : index.GrowsTo later) (site caller : Site)
    (hcaller : index.IsCaller site caller) : later.IsCaller site caller := by
  obtain ⟨call, hcall, rfl⟩ := hcaller
  exact ⟨call, h.callers site call hcall, rfl⟩

lemma growsTo_ofLog_append (log : List Entry) (calls : List Call) :
    (ofLog log).GrowsTo (ofLog (log ++ calls.map Entry.call)) where
  methods site hsite := by
    rw [mem_methods_ofLog] at hsite ⊢
    obtain ⟨e, he, hsite⟩ := hsite
    exact ⟨e, List.mem_append_left _ he, hsite⟩
  callers site call hcall := by
    rw [callersOf_ofLog] at hcall ⊢
    rw [List.filterMap_append, List.filter_append]
    exact List.mem_append_left _ hcall
  agree config package := by
    have hcalls : ∀ e ∈ calls.map Entry.call, e.Irrelevant config package Set.univ := by
      intro e he
      obtain ⟨call, _, rfl⟩ := List.mem_map.1 he
      exact ⟨rfl, rfl, fun _ _ => rfl⟩
    exact agreeOn_ofLog_append hcalls log

end Index

namespace Finding

/-- A finding that is the same in key, tier and reason, and has a path if the first one has. -/
structure KeptBy (finding other : Finding) : Prop where
  key : finding.key = other.key
  tier : finding.tier = other.tier
  reason : finding.reason = other.reason
  path : finding.path ≠ [] → other.path ≠ []

/-- Explanations make no difference. -/
lemma keptBy_unexplained_iff {f g : Finding} :
    f.unexplained.KeptBy g.unexplained ↔ f.KeptBy g := by
  constructor
  · intro h
    exact ⟨h.key, h.tier, h.reason, h.path⟩
  · intro h
    exact ⟨h.key, h.tier, h.reason, h.path⟩

lemma KeptBy.of_unexplained {f f' g g' : Finding} (h : f.KeptBy g)
    (hf : f'.unexplained = f.unexplained) (hg : g'.unexplained = g.unexplained) :
    f'.KeptBy g' := by
  rw [← keptBy_unexplained_iff, hf, hg]
  exact keptBy_unexplained_iff.2 h

end Finding

namespace Analysis

/-- Analyses under the same settings, the later one of a grown index. -/
structure GrowsTo (analysis later : Analysis) : Prop where
  config : analysis.config = later.config
  index : analysis.index.GrowsTo later.index

namespace GrowsTo

variable {analysis later : Analysis} {entry package : String} {permissions : PermissionSet}
  {report result result' : Report} {added added' : Nat}
  {yield yield' : Site × Site → List Finding}

lemma mem_pairs (h : analysis.GrowsTo later) {pair : Site × Site}
    (hpair : pair ∈ analysis.pairs) : pair ∈ later.pairs := by
  obtain ⟨request, caller⟩ := pair
  simp only [Analysis.mem_pairs, mem_applicationCallers, requestMethods, Index.methodsNamed,
    List.mem_filter, ← h.config] at hpair ⊢
  obtain ⟨⟨⟨hmethod, hname⟩, hplatform⟩, hcaller, hsdk⟩ := hpair
  exact ⟨⟨⟨h.index.methods request hmethod, hname⟩, hplatform⟩,
    h.index.isCaller request caller hcaller, hsdk⟩

/-- The same permissions are tied to a caller, with a path if there was one. -/
lemma exists_keptBy (h : analysis.GrowsTo later) {request caller : Site}
    {found found' : List Finding}
    (hfound : analysis.analyzeCaller request caller permissions package entry = .ok found)
    (hfound' : later.analyzeCaller request caller permissions package entry = .ok found') :
    ∀ f ∈ found, ∃ g ∈ found', f.KeptBy g := by
  have hagree := h.index.agree later.config package
  rw [analyzeCaller_eq_map, h.config, hagree.sourceOf_eq (Set.mem_univ caller),
    hagree.attributions_eq] at hfound
  rw [analyzeCaller_eq_map] at hfound'
  obtain ⟨attributions, hattributions, rfl⟩ := map_eq_ok_iff.1 hfound
  obtain ⟨attributions', hattributions', rfl⟩ := map_eq_ok_iff.1 hfound'
  obtain rfl := Except.ok.inj (hattributions.symm.trans hattributions')
  intro f hf
  rw [findingsOf_eq_map (analysis.index.traceThrough entry request caller)
    (later.index.traceThrough entry request caller)]
  refine ⟨_, List.mem_map_of_mem hf, rfl, rfl, rfl, ?_⟩
  obtain ⟨-, -, hpath⟩ := of_mem_findingsOf hf
  rw [hpath]
  exact Index.traceThrough_ne_nil_mono h.index.isCaller

lemma exists_keptBy_of_mem_fresh (h : analysis.GrowsTo later)
    (hphase : analysis.RequestPhase entry report result added yield)
    (hphase' : later.RequestPhase entry report result' added' yield') :
    ∀ f ∈ report.fresh (analysis.pairs.flatMap yield),
      ∃ g ∈ report.fresh (later.pairs.flatMap yield'), f.KeptBy g := by
  apply Report.exists_mem_fresh fun _ _ => Finding.KeptBy.key
  intro f hf
  obtain ⟨pair, hpair, hf⟩ := List.mem_flatMap.1 hf
  have hpair' := h.mem_pairs hpair
  obtain ⟨g, hg, hkept⟩ :=
    h.exists_keptBy (hphase.yields pair hpair) (hphase'.yields pair hpair') f hf
  exact ⟨g, List.mem_flatMap.2 ⟨pair, hpair', hg⟩, hkept⟩

end GrowsTo

end Analysis

/-! ### Runs -/

namespace Report

/-- Two outcomes of analysing the same report, the second of which loses nothing that the first one
has found. -/
structure Keeps (report first second : Report) : Prop where
  keys : ∀ key ∈ first.keys, key ∈ second.keys
  added : ∀ f ∈ first.findings.drop report.findings.length,
    ∃ g ∈ second.findings.drop report.findings.length, f.KeptBy g

end Report

namespace Analysis

lemma GrowsTo.keeps_of_run {analysis later : Analysis} {entry : String}
    {report first second : Report} (h : analysis.GrowsTo later)
    (hmethods : analysis.index.methods.Nodup) (hmethods' : later.index.methods.Nodup)
    (hfirst : analysis.run entry report = .ok first)
    (hsecond : later.run entry report = .ok second) : report.Keeps first second := by
  obtain ⟨_, _, yield, old, new, hphase, hold, hnew, rfl⟩ :=
    exists_explained_of_run hmethods hfirst
  obtain ⟨_, _, yield', old', new', hphase', hold', hnew', rfl⟩ :=
    exists_explained_of_run hmethods' hsecond
  have hadded : ∀ f ∈ new, ∃ g ∈ new', f.KeptBy g := by
    intro f' hf'
    obtain ⟨f, hf, hexplain⟩ := exists_of_mem_of_mapM_eq_ok hnew f' hf'
    obtain ⟨g, hg, hkept⟩ := h.exists_keptBy_of_mem_fresh hphase hphase' f hf
    obtain ⟨g', hg', hexplain'⟩ := forall_ok_of_mapM_eq_ok hnew' g hg
    exact ⟨g', hg', hkept.of_unexplained (unexplained_of_explain hexplain)
      (unexplained_of_explain hexplain')⟩
  have hkept : old.map Finding.key = old'.map Finding.key := by
    rw [map_eq_of_mapM_eq_ok (fun _ _ => key_of_explain) hold,
      map_eq_of_mapM_eq_ok (fun _ _ => key_of_explain) hold']
  constructor
  · intro key hkey
    simp only [Report.keys, List.map_append, List.mem_append, hkept] at hkey ⊢
    rcases hkey with hkey | hkey
    · exact .inl hkey
    · obtain ⟨f, hf, rfl⟩ := List.mem_map.1 hkey
      obtain ⟨g, hg, hfg⟩ := hadded f hf
      exact .inr (List.mem_map.2 ⟨g, hg, hfg.key.symm⟩)
  · rwa [List.drop_left' (length_of_mapM_eq_ok hold), List.drop_left' (length_of_mapM_eq_ok hold')]

/-- Findings are monotone in the calls. Where the table of resolved strings is there, a run succeeds
before and after calls are added to the index, and the later run loses no key and no finding. -/
theorem runInPlace_keeps_of_addCalls (log : List Index.Entry) (calls : List Call) (config : Config)
    (accepts : Classifier) (entry : String) (report : Report)
    (htable : (Index.ofLog log).hasTable report.package config.defaultLocale = true) :
    let analysis : Analysis := { index := .ofLog log, config, accepts }
    let later : Analysis := { index := .ofLog (log ++ calls.map .call), config, accepts }
    ∃ first second, (analysis.runInPlace entry).run report = .ok () first ∧
      (later.runInPlace entry).run report = .ok () second ∧ report.Keeps first second := by
  intro analysis later
  have hgrows : analysis.GrowsTo later := ⟨rfl, Index.growsTo_ofLog_append log calls⟩
  have htable' : later.index.hasTable report.package config.defaultLocale = true := by
    change (Index.ofLog (log ++ calls.map .call)).hasTable report.package config.defaultLocale = true
    rw [Index.hasTable_ofLog] at htable ⊢
    rw [List.any_append, htable, Bool.true_or]
  obtain ⟨first, hfirst⟩ : ∃ first, analysis.run entry report = .ok first :=
    exists_run_of_hasTable htable
  obtain ⟨second, hsecond⟩ : ∃ second, later.run entry report = .ok second :=
    exists_run_of_hasTable htable'
  have hkeeps := hgrows.keeps_of_run (Index.nodup_methods_ofLog log)
    (Index.nodup_methods_ofLog (log ++ calls.map .call)) hfirst hsecond
  exact ⟨first, second, runInPlace_eq_ok_iff.2 hfirst, runInPlace_eq_ok_iff.2 hsecond, hkeeps⟩

end Analysis

/-! ### The application with two callers, and a third

The second caller had no path and now has one through the first. -/

namespace Sample

def moreCalls : List Call :=
  [{ caller := asker, callee := silent },
    { caller := { className := "Lcom/app/Third;", name := "ask" }, callee := request }]

end Sample

namespace Analysis

theorem runInPlace_keeps_of_addCalls_sample :
    Sample.analysis.index.hasTable "app" "DEFAULT" = true ∧
      ∃ second, ({ Sample.analysis with
          index := .ofLog (Sample.log ++ Sample.moreCalls.map Index.Entry.call) }.runInPlace "Main").run
            Sample.report = .ok () second ∧
        Sample.report.Keeps Sample.explained second := by
  have htable : Sample.analysis.index.hasTable "app" "DEFAULT" = true := by decide
  have hrun := runInPlace_eq_ok_iff.2 Sample.run_report
  obtain ⟨first, second, hfirst, hsecond, hkeeps⟩ := runInPlace_keeps_of_addCalls Sample.log
    Sample.moreCalls Sample.analysis.config Sample.analysis.accepts "Main" Sample.report htable
  cases hfirst.symm.trans hrun
  exact ⟨htable, second, hsecond, hkeeps⟩

end Analysis

end RequestTrail
