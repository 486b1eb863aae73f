import RequestTrail.Proofs.Discovery
import RequestTrail.Proofs.Service

/-!
# The request phase

What the first phase of an analysis adds to a report: the findings on every pair of a request method
and a caller, in the order of discovery, except those whose keys the report already has. That no
finding of the phase stands in the way of another rests on three facts at once: no method is
registered twice, no caller is discovered twice for a request method, and no tier names a
permission twice.
-/

namespace RequestTrail

namespace Finding

/-- Findings that name distinct declared permissions, all by the same tier. -/
structure NamePermissions (permissions : PermissionSet) (findings : List Finding) : Prop where
  nonempty : findings ≠ []
  distinct : (findings.map Finding.permission).Nodup
  declared : ∀ f ∈ findings, permissions.contains f.permission = true
  same_tier : ∃ tier, tier ≠ .unknown ∧ ∀ f ∈ findings, f.tier = tier ∧ f.reason = none

/-- A single finding that names no permission and gives the caller's text as its reason. -/
def NameNone (source : String) (findings : List Finding) : Prop :=
  ∃ f reason, findings = [f] ∧ f.permission = unknownPermission ∧ f.tier = .unknown ∧
    f.reason = some reason ∧ Text.contains reason source = true

lemma distinct_of_namePermissions_or_nameNone {permissions : PermissionSet} {source : String}
    {findings : List Finding} (h : NamePermissions permissions findings ∨ NameNone source findings) :
    (findings.map Finding.permission).Nodup := by
  rcases h with h | ⟨f, _, rfl, _⟩
  · exact h.distinct
  · exact List.nodup_singleton _

end Finding

namespace Analysis

variable {analysis : Analysis} {entry package : String} {permissions : PermissionSet}
  {request caller : Site} {found : List Finding}

/-! ### One pair -/

/-- The findings on a caller outside of the SDK are about the caller and the request method, with
the path from one to the other, and name permissions or nothing. -/
lemma analyzeCaller_spec (hsdk : analysis.config.isSdkSite caller = false)
    (h : analysis.analyzeCaller request caller permissions package entry = .ok found) :
    (∀ f ∈ found, f.request = request ∧ f.caller = caller ∧
        f.path = analysis.index.traceThrough entry request caller) ∧
      (Finding.NamePermissions permissions found ∨
        Finding.NameNone (analysis.index.sourceOf caller) found) := by
  obtain ⟨attributions, hattributions, h⟩ := bind_eq_ok_iff.1 h
  rw [hsdk, Bool.and_false, if_neg Bool.false_ne_true] at h
  split at h
  · obtain rfl := Except.ok.inj h
    refine ⟨by simp [Finding.unknown], .inr ⟨_, _, rfl, rfl, rfl, rfl, ?_⟩⟩
    rw [Text.contains_iff_infix, String.toList_append]
    exact (List.suffix_append _ _).isInfix
  · rename_i hfound
    obtain rfl := Except.ok.inj h
    obtain ⟨tier, htier, hofTier⟩ := Index.attributions_ofTier hattributions
    refine ⟨by simp, .inl ⟨by simpa using hfound, ?_, ?_, tier, htier, ?_⟩⟩
    · simpa [List.map_map, Function.comp_def] using hofTier.distinct
    · simpa using hofTier.declared
    · simpa using hofTier.tier_eq

/-- Findings on one pair that name distinct permissions have distinct keys. -/
lemma nodup_keys_of_distinct (habout : ∀ f ∈ found, f.request = request ∧ f.caller = caller)
    (hdistinct : (found.map Finding.permission).Nodup) : (found.map Finding.key).Nodup := by
  have hkey : found.map Finding.key =
      (found.map Finding.permission).map fun p => { permission := p, request, caller } := by
    rw [List.map_map]
    apply List.map_congr_left
    intro f hf
    obtain ⟨rfl, rfl⟩ := habout f hf
    rfl
  rw [hkey]
  apply hdistinct.map
  intro p q hpq
  exact (Finding.Key.mk.inj hpq).1

/-! ### All pairs -/

/-- Findings about distinct pairs have distinct keys. -/
lemma nodup_keys_flatMap {pairs : List (Site × Site)} {yield : Site × Site → List Finding}
    (hpairs : pairs.Nodup)
    (habout : ∀ pair ∈ pairs, ∀ f ∈ yield pair, f.request = pair.1 ∧ f.caller = pair.2)
    (hdistinct : ∀ pair ∈ pairs, ((yield pair).map Finding.permission).Nodup) :
    ((pairs.flatMap yield).map Finding.key).Nodup := by
  rw [List.map_flatMap, List.nodup_flatMap]
  constructor
  · intro pair hpair
    exact nodup_keys_of_distinct (habout pair hpair) (hdistinct pair hpair)
  · refine hpairs.imp_of_mem ?_
    intro a b ha hb hne
    change List.Disjoint _ _
    rw [List.disjoint_left]
    intro key hkey hkey'
    obtain ⟨f, hf, rfl⟩ := List.mem_map.1 hkey
    obtain ⟨g, hg, heq⟩ := List.mem_map.1 hkey'
    obtain ⟨hfa, hfa'⟩ := habout a ha f hf
    obtain ⟨hgb, hgb'⟩ := habout b hb g hg
    obtain ⟨_, hrequest, hcaller⟩ := Finding.Key.mk.inj heq
    apply hne
    exact Prod.ext (by rw [← hfa, ← hgb, hrequest]) (by rw [← hfa', ← hgb', hcaller])

/-- What the request phase makes of a report, where `yield` gives the findings on each pair of a
request method and a caller. -/
structure RequestPhase (analysis : Analysis) (entry : String) (report result : Report)
    (added : Nat) (yield : Site × Site → List Finding) : Prop where
  /-- The findings on a pair are those of the pair's own analysis. -/
  yields : ∀ pair ∈ analysis.pairs,
    analysis.analyzeCaller pair.1 pair.2 report.permissions report.package entry = .ok (yield pair)
  /-- The findings with new keys are added behind the old ones, in the order of discovery. -/
  appends : result = { report with
    findings := report.findings ++ report.fresh (analysis.pairs.flatMap yield) }
  /-- No two findings of the phase have the same key. -/
  distinct : ((analysis.pairs.flatMap yield).map Finding.key).Nodup
  /-- Nothing is left out if there was nothing before. -/
  all_fresh : report.findings = [] →
    report.fresh (analysis.pairs.flatMap yield) = analysis.pairs.flatMap yield
  counts : added = (report.fresh (analysis.pairs.flatMap yield)).length
  /-- A finding is about an application method that calls a request method of the platform. -/
  about : ∀ f ∈ report.fresh (analysis.pairs.flatMap yield),
    f.request ∈ analysis.index.methodsNamed analysis.config.requestMethodName ∧
      analysis.config.isPlatformSite f.request = true ∧
      analysis.config.isSdkSite f.caller = false ∧
      (∃ call ∈ analysis.index.callersOf f.request, call.caller = f.caller) ∧
      f.path = analysis.index.traceThrough entry f.request f.caller
  /-- A pair yields permissions of one tier, or one finding without a permission. -/
  names : ∀ pair ∈ analysis.pairs,
    Finding.NamePermissions report.permissions (yield pair) ∨
      Finding.NameNone (analysis.index.sourceOf pair.2) (yield pair)

lemma requestPhase_of_analyzeRequests {report result : Report} {added : Nat}
    (hmethods : analysis.index.methods.Nodup)
    (h : analysis.analyzeRequests entry report = .ok (result, added)) :
    ∃ yield, analysis.RequestPhase entry report result added yield := by
  obtain ⟨found, hfound, hpush⟩ := bind_eq_ok_iff.1 h
  obtain ⟨yield, hyield, rfl⟩ := exists_map_of_mapM_eq_ok hfound
  have hspec : ∀ pair ∈ analysis.pairs, _ := fun pair hpair =>
    analyzeCaller_spec (mem_applicationCallers.1 (mem_pairs.1 hpair).2).2 (hyield pair hpair)
  have hdistinct : ((analysis.pairs.flatMap yield).map Finding.key).Nodup := by
    refine nodup_keys_flatMap (nodup_pairs hmethods) ?_ ?_
    · intro pair hpair f hf
      obtain ⟨hrequest, hcaller, _⟩ := (hspec pair hpair).1 f hf
      exact ⟨hrequest, hcaller⟩
    · intro pair hpair
      exact Finding.distinct_of_namePermissions_or_nameNone (hspec pair hpair).2
  have hresult := Except.ok.inj hpush
  rw [← List.flatMap_def, Report.pushAll_eq hdistinct, Prod.mk.injEq] at hresult
  refine ⟨yield, hyield, hresult.1.symm, hdistinct, ?_, hresult.2.symm, ?_, ?_⟩
  · intro hempty
    simp [Report.fresh, Report.keys, hempty]
  · intro f hf
    obtain ⟨pair, hpair, hf⟩ := List.mem_flatMap.1 (List.mem_filter.1 hf).1
    obtain ⟨hrequest, hcaller, hpath⟩ := (hspec pair hpair).1 f hf
    obtain ⟨hmethod, hcalls⟩ := mem_pairs.1 hpair
    obtain ⟨hnamed, hplatform⟩ := List.mem_filter.1 hmethod
    obtain ⟨hcall, hsdk⟩ := mem_applicationCallers.1 hcalls
    rw [hrequest, hcaller]
    exact ⟨hnamed, hplatform, hsdk, hcall, hpath⟩
  · intro pair hpair
    exact (hspec pair hpair).2

lemma RequestPhase.nodup_keys_fresh {report result : Report} {added : Nat}
    {yield : Site × Site → List Finding}
    (h : analysis.RequestPhase entry report result added yield) :
    ((report.fresh (analysis.pairs.flatMap yield)).map Finding.key).Nodup := by
  have hsublist : (report.fresh (analysis.pairs.flatMap yield)).Sublist
      (analysis.pairs.flatMap yield) := List.filter_sublist
  exact h.distinct.sublist (hsublist.map Finding.key)

/-- A run explains the old findings and, behind them, those that its first phase adds. -/
lemma exists_explained_of_run {report final : Report}
    (hmethods : analysis.index.methods.Nodup) (h : analysis.run entry report = .ok final) :
    ∃ result added yield old new, analysis.RequestPhase entry report result added yield ∧
      report.findings.mapM (analysis.explain report.package) = .ok old ∧
      (report.fresh (analysis.pairs.flatMap yield)).mapM (analysis.explain report.package) =
        .ok new ∧
      final = { report with findings := old ++ new } := by
  obtain ⟨⟨result, added⟩, hrequests, hexplain⟩ := bind_eq_ok_iff.1 h
  obtain ⟨yield, hphase⟩ := requestPhase_of_analyzeRequests hmethods hrequests
  obtain ⟨findings, hfindings, hfinal⟩ := bind_eq_ok_iff.1 hexplain
  rw [hphase.appends] at hfindings hfinal
  obtain ⟨old, new, hold, hnew, rfl⟩ := mapM_append_eq_ok_iff.1 hfindings
  exact ⟨result, added, yield, old, new, hphase, hold, hnew, (Except.ok.inj hfinal).symm⟩

/-- Full account of a successful analysis. For an index built from any log, a request phase that
succeeds adds the findings with new keys out of those on the discovered pairs, and a run that
succeeds does the same and changes nothing else but explanations. -/
theorem analyzeRequestsInPlace_appends (log : List Index.Entry) (config : Config)
    (accepts : Classifier) (entry : String) (report : Report) :
    let analysis : Analysis := { index := .ofLog log, config, accepts }
    (∀ added result, (analysis.analyzeRequestsInPlace entry).run report = .ok added result →
      ∃ yield, analysis.RequestPhase entry report result added yield) ∧
    ∀ final, (analysis.runInPlace entry).run report = .ok () final →
      ∃ added result yield,
        (analysis.analyzeRequestsInPlace entry).run report = .ok added result ∧
          analysis.RequestPhase entry report result added yield ∧
          final.package = result.package ∧ final.permissions = result.permissions ∧
          final.findings.map Finding.unexplained = result.findings.map Finding.unexplained := by
  intro analysis
  have hmethods : analysis.index.methods.Nodup := Index.nodup_methods_ofLog log
  simp only [run_analyzeRequestsInPlace, run_runInPlace, InPlace.outcome_eq_ok_iff]
  refine ⟨fun _ _ => requestPhase_of_analyzeRequests hmethods, ?_⟩
  intro final hfinal
  obtain ⟨explained, hrun, heq⟩ := map_eq_ok_iff.1 hfinal
  obtain rfl : explained = final := congrArg Prod.fst heq
  obtain ⟨⟨result, added⟩, hrequests, hexplain⟩ := bind_eq_ok_iff.1 hrun
  obtain ⟨yield, hphase⟩ := requestPhase_of_analyzeRequests hmethods hrequests
  exact ⟨added, result, yield, hrequests, hphase, unexplained_of_analyzeExplanations hexplain⟩

end Analysis

/-! ### An application with two callers

One caller asks for two permissions by name, of which the report has one already, twice over. The
other caller has no text. -/

namespace Sample

def log : List Index.Entry :=
  [.call { caller := asker, callee := request }, .call { caller := silent, callee := request },
    .call { caller := asker, callee := request, offset := 8 }, .source asker "ask(CAMERA, SMS)",
    .literal { value := "to scan codes", references := [asker] }, .table "app" "DEFAULT"]

def analysis : Analysis where
  index := .ofLog log
  config := {}
  accepts permission _ := permission = "CAMERA"

def report : Report where
  package := "app"
  permissions := .ofList ["CAMERA", "SMS"]
  findings := [finding "SMS" .resourceId, finding "SMS" .stringReference]

def result : Report :=
  { report with findings := report.findings ++
    [finding "CAMERA" .literal, Finding.unknown request silent ""] }

def explained : Report :=
  { report with findings := report.findings ++
    [{ finding "CAMERA" .literal with explanation := ["to scan codes"] },
      Finding.unknown request silent ""] }

lemma pairs_eq_askers : analysis.pairs = [(request, asker), (request, silent)] := by
  decide

lemma traceThrough_asker :
    analysis.index.traceThrough "Main" request asker = [request, asker] := by
  rw [Index.traceThrough, if_neg (by decide),
    Index.backtrace_of_inComponent (by decide) (by decide)]
  rfl

lemma traceThrough_silent : analysis.index.traceThrough "Main" request silent = [] := by
  rw [Index.traceThrough, if_neg (by decide), Index.backtrace_of_callers (by decide) (by decide)]
  rfl

lemma analyzeCaller_asker :
    analysis.analyzeCaller request asker report.permissions "app" "Main" =
      .ok [finding "CAMERA" .literal, finding "SMS" .literal] := by
  unfold finding
  rw [← traceThrough_asker]
  rfl

lemma analyzeCaller_silent :
    analysis.analyzeCaller request silent report.permissions "app" "Main" =
      .ok [Finding.unknown request silent ""] := by
  unfold Finding.unknown
  rw [← traceThrough_silent]
  rfl

lemma requestFindings_asked :
    analysis.requestFindings report.permissions "app" "Main" = .ok
      [finding "CAMERA" .literal, finding "SMS" .literal, Finding.unknown request silent ""] := by
  rw [Analysis.requestFindings, pairs_eq_askers, List.mapM_cons, List.mapM_cons]
  simp only [analyzeCaller_asker, analyzeCaller_silent]
  rfl

lemma analyzeRequests_report : analysis.analyzeRequests "Main" report = .ok (result, 2) := by
  rw [Analysis.analyzeRequests_eq_map]
  change report.pushAll <$> analysis.requestFindings report.permissions "app" "Main" = _
  rw [requestFindings_asked]
  rfl

lemma run_report : analysis.run "Main" report = .ok explained := by
  rw [Analysis.run, analyzeRequests_report]
  rfl

end Sample

namespace Analysis

theorem analyzeRequestsInPlace_appends_sample :
    (Sample.analysis.analyzeRequestsInPlace "Main").run Sample.report = .ok 2 Sample.result ∧
      (∃ yield, Sample.analysis.RequestPhase "Main" Sample.report Sample.result 2 yield) ∧
      (Sample.analysis.runInPlace "Main").run Sample.report = .ok () Sample.explained ∧
      ∃ added result yield,
        (Sample.analysis.analyzeRequestsInPlace "Main").run Sample.report = .ok added result ∧
          Sample.analysis.RequestPhase "Main" Sample.report result added yield ∧
          Sample.explained.package = result.package ∧
          Sample.explained.permissions = result.permissions ∧
          Sample.explained.findings.map Finding.unexplained =
            result.findings.map Finding.unexplained := by
  have hrequests : (Sample.analysis.analyzeRequestsInPlace "Main").run Sample.report =
      .ok 2 Sample.result := by
    rw [run_analyzeRequestsInPlace, Sample.analyzeRequests_report]
    rfl
  have hrun : (Sample.analysis.runInPlace "Main").run Sample.report = .ok () Sample.explained := by
    rw [run_runInPlace, Sample.run_report]
    rfl
  have happends := analyzeRequestsInPlace_appends Sample.log Sample.analysis.config
    Sample.analysis.accepts "Main" Sample.report
  exact ⟨hrequests, happends.1 _ _ hrequests, hrun, happends.2 _ hrun⟩

end Analysis

end RequestTrail
