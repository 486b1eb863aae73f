import RequestTrail.Proofs.Log
import RequestTrail.Proofs.Requests

/-!
# Order of insertion

An index may be built from the same entries in another order. Its methods, calls and literals are
then listed in another order, and so are the callers, the pairs, the witness paths and the
explanations that an analysis makes of them. What an analysis finds does not change: the keys, the
tier and reason of each finding, whether it has a path, and which texts explain it.

That a path is found or not depends on the calls as a set only because the search for it is
complete.
-/

namespace RequestTrail

namespace Index

/-! ### Logs in another order -/

/-- The same entries in another order, except that texts of one site, and strings of one resource
identifier, are set in the same order. -/
structure Reordered (log other : List Entry) : Prop where
  perm : log.Perm other
  texts : ∀ site, log.filterMap (Entry.textOf? site) = other.filterMap (Entry.textOf? site)
  strings : ∀ package locale id, log.filterMap (Entry.stringAt? package locale id) =
    other.filterMap (Entry.stringAt? package locale id)

/-- Two indexes that know the same, in whatever order. -/
structure SameContents (index other : Index) : Prop where
  methods : ∀ site, site ∈ index.methods ↔ site ∈ other.methods
  callers : ∀ site call, call ∈ index.callersOf site ↔ call ∈ other.callersOf site
  literals : ∀ literal, literal ∈ index.literals ↔ literal ∈ other.literals
  sources : ∀ site, index.source? site = other.source? site
  tables : ∀ package locale, index.hasTable package locale = other.hasTable package locale
  strings : ∀ package locale id,
    index.string? package locale id = other.string? package locale id

lemma Reordered.sameContents {log other : List Entry} (h : Reordered log other) :
    (ofLog log).SameContents (ofLog other) where
  methods site := by simp only [mem_methods_ofLog, h.perm.mem_iff]
  callers site call := by
    simp only [callersOf_ofLog, List.mem_filter, (h.perm.filterMap Entry.call?).mem_iff]
  literals literal := by simp only [literals_ofLog, (h.perm.filterMap Entry.literal?).mem_iff]
  sources site := by rw [source?_ofLog, source?_ofLog, h.texts]
  tables package locale := by
    rw [hasTable_ofLog, hasTable_ofLog, Bool.eq_iff_iff]
    simp only [List.any_eq_true, h.perm.mem_iff]
  strings package locale id := by rw [string?_ofLog, string?_ofLog, h.strings]

namespace SameContents

variable {index other : Index} {config : Config} {entry package source : String}
  {site request caller : Site} {visited : VisitedSet} {permissions : PermissionSet}

lemma symm (h : index.SameContents other) : other.SameContents index where
  methods site := (h.methods site).symm
  callers site call := (h.callers site call).symm
  literals literal := (h.literals literal).symm
  sources site := (h.sources site).symm
  tables package locale := (h.tables package locale).symm
  strings package locale id := (h.strings package locale id).symm

lemma sourceOf_eq (h : index.SameContents other) : index.sourceOf site = other.sourceOf site := by
  rw [sourceOf, sourceOf, h.sources]

/-! ### Paths -/

lemma isCaller_iff (h : index.SameContents other) :
    index.IsCaller site caller ↔ other.IsCaller site caller := by
  simp only [IsCaller, h.callers]

lemma traceThrough_eq_nil_iff (h : index.SameContents other) :
    index.traceThrough entry request caller = [] ↔
      other.traceThrough entry request caller = [] := by
  rw [← not_iff_not]
  constructor
  · exact traceThrough_ne_nil_mono fun _ _ => h.isCaller_iff.1
  · exact traceThrough_ne_nil_mono fun _ _ => h.isCaller_iff.2

/-! ### Attributions -/

lemma resolve_eq (h : index.SameContents other) :
    index.resolve config package source = other.resolve config package source :=
  resolve_congr (h.tables package config.defaultLocale) (h.strings package config.defaultLocale)

lemma isReferencedNear_eq (h : index.SameContents other) (permission : String) :
    index.isReferencedNear config caller permission =
      other.isReferencedNear config caller permission := by
  rw [Bool.eq_iff_iff, isReferencedNear_iff, isReferencedNear_iff]
  simp only [h.literals]

lemma attributions_eq (h : index.SameContents other) :
    index.attributions config package caller source permissions =
      other.attributions config package caller source permissions :=
  attributions_congr h.resolve_eq h.isReferencedNear_eq

end SameContents

end Index

/-! ### Findings up to order -/

namespace Finding

/-- Findings that agree in all that does not hang on an order: in key, tier and reason, in whether
there is a path, and in the texts that explain them. -/
structure Alike (finding other : Finding) : Prop where
  key : finding.key = other.key
  tier : finding.tier = other.tier
  reason : finding.reason = other.reason
  path : finding.path = [] ↔ other.path = []
  explanation : ∀ text, text ∈ finding.explanation ↔ text ∈ other.explanation

lemma Alike.refl (finding : Finding) : finding.Alike finding :=
  ⟨rfl, rfl, rfl, Iff.rfl, fun _ => Iff.rfl⟩

end Finding

namespace Analysis

/-- Analyses under the same settings of indexes that know the same. -/
structure SameContents (analysis other : Analysis) : Prop where
  index : analysis.index.SameContents other.index
  config : analysis.config = other.config
  accepts : analysis.accepts = other.accepts

/-- Paths of which both or none are empty give findings that are alike. -/
lemma forall₂_findingsOf {config : Config} {request caller : Site} {source : String}
    {path path' : List Site} (hpath : path = [] ↔ path' = []) (found : List Attribution) :
    List.Forall₂ Finding.Alike (findingsOf config request caller source path found)
      (findingsOf config request caller source path' found) := by
  rw [findingsOf_eq_map path path', List.forall₂_map_right_iff, List.forall₂_same]
  intro f hf
  obtain ⟨-, -, rfl⟩ := of_mem_findingsOf hf
  exact ⟨rfl, rfl, rfl, hpath, fun _ => Iff.rfl⟩

namespace SameContents

variable {analysis other : Analysis} {entry package : String} {request caller : Site}
  {permissions : PermissionSet} {report result result' : Report} {e : Error}
  {added added' : Nat} {yield yield' : Site × Site → List Finding}

lemma symm (h : analysis.SameContents other) : other.SameContents analysis where
  index := h.index.symm
  config := h.config.symm
  accepts := h.accepts.symm

/-! ### The request phase -/

lemma mem_pairs_iff (h : analysis.SameContents other) (pair : Site × Site) :
    pair ∈ analysis.pairs ↔ pair ∈ other.pairs := by
  obtain ⟨request, caller⟩ := pair
  simp only [mem_pairs, mem_applicationCallers, requestMethods, Index.methodsNamed, List.mem_filter,
    h.config, h.index.methods, h.index.isCaller_iff]

lemma asksForTable_iff (h : analysis.SameContents other) :
    analysis.AsksForTable permissions ↔ other.AsksForTable permissions := by
  simp only [Analysis.asksForTable_iff, h.mem_pairs_iff, h.index.sourceOf_eq]

lemma analyzeRequests_eq_error_iff (h : analysis.SameContents other) :
    analysis.analyzeRequests entry report = .error e ↔
      other.analyzeRequests entry report = .error e := by
  rw [Analysis.analyzeRequests_eq_error_iff, Analysis.analyzeRequests_eq_error_iff, h.config,
    h.index.tables, h.asksForTable_iff]

lemma analyzeCaller_alike (h : analysis.SameContents other) {found found' : List Finding}
    (hfound : analysis.analyzeCaller request caller permissions package entry = .ok found)
    (hfound' : other.analyzeCaller request caller permissions package entry = .ok found') :
    List.Forall₂ Finding.Alike found found' := by
  rw [analyzeCaller_eq_map, h.config, h.index.sourceOf_eq, h.index.attributions_eq] at hfound
  rw [analyzeCaller_eq_map] at hfound'
  obtain ⟨attributions, hattributions, rfl⟩ := map_eq_ok_iff.1 hfound
  obtain ⟨attributions', hattributions', rfl⟩ := map_eq_ok_iff.1 hfound'
  obtain rfl := Except.ok.inj (hattributions.symm.trans hattributions')
  exact forall₂_findingsOf h.index.traceThrough_eq_nil_iff attributions

/-- Every finding that one phase adds has its like among those that the other adds. -/
lemma exists_alike_of_mem_fresh (h : analysis.SameContents other)
    (hphase : analysis.RequestPhase entry report result added yield)
    (hphase' : other.RequestPhase entry report result' added' yield') :
    ∀ f ∈ report.fresh (analysis.pairs.flatMap yield),
      ∃ g ∈ report.fresh (other.pairs.flatMap yield'), f.Alike g := by
  apply Report.exists_mem_fresh fun _ _ => Finding.Alike.key
  intro f hf
  obtain ⟨pair, hpair, hf⟩ := List.mem_flatMap.1 hf
  have hpair' := (h.mem_pairs_iff pair).1 hpair
  have halike := h.analyzeCaller_alike (hphase.yields pair hpair) (hphase'.yields pair hpair')
  obtain ⟨i, hi, rfl⟩ := List.getElem_of_mem hf
  have hi' : i < (yield' pair).length := halike.length_eq ▸ hi
  exact ⟨(yield' pair)[i], List.mem_flatMap.2 ⟨pair, hpair', List.getElem_mem hi'⟩,
    halike.get hi hi'⟩

lemma alike_of_key_eq (h : analysis.SameContents other)
    (hphase : analysis.RequestPhase entry report result added yield)
    (hphase' : other.RequestPhase entry report result' added' yield') {f g : Finding}
    (hf : f ∈ report.fresh (analysis.pairs.flatMap yield))
    (hg : g ∈ report.fresh (other.pairs.flatMap yield')) (hkey : f.key = g.key) : f.Alike g := by
  obtain ⟨g', hg', halike⟩ := h.exists_alike_of_mem_fresh hphase hphase' f hf
  -- the like of a finding is the only one with its key
  have heq : g' = g :=
    List.inj_on_of_nodup_map hphase'.nodup_keys_fresh hg' hg (halike.key.symm.trans hkey)
  exact heq ▸ halike

lemma perm_keys_fresh (h : analysis.SameContents other)
    (hphase : analysis.RequestPhase entry report result added yield)
    (hphase' : other.RequestPhase entry report result' added' yield') :
    ((report.fresh (analysis.pairs.flatMap yield)).map Finding.key).Perm
      ((report.fresh (other.pairs.flatMap yield')).map Finding.key) := by
  rw [List.perm_ext_iff_of_nodup hphase.nodup_keys_fresh hphase'.nodup_keys_fresh]
  intro key
  simp only [List.mem_map]
  constructor
  · rintro ⟨f, hf, rfl⟩
    obtain ⟨g, hg, halike⟩ := h.exists_alike_of_mem_fresh hphase hphase' f hf
    exact ⟨g, hg, halike.key.symm⟩
  · rintro ⟨g, hg, rfl⟩
    obtain ⟨f, hf, halike⟩ := h.symm.exists_alike_of_mem_fresh hphase' hphase g hg
    exact ⟨f, hf, halike.key.symm⟩

/-! ### The explanation phase -/

lemma mem_explanations_iff (h : analysis.SameContents other) {finding finding' : Finding}
    {texts texts' : List String} (hpermission : finding.permission = finding'.permission)
    (hcaller : finding.caller = finding'.caller)
    (htexts : analysis.explanations package finding = .ok texts)
    (htexts' : other.explanations package finding' = .ok texts') (text : String) :
    text ∈ texts ↔ text ∈ texts' := by
  rw [explanations_eq_map, h.config, h.accepts, h.index.sourceOf_eq, h.index.resolve_eq,
    hpermission, hcaller] at htexts
  rw [explanations_eq_map] at htexts'
  obtain ⟨resolved, hresolved, rfl⟩ := map_eq_ok_iff.1 htexts
  obtain ⟨resolved', hresolved', rfl⟩ := map_eq_ok_iff.1 htexts'
  obtain rfl := Except.ok.inj (hresolved.symm.trans hresolved')
  simp only [List.mem_eraseDups, List.mem_filter, List.mem_append, List.mem_map, h.index.literals]

lemma explain_alike (h : analysis.SameContents other) {f f' g g' : Finding} (hfg : f.Alike g)
    (hf : analysis.explain package f = .ok f') (hg : other.explain package g = .ok g') :
    f'.Alike g' := by
  obtain ⟨hpermission, -, hcaller⟩ := Finding.Key.mk.inj hfg.key
  have hunknown : f.isUnknown = g.isUnknown := by
    rw [Finding.isUnknown, Finding.isUnknown, hpermission]
  unfold explain at hf hg
  rw [hunknown] at hf
  split at hf
  · rename_i hg'
    rw [if_pos hg'] at hg
    rwa [← Except.ok.inj hf, ← Except.ok.inj hg]
  · rename_i hg'
    rw [if_neg hg'] at hg
    obtain ⟨texts, htexts, hf⟩ := bind_eq_ok_iff.1 hf
    obtain ⟨texts', htexts', hg⟩ := bind_eq_ok_iff.1 hg
    rw [← Except.ok.inj hf, ← Except.ok.inj hg]
    exact { hfg with explanation := h.mem_explanations_iff hpermission hcaller htexts htexts' }

end SameContents

end Analysis

/-! ### Runs -/

namespace Report

/-- Two outcomes of analysing the same report, the same up to order. -/
structure SameFindings (report first second : Report) : Prop where
  keys : ∀ key, key ∈ first.keys ↔ key ∈ second.keys
  /-- The findings that were there before differ in the order of their explanations at most. -/
  kept : List.Forall₂
    (fun f g => f.unexplained = g.unexplained ∧
      ∀ text, text ∈ f.explanation ↔ text ∈ g.explanation)
    (first.findings.take report.findings.length) (second.findings.take report.findings.length)
  /-- The added findings have the same keys, in some order. -/
  matched : ((first.findings.drop report.findings.length).map Finding.key).Perm
    ((second.findings.drop report.findings.length).map Finding.key)
  /-- Added findings of the same key are alike. -/
  alike : ∀ f ∈ first.findings.drop report.findings.length,
    ∀ g ∈ second.findings.drop report.findings.length, f.key = g.key → f.Alike g

end Report

namespace Analysis

variable {analysis other : Analysis} {entry : String} {report first second : Report}

namespace SameContents

/-- Explanations of one finding differ in their order at most. -/
lemma explain_kept (h : analysis.SameContents other) {package : String} {f f' g' : Finding}
    (hf : analysis.explain package f = .ok f') (hg : other.explain package f = .ok g') :
    f'.unexplained = g'.unexplained ∧ ∀ text, text ∈ f'.explanation ↔ text ∈ g'.explanation :=
  ⟨(unexplained_of_explain hf).trans (unexplained_of_explain hg).symm,
    (h.explain_alike (.refl f) hf hg).explanation⟩

lemma sameFindings_of_run (h : analysis.SameContents other)
    (hmethods : analysis.index.methods.Nodup) (hmethods' : other.index.methods.Nodup)
    (hfirst : analysis.run entry report = .ok first)
    (hsecond : other.run entry report = .ok second) : report.SameFindings first second := by
  obtain ⟨_, _, yield, old, new, hphase, hold, hnew, rfl⟩ :=
    exists_explained_of_run hmethods hfirst
  obtain ⟨_, _, yield', old', new', hphase', hold', hnew', rfl⟩ :=
    exists_explained_of_run hmethods' hsecond
  have hmatched : (new.map Finding.key).Perm (new'.map Finding.key) := by
    rw [map_eq_of_mapM_eq_ok (fun _ _ => key_of_explain) hnew,
      map_eq_of_mapM_eq_ok (fun _ _ => key_of_explain) hnew']
    exact h.perm_keys_fresh hphase hphase'
  have hkept : old.map Finding.key = old'.map Finding.key := by
    rw [map_eq_of_mapM_eq_ok (fun _ _ => key_of_explain) hold,
      map_eq_of_mapM_eq_ok (fun _ _ => key_of_explain) hold']
  refine ⟨?_, ?_, ?_, ?_⟩
  · intro key
    simp only [Report.keys, List.map_append, hkept]
    exact (hmatched.append_left _).mem_iff
  · rw [List.take_left' (length_of_mapM_eq_ok hold), List.take_left' (length_of_mapM_eq_ok hold')]
    exact forall₂_of_mapM_eq_ok (fun _ _ _ => h.explain_kept) hold hold'
  · rwa [List.drop_left' (length_of_mapM_eq_ok hold), List.drop_left' (length_of_mapM_eq_ok hold')]
  · rw [List.drop_left' (length_of_mapM_eq_ok hold), List.drop_left' (length_of_mapM_eq_ok hold')]
    intro f' hf' g' hg' hkey
    obtain ⟨f, hf, hexplain⟩ := exists_of_mem_of_mapM_eq_ok hnew f' hf'
    obtain ⟨g, hg, hexplain'⟩ := exists_of_mem_of_mapM_eq_ok hnew' g' hg'
    rw [key_of_explain hexplain, key_of_explain hexplain'] at hkey
    exact h.explain_alike (h.alike_of_key_eq hphase hphase' hf hg hkey) hexplain hexplain'

/-- A finding of the one request phase has its key in the other. -/
lemma exists_key_eq_of_mem (h : analysis.SameContents other)
    (hmethods : analysis.index.methods.Nodup) (hmethods' : other.index.methods.Nodup)
    {result result' : Report} {added added' : Nat}
    (hrequests : analysis.analyzeRequests entry report = .ok (result, added))
    (hrequests' : other.analyzeRequests entry report = .ok (result', added')) {f : Finding}
    (hf : f ∈ result.findings) : ∃ g ∈ result'.findings, g.key = f.key := by
  obtain ⟨yield, hphase⟩ := requestPhase_of_analyzeRequests hmethods hrequests
  obtain ⟨yield', hphase'⟩ := requestPhase_of_analyzeRequests hmethods' hrequests'
  rw [hphase.appends] at hf
  rw [hphase'.appends]
  rcases List.mem_append.1 hf with hold | hnew
  · exact ⟨f, List.mem_append_left _ hold, rfl⟩
  · obtain ⟨g, hg, halike⟩ := h.exists_alike_of_mem_fresh hphase hphase' f hnew
    exact ⟨g, List.mem_append_right _ hg, halike.key.symm⟩

lemma run_eq_error (h : analysis.SameContents other) (hmethods : analysis.index.methods.Nodup)
    (hmethods' : other.index.methods.Nodup) {e : Error}
    (hrun : analysis.run entry report = .error e) : other.run entry report = .error e := by
  rw [run_eq_error_iff, h.config, h.index.tables, h.asksForTable_iff] at hrun
  obtain ⟨he, htable, hasks | ⟨result, added, hrequests, f, hf, hnamed⟩⟩ := hrun
  · exact run_eq_error_iff.2 ⟨he, htable, .inl hasks⟩
  · cases hrequests' : other.analyzeRequests entry report with
    | error e' =>
      rw [← h.analyzeRequests_eq_error_iff, hrequests] at hrequests'
      cases hrequests'
    | ok phase =>
      obtain ⟨g, hg, hkey⟩ := h.exists_key_eq_of_mem hmethods hmethods' hrequests hrequests' hf
      have hpermission : g.permission = f.permission := congrArg Finding.Key.permission hkey
      exact run_eq_error_iff.2
        ⟨he, htable, .inr ⟨phase.1, phase.2, hrequests', g, hg, hpermission ▸ hnamed⟩⟩

end SameContents

/-- Findings do not depend on the order in which an index is built. From the same report, runs on
indexes of reordered logs either fail with the same error, or succeed with the same findings up to
order. -/
theorem runInPlace_reordered (log other : List Index.Entry) (h : Index.Reordered log other)
    (config : Config) (accepts : Classifier) (entry : String) (report : Report) :
    let analysis : Analysis := { index := .ofLog log, config, accepts }
    let analysis' : Analysis := { index := .ofLog other, config, accepts }
    (∃ e, (analysis.runInPlace entry).run report = .error e report ∧
      (analysis'.runInPlace entry).run report = .error e report) ∨
    ∃ first second, (analysis.runInPlace entry).run report = .ok () first ∧
      (analysis'.runInPlace entry).run report = .ok () second ∧
      report.SameFindings first second := by
  intro analysis analysis'
  have hsame : analysis.SameContents analysis' := ⟨h.sameContents, rfl, rfl⟩
  have hmethods : analysis.index.methods.Nodup := Index.nodup_methods_ofLog log
  have hmethods' : analysis'.index.methods.Nodup := Index.nodup_methods_ofLog other
  simp only [runInPlace_eq_ok_iff, runInPlace_eq_error_iff, true_and]
  cases hfirst : analysis.run entry report with
  | error e => exact .inl ⟨e, rfl, hsame.run_eq_error hmethods hmethods' hfirst⟩
  | ok first =>
    cases hsecond : analysis'.run entry report with
    | error e =>
      have hfails := hsame.symm.run_eq_error hmethods' hmethods hsecond
      rw [hfirst] at hfails
      cases hfails
    | ok second =>
      exact .inr ⟨first, second, rfl, rfl,
        hsame.sameFindings_of_run hmethods hmethods' hfirst hsecond⟩

end Analysis

/-! ### The application with two callers, built in another order -/

namespace Sample

def reorderedLog : List Index.Entry :=
  [.table "app" "DEFAULT", .literal { value := "to scan codes", references := [asker] },
    .call { caller := asker, callee := request, offset := 8 }, .source asker "ask(CAMERA, SMS)",
    .call { caller := silent, callee := request }, .call { caller := asker, callee := request }]

lemma reordered_log : Index.Reordered log reorderedLog where
  perm := by decide
  texts _ := rfl
  strings _ _ _ := rfl

end Sample

namespace Analysis

theorem runInPlace_reordered_sample :
    Index.Reordered Sample.log Sample.reorderedLog ∧
      ∃ second, ({ Sample.analysis with index := .ofLog Sample.reorderedLog }.runInPlace "Main").run
          Sample.report = .ok () second ∧
        Sample.report.SameFindings Sample.explained second := by
  have hrun := runInPlace_eq_ok_iff.2 Sample.run_report
  refine ⟨Sample.reordered_log, ?_⟩
  rcases runInPlace_reordered Sample.log Sample.reorderedLog Sample.reordered_log
    Sample.analysis.config Sample.analysis.accepts "Main" Sample.report with
    ⟨e, hfails, -⟩ | ⟨first, second, hfirst, hsecond, hsame⟩
  · cases hfails.symm.trans hrun
  · cases hfirst.symm.trans hrun
    exact ⟨second, hsecond, hsame⟩

end Analysis

end RequestTrail
