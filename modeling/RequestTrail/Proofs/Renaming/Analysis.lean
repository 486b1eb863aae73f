import RequestTrail.Proofs.Discovery
import RequestTrail.Proofs.Renaming.Index
import RequestTrail.Proofs.Service

/-!
# Renaming through an analysis

An analysis looks at a site in few ways: it asks for the site in the index, compares it with other
sites, and tests its name, its class prefixes, its component and its base class. A renaming that
none of these can see commutes with the analysis, from the discovered pairs to the explained
findings.
-/

namespace RequestTrail

/-- A renaming that no test of an analysis sees on the sites of `scope`. -/
structure Renaming (config : Config) (entry : String) (scope : Set Site) (ρ : Site → Site) :
    Prop where
  injOn : scope.InjOn ρ
  name : ∀ s ∈ scope, (ρ s).name = s.name
  platform : ∀ s ∈ scope, config.isPlatformSite (ρ s) = config.isPlatformSite s
  sdk : ∀ s ∈ scope, config.isSdkSite (ρ s) = config.isSdkSite s
  component : ∀ s ∈ scope, (ρ s).inComponent entry = s.inComponent entry
  base : ∀ s ∈ scope, ∀ t ∈ scope,
    (ρ s).baseClass config.nestedClassSeparator = (ρ t).baseClass config.nestedClassSeparator ↔
      s.baseClass config.nestedClassSeparator = t.baseClass config.nestedClassSeparator

/-! ### Findings and reports -/

namespace Finding

def rename (ρ : Site → Site) (finding : Finding) : Finding :=
  { finding with
    request := ρ finding.request
    caller := ρ finding.caller
    path := finding.path.map ρ }

/-- The sites of the key are in the set. -/
def Within (scope : Set Site) (finding : Finding) : Prop :=
  finding.request ∈ scope ∧ finding.caller ∈ scope

variable {scope : Set Site} {ρ : Site → Site} {finding other : Finding}

lemma key_rename_iff (hρ : scope.InjOn ρ) (h : finding.Within scope) (h' : other.Within scope) :
    (finding.rename ρ).key = (other.rename ρ).key ↔ finding.key = other.key := by
  simp only [key, rename, Key.mk.injEq, hρ.eq_iff h.1 h'.1, hρ.eq_iff h.2 h'.2]

end Finding

namespace Report

def rename (ρ : Site → Site) (report : Report) : Report :=
  { report with findings := report.findings.map (Finding.rename ρ) }

variable {scope : Set Site} {ρ : Site → Site} {report : Report} {finding : Finding}
  {findings : List Finding}

lemma mem_keys_rename_iff (hρ : scope.InjOn ρ) (h : ∀ f ∈ report.findings, f.Within scope)
    (hfinding : finding.Within scope) :
    (finding.rename ρ).key ∈ (report.rename ρ).keys ↔ finding.key ∈ report.keys := by
  simp only [keys, rename, List.map_map, List.mem_map, Function.comp_apply]
  constructor
  · rintro ⟨f, hf, hkey⟩
    exact ⟨f, hf, (Finding.key_rename_iff hρ (h f hf) hfinding).1 hkey⟩
  · rintro ⟨f, hf, hkey⟩
    exact ⟨f, hf, (Finding.key_rename_iff hρ (h f hf) hfinding).2 hkey⟩

lemma push_rename (hρ : scope.InjOn ρ) (h : ∀ f ∈ report.findings, f.Within scope)
    (hfinding : finding.Within scope) :
    (report.rename ρ).push (finding.rename ρ) = (report.push finding).rename ρ := by
  have hmem := mem_keys_rename_iff hρ h hfinding
  by_cases hkey : finding.key ∈ report.keys
  · rw [push_of_mem hkey, push_of_mem (hmem.2 hkey)]
  · rw [push_of_not_mem hkey, push_of_not_mem (mt hmem.1 hkey)]
    simp [rename]

lemma within_push (h : ∀ f ∈ report.findings, f.Within scope) (hfinding : finding.Within scope) :
    ∀ f ∈ (report.push finding).findings, f.Within scope := by
  intro f hf
  rcases mem_of_mem_push hf with hold | rfl
  · exact h f hold
  · exact hfinding

lemma within_pushAll (h : ∀ f ∈ report.findings, f.Within scope)
    (hfindings : ∀ f ∈ findings, f.Within scope) :
    ∀ f ∈ (report.pushAll findings).1.findings, f.Within scope := by
  intro f hf
  rcases mem_of_mem_pushAll hf with hold | hnew
  · exact h f hold
  · exact hfindings f hnew

lemma pushAll_rename (hρ : scope.InjOn ρ) (h : ∀ f ∈ report.findings, f.Within scope)
    (hfindings : ∀ f ∈ findings, f.Within scope) :
    (report.rename ρ).pushAll (findings.map (Finding.rename ρ)) =
      ((report.pushAll findings).1.rename ρ, (report.pushAll findings).2) := by
  induction findings generalizing report with
  | nil => rfl
  | cons finding findings ih =>
    rw [List.forall_mem_cons] at hfindings
    have hhas : (report.rename ρ).hasKey (finding.rename ρ).key = report.hasKey finding.key := by
      rw [Bool.eq_iff_iff, hasKey_iff, hasKey_iff, mem_keys_rename_iff hρ h hfindings.1]
    rw [List.map_cons, pushAll, push_rename hρ h hfindings.1, hhas,
      ih (within_push h hfindings.1) hfindings.2, pushAll]

end Report

namespace Index

variable {config : Config} {entry : String} {scope : Set Site} {ρ : Site → Site}
  {index other : Index}

lemma RenamesTo.isReferencedNear_eq (h : index.RenamesTo scope ρ other)
    (hρ : Renaming config entry scope ρ) {caller : Site} (hcaller : caller ∈ scope)
    (permission : String) :
    other.isReferencedNear config (ρ caller) permission =
      index.isReferencedNear config caller permission := by
  rw [Bool.eq_iff_iff, isReferencedNear_iff, isReferencedNear_iff]
  simp only [h.literals, List.mem_map, exists_exists_and_eq_and, Literal.rename]
  constructor
  · rintro ⟨literal, hliteral, hvalue, site, hsite, hbase⟩
    exact ⟨literal, hliteral, hvalue, site, hsite,
      (hρ.base site (h.within.literals literal hliteral site hsite) caller hcaller).1 hbase⟩
  · rintro ⟨literal, hliteral, hvalue, site, hsite, hbase⟩
    exact ⟨literal, hliteral, hvalue, site, hsite,
      (hρ.base site (h.within.literals literal hliteral site hsite) caller hcaller).2 hbase⟩

end Index

namespace Analysis

/-- Analyses under the same settings, the second of an index that gives the renamed answers, when no
test of them sees the renaming. -/
structure RenamesTo (entry : String) (scope : Set Site) (ρ : Site → Site)
    (analysis other : Analysis) : Prop where
  config : other.config = analysis.config
  accepts : other.accepts = analysis.accepts
  index : analysis.index.RenamesTo scope ρ other.index
  unseen : Renaming analysis.config entry scope ρ

variable {analysis other : Analysis} {entry package : String} {scope : Set Site} {ρ : Site → Site}
  {request caller : Site} {permissions : PermissionSet} {report : Report}

lemma findingsOf_rename {config : Config}
    (hsdk : config.isSdkSite (ρ caller) = config.isSdkSite caller) (source : String)
    (path : List Site) (found : List Attribution) :
    findingsOf config (ρ request) (ρ caller) source (path.map ρ) found =
      (findingsOf config request caller source path found).map (Finding.rename ρ) := by
  unfold findingsOf
  rw [hsdk]
  split
  · rfl
  · split
    · rfl
    · rw [List.map_map]
      rfl

namespace RenamesTo

/-! ### Discovery -/

lemma applicationCallers_eq (h : analysis.RenamesTo entry scope ρ other)
    (hrequest : request ∈ scope) :
    other.applicationCallers (ρ request) = (analysis.applicationCallers request).map ρ := by
  have hcallers : (other.index.callersOf (ρ request)).map Call.caller =
      ((analysis.index.callersOf request).map Call.caller).map ρ := by
    rw [h.index.callers request hrequest, List.map_map, List.map_map]
    rfl
  have hscope : ∀ s ∈ (analysis.index.callersOf request).map Call.caller, s ∈ scope := by
    intro s hs
    obtain ⟨call, hcall, rfl⟩ := List.mem_map.1 hs
    exact h.index.within.callers request call hcall
  unfold applicationCallers
  rw [hcallers, List.filter_map, ← eraseDups_map_of_injOn h.unseen.injOn]
  · congr 2
    apply List.filter_congr
    intro s hs
    simp only [Function.comp_apply, h.config, h.unseen.sdk s (hscope s hs)]
  · intro s hs
    exact hscope s (List.mem_filter.1 hs).1

lemma mem_scope_of_mem_requestMethods (h : analysis.RenamesTo entry scope ρ other)
    (hrequest : request ∈ analysis.requestMethods) : request ∈ scope :=
  h.index.within.methods request (List.mem_filter.1 (List.mem_filter.1 hrequest).1).1

lemma mem_scope_of_mem_pairs (h : analysis.RenamesTo entry scope ρ other)
    (hpair : (request, caller) ∈ analysis.pairs) : request ∈ scope ∧ caller ∈ scope := by
  obtain ⟨hrequest, hcaller⟩ := mem_pairs.1 hpair
  obtain ⟨⟨call, hcall, rfl⟩, -⟩ := mem_applicationCallers.1 hcaller
  exact ⟨h.mem_scope_of_mem_requestMethods hrequest, h.index.within.callers request call hcall⟩

lemma requestMethods_eq (h : analysis.RenamesTo entry scope ρ other) :
    other.requestMethods = analysis.requestMethods.map ρ := by
  simp only [requestMethods, Index.methodsNamed, h.config, h.index.methods, List.filter_map]
  congr 1
  rw [List.filter_filter, List.filter_filter]
  apply List.filter_congr
  intro s hs
  have hs := h.index.within.methods s hs
  simp only [Function.comp_apply, h.unseen.platform s hs, h.unseen.name s hs]

lemma pairs_eq (h : analysis.RenamesTo entry scope ρ other) :
    other.pairs = analysis.pairs.map (Prod.map ρ ρ) := by
  rw [Analysis.pairs_eq, Analysis.pairs_eq, h.requestMethods_eq, List.flatMap_map, List.map_flatMap]
  apply List.flatMap_congr
  intro request hrequest
  rw [h.applicationCallers_eq (h.mem_scope_of_mem_requestMethods hrequest), List.map_map,
    List.map_map]
  rfl

/-! ### The request phase -/

lemma resolve_eq (h : analysis.RenamesTo entry scope ρ other) (source : String) :
    other.index.resolve analysis.config package source =
      analysis.index.resolve analysis.config package source :=
  Index.resolve_congr (h.index.tables package _) (h.index.strings package _)

lemma analyzeCaller_eq (h : analysis.RenamesTo entry scope ρ other) (hrequest : request ∈ scope)
    (hcaller : caller ∈ scope) :
    other.analyzeCaller (ρ request) (ρ caller) permissions package entry =
      List.map (Finding.rename ρ) <$>
        analysis.analyzeCaller request caller permissions package entry := by
  have hattributions : ∀ source,
      other.index.attributions analysis.config package (ρ caller) source permissions =
        analysis.index.attributions analysis.config package caller source permissions :=
    fun source => Index.attributions_congr (h.resolve_eq source)
      (h.index.isReferencedNear_eq h.unseen hcaller)
  rw [analyzeCaller_eq_map, analyzeCaller_eq_map, h.config, h.index.sourceOf_eq hcaller,
    hattributions,
    h.index.traceThrough_eq h.unseen.injOn h.unseen.component hrequest hcaller]
  cases analysis.index.attributions analysis.config package caller
      (analysis.index.sourceOf caller) permissions with
  | error e => rfl
  | ok found => exact congrArg Except.ok (findingsOf_rename (h.unseen.sdk caller hcaller) _ _ found)

lemma requestFindings_eq (h : analysis.RenamesTo entry scope ρ other) :
    other.requestFindings permissions package entry =
      List.map (Finding.rename ρ) <$> analysis.requestFindings permissions package entry := by
  have hpair : ∀ pair ∈ analysis.pairs,
      other.analyzeCaller (ρ pair.1) (ρ pair.2) permissions package entry =
        List.map (Finding.rename ρ) <$>
          analysis.analyzeCaller pair.1 pair.2 permissions package entry := by
    intro pair hpair
    obtain ⟨hrequest, hcaller⟩ := h.mem_scope_of_mem_pairs hpair
    exact h.analyzeCaller_eq hrequest hcaller
  unfold requestFindings
  rw [h.pairs_eq, mapM_map_eq_map hpair, Functor.map_map, Functor.map_map]
  simp only [List.map_flatten]

lemma within_of_requestFindings (h : analysis.RenamesTo entry scope ρ other)
    {found : List Finding}
    (hfound : analysis.requestFindings permissions package entry = .ok found) :
    ∀ f ∈ found, f.Within scope := by
  intro f hf
  exact h.mem_scope_of_mem_pairs (mem_pairs_of_requestFindings hfound hf)

lemma analyzeRequests_eq (h : analysis.RenamesTo entry scope ρ other)
    (hreport : ∀ f ∈ report.findings, f.Within scope) :
    other.analyzeRequests entry (report.rename ρ) =
      Prod.map (Report.rename ρ) id <$> analysis.analyzeRequests entry report := by
  rw [analyzeRequests_eq_map, analyzeRequests_eq_map]
  simp only [Report.rename, h.requestFindings_eq]
  cases hfound : analysis.requestFindings report.permissions report.package entry with
  | error e => rfl
  | ok found =>
    exact congrArg Except.ok
      (Report.pushAll_rename h.unseen.injOn hreport (h.within_of_requestFindings hfound))

lemma within_of_analyzeRequests (h : analysis.RenamesTo entry scope ρ other)
    (hreport : ∀ f ∈ report.findings, f.Within scope) {result : Report} {added : Nat}
    (hresult : analysis.analyzeRequests entry report = .ok (result, added)) :
    ∀ f ∈ result.findings, f.Within scope := by
  rw [analyzeRequests_eq_map] at hresult
  obtain ⟨found, hfound, hpush⟩ := map_eq_ok_iff.1 hresult
  have hwithin := Report.within_pushAll hreport (h.within_of_requestFindings hfound)
  rwa [hpush] at hwithin

/-! ### The explanation phase -/

lemma explanations_eq (h : analysis.RenamesTo entry scope ρ other) {finding : Finding}
    (hfinding : finding.Within scope) :
    other.explanations package (finding.rename ρ) = analysis.explanations package finding := by
  have hloaded : (other.index.literals.filter
      (·.isReferencedBy (ρ finding.caller))).map Literal.value =
        (analysis.index.literals.filter (·.isReferencedBy finding.caller)).map Literal.value := by
    rw [h.index.literals, List.filter_map, List.map_map]
    change (List.filter _ _).map Literal.value = _
    congr 1
    apply List.filter_congr
    intro literal hliteral
    rw [Bool.eq_iff_iff]
    simp only [Function.comp_apply, Literal.isReferencedBy, Literal.rename, List.contains_iff_mem]
    exact mem_map_iff_of_injOn h.unseen.injOn (h.index.within.literals literal hliteral)
      hfinding.2
  rw [explanations_eq_map, explanations_eq_map]
  simp only [Finding.rename, hloaded, h.config, h.accepts, h.index.sourceOf_eq hfinding.2,
    h.resolve_eq]

lemma explain_eq (h : analysis.RenamesTo entry scope ρ other) {finding : Finding}
    (hfinding : finding.Within scope) :
    other.explain package (finding.rename ρ) =
      Finding.rename ρ <$> analysis.explain package finding := by
  unfold explain
  rw [h.explanations_eq hfinding]
  change (if finding.isUnknown then _ else _) = _
  split
  · rfl
  · cases analysis.explanations package finding <;> rfl

lemma analyzeExplanations_eq (h : analysis.RenamesTo entry scope ρ other)
    (hreport : ∀ f ∈ report.findings, f.Within scope) :
    other.analyzeExplanations (report.rename ρ) =
      Report.rename ρ <$> analysis.analyzeExplanations report := by
  have hpass : (report.findings.map (Finding.rename ρ)).mapM (other.explain report.package) =
      List.map (Finding.rename ρ) <$> report.findings.mapM (analysis.explain report.package) :=
    mapM_map_eq_map fun f hf => h.explain_eq (hreport f hf)
  unfold analyzeExplanations
  simp only [Report.rename, hpass]
  cases report.findings.mapM (analysis.explain report.package) <;> rfl

/-- A renaming that no test sees commutes with both phases. -/
lemma run_eq (h : analysis.RenamesTo entry scope ρ other)
    (hreport : ∀ f ∈ report.findings, f.Within scope) :
    other.run entry (report.rename ρ) = Report.rename ρ <$> analysis.run entry report := by
  rw [run, run, h.analyzeRequests_eq hreport]
  cases hrequests : analysis.analyzeRequests entry report with
  | error e => rfl
  | ok phase =>
    exact h.analyzeExplanations_eq (h.within_of_analyzeRequests hreport hrequests)

end RenamesTo

end Analysis

end RequestTrail
