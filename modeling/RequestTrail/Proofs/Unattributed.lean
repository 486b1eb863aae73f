import RequestTrail.Proofs.Evidence
import RequestTrail.Proofs.Requests

/-!
# Findings that name no permission

A caller to which the cascade ties nothing is reported by a finding that says so three times: its
permission is a reserved name, its tier is unknown, and it gives a reason. Tier and reason always
tell the truth. The name does so unless the application declares a permission of that very name and
the cascade ties it to some caller: such a finding passes for one that names no permission, and goes
without explanations.
-/

namespace RequestTrail

namespace Analysis

variable {analysis : Analysis} {entry : String} {report final : Report} {request caller : Site}
  {pair : Site × Site} {f : Finding}

/-! ### What the cascade ties to callers -/

/-- The answer of the cascade for a caller, under the permissions of a report. -/
def attributionsFor (analysis : Analysis) (report : Report) (caller : Site) :
    Except Error (List Attribution) :=
  analysis.index.attributions analysis.config report.package caller
    (analysis.index.sourceOf caller) report.permissions

/-- What the cascade ties to a caller; nothing if it fails. -/
def attributed (analysis : Analysis) (report : Report) (caller : Site) : List Attribution :=
  (analysis.attributionsFor report caller).toOption.getD []

/-- The cascade succeeds and ties nothing to the caller. -/
def Unattributed (analysis : Analysis) (report : Report) (caller : Site) : Prop :=
  analysis.attributionsFor report caller = .ok []

instance : Decidable (analysis.Unattributed report caller) :=
  match h : analysis.attributionsFor report caller with
  | .ok [] => isTrue h
  | .ok (_ :: _) => isFalse (by simp [Unattributed, h])
  | .error _ => isFalse (by simp [Unattributed, h])

lemma mem_attributed {a : Attribution} :
    a ∈ analysis.attributed report caller ↔
      ∃ found, analysis.attributionsFor report caller = .ok found ∧ a ∈ found := by
  unfold attributed
  cases analysis.attributionsFor report caller <;> simp [Except.toOption]

lemma not_unattributed_of_mem {a : Attribution} (ha : a ∈ analysis.attributed report caller) :
    ¬ analysis.Unattributed report caller := by
  intro hnone
  rw [attributed, hnone] at ha
  cases ha

/-- Whatever is tied to a caller is declared, and tied to it by a tier that is known. -/
lemma of_mem_attributed {a : Attribution} (ha : a ∈ analysis.attributed report caller) :
    a.permission ∈ report.permissions.toList ∧ a.tier ≠ .unknown := by
  obtain ⟨found, hfound, ha⟩ := mem_attributed.1 ha
  obtain ⟨tier, hknown, htier⟩ := Index.attributions_ofTier hfound
  exact ⟨htier.declared a ha, htier.tier_eq a ha ▸ hknown⟩

/-- A permission of the reserved name is tied to a discovered caller. -/
def TiesReservedName (analysis : Analysis) (report : Report) : Prop :=
  ∃ pair ∈ analysis.pairs, ∃ a ∈ analysis.attributed report pair.2,
    a.permission = Finding.unknownPermission

/-! ### The findings of a run -/

/-- The finding on a pair whose caller has nothing tied to it. -/
def unattributedFinding (analysis : Analysis) (entry : String) (pair : Site × Site) : Finding :=
  { Finding.unknown pair.1 pair.2 (analysis.index.sourceOf pair.2) with
    path := analysis.index.traceThrough entry pair.1 pair.2 }

/-- The finding on a pair for a permission tied to the caller, before it is explained. -/
def tiedFinding (analysis : Analysis) (entry : String) (pair : Site × Site) (a : Attribution) :
    Finding where
  permission := a.permission
  request := pair.1
  caller := pair.2
  path := analysis.index.traceThrough entry pair.1 pair.2
  tier := a.tier

/-- The finding with the accepted pieces of evidence on the caller as its explanations. -/
def attributedFinding (analysis : Analysis) (package entry : String) (pair : Site × Site)
    (a : Attribution) : Finding :=
  { analysis.tiedFinding entry pair a with
    explanation := analysis.acceptedTexts package pair.2 a.permission }

/-- The findings on a pair after a run: one if nothing is tied to the caller, and one for each
permission that is. -/
def pairFindings (analysis : Analysis) (report : Report) (entry : String) (pair : Site × Site) :
    List Finding :=
  (if analysis.Unattributed report pair.2 then [analysis.unattributedFinding entry pair] else []) ++
    (analysis.attributed report pair.2).map fun a =>
      analysis.explained report.package (analysis.tiedFinding entry pair a)

lemma findingsOf_eq_append {config : Config} {source : String} {path : List Site}
    {found : List Attribution} (hsdk : config.isSdkSite caller = false) :
    findingsOf config request caller source path found =
      (if found = [] then [{ Finding.unknown request caller source with path }] else []) ++
        found.map fun a =>
          { permission := a.permission, request, caller, path, tier := a.tier } := by
  cases found <;> simp [findingsOf, hsdk]

/-- Where the analysis of a caller outside of the SDK succeeds, so does the cascade, and the
findings become those of the pair when they are explained. -/
lemma pairFindings_of_analyzeCaller {findings : List Finding}
    (hsdk : analysis.config.isSdkSite caller = false)
    (h : analysis.analyzeCaller request caller report.permissions report.package entry =
      .ok findings) :
    analysis.attributionsFor report caller = .ok (analysis.attributed report caller) ∧
      findings.map (analysis.explained report.package) =
        analysis.pairFindings report entry (request, caller) := by
  rw [analyzeCaller_eq_map] at h
  obtain ⟨found, hfound, rfl⟩ := map_eq_ok_iff.1 h
  have hfound : analysis.attributionsFor report caller = .ok found := hfound
  have hattributed : analysis.attributed report caller = found := by
    rw [attributed, hfound]
    rfl
  refine ⟨hattributed ▸ hfound, ?_⟩
  rw [findingsOf_eq_append hsdk, List.map_append, List.map_map, pairFindings, hattributed]
  -- the finding that names no permission is not touched
  congr 1
  simp only [Unattributed, hfound, Except.ok.injEq]
  split
  · exact congrArg (fun f => [f]) (explained_of_isUnknown rfl)
  · rfl

/-- A run on a report without findings answers for every caller, and reports the findings on the
pairs one after the other. -/
lemma findings_of_run (hmethods : analysis.index.methods.Nodup) (hempty : report.findings = [])
    (h : analysis.run entry report = .ok final) :
    (∀ pair ∈ analysis.pairs,
      analysis.attributionsFor report pair.2 = .ok (analysis.attributed report pair.2)) ∧
    final.findings = analysis.pairs.flatMap (analysis.pairFindings report entry) := by
  obtain ⟨result, added, yield, old, new, hphase, hold, hnew, rfl⟩ :=
    exists_explained_of_run hmethods h
  have hpair : ∀ pair ∈ analysis.pairs, _ := fun pair hmem =>
    pairFindings_of_analyzeCaller (mem_applicationCallers.1 (mem_pairs.1 hmem).2).2
      (hphase.yields pair hmem)
  refine ⟨fun pair hmem => (hpair pair hmem).1, ?_⟩
  rw [hempty, List.mapM_nil] at hold
  obtain rfl : [] = old := Except.ok.inj hold
  rw [hphase.all_fresh hempty] at hnew
  have hexplained : new.map id =
      (analysis.pairs.flatMap yield).map (analysis.explained report.package) :=
    map_eq_of_mapM_eq_ok (fun _ _ => eq_explained_of_explain) hnew
  rw [List.map_id] at hexplained
  change [] ++ new = _
  rw [List.nil_append, hexplained, List.map_flatMap]
  exact List.flatMap_congr fun pair hmem => (hpair pair hmem).2

/-! ### Marks -/

lemma mem_pairFindings :
    f ∈ analysis.pairFindings report entry pair ↔
      (analysis.Unattributed report pair.2 ∧ f = analysis.unattributedFinding entry pair) ∨
        ∃ a ∈ analysis.attributed report pair.2,
          f = analysis.explained report.package (analysis.tiedFinding entry pair a) := by
  simp [pairFindings, eq_comm]

/-- A finding on a pair is about its caller. Its tier and its reason tell whether anything is tied
to the caller, and so does its name unless a permission of the reserved name is. -/
lemma marks_of_mem_pairFindings (hf : f ∈ analysis.pairFindings report entry pair) :
    f.caller = pair.2 ∧
    (f.tier = .unknown ↔ analysis.Unattributed report pair.2) ∧
    (f.reason.isSome = true ↔ analysis.Unattributed report pair.2) ∧
    (f.isUnknown = true ↔ analysis.Unattributed report pair.2 ∨
      ∃ a ∈ analysis.attributed report pair.2,
        a.permission = f.permission ∧ a.permission = Finding.unknownPermission) := by
  rcases mem_pairFindings.1 hf with ⟨hnone, rfl⟩ | ⟨a, ha, rfl⟩
  · simp [unattributedFinding, Finding.unknown, hnone]
  · rw [(explains_explained analysis report.package _).kept]
    simp only [tiedFinding, Finding.isUnknown_iff, (of_mem_attributed ha).2,
      not_unattributed_of_mem ha, Option.isSome_none, Bool.false_eq_true, false_or, true_and]
    constructor
    · intro hname
      exact ⟨a, ha, rfl, hname⟩
    · rintro ⟨b, -, hsame, hname⟩
      exact hsame.symm.trans hname

/-- The name agrees with the cascade on all findings if the reserved name is tied to no caller. -/
lemma forall_isUnknown_iff :
    (∀ f ∈ analysis.pairs.flatMap (analysis.pairFindings report entry),
        f.isUnknown = true ↔ analysis.Unattributed report f.caller) ↔
      ¬ analysis.TiesReservedName report := by
  constructor
  · rintro hagree ⟨pair, hpair, a, ha, hreserved⟩
    have hf : analysis.explained report.package (analysis.tiedFinding entry pair a) ∈
        analysis.pairFindings report entry pair := mem_pairFindings.2 (.inr ⟨a, ha, rfl⟩)
    have hunknown : (analysis.explained report.package
        (analysis.tiedFinding entry pair a)).isUnknown = true := by
      rw [(explains_explained analysis report.package _).isUnknown_eq]
      exact Finding.isUnknown_iff.2 hreserved
    have hnone := (hagree _ (List.mem_flatMap.2 ⟨pair, hpair, hf⟩)).1 hunknown
    rw [(marks_of_mem_pairFindings hf).1] at hnone
    exact not_unattributed_of_mem ha hnone
  · intro hties f hf
    obtain ⟨pair, hpair, hf⟩ := List.mem_flatMap.1 hf
    obtain ⟨hcaller, -, -, hname⟩ := marks_of_mem_pairFindings hf
    rw [hname, hcaller, or_iff_left]
    rintro ⟨a, ha, -, hreserved⟩
    exact hties ⟨pair, hpair, a, ha, hreserved⟩

/-! ### Findings with and without a permission -/

/-- Where the reserved name is not tied to the caller, the finding on an unattributed caller is the
one that names no permission, and all others are explained. -/
lemma filter_pairFindings
    (hname : ∀ a ∈ analysis.attributed report pair.2, a.permission ≠ Finding.unknownPermission) :
    (analysis.pairFindings report entry pair).filter Finding.isUnknown =
        (if analysis.Unattributed report pair.2 then [analysis.unattributedFinding entry pair]
          else []) ∧
      (analysis.pairFindings report entry pair).filter (fun f => !f.isUnknown) =
        (analysis.attributed report pair.2).map
          (analysis.attributedFinding report.package entry pair) := by
  have hnamed : ∀ a ∈ analysis.attributed report pair.2,
      (analysis.tiedFinding entry pair a).isUnknown = false := by
    intro a ha
    exact Bool.eq_false_iff.2 (mt Finding.isUnknown_iff.1 (hname a ha))
  have hexplained : ((analysis.attributed report pair.2).map fun a =>
      analysis.explained report.package (analysis.tiedFinding entry pair a)) =
        (analysis.attributed report pair.2).map
          (analysis.attributedFinding report.package entry pair) :=
    List.map_congr_left fun a ha => explained_of_named (hnamed a ha)
  rw [pairFindings, hexplained]
  apply filter_append_eq
  · intro f hf
    split at hf
    · rw [List.mem_singleton.1 hf]
      rfl
    · cases hf
  · intro f hf
    obtain ⟨a, ha, rfl⟩ := List.mem_map.1 hf
    exact hnamed a ha

/-- Findings that name no permission are exactly the unattributed ones, up to the reserved name. Let
a run on a report without findings succeed. Then the cascade has an answer for every discovered
caller. A finding has the unknown tier if and only if it has a reason, if and only if nothing is
tied to its caller, and then it names no permission. The name agrees with these on all findings if
and only if no permission of the reserved name is tied to a caller, as when the application declares
none. In that case the findings that name no permission are those on the unattributed pairs, and the
others are those for the permissions tied to the pairs, each with its explanations. -/
theorem runInPlace_unknown_exact (log : List Index.Entry) (config : Config)
    (accepts : Classifier) (entry package : String) (permissions : PermissionSet)
    (final : Report) :
    let analysis : Analysis := { index := .ofLog log, config, accepts }
    let report : Report := { package, permissions }
    (analysis.runInPlace entry).run report = .ok () final →
      (∀ pair ∈ analysis.pairs,
        analysis.attributionsFor report pair.2 = .ok (analysis.attributed report pair.2)) ∧
      (∀ f ∈ final.findings,
        (f.tier = .unknown ↔ f.reason.isSome = true) ∧
        (f.reason.isSome = true ↔ analysis.Unattributed report f.caller) ∧
        (analysis.Unattributed report f.caller → f.isUnknown = true)) ∧
      ((∀ f ∈ final.findings, f.isUnknown = true ↔ analysis.Unattributed report f.caller) ↔
        ¬ analysis.TiesReservedName report) ∧
      (analysis.TiesReservedName report → Finding.unknownPermission ∈ permissions.toList) ∧
      (¬ analysis.TiesReservedName report →
        final.unknown = (analysis.pairs.filter fun pair => analysis.Unattributed report pair.2).map
          (analysis.unattributedFinding entry) ∧
        final.resolved = analysis.pairs.flatMap fun pair =>
          (analysis.attributed report pair.2).map
            (analysis.attributedFinding package entry pair)) := by
  intro analysis report hrun
  obtain ⟨hanswers, hfindings⟩ := findings_of_run (Index.nodup_methods_ofLog log) rfl
    (runInPlace_eq_ok_iff.1 hrun)
  refine ⟨hanswers, ?_, ?_, ?_, ?_⟩
  · intro f hf
    rw [hfindings] at hf
    obtain ⟨pair, -, hf⟩ := List.mem_flatMap.1 hf
    obtain ⟨hcaller, htier, hreason, hname⟩ := marks_of_mem_pairFindings hf
    rw [hcaller]
    exact ⟨htier.trans hreason.symm, hreason, fun hnone => hname.2 (.inl hnone)⟩
  · rw [hfindings]
    exact forall_isUnknown_iff
  · rintro ⟨pair, -, a, ha, hreserved⟩
    exact hreserved ▸ (of_mem_attributed ha).1
  · intro hties
    have hname : ∀ pair ∈ analysis.pairs, ∀ a ∈ analysis.attributed report pair.2,
        a.permission ≠ Finding.unknownPermission := by
      intro pair hpair a ha hreserved
      exact hties ⟨pair, hpair, a, ha, hreserved⟩
    constructor
    · rw [Report.unknown, hfindings, List.filter_flatMap, ← flatMap_ite_eq_map_filter]
      exact List.flatMap_congr fun pair hpair => (filter_pairFindings (hname pair hpair)).1
    · rw [Report.resolved, hfindings, List.filter_flatMap]
      exact List.flatMap_congr fun pair hpair => (filter_pairFindings (hname pair hpair)).2

end Analysis

namespace Sample

def blank : Report where
  package := "app"
  permissions := .ofList ["CAMERA", "SMS"]

def answered : Report :=
  { blank with findings := [{ finding "CAMERA" .literal with explanation := ["to scan codes"] },
    finding "SMS" .literal, Finding.unknown request silent ""] }

lemma run_blank : analysis.run "Main" blank = .ok answered := by
  have hfindings : analysis.requestFindings blank.permissions blank.package "Main" = _ :=
    requestFindings_asked
  rw [Analysis.run, Analysis.analyzeRequests_eq_map, hfindings]
  rfl

end Sample

namespace Analysis

/-- One caller asks for two permissions by name, the other has no text. -/
theorem runInPlace_unknown_exact_answered :
    (Sample.analysis.runInPlace "Main").run Sample.blank = .ok () Sample.answered ∧
      (∀ f ∈ Sample.answered.findings,
        f.isUnknown = true ↔ Sample.analysis.Unattributed Sample.blank f.caller) ∧
      Sample.answered.unknown =
        (Sample.analysis.pairs.filter fun pair =>
          Sample.analysis.Unattributed Sample.blank pair.2).map
            (Sample.analysis.unattributedFinding "Main") ∧
      Sample.answered.resolved = Sample.analysis.pairs.flatMap fun pair =>
        (Sample.analysis.attributed Sample.blank pair.2).map
          (Sample.analysis.attributedFinding "app" "Main" pair) := by
  have hrun : (Sample.analysis.runInPlace "Main").run Sample.blank = .ok () Sample.answered :=
    runInPlace_eq_ok_iff.2 Sample.run_blank
  obtain ⟨-, -, hagree, hdeclared, hlists⟩ := runInPlace_unknown_exact Sample.log
    Sample.analysis.config Sample.analysis.accepts "Main" "app" (.ofList ["CAMERA", "SMS"])
    Sample.answered hrun
  have hties : ¬ Sample.analysis.TiesReservedName Sample.blank :=
    fun hties => absurd (hdeclared hties) (by decide)
  exact ⟨hrun, hagree.2 hties, hlists hties⟩

end Analysis

/-! ### An application that declares the reserved name

Its one caller asks for the permission by name, and loads a literal that would explain it. -/

namespace Sample

def reserving : Analysis where
  index := .ofLog [.call { caller := asker, callee := request },
    .source asker "ask(Unknown Permission)",
    .literal { value := "to scan codes", references := [asker] }, .table "app" "DEFAULT"]
  config := {}
  accepts _ _ := true

def reservation : Report where
  package := "app"
  permissions := .ofList [Finding.unknownPermission]

def mistaken : Report :=
  { reservation with findings := [finding Finding.unknownPermission .literal] }

lemma attributionsFor_reserving : reserving.attributionsFor reservation asker =
    .ok [⟨Finding.unknownPermission, .literal⟩] := by
  rfl

lemma requestFindings_reserving :
    reserving.requestFindings reservation.permissions reservation.package "Main" =
      .ok [finding Finding.unknownPermission .literal] := by
  have hpairs : reserving.pairs = [(request, asker)] := by decide
  have hpath : reserving.index.traceThrough "Main" request asker = [request, asker] := by
    rw [Index.traceThrough, if_neg (by decide),
      Index.backtrace_of_inComponent (by decide) (by decide)]
    rfl
  have hcaller : reserving.analyzeCaller request asker reservation.permissions
      reservation.package "Main" = .ok [finding Finding.unknownPermission .literal] := by
    unfold finding
    rw [← hpath]
    rfl
  rw [Analysis.requestFindings, hpairs, List.mapM_cons]
  simp only [hcaller]
  rfl

lemma run_reservation : reserving.run "Main" reservation = .ok mistaken := by
  rw [Analysis.run, Analysis.analyzeRequests_eq_map, requestFindings_reserving]
  rfl

end Sample

namespace Analysis

/-- A declared permission of the reserved name is tied to a caller, by its text and without a
reason, and still the finding counts as one that names none and is not explained. -/
theorem reserved_name_mistaken :
    let finding := Sample.finding Finding.unknownPermission .literal
    (Sample.reserving.runInPlace "Main").run Sample.reservation = .ok () Sample.mistaken ∧
      Sample.mistaken.findings = [finding] ∧ finding.isUnknown = true ∧
      finding.tier ≠ .unknown ∧ finding.reason = none ∧
      ¬ Sample.reserving.Unattributed Sample.reservation finding.caller ∧
      Sample.mistaken.unknown = [finding] ∧ Sample.mistaken.resolved = [] ∧
      finding.explanation = [] ∧
      Sample.reserving.acceptedTexts "app" finding.caller finding.permission =
        ["to scan codes"] := by
  intro finding
  have hrun := runInPlace_eq_ok_iff.2 Sample.run_reservation
  have htied : ¬ Sample.reserving.Unattributed Sample.reservation finding.caller :=
    not_unattributed_of_mem (mem_attributed.2
      ⟨_, Sample.attributionsFor_reserving, List.mem_singleton_self _⟩)
  exact ⟨hrun, rfl, by decide, by decide, rfl, htied, by decide, by decide, rfl, by decide⟩

end Analysis

end RequestTrail
