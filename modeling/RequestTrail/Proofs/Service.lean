import RequestTrail.Index.Lists
import RequestTrail.Proofs.Explanation
import RequestTrail.Proofs.Report
import RequestTrail.Service

/-!
# Failure of an analysis

The programs that change a report in place do what the phases say as functions, and leave the report
as it was when they fail. A run fails in one way only, for want of the table of resolved strings,
and exactly when something asks for the table: a caller whose text holds no declared permission, in
the first phase, or a finding that names a permission, in the second.
-/

namespace RequestTrail

/-! ### Programs on a report -/

namespace InPlace

variable {α : Type} {report : Report}

/-- The outcome of a program that changes the report by a function, and only if that succeeds. -/
def outcome (report : Report) : Except Error (Report × α) → EStateM.Result Error Report α
  | .ok (result, a) => .ok a result
  | .error e => .error e report

lemma outcome_eq_ok_iff {x : Except Error (Report × α)} {a : α} {after : Report} :
    outcome report x = .ok a after ↔ x = .ok (after, a) := by
  cases x <;> simp [outcome, Prod.ext_iff, and_comm]

lemma outcome_eq_error_iff {x : Except Error (Report × α)} {e : Error} {after : Report} :
    outcome report x = .error e after ↔ after = report ∧ x = .error e := by
  cases x <;> simp [outcome, and_comm, eq_comm]

lemma run_ofExcept_bind {β : Type} (x : Except Error α) (f : α → InPlace β) :
    (MonadExcept.ofExcept x >>= f : InPlace β).run report =
      match x with
      | .ok a => (f a).run report
      | .error e => .error e report := by
  cases x <;> rfl

lemma any_sameKey (report : Report) (finding : Finding) :
    (report.findings.any fun other => other.sameKey finding) = report.hasKey finding.key := by
  rw [Bool.eq_iff_iff, Report.hasKey_iff]
  simp [Report.keys]

lemma run_push (finding : Finding) :
    (push finding).run report = .ok (!report.hasKey finding.key) (report.push finding) := by
  change (if report.findings.any fun other => other.sameKey finding then pure false else do
    modify fun report => { report with findings := report.findings ++ [finding] }
    return true : InPlace Bool).run report = _
  rw [any_sameKey]
  unfold Report.push
  split
  · rename_i h
    rw [h]
    rfl
  · rename_i h
    rw [Bool.not_eq_true] at h
    rw [h]
    rfl

lemma run_pushAll (findings : List Finding) (added : Nat) :
    (pushAll findings added).run report =
      .ok (added + (report.pushAll findings).2) (report.pushAll findings).1 := by
  induction findings generalizing report added with
  | nil => rfl
  | cons finding findings ih =>
    have hstep : (pushAll (finding :: findings) added).run report =
        (pushAll findings (if !report.hasKey finding.key then added + 1 else added)).run
          (report.push finding) := by
      simp only [pushAll, List.foldlM_cons, bind_assoc, pure_bind]
      rw [EStateM.run_bind, run_push]
    rw [hstep, ih, Report.pushAll]
    cases report.hasKey finding.key
    · simp [Nat.add_assoc, Nat.add_comm 1]
    · simp

/-- A program on a copy leaves the report alone when it fails. -/
lemma run_staged (program : InPlace α) :
    (staged program).run report =
      match program.run report with
      | .ok a copy => .ok a copy
      | .error e _ => .error e report := by
  change (match program.run report with
    | .ok a copy => do set copy; return a
    | .error e _ => throw e : InPlace α).run report = _
  cases program.run report <;> rfl

end InPlace

namespace Analysis

variable {analysis : Analysis} {entry : String} {report : Report}

/-! ### The phases in place -/

lemma run_analyzeRequestsInPlace :
    (analysis.analyzeRequestsInPlace entry).run report =
      InPlace.outcome report (analysis.analyzeRequests entry report) := by
  change (MonadExcept.ofExcept _ >>= _ : InPlace Nat).run report = _
  rw [InPlace.run_ofExcept_bind, analyzeRequests]
  split
  · rename_i found hfound
    rw [hfound, InPlace.run_pushAll, Nat.zero_add]
    rfl
  · rename_i e hfail
    rw [hfail]
    rfl

/-- To explain a finding is to put in its explanations. -/
lemma explain_eq_map (package : String) (finding : Finding) :
    analysis.explain package finding =
      finding.explainedBy <$> analysis.explanations? package finding := by
  unfold explain explanations?
  split
  · rfl
  · cases analysis.explanations package finding <;> rfl

/-- Explaining findings one by one is asking for all explanations and putting them in then. -/
lemma mapM_explain_eq_map (package : String) (findings : List Finding) :
    findings.mapM (analysis.explain package) =
      findings.zipWith Finding.explainedBy <$> findings.mapM (analysis.explanations? package) := by
  induction findings with
  | nil => rfl
  | cons finding findings ih =>
    rw [List.mapM_cons, List.mapM_cons, ih, explain_eq_map]
    cases analysis.explanations? package finding with
    | error e => rfl
    | ok texts => cases findings.mapM (analysis.explanations? package) <;> rfl

lemma run_analyzeExplanationsInPlace :
    analysis.analyzeExplanationsInPlace.run report =
      InPlace.outcome report ((·, ()) <$> analysis.analyzeExplanations report) := by
  change (MonadExcept.ofExcept _ >>= _ : InPlace Unit).run report = _
  rw [InPlace.run_ofExcept_bind, analyzeExplanations, mapM_explain_eq_map]
  cases report.findings.mapM (analysis.explanations? report.package) <;> rfl

lemma run_runInPlace :
    (analysis.runInPlace entry).run report =
      InPlace.outcome report ((·, ()) <$> analysis.run entry report) := by
  rw [runInPlace, InPlace.run_staged, EStateM.run_bind, run_analyzeRequestsInPlace, run]
  cases analysis.analyzeRequests entry report with
  | error e => rfl
  | ok p =>
    obtain ⟨result, added⟩ := p
    simp only [InPlace.outcome, run_analyzeExplanationsInPlace, bind, Except.bind]
    cases analysis.analyzeExplanations result <;> rfl

lemma runInPlace_eq_ok_iff {final : Report} :
    (analysis.runInPlace entry).run report = .ok () final ↔
      analysis.run entry report = .ok final := by
  rw [run_runInPlace, InPlace.outcome_eq_ok_iff, map_eq_ok_iff]
  simp

lemma runInPlace_eq_error_iff {e : Error} {after : Report} :
    (analysis.runInPlace entry).run report = .error e after ↔
      after = report ∧ analysis.run entry report = .error e := by
  rw [run_runInPlace, InPlace.outcome_eq_error_iff, map_eq_error_iff]

/-! ### The request phase as a function of its findings -/

/-- The findings on a caller to which the given permissions are tied. -/
def findingsOf (config : Config) (request caller : Site) (source : String) (path : List Site)
    (found : List Attribution) : List Finding :=
  if found.isEmpty && config.isSdkSite caller then []
  else if found.isEmpty then [{ Finding.unknown request caller source with path }]
  else found.map fun a => { permission := a.permission, request, caller, path, tier := a.tier }

lemma of_mem_findingsOf {config : Config} {request caller : Site} {source : String}
    {path : List Site} {found : List Attribution} {f : Finding}
    (h : f ∈ findingsOf config request caller source path found) :
    f.request = request ∧ f.caller = caller ∧ f.path = path := by
  unfold findingsOf at h
  split at h
  · cases h
  · split at h
    · rw [List.mem_singleton.1 h]
      exact ⟨rfl, rfl, rfl⟩
    · obtain ⟨a, _, rfl⟩ := List.mem_map.1 h
      exact ⟨rfl, rfl, rfl⟩

/-- Findings take over the path as it is. -/
lemma findingsOf_eq_map {config : Config} {request caller : Site} {source : String}
    {found : List Attribution} (path path' : List Site) :
    findingsOf config request caller source path' found =
      (findingsOf config request caller source path found).map fun f => { f with path := path' } := by
  unfold findingsOf
  split
  · rfl
  · split
    · rfl
    · rw [List.map_map]
      rfl

lemma analyzeCaller_eq_map {request caller : Site} {permissions : PermissionSet}
    {package : String} :
    analysis.analyzeCaller request caller permissions package entry =
      findingsOf analysis.config request caller (analysis.index.sourceOf caller)
          (analysis.index.traceThrough entry request caller) <$>
        analysis.index.attributions analysis.config package caller
          (analysis.index.sourceOf caller) permissions := by
  simp only [analyzeCaller]
  cases analysis.index.attributions analysis.config package caller
      (analysis.index.sourceOf caller) permissions with
  | error e => rfl
  | ok found =>
    simp only [bind, Except.bind, Functor.map, Except.map, findingsOf]
    split
    · rfl
    · split <;> rfl

/-- The findings on all pairs, in the order of discovery. -/
def requestFindings (analysis : Analysis) (permissions : PermissionSet) (package entry : String) :
    Except Error (List Finding) :=
  List.flatten <$> analysis.pairs.mapM fun (request, caller) =>
    analysis.analyzeCaller request caller permissions package entry

/-- A finding of the phase is about a discovered pair. -/
lemma mem_pairs_of_requestFindings {permissions : PermissionSet} {package : String}
    {found : List Finding} (h : analysis.requestFindings permissions package entry = .ok found)
    {f : Finding} (hf : f ∈ found) : (f.request, f.caller) ∈ analysis.pairs := by
  obtain ⟨parts, hparts, rfl⟩ := map_eq_ok_iff.1 h
  obtain ⟨part, hpart, hf⟩ := List.mem_flatten.1 hf
  obtain ⟨⟨request, caller⟩, hpair, hcaller⟩ := exists_of_mem_of_mapM_eq_ok hparts part hpart
  simp only [analyzeCaller_eq_map] at hcaller
  obtain ⟨_, -, rfl⟩ := map_eq_ok_iff.1 hcaller
  obtain ⟨rfl, rfl, -⟩ := of_mem_findingsOf hf
  exact hpair

lemma analyzeRequests_eq_map :
    analysis.analyzeRequests entry report =
      report.pushAll <$> analysis.requestFindings report.permissions report.package entry := by
  unfold analyzeRequests requestFindings
  cases analysis.pairs.mapM fun (request, caller) =>
    analysis.analyzeCaller request caller report.permissions report.package entry <;> rfl

/-- The phase changes nothing but the findings. -/
lemma kept_of_analyzeRequests {result : Report} {added : Nat}
    (h : analysis.analyzeRequests entry report = .ok (result, added)) :
    result.package = report.package ∧ result.permissions = report.permissions := by
  rw [analyzeRequests_eq_map] at h
  obtain ⟨found, -, hpush⟩ := map_eq_ok_iff.1 h
  obtain ⟨after, hafter⟩ := report.exists_findings_pushAll found
  rw [hpush] at hafter
  obtain rfl := hafter
  exact ⟨rfl, rfl⟩

/-! ### When an analysis fails -/

lemma analyzeCaller_eq_error_iff {request caller : Site} {permissions : PermissionSet}
    {package : String} {e : Error} :
    analysis.analyzeCaller request caller permissions package entry = .error e ↔
      e = .missingStringTable package analysis.config.defaultLocale ∧
        analysis.index.hasTable package analysis.config.defaultLocale = false ∧
          ∀ p ∈ permissions.toList, Text.contains (analysis.index.sourceOf caller) p = false := by
  unfold analyzeCaller
  rw [bind_eq_error_iff, Index.attributions_eq_error_iff, or_iff_left]
  -- what comes after the attribution cannot fail
  rintro ⟨found, -, h⟩
  split at h
  · cases h
  · split at h <;> cases h

/-- Some caller's text holds no declared permission, so that the table of resolved strings is
asked for. -/
def AsksForTable (analysis : Analysis) (permissions : PermissionSet) : Prop :=
  ∃ request ∈ analysis.discover, ∃ caller ∈ request.callers,
    ∀ p ∈ permissions.toList, Text.contains (analysis.index.sourceOf caller) p = false

lemma asksForTable_iff {permissions : PermissionSet} :
    analysis.AsksForTable permissions ↔ ∃ pair ∈ analysis.pairs,
      ∀ p ∈ permissions.toList, Text.contains (analysis.index.sourceOf pair.2) p = false := by
  constructor
  · rintro ⟨request, hrequest, caller, hcaller, htext⟩
    refine ⟨(request.method, caller), ?_, htext⟩
    exact List.mem_flatMap.2 ⟨request, hrequest, List.mem_map_of_mem hcaller⟩
  · rintro ⟨pair, hpair, htext⟩
    obtain ⟨request, hrequest, hpair⟩ := List.mem_flatMap.1 hpair
    obtain ⟨caller, hcaller, rfl⟩ := List.mem_map.1 hpair
    exact ⟨request, hrequest, caller, hcaller, htext⟩

lemma analyzeRequests_eq_error_iff {e : Error} :
    analysis.analyzeRequests entry report = .error e ↔
      e = .missingStringTable report.package analysis.config.defaultLocale ∧
        analysis.index.hasTable report.package analysis.config.defaultLocale = false ∧
          analysis.AsksForTable report.permissions := by
  rw [analyzeRequests, bind_eq_error_iff, asksForTable_iff]
  simp only [pure, Except.pure, reduceCtorEq, and_false, exists_false, or_false]
  exact mapM_eq_error_iff fun _ _ => analyzeCaller_eq_error_iff

/-- A run fails if something asks for the table of resolved strings and there is none. -/
lemma run_eq_error_iff {e : Error} :
    analysis.run entry report = .error e ↔
      e = .missingStringTable report.package analysis.config.defaultLocale ∧
        analysis.index.hasTable report.package analysis.config.defaultLocale = false ∧
          (analysis.AsksForTable report.permissions ∨
            ∃ result added, analysis.analyzeRequests entry report = .ok (result, added) ∧
              ∃ f ∈ result.findings, f.permission ≠ Finding.unknownPermission) := by
  rw [run, bind_eq_error_iff, analyzeRequests_eq_error_iff]
  constructor
  · rintro (⟨rfl, htable, hasks⟩ | ⟨⟨result, added⟩, hrequests, hexplain⟩)
    · exact ⟨rfl, htable, .inl hasks⟩
    · obtain ⟨rfl, htable, hfinding⟩ := analyzeExplanations_eq_error_iff.1 hexplain
      rw [(kept_of_analyzeRequests hrequests).1] at htable ⊢
      exact ⟨rfl, htable, .inr ⟨result, added, hrequests, hfinding⟩⟩
  · rintro ⟨rfl, htable, hasks | ⟨result, added, hrequests, hfinding⟩⟩
    · exact .inl ⟨rfl, htable, hasks⟩
    · refine .inr ⟨(result, added), hrequests, analyzeExplanations_eq_error_iff.2 ?_⟩
      rw [(kept_of_analyzeRequests hrequests).1]
      exact ⟨rfl, htable, hfinding⟩

lemma exists_run_of_hasTable
    (h : analysis.index.hasTable report.package analysis.config.defaultLocale = true) :
    ∃ final, analysis.run entry report = .ok final := by
  cases hrun : analysis.run entry report with
  | ok final => exact ⟨final, rfl⟩
  | error e =>
    obtain ⟨-, hmissing, -⟩ := run_eq_error_iff.1 hrun
    rw [h] at hmissing
    cases hmissing

/-- The outcome of a failure for want of the table of resolved strings: the error names the table,
and the report is as it was. -/
structure MissesTable (analysis : Analysis) (report : Report) (e : Error) (after : Report) :
    Prop where
  unchanged : after = report
  names : e = .missingStringTable report.package analysis.config.defaultLocale
  missing : analysis.index.hasTable report.package analysis.config.defaultLocale = false

/-- A function that fails if the table is missing and `asks` for it, in place. -/
lemma outcome_eq_error_iff_missesTable {α : Type} {x : Except Error (Report × α)} {asks : Prop}
    {e : Error} {after : Report}
    (hx : x = .error e ↔ e = .missingStringTable report.package analysis.config.defaultLocale ∧
      analysis.index.hasTable report.package analysis.config.defaultLocale = false ∧ asks) :
    InPlace.outcome report x = .error e after ↔ analysis.MissesTable report e after ∧ asks := by
  rw [InPlace.outcome_eq_error_iff, hx]
  constructor
  · rintro ⟨hafter, he, htable, hasks⟩
    exact ⟨⟨hafter, he, htable⟩, hasks⟩
  · rintro ⟨⟨hafter, he, htable⟩, hasks⟩
    exact ⟨hafter, he, htable, hasks⟩

/-- A run fails exactly when the table of resolved strings is missing and something asks for it:
a discovered caller whose text holds no declared permission, or a finding that names a permission
after the first phase. Each phase fails for its own part of that. Whatever fails, the error names
the table and the report is as it was. -/
theorem runInPlace_fails_iff (analysis : Analysis) (entry : String) (report : Report) :
    (∀ e after, (analysis.runInPlace entry).run report = .error e after ↔
      analysis.MissesTable report e after ∧
        (analysis.AsksForTable report.permissions ∨
          ∃ added result, (analysis.analyzeRequestsInPlace entry).run report = .ok added result ∧
            ∃ f ∈ result.findings, f.permission ≠ Finding.unknownPermission)) ∧
    (∀ e after, (analysis.analyzeRequestsInPlace entry).run report = .error e after ↔
      analysis.MissesTable report e after ∧ analysis.AsksForTable report.permissions) ∧
    ∀ e after, analysis.analyzeExplanationsInPlace.run report = .error e after ↔
      analysis.MissesTable report e after ∧
        ∃ f ∈ report.findings, f.permission ≠ Finding.unknownPermission := by
  refine ⟨fun e after => ?_, fun e after => ?_, fun e after => ?_⟩
  · simp only [run_analyzeRequestsInPlace, InPlace.outcome_eq_ok_iff]
    rw [run_runInPlace, exists_comm]
    exact outcome_eq_error_iff_missesTable (map_eq_error_iff.trans run_eq_error_iff)
  · rw [run_analyzeRequestsInPlace]
    exact outcome_eq_error_iff_missesTable analyzeRequests_eq_error_iff
  · rw [run_analyzeExplanationsInPlace]
    exact outcome_eq_error_iff_missesTable
      (map_eq_error_iff.trans analyzeExplanations_eq_error_iff)

end Analysis

/-! ### An application without a table

A caller without text asks for the table, and so does a finding that was there before. -/

namespace Sample

def request : Site := { className := "Landroid/app/Activity;", name := "requestPermissions" }

def asker : Site := { className := "Lcom/app/Main;", name := "askBoth" }

def silent : Site := { className := "Lcom/app/Other;", name := "ask" }

/-- The finding on the first caller for a permission. -/
def finding (permission : String) (tier : Tier) : Finding where
  permission := permission
  request := request
  caller := asker
  path := [request, asker]
  tier := tier

def untabled : Analysis where
  index := .ofLog [.call { caller := silent, callee := request }]
  config := {}
  accepts _ _ := true

def draft : Report where
  package := "app"
  permissions := .ofList ["CAMERA"]
  findings := [finding "CAMERA" .literal]

lemma asksForTable_untabled : untabled.AsksForTable draft.permissions :=
  ⟨⟨request, [silent]⟩, by decide, silent, by decide, by decide⟩

lemma missesTable_untabled :
    untabled.MissesTable draft (.missingStringTable "app" "DEFAULT") draft :=
  ⟨rfl, rfl, by decide⟩

end Sample

namespace Analysis

theorem runInPlace_fails_iff_untabled :
    (Sample.untabled.runInPlace "Main").run Sample.draft =
        .error (.missingStringTable "app" "DEFAULT") Sample.draft ∧
      (Sample.untabled.analyzeRequestsInPlace "Main").run Sample.draft =
        .error (.missingStringTable "app" "DEFAULT") Sample.draft ∧
      Sample.untabled.analyzeExplanationsInPlace.run Sample.draft =
        .error (.missingStringTable "app" "DEFAULT") Sample.draft := by
  obtain ⟨hrun, hrequests, hexplain⟩ := runInPlace_fails_iff Sample.untabled "Main" Sample.draft
  refine ⟨(hrun _ _).2 ⟨Sample.missesTable_untabled, .inl Sample.asksForTable_untabled⟩,
    (hrequests _ _).2 ⟨Sample.missesTable_untabled, Sample.asksForTable_untabled⟩,
    (hexplain _ _).2 ⟨Sample.missesTable_untabled, ?_⟩⟩
  exact ⟨Sample.finding "CAMERA" .literal, by decide, by decide⟩

end Analysis

end RequestTrail
