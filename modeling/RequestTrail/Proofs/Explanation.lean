import RequestTrail.Analysis
import RequestTrail.Proofs.Attribution

/-!
# The explanation phase

The second phase of an analysis touches nothing but the explanations of findings that name a
permission. It fails exactly when there is such a finding and the table of resolved strings is
missing.
-/

namespace RequestTrail

namespace Finding

/-- A finding before it is explained. -/
def unexplained (finding : Finding) : Finding :=
  { finding with explanation := [] }

@[simp]
lemma isUnknown_iff {finding : Finding} :
    finding.isUnknown = true ↔ finding.permission = unknownPermission := by
  simp [isUnknown]

end Finding

namespace Analysis

variable {analysis : Analysis} {package : String} {finding explained : Finding}
  {report final : Report} {e : Error}

/-! ### One finding -/

/-- Explaining a finding changes nothing else in it. -/
lemma unexplained_of_explain (h : analysis.explain package finding = .ok explained) :
    explained.unexplained = finding.unexplained := by
  unfold explain at h
  split at h
  · rw [Except.ok.inj h]
  · obtain ⟨texts, _, hexplained⟩ := bind_eq_ok_iff.1 h
    rw [← Except.ok.inj hexplained]
    rfl

lemma key_of_explain (h : analysis.explain package finding = .ok explained) :
    explained.key = finding.key := by
  have hkey := congrArg Finding.key (unexplained_of_explain h)
  exact hkey

lemma explanations_eq_map :
    analysis.explanations package finding =
      (fun resolved =>
        ((((analysis.index.literals.filter (·.isReferencedBy finding.caller)).map Literal.value ++
          resolved).filter (analysis.accepts finding.permission)).eraseDups)) <$>
        analysis.index.resolve analysis.config package
          (analysis.index.sourceOf finding.caller) := by
  unfold explanations Index.resolve
  cases analysis.index.selectTable analysis.config package <;> rfl

/-- The explanations of a finding depend on its permission and caller alone. -/
lemma explanations_congr {other : Finding} (hpermission : other.permission = finding.permission)
    (hcaller : other.caller = finding.caller) :
    analysis.explanations package other = analysis.explanations package finding := by
  simp only [explanations, hpermission, hcaller]

/-- An explained finding is explained as it is. -/
lemma explain_of_explain (h : analysis.explain package finding = .ok explained) :
    analysis.explain package explained = .ok explained := by
  unfold explain at h
  split at h
  · rename_i hunknown
    obtain rfl := Except.ok.inj h
    rw [explain, if_pos hunknown]
  · rename_i hnamed
    obtain ⟨texts, htexts, hexplained⟩ := bind_eq_ok_iff.1 h
    obtain rfl := Except.ok.inj hexplained
    have hnamed : ¬ ({ finding with explanation := texts } : Finding).isUnknown = true := hnamed
    have hagain : analysis.explanations package { finding with explanation := texts } = .ok texts :=
      (explanations_congr rfl rfl).trans htexts
    rw [explain, if_neg hnamed, hagain]
    rfl

lemma explanations_eq_error_iff :
    analysis.explanations package finding = .error e ↔
      e = .missingStringTable package analysis.config.defaultLocale ∧
        analysis.index.hasTable package analysis.config.defaultLocale = false := by
  simp only [explanations]
  rw [bind_eq_error_iff, Index.selectTable_eq_error_iff]
  simp [pure, Except.pure]

lemma explain_eq_error_iff :
    analysis.explain package finding = .error e ↔
      e = .missingStringTable package analysis.config.defaultLocale ∧
        analysis.index.hasTable package analysis.config.defaultLocale = false ∧
          finding.permission ≠ Finding.unknownPermission := by
  rw [ne_eq, ← Finding.isUnknown_iff]
  unfold explain
  split
  · rename_i hunknown
    simp [hunknown]
  · rename_i hnamed
    rw [bind_eq_error_iff, explanations_eq_error_iff]
    simp [pure, Except.pure, hnamed]

/-! ### All findings -/

/-- The phase changes nothing but explanations. -/
lemma unexplained_of_analyzeExplanations (h : analysis.analyzeExplanations report = .ok final) :
    final.package = report.package ∧ final.permissions = report.permissions ∧
      final.findings.map Finding.unexplained = report.findings.map Finding.unexplained := by
  obtain ⟨findings, hfindings, hfinal⟩ := bind_eq_ok_iff.1 h
  obtain rfl := Except.ok.inj hfinal
  refine ⟨rfl, rfl, ?_⟩
  exact map_eq_of_mapM_eq_ok (fun _ _ => unexplained_of_explain) hfindings

lemma keys_of_analyzeExplanations (h : analysis.analyzeExplanations report = .ok final) :
    final.keys = report.keys := by
  obtain ⟨findings, hfindings, hfinal⟩ := bind_eq_ok_iff.1 h
  obtain rfl := Except.ok.inj hfinal
  exact map_eq_of_mapM_eq_ok (fun _ _ => key_of_explain) hfindings

/-- The phase has nothing left to do after itself. -/
lemma analyzeExplanations_of_analyzeExplanations
    (h : analysis.analyzeExplanations report = .ok final) :
    analysis.analyzeExplanations final = .ok final := by
  obtain ⟨findings, hfindings, hfinal⟩ := bind_eq_ok_iff.1 h
  obtain rfl := Except.ok.inj hfinal
  have hagain : findings.mapM (analysis.explain report.package) = .ok (findings.map id) := by
    refine mapM_eq_ok_of_forall fun explained hexplained => ?_
    obtain ⟨finding, _, hexplain⟩ := exists_of_mem_of_mapM_eq_ok hfindings explained hexplained
    exact explain_of_explain hexplain
  rw [analyzeExplanations, hagain, List.map_id]
  rfl

/-- The phase fails if the table is missing and there is a finding to explain. -/
lemma analyzeExplanations_eq_error_iff :
    analysis.analyzeExplanations report = .error e ↔
      e = .missingStringTable report.package analysis.config.defaultLocale ∧
        analysis.index.hasTable report.package analysis.config.defaultLocale = false ∧
          ∃ finding ∈ report.findings, finding.permission ≠ Finding.unknownPermission := by
  rw [analyzeExplanations, bind_eq_error_iff]
  simp only [pure, Except.pure, reduceCtorEq, and_false, exists_false, or_false]
  exact mapM_eq_error_iff fun _ _ => explain_eq_error_iff

end Analysis

end RequestTrail
