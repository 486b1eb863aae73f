import RequestTrail.Proofs.Service

/-!
# The meaning of explanations

What the second phase of an analysis puts into a report that has its table of resolved strings. The
explanations of a finding are the accepted pieces of evidence on its caller, each once, in the order
of their first occurrences. They depend on the caller and the permission of the finding alone, so
the phase treats every finding by itself: whichever findings are there, and in which order, each
gets the explanations that it gets anywhere else.
-/

namespace RequestTrail

namespace Analysis

variable {analysis : Analysis} {package : String} {finding : Finding} {report : Report}

/-! ### Evidence -/

/-- What may explain a request by a caller: the literals that the caller loads, and then the
resolved strings of the identifiers in its text. -/
def evidence (analysis : Analysis) (package : String) (caller : Site) : List String :=
  ((analysis.index.literals.filter fun literal => caller ∈ literal.references).map Literal.value) ++
    (ResourceId.scan (analysis.index.sourceOf caller)).filterMap
      (analysis.index.string? package analysis.config.defaultLocale)

/-- The pieces of evidence on a caller that are accepted for a permission, each once. -/
def acceptedTexts (analysis : Analysis) (package : String) (caller : Site) (permission : String) :
    List String :=
  ((analysis.evidence package caller).filter (analysis.accepts permission)).eraseDups

/-- What the phase may make of a finding: nothing else in it changes but the explanations, and only
if it names a permission. They become the accepted pieces of evidence on its caller, in the order of
first occurrences. -/
structure Explains (analysis : Analysis) (package : String) (before after : Finding) : Prop where
  kept : after = { before with explanation := after.explanation }
  unnamed : before.isUnknown = true → after = before
  named : before.isUnknown = false →
    Enumerates (fun text => text ∈ analysis.evidence package before.caller ∧
        analysis.accepts before.permission text = true)
      (fun text text' => (analysis.evidence package before.caller).idxOf text <
        (analysis.evidence package before.caller).idxOf text')
      after.explanation

namespace Explains

variable {before before' after after' : Finding}

lemma isUnknown_eq (h : analysis.Explains package before after) :
    after.isUnknown = before.isUnknown := by
  rw [h.kept]
  rfl

lemma nodup (h : analysis.Explains package before after) (hnamed : after.isUnknown = false) :
    after.explanation.Nodup :=
  (h.named (h.isUnknown_eq ▸ hnamed)).nodup fun _ => Nat.lt_irrefl _

/-- The caller and the permission of a finding tell its explanations. -/
lemma explanation_eq (h : analysis.Explains package before after)
    (h' : analysis.Explains package before' after') (hnamed : after.isUnknown = false)
    (hcaller : after.caller = after'.caller) (hpermission : after.permission = after'.permission) :
    after.explanation = after'.explanation := by
  have hnamed' : after'.isUnknown = false := by
    rw [Finding.isUnknown, ← hpermission]
    exact hnamed
  have hcallers : before.caller = before'.caller := by
    rw [h.kept, h'.kept] at hcaller
    exact hcaller
  have hpermissions : before.permission = before'.permission := by
    rw [h.kept, h'.kept] at hpermission
    exact hpermission
  have henumerates := h'.named (h'.isUnknown_eq ▸ hnamed')
  rw [← hcallers, ← hpermissions] at henumerates
  exact (h.named (h.isUnknown_eq ▸ hnamed)).unique (fun _ _ => Nat.lt_asymm) henumerates

end Explains

/-! ### One finding -/

/-- A finding with its explanations, where there is a table. -/
def explained (analysis : Analysis) (package : String) (finding : Finding) : Finding :=
  if finding.isUnknown then finding
  else
    { finding with
      explanation := analysis.acceptedTexts package finding.caller finding.permission }

lemma explained_of_isUnknown (h : finding.isUnknown = true) :
    analysis.explained package finding = finding := by
  rw [explained, if_pos h]

lemma explained_of_named (h : finding.isUnknown = false) :
    analysis.explained package finding =
      { finding with
        explanation := analysis.acceptedTexts package finding.caller finding.permission } := by
  rw [explained, if_neg (by simp [h])]

lemma explanations_of_hasTable
    (htable : analysis.index.hasTable package analysis.config.defaultLocale = true) :
    analysis.explanations package finding =
      .ok (analysis.acceptedTexts package finding.caller finding.permission) := by
  rw [explanations_eq_map, Index.resolve_of_hasTable htable, acceptedTexts, evidence]
  simp only [Literal.isReferencedBy, List.contains_eq_mem]
  rfl

lemma explain_of_hasTable
    (htable : analysis.index.hasTable package analysis.config.defaultLocale = true) :
    analysis.explain package finding = .ok (analysis.explained package finding) := by
  unfold explain explained
  split
  · rfl
  · rw [explanations_of_hasTable htable]
    rfl

/-- A finding that can be explained gets its explanations; if it names a permission, there is a
table. -/
lemma eq_explained_of_explain {after : Finding}
    (h : analysis.explain package finding = .ok after) :
    after = analysis.explained package finding := by
  cases htable : analysis.index.hasTable package analysis.config.defaultLocale with
  | true =>
    rw [explain_of_hasTable htable] at h
    exact (Except.ok.inj h).symm
  | false =>
    have hunknown : finding.isUnknown = true := by
      by_contra hnamed
      have hfails := explain_eq_error_iff.2 ⟨rfl, htable, mt Finding.isUnknown_iff.2 hnamed⟩
      exact absurd (h.symm.trans hfails) (by simp)
    rw [explain, if_pos hunknown] at h
    rw [explained_of_isUnknown hunknown, Except.ok.inj h]

lemma explains_explained (analysis : Analysis) (package : String) (finding : Finding) :
    analysis.Explains package finding (analysis.explained package finding) := by
  cases h : finding.isUnknown with
  | true =>
    rw [explained_of_isUnknown h]
    exact ⟨rfl, fun _ => rfl, fun hnamed => absurd (h.symm.trans hnamed) (by simp)⟩
  | false =>
    rw [explained_of_named h]
    refine ⟨rfl, fun hunknown => absurd (h.symm.trans hunknown) (by simp), fun _ => ?_⟩
    exact Enumerates.eraseDups_filter _ _

/-! ### All findings -/

lemma analyzeExplanations_of_hasTable
    (htable : analysis.index.hasTable report.package analysis.config.defaultLocale = true) :
    analysis.analyzeExplanations report =
      .ok { report with findings := report.findings.map (analysis.explained report.package) } := by
  have hfindings : report.findings.mapM (analysis.explain report.package) =
      .ok (report.findings.map (analysis.explained report.package)) :=
    mapM_eq_ok_of_forall fun _ _ => explain_of_hasTable htable
  rw [analyzeExplanations, hfindings]
  rfl

lemma run_analyzeExplanationsInPlace_of_hasTable (report : Report)
    (htable : analysis.index.hasTable report.package analysis.config.defaultLocale = true) :
    analysis.analyzeExplanationsInPlace.run report = .ok ()
      { report with findings := report.findings.map (analysis.explained report.package) } := by
  rw [run_analyzeExplanationsInPlace, analyzeExplanations_of_hasTable htable]
  rfl

/-- The exact meaning and frame of the explanation phase. Where there is a table of resolved strings
the phase succeeds. It keeps the findings in number and order and changes nothing in them but the
explanations of those that name a permission, which become the accepted pieces of evidence on the
caller in the order of their first occurrences. So no such explanation occurs twice, findings with
the same caller and permission get the same ones in any report on the package, and picking findings
by their positions, to rearrange or to leave out some, picks from what the phase makes of them. -/
theorem analyzeExplanationsInPlace_exact (analysis : Analysis) (report : Report)
    (htable : analysis.index.hasTable report.package analysis.config.defaultLocale = true) :
    ∃ final, analysis.analyzeExplanationsInPlace.run report = .ok () final ∧
      final = { report with findings := final.findings } ∧
      List.Forall₂ (analysis.Explains report.package) report.findings final.findings ∧
      (∀ f ∈ final.findings, f.isUnknown = false → f.explanation.Nodup) ∧
      (∀ other last, other.package = report.package →
        analysis.analyzeExplanationsInPlace.run other = .ok () last →
          ∀ f ∈ final.findings, ∀ g ∈ last.findings, f.isUnknown = false →
            f.caller = g.caller → f.permission = g.permission → f.explanation = g.explanation) ∧
      ∀ picks : List Nat,
        analysis.analyzeExplanationsInPlace.run
            { report with findings := picks.filterMap (report.findings[·]?) } =
          .ok () { report with findings := picks.filterMap (final.findings[·]?) } := by
  refine ⟨_, run_analyzeExplanationsInPlace_of_hasTable report htable, rfl, ?_, ?_, ?_, ?_⟩
  · rw [List.forall₂_map_right_iff, List.forall₂_same]
    intro finding _
    exact explains_explained analysis report.package finding
  · intro f hf hnamed
    obtain ⟨finding, -, rfl⟩ := List.mem_map.1 hf
    exact (explains_explained analysis report.package finding).nodup hnamed
  · intro other last hpackage hrun f hf g hg hnamed hcaller hpermission
    rw [run_analyzeExplanationsInPlace_of_hasTable other (hpackage ▸ htable), hpackage] at hrun
    obtain ⟨-, rfl⟩ := EStateM.Result.ok.inj hrun
    obtain ⟨finding, -, rfl⟩ := List.mem_map.1 hf
    obtain ⟨finding', -, rfl⟩ := List.mem_map.1 hg
    exact (explains_explained analysis report.package finding).explanation_eq
      (explains_explained analysis report.package finding') hnamed hcaller hpermission
  · intro picks
    have hpicked := run_analyzeExplanationsInPlace_of_hasTable
      { report with findings := picks.filterMap (report.findings[·]?) } htable
    rw [hpicked, List.map_filterMap]
    simp only [List.getElem?_map]

end Analysis

/-! ### A caller that explains itself more than once

One text is loaded from two literals and is resolved from an identifier too; another one is not
accepted. Of the findings on the caller, the first names no permission and comes with explanations
that repeat. -/

namespace Sample

def pleading : Analysis where
  index := .ofLog [.literal { value := "to scan codes", references := [asker] },
    .literal { value := "OK", references := [silent, asker] },
    .literal { value := "to scan codes", references := [asker, asker] },
    .source asker "show(2131689500, 2131689501)",
    .string "app" "DEFAULT" 2131689500 "to scan codes",
    .string "app" "DEFAULT" 2131689501 "to take pictures"]
  config := {}
  accepts permission text := permission = "CAMERA" && text != "OK"

def unnamed : Finding :=
  { Finding.unknown request asker "show()" with explanation := ["why", "why"] }

def plea : Report where
  package := "app"
  permissions := .ofList ["CAMERA", "SMS"]
  findings := [unnamed, finding "SMS" .literal, finding "CAMERA" .literal]

def granted : Report :=
  { plea with findings := [unnamed, finding "SMS" .literal,
    { finding "CAMERA" .literal with explanation := ["to scan codes", "to take pictures"] }] }

lemma hasTable_pleading : pleading.index.hasTable "app" "DEFAULT" = true := by
  decide +kernel

lemma run_plea : pleading.analyzeExplanationsInPlace.run plea = .ok () granted := by
  rfl

end Sample

namespace Analysis

theorem analyzeExplanationsInPlace_exact_plea :
    Sample.pleading.index.hasTable "app" "DEFAULT" = true ∧
      Sample.pleading.analyzeExplanationsInPlace.run Sample.plea = .ok () Sample.granted ∧
      List.Forall₂ (Sample.pleading.Explains "app") Sample.plea.findings
        Sample.granted.findings ∧
      Sample.pleading.analyzeExplanationsInPlace.run
          { Sample.plea with findings := [2, 0].filterMap (Sample.plea.findings[·]?) } =
        .ok () { Sample.plea with findings := [2, 0].filterMap (Sample.granted.findings[·]?) } := by
  obtain ⟨final, hrun, -, hexplains, -, -, hpicks⟩ :=
    analyzeExplanationsInPlace_exact Sample.pleading Sample.plea Sample.hasTable_pleading
  obtain ⟨-, rfl⟩ := EStateM.Result.ok.inj (Sample.run_plea.symm.trans hrun)
  exact ⟨Sample.hasTable_pleading, hrun, hexplains, hpicks [2, 0]⟩

end Analysis

end RequestTrail
