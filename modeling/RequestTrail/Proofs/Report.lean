import Mathlib.Data.List.Nodup
import RequestTrail.Report.Basic

/-!
# Adding findings to a report

The first finding of a key wins: a finding is added if its key is new, and findings with distinct
keys do not get in each other's way.
-/

namespace RequestTrail

namespace Report

variable {report : Report} {finding : Finding} {findings : List Finding}

@[simp]
lemma hasKey_iff {key : Finding.Key} : report.hasKey key = true ↔ key ∈ report.keys := by
  simp [hasKey]

lemma push_of_mem (h : finding.key ∈ report.keys) : report.push finding = report := by
  rw [push, if_pos (hasKey_iff.2 h)]

lemma push_of_not_mem (h : finding.key ∉ report.keys) :
    report.push finding = { report with findings := report.findings ++ [finding] } := by
  rw [push, if_neg (by simpa using h)]

/-! ### Pushing in turn -/

lemma mem_keys_push {key : Finding.Key} :
    key ∈ (report.push finding).keys ↔ key = finding.key ∨ key ∈ report.keys := by
  by_cases h : finding.key ∈ report.keys
  · rw [push_of_mem h]
    constructor
    · exact .inr
    · rintro (rfl | hkey)
      · exact h
      · exact hkey
  · simp [push_of_not_mem h, keys, or_comm]

lemma mem_keys_pushAll {key : Finding.Key} :
    key ∈ (report.pushAll findings).1.keys ↔
      key ∈ findings.map Finding.key ∨ key ∈ report.keys := by
  induction findings generalizing report with
  | nil => simp [pushAll]
  | cons finding findings ih =>
    rw [pushAll, ih, mem_keys_push, List.map_cons, List.mem_cons]
    simp only [or_assoc, or_left_comm]

lemma mem_of_mem_push {f : Finding} (h : f ∈ (report.push finding).findings) :
    f ∈ report.findings ∨ f = finding := by
  by_cases hkey : finding.key ∈ report.keys
  · rw [push_of_mem hkey] at h
    exact .inl h
  · rw [push_of_not_mem hkey] at h
    simpa using h

/-- Whatever is in the report afterwards was there before or was pushed. -/
lemma mem_of_mem_pushAll {f : Finding} (h : f ∈ (report.pushAll findings).1.findings) :
    f ∈ report.findings ∨ f ∈ findings := by
  induction findings generalizing report with
  | nil => exact .inl h
  | cons finding findings ih =>
    rcases ih h with hpush | hrest
    · rcases mem_of_mem_push hpush with hold | rfl
      · exact .inl hold
      · exact .inr List.mem_cons_self
    · exact .inr (List.mem_cons_of_mem finding hrest)

/-- Nothing but the findings changes. -/
lemma exists_findings_pushAll (report : Report) (findings : List Finding) :
    ∃ after, (report.pushAll findings).1 = { report with findings := after } := by
  induction findings generalizing report with
  | nil => exact ⟨report.findings, rfl⟩
  | cons finding findings ih =>
    obtain ⟨after, hafter⟩ := ih (report.push finding)
    refine ⟨after, ?_⟩
    rw [pushAll, hafter]
    unfold push
    split <;> rfl

/-- Nothing is added if the report has all keys. -/
lemma pushAll_of_forall_mem (h : ∀ finding ∈ findings, finding.key ∈ report.keys) :
    report.pushAll findings = (report, 0) := by
  induction findings with
  | nil => rfl
  | cons finding findings ih =>
    rw [List.forall_mem_cons] at h
    rw [pushAll, push_of_mem h.1, ih h.2]
    simp [h.1]

/-! ### Findings with distinct keys -/

/-- The findings whose keys are new to a report. -/
def fresh (report : Report) (findings : List Finding) : List Finding :=
  findings.filter fun finding => finding.key ∉ report.keys

/-- Findings that have their counterparts, key for key, have them among the new ones too. -/
lemma exists_mem_fresh {R : Finding → Finding → Prop} {findings' : List Finding}
    (hkey : ∀ f g, R f g → f.key = g.key) (h : ∀ f ∈ findings, ∃ g ∈ findings', R f g) :
    ∀ f ∈ report.fresh findings, ∃ g ∈ report.fresh findings', R f g := by
  intro f hf
  obtain ⟨hmem, hnew⟩ := List.mem_filter.1 hf
  obtain ⟨g, hg, hR⟩ := h f hmem
  exact ⟨g, List.mem_filter.2 ⟨hg, hkey f g hR ▸ hnew⟩, hR⟩

/-- What is new to a report stays new when a finding with another key is added. -/
lemma fresh_append_singleton (h : finding.key ∉ findings.map Finding.key) :
    fresh { report with findings := report.findings ++ [finding] } findings =
      report.fresh findings := by
  apply List.filter_congr
  intro other hother
  have hne : other.key ≠ finding.key := by
    intro heq
    exact h (heq ▸ List.mem_map_of_mem hother)
  simp [keys, hne]

/-- Findings with distinct keys are all added, but for those whose keys the report has. -/
lemma pushAll_eq (h : (findings.map Finding.key).Nodup) :
    report.pushAll findings =
      ({ report with findings := report.findings ++ report.fresh findings },
        (report.fresh findings).length) := by
  induction findings generalizing report with
  | nil => simp [pushAll, fresh]
  | cons finding findings ih =>
    rw [List.map_cons, List.nodup_cons] at h
    by_cases hmem : finding.key ∈ report.keys
    · have hfresh : report.fresh (finding :: findings) = report.fresh findings := by
        simp [fresh, hmem]
      rw [pushAll, push_of_mem hmem, ih h.2, hfresh]
      simp [hmem]
    · have hfresh : report.fresh (finding :: findings) = finding :: report.fresh findings := by
        simp [fresh, hmem]
      rw [pushAll, push_of_not_mem hmem, ih h.2, fresh_append_singleton h.1, hfresh]
      simp [hmem]

end Report

end RequestTrail
