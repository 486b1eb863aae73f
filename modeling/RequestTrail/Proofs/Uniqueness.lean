import RequestTrail.Proofs.Requests
import RequestTrail.Report.Json

/-!
# Uniqueness of keys

No operation on a report gives a second finding a key that is there: whatever is added stands behind
the old findings under new keys, and no key is taken away. So the keys are distinct after any
operations exactly when they were distinct before. A new report has none. A report that is read from
a document has the findings of the document, which may have the same key twice.
-/

namespace RequestTrail

/-! ### Operations -/

/-- What can be done to a report. Each operation may bring an analysis of its own. -/
inductive Operation where
  | push (finding : Finding)
  | analyzeRequests (analysis : Analysis) (entry : String)
  | analyzeExplanations (analysis : Analysis)
  | run (analysis : Analysis) (entry : String)

namespace Operation

def program : Operation → InPlace Unit
  | .push finding => do
    let _ ← InPlace.push finding
  | .analyzeRequests analysis entry => do
    let _ ← analysis.analyzeRequestsInPlace entry
  | .analyzeExplanations analysis => analysis.analyzeExplanationsInPlace
  | .run analysis entry => analysis.runInPlace entry

/-- The report that an operation leaves behind, whether it succeeds or fails. -/
def perform (report : Report) (operation : Operation) : Report :=
  match operation.program.run report with
  | .ok _ after => after
  | .error _ after => after

def performAll (report : Report) (operations : List Operation) : Report :=
  operations.foldl perform report

end Operation

/-! ### Reports that grow by new keys -/

namespace Report

/-- The keys of the later report are those of the earlier one, and behind them distinct keys that
the earlier one does not have. -/
def Extends (later earlier : Report) : Prop :=
  ∃ added, later.keys = earlier.keys ++ added ∧ added.Nodup ∧ earlier.keys.Disjoint added

namespace Extends

variable {earlier later last : Report}

lemma of_keys_eq (h : later.keys = earlier.keys) : later.Extends earlier :=
  ⟨[], by simp [h], List.nodup_nil, by simp⟩

lemma trans (h : later.Extends earlier) (h' : last.Extends later) : last.Extends earlier := by
  obtain ⟨added, hkeys, hnodup, hnew⟩ := h
  obtain ⟨added', hkeys', hnodup', hnew'⟩ := h'
  rw [hkeys, List.disjoint_append_left] at hnew'
  refine ⟨added ++ added', ?_, hnodup.append hnodup' hnew'.2, ?_⟩
  · rw [hkeys', hkeys, List.append_assoc]
  · rw [List.disjoint_append_right]
    exact ⟨hnew, hnew'.1⟩

lemma push (report : Report) (finding : Finding) : (report.push finding).Extends report := by
  by_cases h : finding.key ∈ report.keys
  · rw [push_of_mem h]
    exact of_keys_eq rfl
  · rw [push_of_not_mem h]
    refine ⟨[finding.key], by simp [keys], List.nodup_singleton _, ?_⟩
    rw [List.disjoint_singleton]
    exact h

lemma pushAll (report : Report) (findings : List Finding) :
    (report.pushAll findings).1.Extends report := by
  induction findings generalizing report with
  | nil => exact of_keys_eq rfl
  | cons finding findings ih => exact (push report finding).trans (ih (report.push finding))

/-- A report that grows by new keys neither gains nor loses a repetition. -/
lemma nodup_keys_iff (h : later.Extends earlier) : later.keys.Nodup ↔ earlier.keys.Nodup := by
  obtain ⟨added, hkeys, hnodup, hnew⟩ := h
  rw [hkeys, List.nodup_append']
  exact ⟨fun h => h.1, fun h => ⟨h, hnodup, hnew⟩⟩

end Extends

end Report

/-! ### What operations do to the keys -/

namespace Analysis

variable {analysis : Analysis} {entry : String} {report result final : Report} {added : Nat}

lemma extends_of_analyzeRequests (h : analysis.analyzeRequests entry report = .ok (result, added)) :
    result.Extends report := by
  rw [analyzeRequests_eq_map] at h
  obtain ⟨found, -, hpush⟩ := map_eq_ok_iff.1 h
  have hresult : (report.pushAll found).1 = result := congrArg Prod.fst hpush
  rw [← hresult]
  exact .pushAll report found

lemma extends_of_analyzeExplanations (h : analysis.analyzeExplanations report = .ok final) :
    final.Extends report :=
  .of_keys_eq (keys_of_analyzeExplanations h)

lemma extends_of_run (h : analysis.run entry report = .ok final) : final.Extends report := by
  obtain ⟨⟨result, added⟩, hrequests, hexplain⟩ := bind_eq_ok_iff.1 h
  exact (extends_of_analyzeRequests hrequests).trans (extends_of_analyzeExplanations hexplain)

end Analysis

namespace Operation

lemma extends_perform (report : Report) (operation : Operation) :
    (perform report operation).Extends report := by
  unfold perform
  cases operation with
  | push finding =>
    simp only [program, EStateM.run_bind, InPlace.run_push]
    exact .push report finding
  | analyzeRequests analysis entry =>
    simp only [program, EStateM.run_bind, Analysis.run_analyzeRequestsInPlace]
    cases h : analysis.analyzeRequests entry report with
    | ok p => exact Analysis.extends_of_analyzeRequests h
    | error e => exact .of_keys_eq rfl
  | analyzeExplanations analysis =>
    simp only [program, Analysis.run_analyzeExplanationsInPlace]
    cases h : analysis.analyzeExplanations report with
    | ok final => exact Analysis.extends_of_analyzeExplanations h
    | error e => exact .of_keys_eq rfl
  | run analysis entry =>
    simp only [program, Analysis.run_runInPlace]
    cases h : analysis.run entry report with
    | ok final => exact Analysis.extends_of_run h
    | error e => exact .of_keys_eq rfl

lemma extends_performAll (report : Report) (operations : List Operation) :
    (performAll report operations).Extends report := by
  unfold performAll
  induction operations generalizing report with
  | nil => exact .of_keys_eq rfl
  | cons operation operations ih => exact (extends_perform report operation).trans (ih _)

/-- The keys of a new report stay distinct under all operations. Those of a report that is read from
a document are distinct after any operations exactly when the document gave no key twice. A push
adds its finding exactly when the report does not have the key. -/
theorem nodup_keys_performAll_iff (operations : List Operation) :
    (∀ package permissions, (performAll { package, permissions } operations).keys.Nodup) ∧
    (∀ text report, (Json.ofText? text).bind Report.ofJson? = some report →
      ((performAll report operations).keys.Nodup ↔ report.keys.Nodup)) ∧
    ∀ (report : Report) (finding : Finding), ∃ added after,
      (InPlace.push finding).run report = .ok added after ∧
        (added = true ↔ report.hasKey finding.key = false) := by
  refine ⟨fun package permissions => ?_, fun text report _ => ?_, fun report finding => ?_⟩
  · rw [(extends_performAll _ operations).nodup_keys_iff]
    exact List.nodup_nil
  · exact (extends_performAll report operations).nodup_keys_iff
  · exact ⟨_, _, InPlace.run_push finding, by simp⟩

end Operation

/-! ### Documents with one finding and with the same finding twice -/

namespace Sample

def findingText : String := "[\"SMS\",[\"P\",\"ask\"],[\"A\",\"f\"],[],[],null,\"literal\"]"

def documentText (findings : String) : String := "[\"app\",[],[" ++ findings ++ "]]"

/-- The finding of the text. -/
def asked : Finding where
  permission := "SMS"
  request := { className := "P", name := "ask" }
  caller := { className := "A", name := "f" }
  tier := .literal

lemma ofJson?_single :
    (Json.ofText? (documentText findingText)).bind Report.ofJson? =
      some { package := "app", findings := [asked] } := by
  cbv

lemma ofJson?_doubled :
    (Json.ofText? (documentText (findingText ++ "," ++ findingText))).bind Report.ofJson? =
      some { package := "app", findings := [asked, asked] } := by
  cbv

end Sample

namespace Operation

theorem nodup_keys_performAll_iff_single :
    (Json.ofText? (Sample.documentText Sample.findingText)).bind Report.ofJson? =
        some { package := "app", findings := [Sample.asked] } ∧
      (performAll { package := "app", findings := [Sample.asked] }
        [.push Sample.asked, .run Sample.analysis "Main"]).keys.Nodup := by
  have hkeys := nodup_keys_performAll_iff [.push Sample.asked, .run Sample.analysis "Main"]
  refine ⟨Sample.ofJson?_single, (hkeys.2.1 _ _ Sample.ofJson?_single).2 ?_⟩
  decide

/-- A document may give a key twice, and no operation mends it. -/
theorem document_keys_repeat :
    (Json.ofText? (Sample.documentText (Sample.findingText ++ "," ++ Sample.findingText))).bind
        Report.ofJson? = some { package := "app", findings := [Sample.asked, Sample.asked] } ∧
      ∀ operations, ¬ (performAll { package := "app", findings := [Sample.asked, Sample.asked] }
        operations).keys.Nodup := by
  refine ⟨Sample.ofJson?_doubled, fun operations => ?_⟩
  rw [(extends_performAll _ operations).nodup_keys_iff]
  decide

end Operation

end RequestTrail
