import RequestTrail.Proofs.Requests

/-!
# A second run

A run leaves nothing to do for another run under the same settings: every key that the second run
comes to is a key of the report, and every explanation that it gathers is the one that stands there.
-/

namespace RequestTrail

namespace Analysis

variable {analysis : Analysis} {entry : String} {report result : Report} {added : Nat}

/-- The request phase adds nothing to a report with the keys that it gave to another report, if it
resolves both against the same permissions and package. -/
lemma analyzeRequests_of_keys_eq {later : Report}
    (h : analysis.analyzeRequests entry report = .ok (result, added))
    (hpackage : later.package = report.package)
    (hpermissions : later.permissions = report.permissions) (hkeys : later.keys = result.keys) :
    analysis.analyzeRequests entry later = .ok (later, 0) := by
  rw [analyzeRequests_eq_map] at h
  obtain ⟨found, hfound, hpush⟩ := map_eq_ok_iff.1 h
  have hold : ∀ finding ∈ found, finding.key ∈ later.keys := by
    intro finding hfinding
    have hresult : (report.pushAll found).1 = result := congrArg Prod.fst hpush
    rw [hkeys, ← hresult, Report.mem_keys_pushAll]
    exact .inl (List.mem_map_of_mem hfinding)
  rw [analyzeRequests_eq_map, hpackage, hpermissions, hfound]
  exact congrArg Except.ok (Report.pushAll_of_forall_mem hold)

/-- A run is idempotent: on its own result it succeeds and changes nothing, and its request phase
counts no new finding. -/
theorem runInPlace_idempotent (analysis : Analysis) (entry : String) (report result : Report)
    (h : (analysis.runInPlace entry).run report = .ok () result) :
    (analysis.runInPlace entry).run result = .ok () result ∧
      (analysis.analyzeRequestsInPlace entry).run result = .ok 0 result := by
  rw [runInPlace_eq_ok_iff] at h
  obtain ⟨⟨phase, added⟩, hrequests, hexplain⟩ := bind_eq_ok_iff.1 h
  obtain ⟨hpackage, hpermissions⟩ := kept_of_analyzeRequests hrequests
  obtain ⟨hpackage', hpermissions', -⟩ := unexplained_of_analyzeExplanations hexplain
  have hagain : analysis.analyzeRequests entry result = .ok (result, 0) :=
    analyzeRequests_of_keys_eq hrequests (hpackage'.trans hpackage)
      (hpermissions'.trans hpermissions) (keys_of_analyzeExplanations hexplain)
  constructor
  · rw [runInPlace_eq_ok_iff, run, hagain]
    exact analyzeExplanations_of_analyzeExplanations hexplain
  · rw [run_analyzeRequestsInPlace, hagain]
    rfl

theorem runInPlace_idempotent_sample :
    (Sample.analysis.runInPlace "Main").run Sample.report = .ok () Sample.explained ∧
      (Sample.analysis.runInPlace "Main").run Sample.explained = .ok () Sample.explained ∧
      (Sample.analysis.analyzeRequestsInPlace "Main").run Sample.explained =
        .ok 0 Sample.explained := by
  have hrun := runInPlace_eq_ok_iff.2 Sample.run_report
  exact ⟨hrun, runInPlace_idempotent Sample.analysis "Main" Sample.report Sample.explained hrun⟩

end Analysis

end RequestTrail
