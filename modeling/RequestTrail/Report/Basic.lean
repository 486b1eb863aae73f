import RequestTrail.Finding
import RequestTrail.PermissionSet

/-!
# Reports

A report collects the findings on an application, in the order in which they are made. A finding is
added only if the report has none with its key.
-/

namespace RequestTrail

/-- The findings on an application. -/
structure Report where
  /-- The package, which selects the tables of resolved strings. -/
  package : String := ""
  /-- The permissions that the application declares. -/
  permissions : PermissionSet := {}
  findings : List Finding := []
deriving DecidableEq

namespace Report

/-- The keys of the findings. -/
def keys (report : Report) : List Finding.Key :=
  report.findings.map Finding.key

/-- Whether a finding has the key. -/
def hasKey (report : Report) (key : Finding.Key) : Bool :=
  report.keys.contains key

/-- The report with a finding, if it has none with its key. -/
def push (report : Report) (finding : Finding) : Report :=
  if report.hasKey finding.key then report
  else { report with findings := report.findings ++ [finding] }

/-- The report after findings are pushed in turn, and how many of them were added. -/
def pushAll (report : Report) : List Finding → Report × Nat
  | [] => (report, 0)
  | finding :: findings =>
    let (result, added) := (report.push finding).pushAll findings
    (result, if report.hasKey finding.key then added else added + 1)

/-- The findings that name a permission. -/
def resolved (report : Report) : List Finding :=
  report.findings.filter fun finding => !finding.isUnknown

/-- The findings that name none. -/
def unknown (report : Report) : List Finding :=
  report.findings.filter Finding.isUnknown

end Report

end RequestTrail
