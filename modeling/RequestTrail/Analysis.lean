import RequestTrail.Attribution
import RequestTrail.Path
import RequestTrail.Report.Basic

/-!
# The analysis

An analysis finds the calls of request methods from application code and reports what each caller
requests. It works in two phases: first every caller is resolved to findings with witness paths,
then every finding that names a permission gets its explanations. A phase that fails changes
nothing.
-/

namespace RequestTrail

/-- Decides whether a text explains the request of a permission. -/
abbrev Classifier := String → String → Bool

/-- An index under settings, with a judge of explanations. -/
structure Analysis where
  index : Index
  config : Config
  accepts : Classifier

namespace Analysis

/-- The analysis under the given settings, if they pass their check. -/
def make (index : Index) (config : Config) (accepts : Classifier) : Except Error Analysis :=
  match config.check with
  | .ok () => .ok { index, config, accepts }
  | .error cause => .error (.config cause)

/-! ### Discovery -/

/-- A request method and the application methods that call it. -/
structure Request where
  method : Site
  callers : List Site
deriving DecidableEq, Repr

/-- The callers of a method outside of the SDK, each once, in the order of their first calls. -/
def applicationCallers (analysis : Analysis) (method : Site) : List Site :=
  (((analysis.index.callersOf method).map Call.caller).filter fun caller =>
    !analysis.config.isSdkSite caller).eraseDups

/-- The request methods of the platform with their callers, in the order of registration. -/
def discover (analysis : Analysis) : List Request :=
  ((analysis.index.methodsNamed analysis.config.requestMethodName).filter
    analysis.config.isPlatformSite).map fun method =>
      { method, callers := analysis.applicationCallers method }

/-- The request methods paired with each of their callers. -/
def pairs (analysis : Analysis) : List (Site × Site) :=
  analysis.discover.flatMap fun request => request.callers.map fun caller => (request.method, caller)

/-! ### Findings -/

/-- The findings on one caller of a request method. A caller that nothing ties to a permission is
recorded as unknown, unless it belongs to the SDK. -/
def analyzeCaller (analysis : Analysis) (request caller : Site) (permissions : PermissionSet)
    (package entry : String) : Except Error (List Finding) := do
  let source := analysis.index.sourceOf caller
  let found ← analysis.index.attributions analysis.config package caller source permissions
  if found.isEmpty && analysis.config.isSdkSite caller then
    return []
  let path := analysis.index.traceThrough entry request caller
  if found.isEmpty then
    return [{ Finding.unknown request caller source with path }]
  return found.map fun a => { permission := a.permission, request, caller, path, tier := a.tier }

/-- Adds the findings on all callers to a report, and counts those that were new. -/
def analyzeRequests (analysis : Analysis) (entry : String) (report : Report) :
    Except Error (Report × Nat) := do
  let found ← analysis.pairs.mapM fun (request, caller) =>
    analysis.analyzeCaller request caller report.permissions report.package entry
  return report.pushAll found.flatten

/-! ### Explanations -/

/-- The texts that may explain a finding: literals that its caller loads and resolved strings of the
identifiers in the caller's text, as far as the classifier accepts them, each once. -/
def explanations (analysis : Analysis) (package : String) (finding : Finding) :
    Except Error (List String) := do
  let loaded := (analysis.index.literals.filter (·.isReferencedBy finding.caller)).map Literal.value
  let string? ← analysis.index.selectTable analysis.config package
  let resolved := Index.resolvedStrings string? (analysis.index.sourceOf finding.caller)
  return ((loaded ++ resolved).filter (analysis.accepts finding.permission)).eraseDups

/-- A finding with its explanations; one that names no permission stays as it is. -/
def explain (analysis : Analysis) (package : String) (finding : Finding) : Except Error Finding :=
  if finding.isUnknown then .ok finding
  else return { finding with explanation := ← analysis.explanations package finding }

/-- Gives every finding of a report its explanations. -/
def analyzeExplanations (analysis : Analysis) (report : Report) : Except Error Report := do
  return { report with findings := ← report.findings.mapM (analysis.explain report.package) }

/-- Both phases. -/
def run (analysis : Analysis) (entry : String) (report : Report) : Except Error Report := do
  let (report, _) ← analysis.analyzeRequests entry report
  analysis.analyzeExplanations report

end Analysis

end RequestTrail
