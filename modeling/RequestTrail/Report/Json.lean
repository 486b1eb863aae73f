import RequestTrail.Index.Json
import RequestTrail.Report.Basic

/-!
# Reports as JSON

The JSON forms of tiers, findings and reports. A reason is written only if there is one. Reading a
report keeps its findings as they are, also findings with the same key.
-/

namespace RequestTrail

namespace Tier

def toJson (tier : Tier) : Json :=
  .ofString tier.name

/-- Reads the name of a tier, by itself or as the only key of an object that holds `null`. -/
def ofJson? : Json → Option Tier
  | .string raw => (Json.literalText? raw).bind ofName?
  | .object [(key, .null)] => (Json.literalText? key).bind ofName?
  | _ => none

end Tier

namespace Finding

def toJson (finding : Finding) : Json :=
  .ofFields <|
    [("permission", .ofString finding.permission),
      ("request_method", finding.request.toJson),
      ("caller", finding.caller.toJson),
      ("path", .array (finding.path.map Site.toJson)),
      ("explanation", .ofStrings finding.explanation)] ++
      (match finding.reason with
        | some reason => [("reason", .ofString reason)]
        | none => []) ++
      [("tier", finding.tier.toJson)]

def ofJson? (j : Json) : Option Finding := do
  match ← j.fields?
    ["permission", "request_method", "caller", "path", "explanation", "reason", "tier"] with
  | [permission, request, caller, path, explanation, reason, tier] =>
    return {
      permission := ← Json.required Json.text? permission
      request := ← Json.required Site.ofJson? request
      caller := ← Json.required Site.ofJson? caller
      path := ← Json.orElse [] (Json.list? Site.ofJson?) path
      explanation := ← Json.orElse [] (Json.list? Json.text?) explanation
      reason := ← Json.nullable Json.text? reason
      tier := ← Json.required Tier.ofJson? tier }
  | _ => none

end Finding

namespace Report

def toJson (report : Report) : Json :=
  .ofFields [
    ("package_name", .ofString report.package),
    ("requested_permissions_from_manifest", .ofStrings report.permissions.toList),
    ("analyzed_requests", .array (report.findings.map Finding.toJson))]

def ofJson? (j : Json) : Option Report := do
  match ← j.fields?
    ["package_name", "requested_permissions_from_manifest", "analyzed_requests"] with
  | [package, permissions, findings] =>
    return {
      package := ← Json.required Json.text? package
      permissions := .ofList (← Json.required (Json.list? Json.text?) permissions)
      findings := ← Json.orElse [] (Json.list? Finding.ofJson?) findings }
  | _ => none

end Report

end RequestTrail
