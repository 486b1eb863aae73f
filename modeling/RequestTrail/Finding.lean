import RequestTrail.Site

/-!
# Findings

A finding says that a caller requests a permission through a request method. Two findings with the
same key, that is with the same permission, request method and caller, are the same finding,
however their paths and explanations differ.
-/

namespace RequestTrail

/-- What ties a permission to a caller. -/
inductive Tier where
  /-- The permission stands in the caller's text. -/
  | literal
  /-- A resource identifier in the caller's text resolves to the permission. -/
  | resourceId
  /-- A literal with the permission is loaded by a method of the caller's base class. -/
  | stringReference
  /-- Nothing does. -/
  | unknown
deriving DecidableEq, Repr

namespace Tier

/-- The name of a tier in documents. -/
def name : Tier → String
  | .literal => "literal"
  | .resourceId => "resource_id"
  | .stringReference => "string_xref"
  | .unknown => "unknown"

/-- The tier of a name. -/
def ofName? : String → Option Tier
  | "literal" => some .literal
  | "resource_id" => some .resourceId
  | "string_xref" => some .stringReference
  | "unknown" => some .unknown
  | _ => none

@[simp]
theorem ofName?_name (tier : Tier) : ofName? tier.name = some tier := by
  cases tier <;> rfl

end Tier

/-- A permission requested by a caller. -/
structure Finding where
  permission : String
  request : Site
  caller : Site
  /-- The sites from the request method to the entry component; empty if there is no path. -/
  path : List Site := []
  explanation : List String := []
  /-- Why no permission could be named. -/
  reason : Option String := none
  tier : Tier
deriving DecidableEq, Repr

namespace Finding

/-- What makes two findings the same. -/
structure Key where
  permission : String
  request : Site
  caller : Site
deriving DecidableEq, Repr

/-- Keys are ordered by permission, then request method, then caller. -/
instance : Ord Key where
  compare a b :=
    (compare a.permission b.permission).then
      ((compare a.request b.request).then (compare a.caller b.caller))

/-- The key of a finding. -/
def key (finding : Finding) : Key where
  permission := finding.permission
  request := finding.request
  caller := finding.caller

/-- Whether two findings agree in permission, request method and caller. -/
def sameKey (finding other : Finding) : Bool :=
  finding.permission == other.permission && finding.request == other.request &&
    finding.caller == other.caller

@[simp]
theorem sameKey_iff {finding other : Finding} :
    finding.sameKey other = true ↔ finding.key = other.key := by
  simp [sameKey, key, and_assoc]

/-- The name that stands for a permission that could not be told. -/
def unknownPermission : String := "Unknown Permission"

/-- The finding for a caller that nothing ties to a permission. -/
def unknown (request caller : Site) (source : String) : Finding where
  permission := unknownPermission
  request := request
  caller := caller
  reason := some ("Could not identify requested permission:\n " ++ source)
  tier := .unknown

/-- Whether the finding names no permission. -/
def isUnknown (finding : Finding) : Bool :=
  finding.permission == unknownPermission

end Finding

end RequestTrail
