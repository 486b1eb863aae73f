import RequestTrail.Config.Basic
import RequestTrail.Finding
import RequestTrail.Index.Basic
import RequestTrail.PermissionSet
import RequestTrail.Text

/-!
# Attribution of permissions

Which of the declared permissions a caller requests. Three tiers are asked in turn, and the first
that has an answer gives it: permissions that stand in the caller's text; permissions to which
resource identifiers in the text resolve; permissions in literals that are loaded by a method of the
caller's base class.

Compiled references to string resources show up in a method's text as decimal constants of ten
digits. Every ten consecutive ASCII digits, counted from the left and without overlap, are one
identifier; a longer run of digits yields as many as fit from its start.
-/

namespace RequestTrail

/-! ### Resource identifiers

The scan goes over a text once and counts digits. It does the work of two steps: `occurrences` looks
for ten digits in a row, and `Text.word64?` reads the number that they write.
-/

namespace ResourceId

/-- Number of digits of an identifier. -/
def width : Nat := 10

/-- The identifiers in a text, after `count` digits of an unfinished one with the value `seen`. -/
def scanFrom (count seen : Nat) : List Char → List UInt64
  | [] => []
  | c :: cs =>
    if c.isDigit then
      let seen := seen * 10 + Text.digitValue c
      if count + 1 = width then UInt64.ofNat seen :: scanFrom 0 0 cs else scanFrom (count + 1) seen cs
    else scanFrom 0 0 cs

/-- The identifiers in a text, from left to right. -/
def scan (text : String) : List UInt64 :=
  scanFrom 0 0 text.toList

/-- The places where ten digits stand in a row: the first, then the first behind it, and so on. -/
def occurrences : List Char → List (List Char)
  | [] => []
  | c :: cs =>
    let block := c :: cs.take (width - 1)
    if block.length = width ∧ block.all Char.isDigit then
      block :: occurrences (cs.drop (width - 1))
    else occurrences cs
termination_by text => text.length
decreasing_by
  · simp only [List.length_drop, List.length_cons]
    omega
  · simp

end ResourceId

/-- The number of 64 bits that a text writes in decimal digits, with or without a plus sign. -/
def Text.word64? (text : List Char) : Option UInt64 :=
  let digits := if text.head? = some '+' then text.tail else text
  if digits ≠ [] ∧ digits.all Char.isDigit ∧ value digits < UInt64.size then
    some (UInt64.ofNat (value digits))
  else none

/-! ### Tiers -/

/-- A permission and the tier that ties it to a caller. -/
structure Attribution where
  permission : String
  tier : Tier
deriving DecidableEq, Repr

namespace Index

/-- The strings of the table that the settings select; without the table an analysis fails. -/
def selectTable (index : Index) (config : Config) (package : String) :
    Except Error (UInt64 → Option String) :=
  if index.hasTable package config.defaultLocale then
    .ok (index.string? package config.defaultLocale)
  else .error (.missingStringTable package config.defaultLocale)

/-- The resolved strings of the resource identifiers in a text, in the order of the text. -/
def resolvedStrings (string? : UInt64 → Option String) (source : String) : List String :=
  (ResourceId.scan source).filterMap string?

/-- The declared permissions that stand in a text. -/
def matchLiterals (source : String) (permissions : PermissionSet) : List Attribution :=
  (permissions.toList.filter fun p => Text.contains source p).map fun p => ⟨p, .literal⟩

/-- The declared permissions to which resource identifiers in a text resolve, each once, in the
order of the text. -/
def matchResourceIds (index : Index) (config : Config) (package source : String)
    (permissions : PermissionSet) : Except Error (List Attribution) := do
  let string? ← index.selectTable config package
  let declared := (resolvedStrings string? source).filter permissions.contains
  return declared.eraseDups.map fun p => ⟨p, .resourceId⟩

/-- Whether a literal that holds the permission is loaded by a method of the caller's base class. -/
def isReferencedNear (index : Index) (config : Config) (caller : Site) (permission : String) :
    Bool :=
  let base (site : Site) := site.baseClass config.nestedClassSeparator
  index.literals.any fun literal =>
    Text.contains literal.value permission &&
      literal.references.any fun site => base site == base caller

/-- The declared permissions in literals that are loaded by a method of the caller's base class. -/
def matchReferences (index : Index) (config : Config) (caller : Site)
    (permissions : PermissionSet) : List Attribution :=
  (permissions.toList.filter (index.isReferencedNear config caller)).map fun p =>
    ⟨p, .stringReference⟩

/-- The permissions that a caller with the given text requests, by the first tier that has any. -/
def attributions (index : Index) (config : Config) (package : String) (caller : Site)
    (source : String) (permissions : PermissionSet) : Except Error (List Attribution) :=
  let literal := matchLiterals source permissions
  if literal.isEmpty then do
    let resource ← index.matchResourceIds config package source permissions
    return if resource.isEmpty then index.matchReferences config caller permissions else resource
  else .ok literal

end Index

end RequestTrail
