/-!
# Errors

Why settings are refused and why an analysis fails, with the wording of each cause.
-/

namespace RequestTrail

/-- Why settings are refused. -/
inductive ConfigError where
  /-- A field that must hold something holds nothing. -/
  | empty (field hint : String)
  /-- The document does not say which version of the format it has. -/
  | missingVersion
  /-- The document has a version of the format that is not known. -/
  | unsupportedVersion (found : UInt32) (supported : List UInt32)
  /-- The file does not exist, or is not UTF-8 text. -/
  | unreadable
  /-- The text is no settings document. -/
  | malformed
deriving DecidableEq, Repr

/-- The cause in words. -/
def ConfigError.message : ConfigError → String
  | .empty field hint => "Field '" ++ field ++ "' must not be empty. " ++ hint
  | .missingVersion =>
    "Missing 'version' field in configuration file. Add 'version: 1' to the top of your YAML file."
  | .unsupportedVersion found supported =>
    "Unsupported configuration version " ++ toString found.toNat ++ ". Supported versions: " ++
      ", ".intercalate (supported.map fun version => toString version.toNat)
  | .unreadable => "IO error"
  | .malformed => "YAML parsing error"

/-- Why an analysis fails. -/
inductive Error where
  /-- There are no resolved strings for the package and locale. -/
  | missingStringTable (package locale : String)
  /-- The settings are refused. -/
  | config (cause : ConfigError)
  /-- The text is no snapshot of an index. -/
  | malformedSnapshot
  /-- The file does not exist, or is not UTF-8 text. -/
  | unreadable
deriving DecidableEq, Repr

/-- The cause in words. -/
def Error.message : Error → String
  | .missingStringTable package locale =>
    "No resolved string table for package '" ++ package ++ "' (locale '" ++ locale ++ "')"
  | .config cause => "Configuration error: " ++ cause.message
  | .malformedSnapshot => "Snapshot error"
  | .unreadable => "IO error"

end RequestTrail
