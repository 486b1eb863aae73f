import RequestTrail.Config.Basic
import RequestTrail.Json.Basic

/-!
# Settings as JSON

Every field of the settings may be left out and has its default then. A settings document as an
array holds both of its fields, and as an object no other key.
-/

namespace RequestTrail.Config

def toJson (config : Config) : Json :=
  .ofFields [
    ("request_method_name", .ofString config.requestMethodName),
    ("platform_prefixes", .ofStrings config.platformPrefixes),
    ("sdk_prefixes", .ofStrings config.sdkPrefixes),
    ("default_locale", .ofString config.defaultLocale),
    ("nested_class_separator", .ofString (String.singleton config.nestedClassSeparator)),
    ("parallel", .bool config.parallel)]

/-- The names of the fields, in order. -/
def fieldNames : List String :=
  ["request_method_name", "platform_prefixes", "sdk_prefixes", "default_locale",
    "nested_class_separator", "parallel"]

def ofJson? (j : Json) : Option Config := do
  let default : Config := {}
  match ← j.fields? fieldNames with
  | [requestMethodName, platformPrefixes, sdkPrefixes, defaultLocale, separator, parallel] =>
    return {
      requestMethodName :=
        ← Json.orElse default.requestMethodName Json.text? requestMethodName
      platformPrefixes :=
        ← Json.orElse default.platformPrefixes (Json.list? Json.text?) platformPrefixes
      sdkPrefixes := ← Json.orElse default.sdkPrefixes (Json.list? Json.text?) sdkPrefixes
      defaultLocale := ← Json.orElse default.defaultLocale Json.text? defaultLocale
      nestedClassSeparator := ← Json.orElse default.nestedClassSeparator Json.char? separator
      parallel := ← Json.orElse default.parallel Json.bool? parallel }
  | _ => none

namespace Document

def toJson (doc : Document) : Json :=
  .ofFields <|
    (match doc.version with
      | some version => [("version", .ofNat version.toNat)]
      | none => []) ++
    match doc.analysis with
    | some config => [("request_analysis", config.toJson)]
    | none => []

/-- The names of the fields, in order. -/
def fieldNames : List String := ["version", "request_analysis"]

/-- Whether a value gives no field that a document does not have and, as an array, every field. -/
def hasForm : Json → Bool
  | .object members =>
    members.all fun m => (Json.literalText? m.1).any fun key => fieldNames.contains key
  | .array items => items.length == fieldNames.length
  | _ => false

def ofJson? (j : Json) : Option Document := do
  if !hasForm j then none
  match ← j.fields? fieldNames with
  | [version, analysis] =>
    return {
      version := ← Json.nullable Json.word32? version
      analysis := ← Json.nullable Config.ofJson? analysis }
  | _ => none

end Document

end RequestTrail.Config
