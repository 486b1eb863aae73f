import RequestTrail.Error
import RequestTrail.Site
import RequestTrail.Text

/-!
# Settings

What the analysis takes for the request API, for platform code and for SDK code, and which table of
resolved strings it uses. The defaults fit the runtime permissions of Android.
-/

namespace RequestTrail

/-- The settings of an analysis. -/
structure Config where
  /-- How the name of a request method begins. -/
  requestMethodName : String := "requestPermission"
  /-- Class prefixes of the code that owns the request methods. -/
  platformPrefixes : List String := ["android"]
  /-- Class prefixes of callers that belong to the SDK or to a language runtime. -/
  sdkPrefixes : List String := ["android", "java", "kotlin"]
  /-- The locale of the table of resolved strings. -/
  defaultLocale : String := "DEFAULT"
  /-- What stands between an outer class and the classes nested in it. -/
  nestedClassSeparator : Char := '$'
  /-- Whether callers may be resolved at the same time; the findings do not depend on it. -/
  parallel : Bool := false
deriving DecidableEq, Repr

namespace Config

/-- The name of a kind of settings. -/
def kindName : String := "RequestAnalysisConfig"

/-- The name of settings that may be absent. -/
def optionalKindName : String := "Config"

/-- Whether a method belongs to the code that owns the request methods. -/
def isPlatformSite (config : Config) (site : Site) : Bool :=
  site.hasClassPrefix config.platformPrefixes

/-- Whether a method belongs to the SDK or to a language runtime. -/
def isSdkSite (config : Config) (site : Site) : Bool :=
  site.hasClassPrefix config.sdkPrefixes

/-- Accepts settings that leave the analysis something to find; names the first field that does
not. -/
def check (config : Config) : Except ConfigError Unit :=
  if Text.isBlank config.requestMethodName then
    .error <| .empty "request_method_name"
      "Use 'requestPermission' for the Android runtime permission API."
  else if config.platformPrefixes.all String.isEmpty then
    .error <| .empty "platform_prefixes"
      "Requests are only analyzed inside a platform namespace such as 'android'."
  else if config.sdkPrefixes.all String.isEmpty then
    .error <| .empty "sdk_prefixes"
      "Without SDK prefixes every platform-internal caller is reported."
  else if config.defaultLocale.isEmpty then
    .error <| .empty "default_locale"
      "Resolved-string tables key their default locale as 'DEFAULT'."
  else .ok ()

/-- A settings document: the version of the format and the settings, each of which may be absent. -/
structure Document where
  version : Option UInt32 := none
  analysis : Option Config := none
deriving DecidableEq, Repr

/-- The version of the format that is written and read. -/
def Document.currentVersion : UInt32 := 1

/-- The settings of a document, if its version is the current one and they pass the check. -/
def Document.config (doc : Document) : Except ConfigError Config :=
  match doc.version with
  | none => .error .missingVersion
  | some version =>
    if version = currentVersion then
      match doc.analysis with
      | none => .ok {}
      | some config => config.check.map fun _ => config
    else .error (.unsupportedVersion version [currentVersion])

/-- The document of settings. -/
def document (config : Config) : Document where
  version := some Document.currentVersion
  analysis := some config

end Config

end RequestTrail
