import RequestTrail.Config.Basic
import RequestTrail.Yaml.Document
import RequestTrail.Yaml.Printer

/-!
# Settings as YAML

Settings are kept in a YAML document with the version of the format. A text field accepts every
scalar; a number or a truth value must be written plainly, or as a literal block that carries its
tag. Unknown fields are refused in the document and ignored in the settings. Main functions:
`Config.toYaml` and `Config.ofYaml`.
-/

namespace RequestTrail

namespace Yaml.Node

/-- The tag of the standard type with the given name. -/
def standardTag (name : String) : List Char :=
  ("tag:yaml.org,2002:" ++ name).toList

/-- The text of a scalar. -/
def text? (root node : Node) : Option String :=
  match root.resolve? node with
  | some (.scalar _ _ _ text) => some (String.ofList text)
  | _ => none

/-- The word of a scalar that may be read as the type of the given name. -/
def word? (root : Node) (type : String) (node : Node) : Option (List Char) :=
  match root.resolve? node with
  | some (.scalar _ tag style text) =>
    if style = .plain ∨ (style = .literal ∧ tag = some (standardTag type)) then some text else none
  | _ => none

/-- The truth value of a scalar. -/
def bool? (root node : Node) : Option Bool :=
  (word? root "bool" node).bind boolWord?

/-- The 32-bit word of a scalar. -/
def word32? (root node : Node) : Option UInt32 :=
  ((word? root "int" node).bind (natWord? UInt32.size)).map UInt32.ofNat

/-- The only character of a scalar. -/
def char? (root node : Node) : Option Char :=
  match (text? root node).map String.toList with
  | some [c] => some c
  | _ => none

/-- Whether a node is an empty plain scalar, which stands for a collection without entries. -/
def isBlank : Node → Bool
  | .scalar _ _ .plain [] => true
  | _ => false

/-- The items of a sequence. -/
def items? (root node : Node) : Option (List Node) :=
  match root.resolve? node with
  | some (.sequence _ items) => some items
  | some node => if node.isBlank then some [] else none
  | none => none

/-- The texts of a sequence. -/
def texts? (root node : Node) : Option (List String) := do
  (← items? root node).mapM (text? root)

/-- The entries of a mapping with the texts of their keys. -/
def entries? (root node : Node) : Option (List (String × Node)) :=
  match root.resolve? node with
  | some (.mapping _ entries) =>
    entries.mapM fun (key, value) => (text? root key).map fun key => (key, value)
  | some node => if node.isBlank then some [] else none
  | none => none

/-- Whether a node stands for nothing. Under a tag, be it `!` alone, a word for nothing is a text
like others; a node tagged as nothing must stand for it. -/
def isNull? (root node : Node) : Option Bool :=
  match root.resolve? node with
  | some (.scalar _ none .plain text) => some (text.isEmpty || isNullWord text)
  | some (.scalar _ (some tag) .plain text) =>
    if tag = standardTag "null" then (if isNullWord text then some true else none) else some false
  | some _ => some false
  | none => none

/-- A value that may be absent. -/
def optional? {α : Type} (read : Node → Option α) (root node : Node) : Option (Option α) := do
  if ← isNull? root node then return none
  return some (← read node)

/-- A field of a mapping, read by `read` if it is given; a field given twice is refused. -/
def field? {α : Type} (entries : List (String × Node)) (name : String) (absent : α)
    (read : Node → Option α) : Option α :=
  match entries.filter fun e => e.1 == name with
  | [] => some absent
  | [e] => read e.2
  | _ => none

end Yaml.Node

namespace Config

open Yaml (Node Block)

/-- Reads settings from a node of the document `root`. -/
def ofNode? (root node : Node) : Option Config := do
  let default : Config := {}
  let entries ← Node.entries? root node
  return {
    requestMethodName := ← Node.field? entries "request_method_name" default.requestMethodName
      (Node.text? root)
    platformPrefixes := ← Node.field? entries "platform_prefixes" default.platformPrefixes
      (Node.texts? root)
    sdkPrefixes := ← Node.field? entries "sdk_prefixes" default.sdkPrefixes (Node.texts? root)
    defaultLocale := ← Node.field? entries "default_locale" default.defaultLocale (Node.text? root)
    nestedClassSeparator := ← Node.field? entries "nested_class_separator"
      default.nestedClassSeparator (Node.char? root)
    parallel := ← Node.field? entries "parallel" default.parallel (Node.bool? root) }

/-- The fields of settings. -/
def toFields (config : Config) : List (String × Block) :=
  [("request_method_name", .text config.requestMethodName),
    ("platform_prefixes", .texts config.platformPrefixes),
    ("sdk_prefixes", .texts config.sdkPrefixes),
    ("default_locale", .text config.defaultLocale),
    ("nested_class_separator", .char config.nestedClassSeparator),
    ("parallel", .word (if config.parallel then "true".toList else "false".toList))]

/-- Reads a settings document from its node. -/
def Document.ofNode? (root : Node) : Option Document := do
  let entries ← Node.entries? root root
  if !entries.all fun e => e.1 == "version" || e.1 == "request_analysis" then none
  return {
    version := ← Node.field? entries "version" none (Node.optional? (Node.word32? root) root)
    analysis := ← Node.field? entries "request_analysis" none
      (Node.optional? (Config.ofNode? root) root) }

/-- Reads a settings document. -/
def Document.ofYaml? (text : String) : Option Document :=
  (Yaml.document? text).bind ofNode?

/-- Writes a settings document; what is absent is left out. -/
def Document.toYaml (doc : Document) : String :=
  Yaml.renderDocument <|
    (match doc.version with
      | some version => [("version", .word (Text.numeral version.toNat))]
      | none => []) ++
    match doc.analysis with
    | some config => [("request_analysis", .fields config.toFields)]
    | none => []

/-- Writes settings as a document of the current version. -/
def toYaml (config : Config) : String :=
  config.document.toYaml

/-- Reads settings from a document of the current version, and checks them. -/
def ofYaml (text : String) : Except ConfigError Config :=
  match Document.ofYaml? text with
  | some doc => doc.config
  | none => .error .malformed

/-- Reads settings from a file, given by its bytes if it exists. -/
def ofFile (contents : Option ByteArray) : Except ConfigError Config :=
  match contents.bind String.fromUTF8? with
  | some text => ofYaml text
  | none => .error .unreadable

end Config

end RequestTrail
