import RequestTrail.Config.Yaml
import RequestTrail.Proofs.Traversal
import RequestTrail.Proofs.Yaml.Nodes

/-!
# Settings survive their file

Settings are read back from the document that is written for them, whatever texts they hold, if they
pass the check; if not, reading fails as the check does. Whatever is read has passed the check.
-/

namespace RequestTrail

namespace Yaml.Node

variable (root : Node)

lemma text?_scalar (style : ScalarStyle) (text : List Char) :
    text? root (.scalar none none style text) = some (String.ofList text) := rfl

lemma texts?_items (items : List String) :
    texts? root (.sequence none (items.map Block.itemNode)) = some items := by
  apply mapM_map_eq_some
  intro item
  rw [Block.itemNode, text?_scalar, String.ofList_toList]

lemma char?_scalar (style : ScalarStyle) (c : Char) :
    char? root (.scalar none none style [c]) = some c := by
  simp [char?, text?_scalar]

lemma bool?_scalar (b : Bool) :
    bool? root (.scalar none none .plain
      (if b then ['t', 'r', 'u', 'e'] else ['f', 'a', 'l', 's', 'e'])) = some b := by
  cases b <;> rfl

lemma optional?_of_isNull? {α : Type} (read : Node → Option α) {node : Node}
    (h : isNull? root node = some false) : optional? read root node = (read node).map some := by
  cases hread : read node <;> simp [optional?, h, hread]

lemma entries?_fieldNodes (members : List (String × Block)) :
    entries? root (.mapping none (Block.fieldNodes members)) =
      some (members.map fun m => (m.1, m.2.node)) := by
  show (Block.fieldNodes members).mapM (fun e => (text? root e.1).map fun key => (key, e.2)) = _
  induction members with
  | nil => rfl
  | cons m members ih =>
    rw [Block.fieldNodes, List.mapM_cons, ih, text?_scalar, String.ofList_toList]
    rfl

end Yaml.Node

namespace Config

open Yaml (Node Block)

lemma ofNode?_toFields (root : Node) (config : Config) :
    ofNode? root (.mapping none (Block.fieldNodes config.toFields)) = some config := by
  simp [ofNode?, Node.entries?_fieldNodes, toFields, Node.field?, Block.node, Node.text?_scalar,
    Node.texts?_items, Node.char?_scalar, Node.bool?_scalar]

lemma areReadable_toFields (config : Config) : Block.areReadable config.toFields = true := by
  obtain ⟨_, _, _, _, _, parallel⟩ := config
  cases parallel <;> rfl

lemma numeral_currentVersion : Text.numeral Document.currentVersion.toNat = ['1'] := by
  rw [Text.numeral, if_pos (by decide)]
  rfl

lemma optional?_version (root : Node) :
    Node.optional? (Node.word32? root) root (.scalar none none .plain ['1']) =
      some (some Document.currentVersion) := rfl

lemma optional?_settings (root : Node) (config : Config) :
    Node.optional? (ofNode? root) root (.mapping none (Block.fieldNodes config.toFields)) =
      some (some config) := by
  rw [Node.optional?_of_isNull? root (ofNode? root) rfl, ofNode?_toFields, Option.map_some]

/-- The fields of a document of the current version. -/
def Document.members (analysis : Option Config) : List (String × Block) :=
  ("version", .word ['1']) ::
    analysis.toList.map fun config => ("request_analysis", .fields config.toFields)

lemma Document.areReadable_members (analysis : Option Config) :
    Block.areReadable (members analysis) = true := by
  cases analysis with
  | none => decide
  | some config =>
    simp only [members, Option.toList_some, List.map_cons, List.map_nil, Block.areReadable,
      Block.isReadable, areReadable_toFields]
    decide

/-- A written document of the current version is read back. -/
lemma Document.ofYaml?_toYaml (analysis : Option Config) :
    ofYaml? (toYaml ⟨some currentVersion, analysis⟩) = some ⟨some currentVersion, analysis⟩ := by
  have hrender :
      toYaml ⟨some currentVersion, analysis⟩ = Yaml.renderDocument (members analysis) := by
    cases analysis <;> simp [toYaml, members, numeral_currentVersion]
  rw [ofYaml?, hrender, Yaml.document?_renderDocument (by simp [members])
    (areReadable_members analysis), Option.bind_some]
  cases analysis <;> simp [ofNode?, Node.entries?_fieldNodes, members, Node.field?, Block.node,
    optional?_version, optional?_settings]

/-- Reading written settings comes down to the check. -/
lemma ofYaml_toYaml (config : Config) :
    ofYaml config.toYaml = config.check.map fun _ => config := by
  simp [ofYaml, toYaml, document, Document.ofYaml?_toYaml, Document.config]

lemma exists_empty_of_check {config : Config} {e : ConfigError} (h : config.check = .error e) :
    ∃ field hint, e = .empty field hint := by
  unfold check at h
  split_ifs at h <;> cases h <;> exact ⟨_, _, rfl⟩

/-- What is read from a text has passed the check, and so have the defaults. -/
lemma check_of_ofYaml {text : String} {config : Config} (h : ofYaml text = .ok config) :
    config.check = .ok () := by
  unfold ofYaml at h
  split at h
  · unfold Document.config at h
    split at h
    · cases h
    · split_ifs at h
      split at h
      · cases h
        rfl
      · obtain ⟨⟨⟩, hcheck, rfl⟩ := map_eq_ok_iff.1 h
        exact hcheck
  · cases h

/-- Settings that pass the check are read back from their document; of settings that do not, reading
their document fails for the same empty field. Settings that are read from any text pass the check,
and are read back from their document. -/
theorem ofYaml_toYaml_agrees_with_check (config : Config) :
    (config.check = .ok () → ofYaml config.toYaml = .ok config) ∧
      (∀ e, config.check = .error e →
        ofYaml config.toYaml = .error e ∧ ∃ field hint, e = .empty field hint) ∧
      ∀ text, ofYaml text = .ok config →
        config.check = .ok () ∧ ofYaml config.toYaml = .ok config := by
  have hpass : config.check = .ok () → ofYaml config.toYaml = .ok config := by
    intro h
    rw [ofYaml_toYaml, h]
    rfl
  refine ⟨hpass, ?_, ?_⟩
  · intro e h
    refine ⟨?_, exists_empty_of_check h⟩
    rw [ofYaml_toYaml, h]
    rfl
  · intro text h
    have hcheck := check_of_ofYaml h
    exact ⟨hcheck, hpass hcheck⟩

/-- Settings whose texts are written in every style. -/
def Sample.odd : Config where
  requestMethodName := " 12\n"
  platformPrefixes := ["null", "a: b", "", "- x\x00", "plain"]
  sdkPrefixes := ["'"]
  defaultLocale := "\t"
  nestedClassSeparator := '#'
  parallel := true

/-- Settings in which every line of the name of a request method is blank. -/
def Sample.blank : Config where
  requestMethodName := " \n"

theorem ofYaml_toYaml_agrees_with_check_odd :
    Sample.odd.check = .ok () ∧ ofYaml Sample.odd.toYaml = .ok Sample.odd ∧
      (∃ e, Sample.blank.check = .error e ∧ ofYaml Sample.blank.toYaml = .error e) ∧
      ∃ text, ofYaml text = .ok {} ∧ ofYaml (toYaml {}) = .ok {} := by
  have hodd : Sample.odd.check = .ok () := rfl
  obtain ⟨e, hblank⟩ : ∃ e, Sample.blank.check = .error e := ⟨_, rfl⟩
  -- a document that tells nothing but its version
  have hempty : ofYaml (Document.toYaml ⟨some Document.currentVersion, none⟩) = .ok {} := by
    rw [ofYaml, Document.ofYaml?_toYaml]
    rfl
  refine ⟨hodd, (ofYaml_toYaml_agrees_with_check Sample.odd).1 hodd, ⟨e, hblank, ?_⟩, _, hempty, ?_⟩
  · exact ((ofYaml_toYaml_agrees_with_check Sample.blank).2.1 e hblank).1
  · exact ((ofYaml_toYaml_agrees_with_check {}).2.2 _ hempty).2

end Config

end RequestTrail
