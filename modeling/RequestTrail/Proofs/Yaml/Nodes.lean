import RequestTrail.Proofs.Yaml.Blocks
import RequestTrail.Yaml.Document

/-!
# The tree of a written document

The tokens of a written document are read as the tree that has its fields, lists and texts, without
anchors and tags. Main statement: `document?_renderDocument`.
-/

namespace RequestTrail.Yaml

namespace Block

/-- The node of an item of a list. -/
def itemNode (item : String) : Node :=
  .scalar none none (textStyle item.toList) item.toList

mutual

/-- The node of what follows the colon of a field. -/
def node : Block → Node
  | .word w => .scalar none none .plain w
  | .text s => .scalar none none (textStyle s.toList) s.toList
  | .char c => .scalar none none (quotedStyle [c]) [c]
  | .texts items => .sequence none (items.map itemNode)
  | .fields members => .mapping none (fieldNodes members)

/-- The entries of fields, under their names. -/
def fieldNodes : List (String × Block) → List (Node × Node)
  | [] => []
  | (name, value) :: more => (.scalar none none .plain name.toList, value.node) :: fieldNodes more

end

/-- A value has tokens, and begins like none that would end the entry. -/
lemma endsBlockEntry_tokens (block : Block) (rest : List Token) :
    endsBlockEntry (block.tokens ++ rest) = false := by
  match block with
  | .word w => rfl
  | .text s => rfl
  | .char c => rfl
  | .texts [] => rfl
  | .texts (first :: more) => rfl
  | .fields [] => rfl
  | .fields (first :: more) => rfl

end Block

open Block

variable (handles : List (List Char × List Char)) (anchors : List (List Char × Nat))

lemma readNode_scalar (n : Nat) (block indentless : Bool) (style : ScalarStyle) (text : List Char)
    (rest : List Token) :
    readNode handles (n + 1) block indentless ⟨.scalar style text :: rest, anchors⟩ =
      some (.scalar none none style text, ⟨rest, anchors⟩) := by
  simp [readNode, readProperties?, Reading.define, Reading.goto]

lemma readNode_flowSequence (n : Nat) (block indentless : Bool) (rest : List Token) :
    readNode handles (n + 2) block indentless ⟨.flowSequence :: .flowSequenceEnd :: rest, anchors⟩ =
      some (.sequence none [], ⟨rest, anchors⟩) := by
  simp [readNode, readProperties?, Reading.define, Reading.goto, readFlowItems]

lemma readNode_flowMapping (n : Nat) (block indentless : Bool) (rest : List Token) :
    readNode handles (n + 2) block indentless ⟨.flowMapping :: .flowMappingEnd :: rest, anchors⟩ =
      some (.mapping none [], ⟨rest, anchors⟩) := by
  simp [readNode, readProperties?, Reading.define, Reading.goto, readFlowEntries]

lemma readNode_blockEntry (n : Nat) (block : Bool) (rest : List Token) :
    readNode handles (n + 1) block true ⟨.blockEntry :: rest, anchors⟩ =
      (readIndentless handles n ⟨.blockEntry :: rest, anchors⟩).map fun read =>
        (.sequence none read.1, read.2) := by
  simp [readNode, readProperties?, Reading.define, Reading.goto]

lemma readNode_blockMapping (n : Nat) (indentless : Bool) (rest : List Token) :
    readNode handles (n + 1) true indentless ⟨.blockMapping :: rest, anchors⟩ =
      (readBlockEntries handles n ⟨rest, anchors⟩).map fun read =>
        (.mapping none read.1, read.2) := by
  simp [readNode, readProperties?, Reading.define, Reading.goto]

variable {handles anchors}

lemma readIndentless_blockEntry {n : Nat} {rest : List Token} {item : Node} {r : Reading}
    (hitem : endsBlockItem rest = false) (hentry : endsBlockEntry rest = false)
    (hread : readNode handles n true false ⟨rest, anchors⟩ = some (item, r)) :
    readIndentless handles (n + 1) ⟨.blockEntry :: rest, anchors⟩ =
      (readIndentless handles n r).map fun read => (item :: read.1, read.2) := by
  simp [readIndentless, Reading.goto, hitem, hentry, hread]

lemma readBlockEntries_key {n : Nat} {name : List Char} {rest : List Token} {value : Node}
    {r : Reading} (hentry : endsBlockEntry rest = false)
    (hread : readNode handles (n + 1) true true ⟨rest, anchors⟩ = some (value, r)) :
    readBlockEntries handles (n + 2) ⟨.key :: .scalar .plain name :: .value :: rest, anchors⟩ =
      (readBlockEntries handles (n + 1) r).map fun read =>
        ((.scalar none none .plain name, value) :: read.1, read.2) := by
  have hkey : endsBlockEntry (.scalar .plain name :: .value :: rest) = false := rfl
  rw [readBlockEntries]
  simp [Reading.goto, hkey, readNode_scalar, hentry, hread]

lemma readIndentless_items (items : List String) {n : Nat} (hn : 2 * items.length + 1 ≤ n)
    {rest : List Token} (hrest : endsBlockEntry rest = true) :
    readIndentless handles n ⟨items.flatMap itemTokens ++ rest, anchors⟩ =
      some (items.map itemNode, ⟨rest, anchors⟩) := by
  induction items generalizing n with
  | nil =>
    obtain ⟨n, rfl⟩ := Nat.exists_eq_add_of_le' (show 1 ≤ n from hn)
    rw [List.flatMap_nil, List.nil_append]
    cases rest with
    | nil => simp [readIndentless]
    | cons token rest =>
      cases token with
      | blockEntry => cases hrest
      | _ => simp [readIndentless]
  | cons item items ih =>
    rw [List.length_cons] at hn
    obtain ⟨n, rfl⟩ := Nat.exists_eq_add_of_le' (show 2 ≤ n by omega)
    rw [List.flatMap_cons, List.append_assoc]
    show readIndentless handles (n + 1 + 1) ⟨.blockEntry ::
      .scalar (textStyle item.toList) item.toList :: (items.flatMap itemTokens ++ rest), anchors⟩ = _
    rw [readIndentless_blockEntry rfl rfl (readNode_scalar handles anchors n _ _ _ _ _),
      ih (by omega)]
    rfl

lemma length_itemTokens (items : List String) :
    (items.flatMap itemTokens).length = 2 * items.length := by
  induction items with
  | nil => rfl
  | cons item items ih =>
    rw [List.flatMap_cons, List.length_append, ih, List.length_cons, itemTokens]
    simp
    omega

mutual

lemma readNode_tokens (block : Block) {n : Nat} (hn : block.tokens.length + 2 ≤ n)
    {rest : List Token} (hrest : endsBlockEntry rest = true) :
    readNode handles n true true ⟨block.tokens ++ rest, anchors⟩ =
      some (block.node, ⟨rest, anchors⟩) := by
  obtain ⟨n, rfl⟩ := Nat.exists_eq_add_of_le' (show 2 ≤ n by omega)
  match block with
  | .word w => exact readNode_scalar handles anchors (n + 1) _ _ _ _ _
  | .text s => exact readNode_scalar handles anchors (n + 1) _ _ _ _ _
  | .char c => exact readNode_scalar handles anchors (n + 1) _ _ _ _ _
  | .texts [] => exact readNode_flowSequence handles anchors n _ _ _
  | .texts (first :: more) =>
    have hlength := length_itemTokens (first :: more)
    have hitems : readIndentless handles (n + 1)
        ⟨(first :: more).flatMap itemTokens ++ rest, anchors⟩ = _ :=
      readIndentless_items (first :: more) (by rw [Block.tokens] at hn <;> simp_all) hrest
    refine (readNode_blockEntry handles anchors (n + 1) _ _).trans ?_
    exact congrArg (Option.map _) hitems
  | .fields [] => exact readNode_flowMapping handles anchors n _ _ _
  | .fields (first :: more) =>
    rw [Block.tokens, List.length_cons, List.length_append] at hn
    rw [Block.tokens, List.cons_append, List.append_assoc, readNode_blockMapping]
    have hfields : readBlockEntries handles (n + 1)
        ⟨fieldTokens (first :: more) ++ .blockEnd :: rest, anchors⟩ = _ :=
      readBlockEntries_fieldTokens (first :: more) (by simp at hn; omega) rest
    exact congrArg (Option.map _) hfields

lemma readBlockEntries_fieldTokens (members : List (String × Block)) {n : Nat}
    (hn : (fieldTokens members).length + 1 ≤ n) (rest : List Token) :
    readBlockEntries handles n ⟨fieldTokens members ++ .blockEnd :: rest, anchors⟩ =
      some (fieldNodes members, ⟨rest, anchors⟩) := by
  match members with
  | [] =>
    obtain ⟨n, rfl⟩ := Nat.exists_eq_add_of_le' (show 1 ≤ n from hn)
    simp [fieldTokens, readBlockEntries, Reading.goto, fieldNodes]
  | (name, value) :: more =>
    simp only [fieldTokens, List.length_cons, List.length_append] at hn
    obtain ⟨n, rfl⟩ := Nat.exists_eq_add_of_le' (show 2 ≤ n by omega)
    have hafter : endsBlockEntry (fieldTokens more ++ .blockEnd :: rest) = true := by
      cases more <;> rfl
    have hvalue : readNode handles (n + 1) true true
        ⟨value.tokens ++ (fieldTokens more ++ .blockEnd :: rest), anchors⟩ = _ :=
      readNode_tokens value (by omega) hafter
    simp only [fieldTokens, List.cons_append, List.append_assoc]
    rw [readBlockEntries_key (endsBlockEntry_tokens value _) hvalue,
      readBlockEntries_fieldTokens more (by omega)]
    rfl

end

/-- A document of fields is read as the tree of its fields. -/
lemma document?_renderDocument {members : List (String × Block)} (hne : members ≠ [])
    (h : areReadable members = true) :
    document? (renderDocument members) = some (.mapping none (fieldNodes members)) := by
  obtain ⟨first, more, rfl⟩ := List.exists_cons_of_ne_nil hne
  have hread : readContent? [] (.blockMapping :: (fieldTokens (first :: more) ++ [.blockEnd])) =
      some (.mapping none (fieldNodes (first :: more)), ⟨[], []⟩) := by
    rw [readContent?, readNode_blockMapping,
      readBlockEntries_fieldTokens (first :: more) (by simp; omega)]
    rfl
  rw [document?, renderDocument, String.toList_ofList, tokens?_renderFields hne h]
  · rw [Option.bind_some, documentOfTokens?]
    simp [readDocument?, hread]
  · rintro ⟨⟩

end RequestTrail.Yaml
