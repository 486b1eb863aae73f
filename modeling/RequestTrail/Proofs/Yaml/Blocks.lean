import RequestTrail.Proofs.Yaml.Signs

/-!
# The tokens of a written document

What is written for nested fields, lists and texts is read as tokens that have the same nesting. By
induction on the nesting, every value leads from the place after its colon to the line after its
last one.
-/

namespace RequestTrail.Yaml

namespace Block

/-- The tokens of an item of a list. -/
def itemTokens (item : String) : List Token :=
  [.blockEntry, .scalar (textStyle item.toList) item.toList]

mutual

/-- The tokens of what follows the colon of a field. -/
def tokens : Block → List Token
  | .word w => [.scalar .plain w]
  | .text s => [.scalar (textStyle s.toList) s.toList]
  | .char c => [.scalar (quotedStyle [c]) [c]]
  | .texts [] => [.flowSequence, .flowSequenceEnd]
  | .texts items => items.flatMap itemTokens
  | .fields [] => [.flowMapping, .flowMappingEnd]
  | .fields (first :: more) => .blockMapping :: (fieldTokens (first :: more) ++ [.blockEnd])

/-- The tokens of fields. -/
def fieldTokens : List (String × Block) → List Token
  | [] => []
  | (name, value) :: more =>
    .key :: .scalar .plain name.toList :: .value :: (value.tokens ++ fieldTokens more)

end

mutual

/-- Whether the names of all fields are keys, and all words may be written plainly. -/
def isReadable : Block → Bool
  | .word w => allowsPlain w && !w.isEmpty
  | .fields members => areReadable members
  | _ => true

/-- Whether the names of fields are keys, and so are those in their values. -/
def areReadable : List (String × Block) → Bool
  | [] => true
  | (name, value) :: more => Lexer.isKey name.toList && value.isReadable && areReadable more

end

/-! ### Characters and lines -/

lemma isPrintable_of_mem_renderItem {indent : Nat} {item : String} {c : Char}
    (h : c ∈ renderItem indent item) : isPrintable c = true := by
  rw [renderItem, List.mem_append, List.mem_cons, List.mem_cons] at h
  rcases h with h | rfl | rfl | h
  · exact isPrintable_of_mem_spaces h
  · decide
  · decide
  · exact (written_renderText indent item.toList).isPrintable c h

lemma isPrintable_of_isKey {name : List Char} (h : Lexer.isKey name = true) :
    ∀ c ∈ name, isPrintable c = true := by
  simp only [Lexer.isKey, allowsPlain, Bool.and_eq_true, Bool.not_eq_true'] at h
  exact isPrintable_of_needsEscape h.1.1.1.1.1.1

mutual

lemma isPrintable_of_mem_renderValue (indent : Nat) (block : Block) (h : block.isReadable = true) :
    ∀ c ∈ block.renderValue indent, isPrintable c = true := by
  intro c hc
  match block with
  | .word w =>
    simp only [isReadable, allowsPlain, Bool.and_eq_true, Bool.not_eq_true'] at h
    rw [renderValue, List.cons_append, List.mem_cons, List.mem_append, List.mem_singleton] at hc
    rcases hc with rfl | hc | rfl
    · decide
    · exact isPrintable_of_needsEscape h.1.1.1.1.1 c hc
    · decide
  | .text s =>
    rw [renderValue, List.mem_cons] at hc
    rcases hc with rfl | hc
    · decide
    · exact (written_renderText indent s.toList).isPrintable c hc
  | .char d =>
    rw [renderValue, List.mem_cons] at hc
    rcases hc with rfl | hc
    · decide
    · exact (written_renderQuoted indent [d]).isPrintable c hc
  | .texts [] =>
    exact List.all_eq_true.1 (show [' ', '[', ']', '\n'].all isPrintable = true by decide) c hc
  | .texts (first :: more) =>
    rw [renderValue, List.mem_cons, List.mem_flatMap] at hc
    · rcases hc with rfl | ⟨item, -, hc⟩
      · decide
      · exact isPrintable_of_mem_renderItem hc
    · rintro ⟨⟩
  | .fields [] =>
    exact List.all_eq_true.1
      (show [' ', '\x7b', '\x7d', '\n'].all isPrintable = true by decide) c hc
  | .fields (first :: more) =>
    rw [renderValue, List.mem_cons] at hc
    rcases hc with rfl | hc
    · decide
    · rw [isReadable] at h
      exact isPrintable_of_mem_renderFields (indent + 2) (first :: more) h c hc

lemma isPrintable_of_mem_renderFields (indent : Nat) (fields : List (String × Block))
    (h : areReadable fields = true) : ∀ c ∈ renderFields indent fields, isPrintable c = true := by
  intro c hc
  match fields with
  | [] => cases hc
  | (name, value) :: more =>
    simp only [areReadable, Bool.and_eq_true] at h
    simp only [renderFields, List.mem_append, List.mem_cons] at hc
    rcases hc with ((hc | hc) | rfl | hc) | hc
    · exact isPrintable_of_mem_spaces hc
    · exact isPrintable_of_isKey h.1.1 c hc
    · decide
    · exact isPrintable_of_mem_renderValue indent value h.1.2 c hc
    · exact isPrintable_of_mem_renderFields indent more h.2 c hc

end

/-- A line that begins with a key begins with a token. -/
lemma startsLine_of_isKey {name : List Char} (h : Lexer.isKey name = true) (column : Nat)
    (rest : List Char) :
    startsLine (spaces column ++ (name ++ rest)) = true ∧
      indentation (spaces column ++ (name ++ rest)) = column := by
  simp only [Lexer.isKey, Bool.and_eq_true] at h
  cases name with
  | nil => simp at h
  | cons c name =>
    have hstarts := plainText_of_allowsPlain h.1.1
    have hwritten : Written column (c :: name) .plain (c :: name ++ ['\n']) :=
      .plain (by simp) h.1.1
    have hspace : c ≠ ' ' := by
      rintro rfl
      exact absurd hstarts.isBlank (by decide)
    have htoken := hwritten.startsToken []
    rw [List.cons_append, startsLine, indentation_spaces_append column hspace,
      unindented_spaces_append column hspace]
    exact ⟨htoken, rfl⟩

lemma startsLine_renderFields {column : Nat} {members : List (String × Block)}
    (h : areReadable members = true) {line : List Char} (hline : startsLine line = true)
    (hindent : indentation line ≤ column) :
    startsLine (renderFields column members ++ line) = true ∧
      indentation (renderFields column members ++ line) ≤ column := by
  cases members with
  | nil => exact ⟨hline, hindent⟩
  | cons first more =>
    simp only [areReadable, Bool.and_eq_true] at h
    obtain ⟨hstarts, hcolumn⟩ := startsLine_of_isKey h.1.1 column
      (':' :: (first.2.renderValue column ++ (renderFields column more ++ line)))
    simp only [renderFields, List.append_assoc, List.cons_append]
    exact ⟨hstarts, Nat.le_of_eq hcolumn⟩

lemma startsLine_renderItems (items : List String) {column : Nat} {line : List Char}
    (hline : startsLine line = true) (hindent : indentation line ≤ column) :
    startsLine (items.flatMap (renderItem column) ++ line) = true ∧
      indentation (items.flatMap (renderItem column) ++ line) ≤ column := by
  cases items with
  | nil => exact ⟨hline, hindent⟩
  | cons item items =>
    simp only [List.flatMap_cons, renderItem, List.append_assoc, List.cons_append]
    rw [startsLine, unindented_spaces_append column (by decide),
      indentation_spaces_append column (by decide)]
    exact ⟨by simp only [startsToken]; decide, Nat.le_refl column⟩

end Block

namespace Lexer

open Block

/-! ### Reading -/

lemma AtLine.leads_items {column : Nat} {outer : List Nat} {line : List Char} (items : List String)
    (hline : startsLine line = true) (hindent : indentation line ≤ column) {l : Lexer}
    {tokens : List Token}
    (h : AtLine l (items.flatMap (renderItem column) ++ line) (column :: outer) tokens) :
    ∃ l', Leads (items.flatMap (renderItem column)).length l l' ∧
      AtLine l' line (column :: outer) (tokens ++ items.flatMap itemTokens) := by
  induction items generalizing l tokens with
  | nil => exact ⟨l, leads_refl l, by simpa using h⟩
  | cons item items ih =>
    obtain ⟨hline', hindent'⟩ := startsLine_renderItems items hline hindent
    simp only [List.flatMap_cons, renderItem, List.append_assoc, List.cons_append] at h
    obtain ⟨l₁, hdash, hafter⟩ := h.leads_dash
    obtain ⟨l₂, htext, hat⟩ :=
      hafter.leads_scalar (written_renderText column item.toList) hline' hindent'
    obtain ⟨l', hitems, hend⟩ := ih hat
    refine ⟨l', ((hdash.trans htext).trans hitems).mono ?_, ?_⟩
    · simp only [List.flatMap_cons, renderItem, List.length_append, List.length_cons]
      omega
    · simpa [itemTokens] using hend

lemma AfterSign.leads_shown {column : Nat} {outer : List Nat} {text shown line : List Char}
    {style : ScalarStyle} {l : Lexer} {tokens : List Token}
    (h : AfterSign l column outer (' ' :: (shown ++ line)) tokens)
    (hshown : Written column text style shown) (hline : startsLine line = true)
    (hindent : indentation line ≤ column) :
    ∃ l', Leads (' ' :: shown).length l l' ∧
      AtLine l' line (column :: outer) (tokens ++ [.scalar style text]) := by
  obtain ⟨l', hleads, hat⟩ := h.leads_scalar hshown hline hindent
  exact ⟨l', hleads.mono (by simp), hat⟩

lemma AfterSign.atLine {column : Nat} {outer : List Nat} {line : List Char} {l : Lexer}
    {tokens : List Token} (h : AfterSign l column outer ('\n' :: line) tokens)
    (hline : startsLine line = true) : AtLine l line (column :: outer) tokens := by
  rw [← h.indents, ← h.tokens]
  refine atLine_of_break hline h.rest h.outerKeys fun key hkey => ?_
  rw [h.key] at hkey
  cases hkey

lemma length_pos_of_isKey {name : List Char} (h : isKey name = true) : 0 < name.length := by
  cases name with
  | nil => cases h
  | cons c name => simp

lemma endsWord_renderValue (column : Nat) (block : Block) (rest : List Char) :
    endsWord (block.renderValue column ++ rest) = true := by
  match block with
  | .word w => rfl
  | .text s => rfl
  | .char c => rfl
  | .texts [] => rfl
  | .texts (first :: more) => rfl
  | .fields [] => rfl
  | .fields (first :: more) => rfl

mutual

/-- A value leads from the place after its colon to the line after its last one. -/
lemma AfterSign.leads_value {column : Nat} {outer : List Nat} (block : Block)
    (hblock : block.isReadable = true) {line : List Char} (hline : startsLine line = true)
    (hindent : indentation line ≤ column) {l : Lexer} {tokens : List Token}
    (h : AfterSign l column outer (block.renderValue column ++ line) tokens) :
    ∃ l', Leads (block.renderValue column).length l l' ∧
      AtLine l' line (column :: outer) (tokens ++ block.tokens) := by
  match block with
  | .word w =>
    simp only [isReadable, Bool.and_eq_true, Bool.not_eq_true', List.isEmpty_eq_false_iff] at hblock
    exact h.leads_shown (.plain hblock.2 hblock.1) hline hindent
  | .text s => exact h.leads_shown (written_renderText column s.toList) hline hindent
  | .char c => exact h.leads_shown (written_renderQuoted column [c]) hline hindent
  | .texts [] =>
    obtain ⟨l', hleads, hat⟩ := h.leads_flow .sequence hline
    exact ⟨l', hleads.mono (by rw [renderValue]; decide), hat⟩
  | .texts (first :: more) =>
    have hrender : renderValue column (.texts (first :: more)) =
        '\n' :: (first :: more).flatMap (renderItem column) := rfl
    rw [hrender, List.cons_append] at h
    have hstarts := (startsLine_renderItems (first :: more) hline hindent).1
    obtain ⟨l', hleads, hat⟩ := (h.atLine hstarts).leads_items (first :: more) hline hindent
    exact ⟨l', hleads.mono (by rw [hrender, List.length_cons]; omega), hat⟩
  | .fields [] =>
    obtain ⟨l', hleads, hat⟩ := h.leads_flow .mapping hline
    exact ⟨l', hleads.mono (by rw [renderValue]; decide), hat⟩
  | .fields (first :: more) =>
    rw [isReadable] at hblock
    rw [renderValue, List.cons_append] at h
    have hindent' : indentation line ≤ column + 2 := by omega
    have hstarts := (startsLine_renderFields hblock hline hindent').1
    obtain ⟨l', hleads, hat⟩ := (h.atLine hstarts).leads_fields (first :: more) (by simp) hblock
      (.anew (by simp)) hline hindent'
    refine ⟨l', hleads.mono (by rw [renderValue, List.length_cons]; omega), ?_⟩
    simpa [Block.tokens] using hat.leave (by omega)

/-- Fields lead from the line of the first to the line after the last. -/
lemma AtLine.leads_fields {column : Nat} {outer indents : List Nat} {opening : List Token}
    (members : List (String × Block)) (hne : members ≠ []) (hmembers : areReadable members = true)
    (hopens : Opens column outer indents opening) {line : List Char}
    (hline : startsLine line = true) (hindent : indentation line ≤ column) {l : Lexer}
    {tokens : List Token} (h : AtLine l (renderFields column members ++ line) indents tokens) :
    ∃ l', Leads (renderFields column members).length l l' ∧
      AtLine l' line (column :: outer) (tokens ++ (opening ++ fieldTokens members)) := by
  match members with
  | (name, value) :: more =>
    simp only [areReadable, Bool.and_eq_true] at hmembers
    obtain ⟨⟨hname, hvalue⟩, hmore⟩ := hmembers
    obtain ⟨hline', hindent'⟩ := startsLine_renderFields hmore hline hindent
    simp only [renderFields, List.append_assoc, List.cons_append] at h
    obtain ⟨l₁, hkey, hafter⟩ := h.leads_key hname hopens (endsWord_renderValue column value _)
    obtain ⟨l₂, hleads, hat⟩ := hafter.leads_value value hvalue hline' hindent'
    have hlength : 2 + (value.renderValue column).length + (renderFields column more).length ≤
        (renderFields column ((name, value) :: more)).length := by
      have := length_pos_of_isKey hname
      simp only [renderFields, List.length_append, List.length_cons]
      omega
    cases more with
    | nil =>
      refine ⟨l₂, (hkey.trans hleads).mono (Nat.le_of_add_right_le hlength), ?_⟩
      simpa [fieldTokens, renderFields] using hat
    | cons second more =>
      obtain ⟨l', hfields, hend⟩ := hat.leads_fields (second :: more) (by simp) hmore .inside hline
        hindent
      refine ⟨l', ((hkey.trans hleads).trans hfields).mono hlength, ?_⟩
      simpa [fieldTokens] using hend

end

end Lexer

/-- The tokens of a document of fields. -/
lemma tokens?_renderFields {members : List (String × Block)} (hne : members ≠ [])
    (h : Block.areReadable members = true) :
    tokens? (Block.renderFields 0 members) =
      some (.blockMapping :: (Block.fieldTokens members ++ [.blockEnd])) := by
  have hprint := Block.isPrintable_of_mem_renderFields 0 members h
  have hallowed : (Block.renderFields 0 members).all isAllowed = true :=
    List.all_eq_true.2 fun c hc => isAllowed_of_isPrintable (hprint c hc)
  have hfirst : startsLine (Block.renderFields 0 members ++ []) = true ∧
      indentation (Block.renderFields 0 members ++ []) ≤ 0 :=
    Block.startsLine_renderFields h rfl (Nat.le_refl 0)
  rw [List.append_nil, Nat.le_zero] at hfirst
  have hunindented : unindented (Block.renderFields 0 members) = Block.renderFields 0 members := by
    have hspaces := spaces_append_unindented (Block.renderFields 0 members)
    rwa [hfirst.2] at hspaces
  let l : Lexer := { cursor := { rest := Block.renderFields 0 members } }
  have hat : l.AtLine (Block.renderFields 0 members ++ []) [] [] := by
    rw [List.append_nil]
    refine Lexer.atLine_of_unindented hfirst.1 hunindented.symm hfirst.2.symm rfl rfl ?_
    rintro key ⟨⟩
  obtain ⟨l', ⟨k, hk, hrun⟩, hend⟩ := hat.leads_fields members hne h (.anew (by simp)) rfl
    (Nat.le_refl 0)
  have hfuel : (Block.renderFields 0 members).length + 1 =
      (Block.renderFields 0 members).length - k + 1 + k := by omega
  rw [tokens?, if_pos hallowed, unifyBreaks_of_isPrintable hprint]
  show Lexer.run ((Block.renderFields 0 members).length + 1) l = _
  rw [hfuel, hrun, hend.run_end]
  simp

end RequestTrail.Yaml
