import RequestTrail.Proofs.Yaml.Lexing

/-!
# How written signs are read

The lemmas here lead the lexer over each kind of sign that is written: from the place after the sign
of a line over a text or over an empty collection to the next line, and from a line over a dash or
over a key to the place after it.
-/

namespace RequestTrail.Yaml

namespace Lexer

section Fields

variable (l : Lexer) (count : Nat) (token : Token)

@[simp]
lemma cursor_emitSkip : (l.emitSkip count token).cursor = l.cursor.skip count := rfl

@[simp]
lemma indents_emitSkip : (l.emitSkip count token).indents = l.indents := rfl

@[simp]
lemma key_emitSkip : (l.emitSkip count token).key = l.key := rfl

@[simp]
lemma outerKeys_emitSkip : (l.emitSkip count token).outerKeys = l.outerKeys := rfl

@[simp]
lemma tokens_emitSkip : (l.emitSkip count token).tokens = l.tokens.push token := rfl

end Fields

/-! ### Texts -/

lemma lexPlain_eq {l : Lexer} {key : Option PossibleKey} {text : List Char} {ended : Bool}
    {cursor : Cursor} (hsave : l.saveKey = some { l with key })
    (htake : takePlain l.inFlow l.depth .empty l.cursor.toPosition l.cursor.rest =
      some (text, ended, cursor)) :
    l.lexPlain = some ({ l with key, keyAllowed := ended, cursor }.emit (.scalar .plain text)) := by
  simp only [lexPlain, hsave, Option.bind_eq_bind, Option.bind_some]
  show (takePlain l.inFlow l.depth .empty l.cursor.toPosition l.cursor.rest).bind _ = _
  rw [htake]
  rfl

lemma lexQuoted_eq {l : Lexer} {key : Option PossibleKey} {double : Bool} {text rest : List Char}
    {cursor : Cursor} (hsave : l.saveKey = some { l with key })
    (htake : (if double then takeDouble else takeSingle) .empty
      (l.cursor.next (if double then '"' else '\'')) rest = some (text, cursor)) :
    l.lexQuoted double rest = some ({ l with key, keyAllowed := false, cursor }.emit
      (.scalar (if double then .doubleQuoted else .singleQuoted) text)) := by
  simp [lexQuoted, hsave, htake]

lemma lexBlock_eq {l : Lexer} {text rest : List Char} {cursor : Cursor} (hkey : l.key = none)
    (htake : takeBlock false l.depth l.cursor.toPosition rest = some (text, cursor)) :
    l.lexBlock false rest = some ({ l with key := none, keyAllowed := true, cursor }.emit
      (.scalar .literal text)) := by
  simp [lexBlock, dropKey, hkey, htake]

/-- A text that is written plainly begins like a plain scalar, whatever follows the text. -/
lemma startsPlain_append {c : Char} {text : List Char} (h : PlainText c text) (rest : List Char) :
    startsPlain false c (text ++ rest) = true := by
  by_cases hc : c = '?' ∨ c = ':' ∨ c = '-'
  · have hgoes := endsWord_append (h.word hc) rest
    rcases hc with rfl | rfl | rfl
    · simp [startsPlain, hgoes]
    · simp [startsPlain, hgoes]
    · cases hrest : text ++ rest with
      | nil =>
        rw [hrest] at hgoes
        cases hgoes
      | cons d ds =>
        simp only [hrest, endsWord, Bool.or_eq_false_iff] at hgoes
        simp [startsPlain, hgoes.1]
  · have hsigns := List.all_eq_true.1 (show ("-?:,[]\x7b\x7d#&*!|>'\"%@`".toList.all fun d =>
      d == '?' || d == ':' || d == '-' || "#,[]\x7b\x7d&*!|>'\"%@`".toList.contains d) = true by
        decide)
    have hnot : "-?:,[]\x7b\x7d#&*!|>'\"%@`".toList.contains c = false := by
      rw [Bool.eq_false_iff]
      intro hmem
      have hsign := hsigns c (List.contains_iff_mem.1 hmem)
      simp only [Bool.or_eq_true, beq_iff_eq, or_assoc] at hsign
      rcases hsign with hc' | hc' | hc' | hsign
      · exact hc (Or.inl hc')
      · exact hc (Or.inr (Or.inl hc'))
      · exact hc (Or.inr (Or.inr hc'))
      · exact h.sign (List.contains_iff_mem.1 hsign)
    rw [startsPlain, h.isBlank, isBreak_eq_false (h.isAnyBreak c List.mem_cons_self), hnot]
    rfl

/-- The signs that begin a plain text come after all others. -/
lemma lexToken_of_plainText {l : Lexer} {c : Char} {text : List Char} (h : PlainText c text)
    (hflow : l.inFlow = false) (hcolumn : l.cursor.column = 0 → c ≠ '-' ∧ c ≠ '.')
    (rest : List Char) : l.lexToken c (text ++ rest) = l.lexPlain := by
  have hne : ∀ d ∈ "#,[]\x7b\x7d&*!|>'\"%@`".toList, c ≠ d := by
    rintro d hd rfl
    exact h.sign hd
  have hword : c = '?' ∨ c = ':' ∨ c = '-' → endsWord (text ++ rest) = false :=
    fun hc => endsWord_append (h.word hc) rest
  rw [lexToken, if_neg (by simp [hne '%' (by decide)]),
    if_neg (by rintro ⟨hzero, hdash, -⟩; exact (hcolumn hzero).1 hdash),
    if_neg (by rintro ⟨hzero, hdot, -⟩; exact (hcolumn hzero).2 hdot), if_neg (hne '[' (by decide)),
    if_neg (hne '\x7b' (by decide)), if_neg (hne ']' (by decide)), if_neg (hne '\x7d' (by decide)),
    if_neg (hne ',' (by decide)), if_neg (by rintro ⟨rfl, hends⟩; simp [hword] at hends),
    if_neg (by rintro ⟨rfl, hends⟩; simp [hword, hflow] at hends),
    if_neg (by rintro ⟨rfl, hends⟩; simp [hword, hflow] at hends), if_neg (hne '*' (by decide)),
    if_neg (hne '&' (by decide)), if_neg (hne '!' (by decide)),
    if_neg (by simp [hne '|' (by decide)]), if_neg (by simp [hne '>' (by decide)]),
    if_neg (hne '\'' (by decide)), if_neg (hne '"' (by decide)), hflow,
    if_pos (startsPlain_append h rest)]

/-- A key that may have begun at the place, and need not have. -/
def BegunAt (pos : Position) (key : Option PossibleKey) : Prop :=
  ∀ k, key = some k → k.required = false ∧ k.toPosition = pos

/-- The place after the last line of what is written for a text: before the break of the line, or at
the first token of the next one. -/
inductive Ended (line : List Char) (start : Position) : Cursor → Bool → Prop where
  | atBreak {pos : Position} (hstart : start.line ≤ pos.line) (allowed : Bool) :
    Ended line start (.place pos ('\n' :: line)) allowed
  | atToken {pos : Position} (hstart : start.line < pos.line)
    (hcolumn : pos.column = indentation line) : Ended line start (.place pos (unindented line)) true

section AfterSign

variable {l : Lexer} {column : Nat} {outer : List Nat} {rest : List Char} {tokens : List Token}
  {line : List Char}

lemma AfterSign.inFlow (h : AfterSign l column outer rest tokens) : l.inFlow = false := by
  simp [Lexer.inFlow, h.outerKeys]

lemma AfterSign.depth (h : AfterSign l column outer rest tokens) : l.depth = column + 1 := by
  simp [Lexer.depth, h.indents]

/-- A key that is saved after the sign of a line is not required. -/
lemma AfterSign.saveKey (h : AfterSign l column outer rest tokens) :
    ∃ key, l.saveKey = some { l with key } ∧ BegunAt l.cursor.toPosition key := by
  by_cases hallowed : l.keyAllowed = true
  · refine ⟨some { l.cursor.toPosition with index := l.tokens.size, required := false }, ?_, ?_⟩
    · have hrequired : (l.indents.head? == some l.cursor.column) = false := by
        simpa [h.indents] using Nat.ne_of_lt h.column_lt
      simp [Lexer.saveKey, hallowed, hrequired, dropKey, h.key]
    · rintro k ⟨⟩
      exact ⟨rfl, rfl⟩
  · refine ⟨none, ?_, ?_⟩
    · rw [Lexer.saveKey, if_neg hallowed, ← h.key]
    · rintro k ⟨⟩

/-- After a token that ends its line, the next line is reached with the same open blocks. -/
lemma AfterSign.atLine_emit (h : AfterSign l column outer rest tokens) {key : Option PossibleKey}
    (hkey : BegunAt l.cursor.toPosition key) (hline : startsLine line = true) {cursor : Cursor}
    {allowed : Bool} (hend : Ended line l.cursor.toPosition cursor allowed) (token : Token) :
    AtLine ({ l with key, keyAllowed := allowed, cursor }.emit token) line (column :: outer)
      (tokens ++ [token]) := by
  let l' : Lexer := { l with key, keyAllowed := allowed, cursor }.emit token
  have hindents : l'.indents = column :: outer := h.indents
  have htokens : l'.tokens.toList = tokens ++ [token] := by simp [l', emit, h.tokens]
  rw [← hindents, ← htokens]
  cases hend with
  | atBreak hstart =>
    refine atLine_of_break hline rfl h.outerKeys fun k hk => ?_
    obtain ⟨hrequired, hpos⟩ := hkey k hk
    exact ⟨hrequired, by rw [hpos]; exact hstart⟩
  | atToken hstart hcolumn =>
    refine atLine_of_unindented hline rfl hcolumn rfl h.outerKeys fun k hk => ?_
    obtain ⟨hrequired, hpos⟩ := hkey k hk
    exact ⟨hrequired, by rw [hpos]; exact hstart⟩

lemma AfterSign.lexPlain {c : Char} {text : List Char} (hplain : PlainText c text)
    (h : AfterSign l column outer (c :: text ++ '\n' :: line) tokens)
    (hline : startsLine line = true) (hindent : indentation line ≤ column) :
    ∃ l', l.lexPlain = some l' ∧
      AtLine l' line (column :: outer) (tokens ++ [.scalar .plain (c :: text)]) := by
  obtain ⟨key, hsave, hkey⟩ := h.saveKey
  have htake : takePlain l.inFlow l.depth .empty l.cursor.toPosition l.cursor.rest =
      some (c :: text, true, .place ((l.cursor.nextAll (c :: text)).newLine.nextAll
        (spaces (indentation line))) (unindented line)) := by
    rw [h.inFlow, h.depth, h.rest,
      takePlain_of_plainText hplain _ (Nat.succ_le_succ (Nat.le_of_lt h.column_lt)),
      takePlain_line hline (Nat.lt_succ_of_le hindent), prepend_some, List.append_nil]
  exact ⟨_, lexPlain_eq hsave htake,
    h.atLine_emit hkey hline (.atToken (by simp) (by simp)) _⟩

lemma AfterSign.lexQuoted_single {text : List Char} (htext : allowsSingle text = true)
    (h : AfterSign l column outer rest tokens) (hline : startsLine line = true) :
    ∃ l', l.lexQuoted false
        (renderSingle (column + 2) false text ++ '\'' :: '\n' :: line) = some l' ∧
      AtLine l' line (column :: outer) (tokens ++ [.scalar .singleQuoted text]) := by
  obtain ⟨key, hsave, hkey⟩ := h.saveKey
  simp only [allowsSingle, Bool.and_eq_true, Bool.not_eq_true'] at htext
  obtain ⟨⟨hprint, hbefore⟩, hafter⟩ := htext
  have hrest : ('\n' :: line).head? ≠ some '\'' := by simp
  obtain ⟨pos', hstart, htake⟩ := takeSingle_renderSingle (Nat.succ_pos (column + 1)) hrest
    (isPrintable_of_needsEscape hprint) hbefore hafter Gap.fits_empty (fun hne => absurd rfl hne)
    (fun h => by cases h) (l.cursor.next '\'') (by simp)
  rw [Position.line_next] at hstart
  exact ⟨_, lexQuoted_eq hsave htake, h.atLine_emit hkey hline (.atBreak hstart false) _⟩

lemma AfterSign.lexQuoted_double (text : List Char) (h : AfterSign l column outer rest tokens)
    (hline : startsLine line = true) :
    ∃ l', l.lexQuoted true (renderDouble text ++ '"' :: '\n' :: line) = some l' ∧
      AtLine l' line (column :: outer) (tokens ++ [.scalar .doubleQuoted text]) := by
  obtain ⟨key, hsave, hkey⟩ := h.saveKey
  have htake := takeDouble_renderDouble text .empty rfl (l.cursor.next '"') (by simp) ('\n' :: line)
  exact ⟨_, lexQuoted_eq hsave htake, h.atLine_emit hkey hline (.atBreak (by simp) false) _⟩

lemma AfterSign.lexBlock {text : List Char} (hne : text ≠ []) (htext : needsEscape text = false)
    (h : AfterSign l column outer rest tokens) (hline : startsLine line = true)
    (hindent : indentation line ≤ column) :
    ∃ l', l.lexBlock false (lineSigns text ++ '\n' ::
        (renderLines (column + 2) true text ++ (lineEnd text ++ line))) = some l' ∧
      AtLine l' line (column :: outer) (tokens ++ [.scalar .literal text]) := by
  obtain ⟨pos', hstart, hcolumn, htake⟩ := takeBlock_renderLines hne
    (isPrintable_of_needsEscape htext) column l.cursor.toPosition hline hindent
  rw [← h.depth] at htake
  refine ⟨_, lexBlock_eq h.key htake, h.atLine_emit ?_ hline (.atToken hstart hcolumn) _⟩
  rintro k ⟨⟩

/-- A text after the sign of a line is read in one step. -/
lemma AfterSign.leads_scalar {text shown : List Char} {style : ScalarStyle}
    (hshown : Written column text style shown)
    (h : AfterSign l column outer (' ' :: (shown ++ line)) tokens) (hline : startsLine line = true)
    (hindent : indentation line ≤ column) :
    ∃ l', Leads 1 l l' ∧ AtLine l' line (column :: outer) (tokens ++ [.scalar style text]) := by
  obtain ⟨next, hsettle, hnext⟩ := h.settle (hshown.startsToken line)
  have hflow := hnext.inFlow
  have hcolumn : next.cursor.column ≠ 0 := Nat.ne_of_gt (Nat.zero_lt_of_lt hnext.column_lt)
  cases hshown with
  | plain hne hplain =>
    obtain ⟨c, text, rfl⟩ := List.exists_cons_of_ne_nil hne
    have hstarts := plainText_of_allowsPlain hplain
    rw [List.append_assoc, List.singleton_append] at hnext
    obtain ⟨l', hlex, hat⟩ := hnext.lexPlain hstarts hline hindent
    rw [← lexToken_of_plainText hstarts hflow (fun h => absurd h hcolumn) ('\n' :: line)] at hlex
    exact ⟨l', leads_of_lexToken hsettle hnext.rest hlex, hat⟩
  | single hsingle =>
    simp only [List.cons_append, List.append_assoc, List.nil_append] at hnext
    obtain ⟨l', hlex, hat⟩ := hnext.lexQuoted_single hsingle hline
    exact ⟨l', leads_of_lexToken hsettle hnext.rest (by simpa [lexToken] using hlex), hat⟩
  | double =>
    simp only [List.cons_append, List.append_assoc, List.nil_append] at hnext
    obtain ⟨l', hlex, hat⟩ := hnext.lexQuoted_double text hline
    exact ⟨l', leads_of_lexToken hsettle hnext.rest (by simpa [lexToken] using hlex), hat⟩
  | literal hne hprint =>
    simp only [List.cons_append, List.append_assoc] at hnext
    obtain ⟨l', hlex, hat⟩ := hnext.lexBlock hne hprint hline hindent
    exact ⟨l', leads_of_lexToken hsettle hnext.rest (by simpa [lexToken, hflow] using hlex), hat⟩

/-! ### Empty collections -/

/-- The two signs of an empty collection, with their tokens. -/
inductive EmptyFlow : Char → Char → Token → Token → Prop where
  | sequence : EmptyFlow '[' ']' .flowSequence .flowSequenceEnd
  | mapping : EmptyFlow '\x7b' '\x7d' .flowMapping .flowMappingEnd

lemma EmptyFlow.startsToken {first last : Char} {firstToken lastToken : Token}
    (h : EmptyFlow first last firstToken lastToken) (rest : List Char) :
    startsToken (first :: rest) = true ∧ startsToken (last :: rest) = true := by
  cases h <;> simp only [Yaml.startsToken] <;> decide

/-- The signs of an empty collection after the sign of a line are read in two steps. -/
lemma AfterSign.leads_flow {first last : Char} {firstToken lastToken : Token}
    (hflow : EmptyFlow first last firstToken lastToken)
    (h : AfterSign l column outer (' ' :: first :: last :: '\n' :: line) tokens)
    (hline : startsLine line = true) :
    ∃ l', Leads 2 l l' ∧ AtLine l' line (column :: outer) (tokens ++ [firstToken, lastToken]) := by
  obtain ⟨next, hsettle, hnext⟩ := h.settle (hflow.startsToken _).1
  obtain ⟨key, hsave, hkey⟩ := hnext.saveKey
  -- between the signs the key that may have begun is one of an outer level
  let l₁ : Lexer := { next with
    key := none, outerKeys := [key], keyAllowed := true }.emitSkip 1 firstToken
  have hlex₁ : next.lexToken first (last :: '\n' :: line) = some l₁ := by
    cases hflow <;> simp [l₁, lexToken, lexFlowStart, hsave, hnext.outerKeys]
  have hcursor₁ : l₁.cursor = .place (next.cursor.next first) (last :: '\n' :: line) := by
    simp [l₁, Cursor.skip, hnext.rest]
  have hsettle₁ : l₁.settle = some l₁ := by
    have hexpire : expireKey l₁.cursor key = some key := by
      cases key with
      | none => rfl
      | some k =>
        have hsize : first.utf8Size = 1 := by cases hflow <;> rfl
        have hnear : ¬ (k.line < (next.cursor.next first).line ∨
            k.offset + keyReach < (next.cursor.next first).offset) := by
          simp [(hkey k rfl).2, Position.next, hsize, keyReach]
        rw [hcursor₁]
        exact if_neg hnear
    refine settle_flow (by rw [hcursor₁]; exact (hflow.startsToken _).2) rfl rfl ?_
    show [key].mapM (expireKey l₁.cursor) = some [key]
    simp [hexpire]
  let l₂ : Lexer := { l₁ with key, outerKeys := [], keyAllowed := false }.emitSkip 1 lastToken
  have hlex₂ : l₁.lexToken last ('\n' :: line) = some l₂ := by
    cases hflow <;> simp [l₂, l₁, lexToken, lexFlowEnd, dropKey, emitSkip, emit]
  have hcursor₂ : l₂.cursor = .place ((next.cursor.next first).next last) ('\n' :: line) := by
    simp [l₂, hcursor₁, Cursor.skip, Cursor.place]
  refine ⟨l₂, (leads_of_lexToken hsettle hnext.rest hlex₁).trans
    (leads_of_lexToken hsettle₁ (by rw [hcursor₁]; rfl) hlex₂), ?_⟩
  have hat : l₂.AtLine line l₂.indents l₂.tokens.toList := by
    refine atLine_of_break hline (by rw [hcursor₂]; rfl) rfl fun k hk => ?_
    obtain ⟨hrequired, hpos⟩ := hkey k hk
    exact ⟨hrequired, by rw [hpos, hcursor₂]; exact Nat.le_refl _⟩
  simpa [l₂, l₁, hnext.indents, hnext.tokens] using hat

end AfterSign

/-! ### Items -/

/-- The dash of an item is read in one step. -/
lemma AtLine.leads_dash {l : Lexer} {column : Nat} {outer : List Nat} {rest : List Char}
    {tokens : List Token}
    (h : AtLine l (spaces column ++ '-' :: ' ' :: rest) (column :: outer) tokens) :
    ∃ l', Leads 1 l l' ∧ AfterSign l' column outer (' ' :: rest) (tokens ++ [.blockEntry]) := by
  obtain ⟨next, hsettle, hnext⟩ := h.settle (by decide) (by simp)
  have hopen : ∀ token, next.openBlock next.cursor.column none token = next := by
    simp [openBlock, depth, hnext.indents, hnext.column]
  have hlex : next.lexToken '-' (' ' :: rest) =
      some ({ next with keyAllowed := true }.emitSkip 1 .blockEntry) := by
    simp [lexToken, startsMarker, endsWord, isBlank, lexBlockEntry, hnext.keyAllowed, hopen,
      dropKey, hnext.key]
  refine ⟨_, leads_of_lexToken hsettle hnext.rest hlex, ⟨?_, hnext.outerKeys, hnext.key,
    hnext.indents, ?_⟩, ?_⟩
  · simp [Cursor.skip, Cursor.place, hnext.rest]
  · simp [hnext.tokens]
  · simp [Cursor.skip, Cursor.place, hnext.rest, hnext.column]

/-! ### Keys -/

/-- Whether a name is written as a key: plainly, and in reach of the colon. -/
def isKey (name : List Char) : Bool :=
  allowsPlain name && name.head?.any Char.isAlphanum && name.length ≤ 256

/-- A key stands in the innermost block, or it opens a block further to the right. -/
inductive Opens (column : Nat) (outer : List Nat) : List Nat → List Token → Prop where
  | inside : Opens column outer (column :: outer) []
  | anew (h : ∀ indent ∈ outer.head?, indent < column) : Opens column outer outer [.blockMapping]

/-- The lexer stands at the colon after a name, which may still be a key. -/
structure AtColon (l : Lexer) (column : Nat) (name rest : List Char) (indents : List Nat)
    (tokens : List Token) (k : PossibleKey) : Prop where
  rest : l.cursor.rest = ':' :: rest
  outerKeys : l.outerKeys = []
  key : l.key = some k
  indents : l.indents = indents
  column_lt : column < l.cursor.column
  column : k.column = column
  line : k.line = l.cursor.line
  reach : l.cursor.offset ≤ k.offset + keyReach
  index : k.index = tokens.length
  tokens : l.tokens.toList = tokens ++ [.scalar .plain name]

section Keys

variable {l : Lexer} {column : Nat} {outer indents : List Nat} {name rest : List Char}
  {opening tokens : List Token} {k : PossibleKey}

lemma isAlphanum_of_isKey {c : Char} {text : List Char} (h : isKey (c :: text) = true) :
    c.isAlphanum = true := by
  simp only [isKey, Bool.and_eq_true, List.head?_cons, Option.any_some] at h
  exact h.1.2

lemma Opens.head_le (h : Opens column outer indents opening) :
    ∀ indent ∈ indents.head?, indent ≤ column := by
  cases h with
  | inside => simp
  | anew h => exact fun indent hindent => Nat.le_of_lt (h indent hindent)

/-- The token of a block that is opened goes before those from the given place on. -/
lemma Opens.openBlock (h : Opens column outer indents opening) (hflow : l.inFlow = false)
    (hindents : l.indents = indents) {front back : List Token}
    (htokens : l.tokens.toList = front ++ back) :
    ∃ l', l.openBlock column (some front.length) .blockMapping = l' ∧ l'.cursor = l.cursor ∧
      l'.outerKeys = l.outerKeys ∧ l'.indents = column :: outer ∧
      l'.tokens.toList = front ++ (opening ++ back) := by
  cases h with
  | inside =>
    have hinside : l.openBlock column (some front.length) .blockMapping = l := by
      simp [Lexer.openBlock, Lexer.depth, hindents]
    exact ⟨l, hinside, rfl, rfl, hindents, htokens⟩
  | anew h =>
    have hdepth : ¬ column < l.depth := by
      rw [Lexer.depth, hindents]
      cases outer with
      | nil => simp
      | cons indent outer => simpa using Nat.succ_le_of_lt (h indent rfl)
    refine ⟨_, rfl, ?_⟩
    rw [Lexer.openBlock, if_neg (by simp [hflow, hdepth])]
    exact ⟨rfl, rfl, by rw [← hindents]; rfl, TokenLog.toList_insertAt htokens .blockMapping⟩

/-- A name at the start of a line is read up to its colon. -/
lemma AtToken.lexToken_name {c : Char} {text : List Char} (hname : isKey (c :: text) = true)
    (hindents : ∀ indent ∈ indents.head?, indent ≤ column) (hrest : endsWord rest = true)
    (h : AtToken l column (c :: (text ++ ':' :: rest)) indents tokens) :
    ∃ l' k, l.lexToken c (text ++ ':' :: rest) = some l' ∧
      AtColon l' column (c :: text) rest indents tokens k := by
  have hne : ∀ d, d.isAlphanum = false → c ≠ d := by
    rintro d hd rfl
    exact absurd (isAlphanum_of_isKey hname) (by simp [hd])
  simp only [isKey, Bool.and_eq_true, decide_eq_true_eq] at hname
  obtain ⟨⟨hplain, -⟩, hlength⟩ := hname
  have hstarts := plainText_of_allowsPlain hplain
  have hflow : l.inFlow = false := by simp [inFlow, h.outerKeys]
  let k : PossibleKey := { l.cursor.toPosition with
    index := l.tokens.size
    required := l.indents.head? == some l.cursor.column }
  have hsave : l.saveKey = some { l with key := some k } := by
    simp [saveKey, h.keyAllowed, hflow, dropKey, h.key, k]
  have hdepth : l.depth ≤ l.cursor.column + 1 := by
    rw [h.column, Lexer.depth, h.indents]
    cases indents with
    | nil => simp
    | cons indent indents => simpa using hindents
  have htake : takePlain l.inFlow l.depth .empty l.cursor.toPosition l.cursor.rest =
      some (c :: text, false, .place (l.cursor.nextAll (c :: text)) (':' :: rest)) := by
    rw [hflow, h.rest, ← List.cons_append, takePlain_of_plainText hstarts _ hdepth,
      takePlain_colon hrest, prepend_some, List.append_nil]
  have hlex := lexToken_of_plainText hstarts hflow
    (fun _ => ⟨hne '-' (by decide), hne '.' (by decide)⟩) (':' :: rest)
  have hcolumn := Position.column_nextAll l.cursor.toPosition (c :: text)
  have hreach := Position.offset_nextAll_le l.cursor.toPosition (c :: text)
  refine ⟨_, k, hlex.trans (lexPlain_eq hsave htake), rfl, h.outerKeys, rfl, h.indents, ?_,
    h.column, ?_, ?_, ?_, ?_⟩
  · show column < (l.cursor.nextAll (c :: text)).column
    rw [hcolumn, h.column, List.length_cons]
    omega
  · exact (Position.line_nextAll l.cursor.toPosition (c :: text)).symm
  · show (l.cursor.nextAll (c :: text)).offset ≤ l.cursor.offset + keyReach
    rw [keyReach]
    omega
  · rw [← h.tokens, ← TokenLog.size_eq_length]
  · simp [emit, h.tokens]

/-- At the colon the key is still in reach. -/
lemma AtColon.settle (h : AtColon l column name rest indents tokens k)
    (hindents : ∀ indent ∈ indents.head?, indent ≤ column) : l.settle = some l := by
  have hstarts : startsToken l.cursor.rest = true := by
    rw [h.rest, startsToken]
    decide
  have hexpire : expireKey l.cursor l.key = some l.key := by
    have hline := h.line
    have hreach := h.reach
    rw [h.key, expireKey, if_neg (by omega)]
  refine settle_inside (advance_of_startsToken hstarts) h.outerKeys hexpire ?_
  rw [h.indents]
  intro indent hindent
  exact Nat.le_of_lt (Nat.lt_of_le_of_lt (hindents indent hindent) h.column_lt)

/-- At the colon the token of the key goes before the name, and that of a new block before both. -/
lemma AtColon.lexToken_colon (h : AtColon l column name rest indents tokens k)
    (hopens : Opens column outer indents opening) (hrest : endsWord rest = true) :
    ∃ l', l.lexToken ':' rest = some l' ∧
      AfterSign l' column outer rest
        (tokens ++ (opening ++ [.key, .scalar .plain name, .value])) := by
  have htokens : (l.insertToken k.index .key).tokens.toList =
      tokens ++ [.key, .scalar .plain name] := by
    rw [h.index]
    exact TokenLog.toList_insertAt h.tokens .key
  have hflow : (l.insertToken k.index .key).inFlow = false := by
    show (!l.outerKeys.isEmpty) = false
    simp [h.outerKeys]
  obtain ⟨l₁, hopen, hcursor, houter, hindents₁, htokens₁⟩ :=
    hopens.openBlock hflow h.indents htokens
  have hlex : l.lexToken ':' rest =
      some ({ l₁ with key := none, keyAllowed := false }.emitSkip 1 .value) := by
    rw [← h.column, ← h.index] at hopen
    simp [lexToken, hrest, lexValue, h.key, hopen]
  have hskip : l₁.cursor.skip 1 = .place (l.cursor.next ':') rest := by
    rw [hcursor]
    show l.cursor.skip 1 = _
    simp [Cursor.skip, h.rest]
  refine ⟨_, hlex, ⟨?_, ?_, rfl, hindents₁, ?_⟩, ?_⟩
  · rw [cursor_emitSkip, hskip]
    rfl
  · rw [← h.outerKeys]
    exact houter
  · simp [htokens₁]
  · rw [cursor_emitSkip, hskip]
    exact Nat.lt_succ_of_lt h.column_lt

/-- A name and the colon after it are read in two steps. -/
lemma AtLine.leads_key (hname : isKey name = true) (hopens : Opens column outer indents opening)
    (h : AtLine l (spaces column ++ (name ++ ':' :: rest)) indents tokens)
    (hrest : endsWord rest = true) :
    ∃ l', Leads 2 l l' ∧
      AfterSign l' column outer rest
        (tokens ++ (opening ++ [.key, .scalar .plain name, .value])) := by
  cases name with
  | nil => cases hname
  | cons c text =>
    have hspace : c ≠ ' ' := by
      rintro rfl
      exact absurd (isAlphanum_of_isKey hname) (by decide)
    obtain ⟨next, hsettle, hnext⟩ := h.settle hspace hopens.head_le
    obtain ⟨l₁, k, hlex₁, hcolon⟩ := hnext.lexToken_name hname hopens.head_le hrest
    obtain ⟨l₂, hlex₂, hafter⟩ := hcolon.lexToken_colon hopens hrest
    exact ⟨l₂, (leads_of_lexToken hsettle hnext.rest hlex₁).trans
      (leads_of_lexToken (hcolon.settle hopens.head_le) hcolon.rest hlex₂), hafter⟩

end Keys

end Lexer

end RequestTrail.Yaml
