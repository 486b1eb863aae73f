import RequestTrail.Proofs.Yaml.Line
import RequestTrail.Yaml.Scalar.Flow

/-!
# Quoted texts read back

What is written between quotes is read as the text it was written for: in double quotes every text,
in single quotes a text whose lines neither begin nor end with a space.
-/

namespace RequestTrail.Yaml

/-! ### Texts in double quotes -/

lemma hexDigit_spec {n : Nat} (h : n < 16) : Text.digitValue? (hexDigit n) = some n := by
  revert n
  decide

lemma hexValue?_hexDigits (width n : Nat) :
    hexValue? (hexDigits width n) = some (n % Nat.pow 16 width) := by
  induction width generalizing n with
  | zero => simp [hexDigits, hexValue?, Nat.mod_one]
  | succ width ih =>
    have hstep : hexValue? (hexDigits (width + 1) n) =
        (hexValue? (hexDigits width (n / 16))).bind fun m =>
          (Text.digitValue? (hexDigit (n % 16))).map (m * 16 + ·) := by
      simp [hexValue?, hexDigits, List.foldlM_append]
    rw [hstep, ih, hexDigit_spec (Nat.mod_lt n (by decide))]
    have hvalue : n / 16 % Nat.pow 16 width * 16 + n % 16 = n % Nat.pow 16 (width + 1) := by
      have hpow : Nat.pow 16 (width + 1) = 16 * Nat.pow 16 width := Nat.mul_comm _ _
      rw [hpow, Nat.mod_mul]
      omega
    rw [← hvalue]
    rfl

lemma charOfCode?_toNat (c : Char) : charOfCode? c.toNat = some c := by
  have hvalid : ¬ ((0xD800 ≤ c.toNat ∧ c.toNat ≤ 0xDFFF) ∨ 0x10FFFF < c.toNat) := by
    have h := c.valid
    simp only [UInt32.isValidChar, Nat.isValidChar] at h
    simp only [Char.toNat]
    omega
  rw [charOfCode?, if_neg hvalid, Char.ofNat_toNat]

lemma hexChar?_hexDigits {width : Nat} {c : Char} (h : c.toNat < Nat.pow 16 width) :
    hexChar? (hexDigits width c.toNat) = some c := by
  rw [hexChar?, hexValue?_hexDigits, Nat.mod_eq_of_lt h]
  exact charOfCode?_toNat c

/-- The codes of the characters that have an escape of one letter. -/
def shortCodes : List Nat :=
  [0x00, 0x07, 0x08, 0x09, 0x0A, 0x0B, 0x0C, 0x0D, 0x1B, 0x22, 0x5C, 0x85, 0xA0, 0x2028, 0x2029]

lemma exists_escaped?_of_mem_shortCodes {n : Nat} (h : n ∈ shortCodes) :
    ∃ d, escapeCode (Char.ofNat n) = [d] ∧ escaped? d = some (Char.ofNat n) ∧
      d ∉ ['x', 'u', 'U'] ∧ isPrintable d = true ∧ isBreak d = false := by
  simp only [shortCodes, List.mem_cons, List.not_mem_nil, or_false] at h
  rcases h with rfl | rfl | rfl | rfl | rfl | rfl | rfl | rfl | rfl | rfl | rfl | rfl | rfl | rfl |
    rfl
  all_goals exact ⟨_, rfl, rfl, by decide, by decide, by decide⟩

/-- An escape is one letter that stands for the character, or its code in two, four or eight
hexadecimal digits. -/
lemma escapeCode_cases (c : Char) :
    (∃ d, escapeCode c = [d] ∧ escaped? d = some c ∧ d ∉ ['x', 'u', 'U'] ∧ isPrintable d = true ∧
        isBreak d = false) ∨
      (escapeCode c = 'x' :: hexDigits 2 c.toNat ∧ c.toNat < Nat.pow 16 2) ∨
      (escapeCode c = 'u' :: hexDigits 4 c.toNat ∧ c.toNat < Nat.pow 16 4) ∨
      (escapeCode c = 'U' :: hexDigits 8 c.toNat ∧ c.toNat < Nat.pow 16 8) := by
  by_cases hshort : c.toNat ∈ shortCodes
  · left
    have h := exists_escaped?_of_mem_shortCodes hshort
    rwa [Char.ofNat_toNat] at h
  · right
    have hlt : c.toNat < Nat.pow 16 8 := Nat.lt_of_lt_of_le c.val.toNat_lt (by decide)
    simp only [shortCodes, List.mem_cons, List.not_mem_nil, not_or] at hshort
    by_cases htwo : c.toNat ≤ 0xFF
    · left
      exact ⟨by simp [escapeCode, hshort, htwo], Nat.lt_succ_of_le htwo⟩
    · right
      by_cases hfour : c.toNat ≤ 0xFFFF
      · left
        exact ⟨by simp [escapeCode, hshort, htwo, hfour], Nat.lt_succ_of_le hfour⟩
      · right
        exact ⟨by simp [escapeCode, hshort, htwo, hfour], hlt⟩

lemma takeDouble_escape (gap : Gap) (pos : Position) (c : Char) (rest : List Char) :
    takeDouble gap pos ('\\' :: escapeCode c ++ rest) =
      prepend (gap.text ++ [c]) (takeDouble .empty (pos.nextAll ('\\' :: escapeCode c)) rest) := by
  rcases escapeCode_cases c with ⟨d, hcode, hd, hne, -, hbreak⟩ | ⟨hcode, hlt⟩ | ⟨hcode, hlt⟩ |
    ⟨hcode, hlt⟩
  · simp only [List.mem_cons, List.not_mem_nil, or_false, not_or] at hne
    rw [hcode, List.cons_append, List.singleton_append, takeDouble]
    · simp [hbreak, hd]
    all_goals simp [hne]
  · have hdigits := hexChar?_hexDigits hlt
    obtain ⟨a, b, hab⟩ : ∃ a b, hexDigits 2 c.toNat = [a, b] := ⟨_, _, rfl⟩
    rw [hab] at hcode hdigits
    simp [hcode, takeDouble, hdigits]
  · have hdigits := hexChar?_hexDigits hlt
    obtain ⟨a, b, d, e, hab⟩ : ∃ a b d e, hexDigits 4 c.toNat = [a, b, d, e] :=
      ⟨_, _, _, _, rfl⟩
    rw [hab] at hcode hdigits
    simp [hcode, takeDouble, hdigits]
  · have hdigits := hexChar?_hexDigits hlt
    obtain ⟨a, b, d, e, f, g, h, i, hab⟩ :
        ∃ a b d e f g h i, hexDigits 8 c.toNat = [a, b, d, e, f, g, h, i] :=
      ⟨_, _, _, _, _, _, _, _, rfl⟩
    rw [hab] at hcode hdigits
    simp [hcode, takeDouble, hdigits]

lemma takeDouble_cons {c : Char} (hquote : c ≠ '"') (hslash : c ≠ '\\') (gap : Gap) (pos : Position)
    (rest : List Char) :
    takeDouble gap pos (c :: rest) =
      if isBlank c then takeDouble (gap.addBlank c) (pos.next c) rest
      else if isBreak c then takeDouble (gap.addBreak c) pos.newLine rest
      else if pos.column = 0 ∧ startsMarker (c :: rest) then none
      else prepend (gap.text ++ [c]) (takeDouble .empty (pos.next c) rest) := by
  rw [takeDouble]
  · exact hquote
  all_goals simp [hslash]

lemma takeDouble_renderDouble (text : List Char) (gap : Gap) (hgap : gap.breaks = none)
    (pos : Position) (hpos : 0 < pos.column) (rest : List Char) :
    takeDouble gap pos (renderDouble text ++ '"' :: rest) =
      some (gap.text ++ text, .place ((pos.nextAll (renderDouble text)).next '"') rest) := by
  induction text generalizing gap pos with
  | nil => simp [renderDouble, takeDouble]
  | cons c text ih =>
    by_cases hescape : (!isPrintable c || isBreak c || c == '"' || c == '\\') = true
    · have hrender : renderDouble (c :: text) = '\\' :: escapeCode c ++ renderDouble text := by
        simp only [renderDouble, List.flatMap_cons, hescape, if_true]
      have hread := ih .empty rfl (pos.nextAll ('\\' :: escapeCode c))
        (by rw [Position.column_nextAll]; omega)
      rw [hrender, List.append_assoc, takeDouble_escape, hread]
      simp [Gap.text, Gap.empty, Position.nextAll, List.foldl_append]
    · have hrender : renderDouble (c :: text) = c :: renderDouble text := by
        simp only [renderDouble, List.flatMap_cons, hescape]
        simp
      simp only [Bool.or_eq_true, not_or, Bool.not_eq_true', Bool.not_eq_false, beq_iff_eq,
        Bool.not_eq_true] at hescape
      obtain ⟨⟨⟨hprint, hbreak⟩, hquote⟩, hslash⟩ := hescape
      rw [hrender, List.cons_append, takeDouble_cons hquote hslash, Position.nextAll_cons]
      by_cases hblank : isBlank c = true
      · have hread := ih (gap.addBlank c) (by simp [Gap.addBlank, hgap]) (pos.next c)
          (by simp)
        rw [if_pos hblank, hread]
        simp [Gap.addBlank, Gap.text, hgap]
      · have hread := ih .empty rfl (pos.next c) (by simp)
        rw [if_neg hblank, if_neg (by simp [hbreak]), if_neg (by omega), hread]
        simp [Gap.text, Gap.empty]

/-! ### Texts in single quotes -/

lemma takeSingle_cons {c : Char} (h : c ≠ '\'') (gap : Gap) (pos : Position) (rest : List Char) :
    takeSingle gap pos (c :: rest) =
      if isBlank c then takeSingle (gap.addBlank c) (pos.next c) rest
      else if isBreak c then takeSingle (gap.addBreak c) pos.newLine rest
      else if pos.column = 0 ∧ startsMarker (c :: rest) then none
      else prepend (gap.text ++ [c]) (takeSingle .empty (pos.next c) rest) := by
  rw [takeSingle]
  all_goals simp [h]

lemma takeSingle_close {rest : List Char} (h : rest.head? ≠ some '\'') (gap : Gap)
    (pos : Position) :
    takeSingle gap pos ('\'' :: rest) = some (gap.text, .place (pos.next '\'') rest) := by
  rw [takeSingle]
  rintro rest rfl
  exact h rfl

lemma takeSingle_spaces {gap : Gap} (h : gap.isBroken = true) (n : Nat) (pos : Position)
    (rest : List Char) :
    takeSingle gap pos (spaces n ++ rest) = takeSingle gap (pos.nextAll (spaces n)) rest := by
  induction n generalizing pos with
  | zero => rfl
  | succ n ih =>
    rw [spaces_succ, List.cons_append, takeSingle_cons (by decide), addBlank_of_isBroken h]
    exact ih (pos.next ' ')

/-- The gap in front of the rest of a text in single quotes, of which a line has just been `broken`
or not: a line feed is in it twice, so that it is not taken for a space. -/
structure Gap.Fits (gap : Gap) (broken : Bool) : Prop where
  isBroken : gap.isBroken = broken
  blanks : broken = true → gap.blanks = []
  doubled : ∀ more, gap.breaks = some (['\n'], more) → more ≠ []

namespace Gap

lemma fits_empty : empty.Fits false where
  isBroken := rfl
  blanks h := by cases h
  doubled _ h := by cases h

/-- One more blank in a line adds itself to the text. -/
lemma Fits.addBlank {gap : Gap} (h : gap.Fits false) (c : Char) :
    (gap.addBlank c).Fits false ∧ (gap.addBlank c).text = gap.text ++ [c] := by
  obtain ⟨blanks, breaks⟩ := gap
  obtain rfl : breaks = none := by simpa [Gap.isBroken] using h.isBroken
  refine ⟨⟨rfl, ?_, ?_⟩, by simp [text, Gap.addBlank]⟩
  · rintro ⟨⟩
  · rintro more ⟨⟩

/-- One more break after others adds itself to the text. -/
lemma Fits.addBreak {gap : Gap} (h : gap.Fits true) (c : Char) :
    (gap.addBreak c).Fits true ∧ (gap.addBreak c).text = gap.text ++ [c] := by
  obtain ⟨blanks, breaks⟩ := gap
  obtain ⟨hbroken, hblanks, hdoubled⟩ := h
  cases breaks with
  | none => cases hbroken
  | some breaks =>
    obtain ⟨first, more⟩ := breaks
    refine ⟨⟨rfl, hblanks, fun _ heq => ?_⟩, ?_⟩
    · cases heq
      simp
    · by_cases hfirst : first = ['\n']
      · subst hfirst
        simp [text, Gap.addBreak, hdoubled more rfl]
      · simp [text, Gap.addBreak, hfirst]

end Gap

/-- A line break is written once, or as two line feeds if it is the first and a line feed. Either
way it is read as itself. -/
lemma takeSingle_break {c : Char} (hc : isBreak c = true) {gap : Gap} {broken : Bool}
    (hgap : gap.Fits broken) (hblanks : gap.blanks = []) (pos : Position) (rest : List Char) :
    ∃ gap' pos', gap'.Fits true ∧ gap'.text = gap.text ++ [c] ∧ pos.line ≤ pos'.line ∧
      takeSingle gap pos ((if !broken && c == '\n' then ['\n'] else []) ++ c :: rest) =
        takeSingle gap' pos' rest := by
  have hquote : c ≠ '\'' := by
    rintro rfl
    exact absurd hc (by decide)
  have hblank : isBlank c = false := by
    simp only [isBreak, Bool.or_eq_true, beq_iff_eq] at hc
    rcases hc with (rfl | rfl) | rfl <;> decide
  have hstep : ∀ gap pos, takeSingle gap pos (c :: rest) =
      takeSingle (gap.addBreak c) pos.newLine rest := by
    intro gap pos
    rw [takeSingle_cons hquote, if_neg (by simp [hblank]), if_pos hc]
  cases broken with
  | true =>
    obtain ⟨hfits, htext⟩ := hgap.addBreak c
    exact ⟨_, pos.newLine, hfits, htext, by simp, by simpa using hstep gap pos⟩
  | false =>
    obtain ⟨blanks, breaks⟩ := gap
    obtain rfl : blanks = [] := hblanks
    obtain rfl : breaks = none := by simpa [Gap.isBroken] using hgap.isBroken
    by_cases hfeed : c = '\n'
    · subst hfeed
      refine ⟨⟨[], some (['\n'], ['\n'])⟩, pos.newLine.newLine, ⟨rfl, fun _ => rfl, ?_⟩, rfl,
        Nat.le_add_right pos.line 2, ?_⟩
      · intro more h
        cases h
        simp
      · rw [if_pos (by decide), List.singleton_append, takeSingle_cons (by decide),
          if_neg (by decide), if_pos (by decide)]
        exact hstep _ _
    · refine ⟨⟨[], some ([c], [])⟩, pos.newLine, ⟨rfl, fun _ => rfl, ?_⟩, ?_, by simp, ?_⟩
      · intro more h
        cases h
        exact absurd rfl hfeed
      · simp [Gap.text, hfeed]
      · rw [if_neg (by simp [hfeed]), List.nil_append]
        exact hstep _ _

/-- A gap with a line break in it swallows the indentation of the line after it. -/
lemma takeSingle_margin {indent : Nat} (hindent : 0 < indent) {gap : Gap} {broken : Bool}
    (hgap : gap.Fits broken) {pos : Position} (hpos : broken = false → 0 < pos.column)
    (rest : List Char) :
    ∃ pos', pos'.line = pos.line ∧ 0 < pos'.column ∧
      takeSingle gap pos ((if broken then spaces indent else []) ++ rest) =
        takeSingle gap pos' rest := by
  cases broken with
  | true =>
    refine ⟨_, Position.line_nextAll pos _, ?_, takeSingle_spaces hgap.isBroken indent pos rest⟩
    rw [Position.column_nextAll, length_spaces]
    omega
  | false => exact ⟨pos, rfl, hpos rfl, rfl⟩

lemma takeSingle_renderSingle {indent : Nat} (hindent : 0 < indent) {rest : List Char}
    (hrest : rest.head? ≠ some '\'') {text : List Char} (hprint : ∀ c ∈ text, isPrintable c = true)
    (hbefore : hasSpaceBeforeBreak text = false) (hafter : hasSpaceAfterBreak text = false)
    {gap : Gap} {broken : Bool} (hgap : gap.Fits broken)
    (hblanks : gap.blanks ≠ [] → text.head?.any isAnyBreak = false)
    (hspace : broken = true → text.head? ≠ some ' ') (pos : Position)
    (hpos : broken = false → 0 < pos.column) :
    ∃ pos', pos.line ≤ pos'.line ∧
      takeSingle gap pos (renderSingle indent broken text ++ '\'' :: rest) =
        some (gap.text ++ text, .place pos' rest) := by
  induction text generalizing gap broken pos with
  | nil =>
    obtain ⟨pos', hline, -, hread⟩ := takeSingle_margin hindent hgap hpos ('\'' :: rest)
    refine ⟨pos'.next '\'', by simp [hline], ?_⟩
    rw [renderSingle, hread, takeSingle_close hrest, List.append_nil]
  | cons c text ih =>
    rw [List.forall_mem_cons] at hprint
    simp only [hasSpaceBeforeBreak, hasSpaceAfterBreak, hasNeighbours, Bool.or_eq_false_iff,
      Bool.and_eq_false_imp, beq_iff_eq] at hbefore hafter
    -- what follows is read from an empty gap, unless `c` goes into the gap itself
    have hword : ∀ pos : Position, 0 < pos.column → ∃ pos', pos.line ≤ pos'.line ∧
        prepend (gap.text ++ [c]) (takeSingle .empty pos
          (renderSingle indent false text ++ '\'' :: rest)) =
        some (gap.text ++ c :: text, .place pos' rest) := by
      intro pos hpos
      obtain ⟨pos', hline, hread⟩ := ih hprint.2 hbefore.2 hafter.2 Gap.fits_empty
        (fun h => absurd rfl h) (fun h => by cases h) pos (fun _ => hpos)
      refine ⟨pos', hline, ?_⟩
      rw [hread]
      simp [Gap.text, Gap.empty]
    by_cases hbreak : isBreak c = true
    · have hnone : gap.blanks = [] := by
        by_contra h
        simpa [isAnyBreak, hbreak] using hblanks h
      obtain ⟨gap', pos₁, hfits, htext, hline₁, hstep⟩ := takeSingle_break hbreak hgap hnone pos
        (renderSingle indent true text ++ '\'' :: rest)
      have hhead : text.head? ≠ some ' ' := by
        have h := hafter.1 (by simp [isAnyBreak, hbreak])
        intro heq
        simp [heq] at h
      obtain ⟨pos', hline, hread⟩ := ih hprint.2 hbefore.2 hafter.2 hfits
        (fun h => absurd (hfits.blanks rfl) h) (fun _ => hhead) pos₁ (fun h => by cases h)
      refine ⟨pos', Nat.le_trans hline₁ hline, ?_⟩
      rw [renderSingle, if_pos hbreak, List.append_assoc, List.cons_append, hstep, hread, htext,
        List.append_assoc, List.singleton_append]
    · obtain ⟨pos₁, hline₁, hpos₁, hskip⟩ := takeSingle_margin hindent hgap hpos
        ((if c == '\'' then ['\'', '\''] else [c]) ++
          (renderSingle indent false text ++ '\'' :: rest))
      rw [renderSingle, if_neg hbreak, List.append_assoc, List.append_assoc, hskip, ← hline₁]
      by_cases hquote : c = '\''
      · subst hquote
        obtain ⟨pos', hline, hread⟩ := hword (pos₁.nextAll ['\'', '\'']) (by simp)
        refine ⟨pos', by simpa using hline, ?_⟩
        simpa [takeSingle] using hread
      · rw [if_neg (by simpa using hquote), List.singleton_append, takeSingle_cons hquote]
        by_cases hblank : isBlank c = true
        · obtain rfl := eq_space_of_isBlank hprint.1 hblank
          obtain rfl : broken = false := by
            rw [Bool.eq_false_iff]
            exact fun h => hspace h rfl
          obtain ⟨hfits, htext⟩ := hgap.addBlank ' '
          obtain ⟨pos', hline, hread⟩ := ih hprint.2 hbefore.2 hafter.2 hfits
            (fun _ => hbefore.1 rfl) (fun h => by cases h) (pos₁.next ' ') (by simp)
          refine ⟨pos', by simpa using hline, ?_⟩
          rw [if_pos hblank, hread, htext, List.append_assoc, List.singleton_append]
        · obtain ⟨pos', hline, hread⟩ := hword (pos₁.next c) (by simp)
          refine ⟨pos', by simpa using hline, ?_⟩
          rw [if_neg hblank, if_neg hbreak, if_neg (by omega), hread]

end RequestTrail.Yaml
