import RequestTrail.Proofs.Yaml.Scalar.Block
import RequestTrail.Proofs.Yaml.Scalar.Plain
import RequestTrail.Proofs.Yaml.Scalar.Quoted
import RequestTrail.Yaml.Token

/-!
# The written forms of a text

A text is written in one of four forms, which end with their last line. The form that is chosen for
a text is one that the text allows. All that is written are printable characters, so that neither
the test of the characters nor the spelling of line breaks changes it.
-/

namespace RequestTrail.Yaml

/-- The style in which a text is quoted. -/
def quotedStyle (text : List Char) : ScalarStyle :=
  if allowsSingle text then .singleQuoted else .doubleQuoted

/-- The style that fits a text. -/
def textStyle (text : List Char) : ScalarStyle :=
  if text.contains '\n' then (if allowsLines text then .literal else .doubleQuoted)
  else if !looksTyped text && allowsPlain text then .plain
  else quotedStyle text

/-- What is written for a text in a style, below a block at the given column, to the end of the
line. -/
inductive Written (column : Nat) (text : List Char) : ScalarStyle → List Char → Prop where
  | plain (hne : text ≠ []) (h : allowsPlain text = true) :
    Written column text .plain (text ++ ['\n'])
  | single (h : allowsSingle text = true) :
    Written column text .singleQuoted
      ('\'' :: (renderSingle (column + 2) false text ++ ['\'', '\n']))
  | double : Written column text .doubleQuoted ('"' :: (renderDouble text ++ ['"', '\n']))
  | literal (hne : text ≠ []) (h : needsEscape text = false) :
    Written column text .literal
      ('|' :: (lineSigns text ++ '\n' :: (renderLines (column + 2) true text ++ lineEnd text)))

lemma endLine_concat {last : Char} (h : isBreak last = false) (line : List Char) :
    endLine (line ++ [last]) = line ++ [last, '\n'] := by
  simp [endLine, h]

lemma written_renderQuoted (column : Nat) (text : List Char) :
    Written column text (quotedStyle text) (endLine (renderQuoted (column + 2) text)) := by
  by_cases h : allowsSingle text = true
  · rw [quotedStyle, if_pos h, renderQuoted, if_pos h, endLine_concat (by decide)]
    simpa using Written.single h
  · rw [quotedStyle, if_neg h, renderQuoted, if_neg h, endLine_concat (by decide)]
    simpa using Written.double

lemma getLast?_renderLines (indent : Nat) (broken : Bool) (text : List Char) :
    (renderLines indent broken text).getLast? = text.getLast? := by
  induction text generalizing broken with
  | nil => rfl
  | cons c text ih =>
    by_cases hc : isBreak c = true
    · rw [renderLines, if_pos hc, List.getLast?_cons, ih, List.getLast?_cons]
    · rw [renderLines, if_neg hc, List.getLast?_append, List.getLast?_cons, ih, List.getLast?_cons]
      rfl

lemma written_renderText (column : Nat) (text : List Char) :
    Written column text (textStyle text) (endLine (renderText (column + 2) text)) := by
  by_cases hfeed : text.contains '\n' = true
  · have hne : text ≠ [] := by
      rintro rfl
      cases hfeed
    by_cases hlines : allowsLines text = true
    · rw [textStyle, if_pos hfeed, if_pos hlines, renderText, if_pos hfeed, if_pos hlines]
      have hlast : ('|' :: lineSigns text ++ '\n' :: renderLines (column + 2) true text).getLast? =
          text.getLast? := by
        rw [List.getLast?_append, List.getLast?_cons, getLast?_renderLines,
          List.getLast?_eq_some_getLast hne]
        rfl
      have hend : endLine ('|' :: lineSigns text ++ '\n' :: renderLines (column + 2) true text) =
          '|' :: (lineSigns text ++ '\n' ::
            (renderLines (column + 2) true text ++ lineEnd text)) := by
        rw [endLine, hlast, lineEnd]
        by_cases hbreak : text.getLast?.any isBreak = true <;> simp [hbreak]
      rw [hend]
      simp only [allowsLines, Bool.and_eq_true, Bool.not_eq_true'] at hlines
      exact Written.literal hne hlines.1.1
    · rw [textStyle, if_pos hfeed, if_neg hlines, renderText, if_pos hfeed, if_neg hlines,
        endLine_concat (by decide)]
      simpa using Written.double
  · by_cases hplain : (!looksTyped text && allowsPlain text) = true
    · rw [textStyle, if_neg hfeed, if_pos hplain, renderText, if_neg hfeed, if_pos hplain]
      simp only [Bool.and_eq_true, Bool.not_eq_true'] at hplain
      have hne : text ≠ [] := by
        rintro rfl
        cases hplain.1
      have hend : endLine text = text ++ ['\n'] := by
        have hlast : text.getLast?.any isBreak = false := by
          rw [List.getLast?_eq_some_getLast hne, Option.any_some]
          simp only [allowsPlain, Bool.and_eq_true, Bool.not_eq_true', List.any_eq_false] at hplain
          exact isBreak_eq_false (by simpa using hplain.2.1.1.1.2 _ (List.getLast_mem hne))
        simp [endLine, hlast]
      rw [hend]
      exact Written.plain hne hplain.2
    · rw [textStyle, if_neg hfeed, if_neg hplain, renderText, if_neg hfeed, if_neg hplain]
      exact written_renderQuoted column text

/-- What is written for a text begins with a token. -/
lemma Written.startsToken {column : Nat} {text shown : List Char} {style : ScalarStyle}
    (h : Written column text style shown) (rest : List Char) :
    startsToken (shown ++ rest) = true := by
  cases h with
  | plain hne hplain =>
    obtain ⟨c, text, rfl⟩ := List.exists_cons_of_ne_nil hne
    have hstarts := plainText_of_allowsPlain hplain
    have hhash : c ≠ '#' := by
      rintro rfl
      exact hstarts.sign (by decide)
    have hmark : c ≠ byteOrderMark := by
      rintro rfl
      exact absurd (hstarts.isPrintable _ List.mem_cons_self) (by decide)
    simp [Yaml.startsToken, hstarts.isBlank, hhash, hmark,
      isBreak_eq_false (hstarts.isAnyBreak c List.mem_cons_self)]
  | single h =>
    rw [List.cons_append, Yaml.startsToken]
    decide
  | double =>
    rw [List.cons_append, Yaml.startsToken]
    decide
  | literal hne h =>
    rw [List.cons_append, Yaml.startsToken]
    decide

/-! ### Printable characters -/

lemma isAllowed_of_isPrintable {c : Char} (h : isPrintable c = true) : isAllowed c = true := by
  simp only [isPrintable, Bool.or_eq_true, Bool.and_eq_true, beq_iff_eq, decide_eq_true_eq] at h
  simp only [isAllowed, Bool.or_eq_true, Bool.and_eq_true, beq_iff_eq, decide_eq_true_eq]
  omega

lemma unifyBreaks_of_isPrintable {text : List Char} (h : ∀ c ∈ text, isPrintable c = true) :
    unifyBreaks text = text := by
  induction text with
  | nil => rfl
  | cons c text ih =>
    rw [List.forall_mem_cons] at h
    have hreturn : c ≠ '\r' := by
      rintro rfl
      exact absurd h.1 (by decide)
    have hnext : c ≠ nextLine := by
      rintro rfl
      exact absurd h.1 (by decide)
    rw [unifyBreaks, if_neg (by simp [hreturn, hnext]), ih h.2]
    rintro rest rfl
    exact absurd rfl hreturn

lemma isPrintable_of_mem_spaces {n : Nat} {c : Char} (h : c ∈ spaces n) : isPrintable c = true := by
  obtain rfl := List.eq_of_mem_replicate h
  decide

lemma mem_renderSingle {indent : Nat} {broken : Bool} {text : List Char} {c : Char}
    (h : c ∈ renderSingle indent broken text) : c ∈ spaces indent ∨ c = '\n' ∨ c ∈ text := by
  induction text generalizing broken with
  | nil =>
    cases broken with
    | true => exact Or.inl h
    | false => cases h
  | cons d text ih =>
    rw [renderSingle] at h
    split at h
    · rw [List.mem_append, List.mem_cons] at h
      rcases h with h | rfl | h
      · right
        left
        split at h
        · exact List.mem_singleton.1 h
        · cases h
      · simp
      · rcases ih h with h | h | h <;> simp [h]
    · rw [List.append_assoc, List.mem_append, List.mem_append] at h
      rcases h with h | h | h
      · left
        split at h
        · exact h
        · cases h
      · right
        right
        split at h <;> simp_all
      · rcases ih h with h | h | h <;> simp [h]

lemma mem_renderLines {indent : Nat} {broken : Bool} {text : List Char} {c : Char}
    (h : c ∈ renderLines indent broken text) : c ∈ spaces indent ∨ c ∈ text := by
  induction text generalizing broken with
  | nil => cases h
  | cons d text ih =>
    rw [renderLines] at h
    split at h
    · rw [List.mem_cons] at h
      rcases h with rfl | h
      · simp
      · rcases ih h with h | h <;> simp [h]
    · rw [List.mem_append, List.mem_cons] at h
      rcases h with h | rfl | h
      · left
        split at h
        · exact h
        · cases h
      · simp
      · rcases ih h with h | h <;> simp [h]

lemma isPrintable_of_mem_hexDigits {width n : Nat} {c : Char} (h : c ∈ hexDigits width n) :
    isPrintable c = true := by
  have hdigit : ∀ m < 16, isPrintable (hexDigit m) = true := by decide
  induction width generalizing n with
  | zero => cases h
  | succ width ih =>
    rw [hexDigits, List.mem_append, List.mem_singleton] at h
    rcases h with h | rfl
    · exact ih h
    · exact hdigit _ (Nat.mod_lt n (by decide))

lemma isPrintable_of_mem_escapeCode {c d : Char} (h : d ∈ escapeCode c) : isPrintable d = true := by
  rcases escapeCode_cases c with ⟨e, hcode, -, -, he, -⟩ | ⟨hcode, -⟩ | ⟨hcode, -⟩ | ⟨hcode, -⟩
  · rw [hcode, List.mem_singleton] at h
    exact h ▸ he
  all_goals
    rw [hcode, List.mem_cons] at h
    rcases h with rfl | h
    · decide
    · exact isPrintable_of_mem_hexDigits h

lemma isPrintable_of_mem_renderDouble {text : List Char} {c : Char} (h : c ∈ renderDouble text) :
    isPrintable c = true := by
  obtain ⟨d, -, hc⟩ := List.mem_flatMap.1 h
  split at hc
  · rw [List.mem_cons] at hc
    rcases hc with rfl | hc
    · decide
    · exact isPrintable_of_mem_escapeCode hc
  · rw [List.mem_singleton] at hc
    simp_all

lemma isPrintable_of_mem_lineSigns {text : List Char} {c : Char} (h : c ∈ lineSigns text) :
    isPrintable c = true := by
  have hsigns := List.all_eq_true.1 (show ['2', '-', '+'].all Yaml.isPrintable = true by decide)
  apply hsigns
  rw [lineSigns_eq, List.mem_append] at h
  rcases h with h | h
  · split at h
    · simp_all
    · cases h
  · cases hend : endChomping text <;> simp_all [Chomping.sign]

/-- All that is written for a text is printable. -/
lemma Written.isPrintable {column : Nat} {text shown : List Char} {style : ScalarStyle}
    (h : Written column text style shown) : ∀ c ∈ shown, isPrintable c = true := by
  have hsingle := List.all_eq_true.1 (show ['\'', '\n'].all Yaml.isPrintable = true by decide)
  have hdouble := List.all_eq_true.1 (show ['"', '\n'].all Yaml.isPrintable = true by decide)
  have hfeed := List.all_eq_true.1 (show ['\n'].all Yaml.isPrintable = true by decide)
  intro c hc
  cases h with
  | plain hne h =>
    simp only [allowsPlain, Bool.and_eq_true, Bool.not_eq_true'] at h
    rcases List.mem_append.1 hc with hc | hc
    · exact isPrintable_of_needsEscape h.1.1.1.1 c hc
    · exact hfeed c hc
  | single h =>
    simp only [allowsSingle, Bool.and_eq_true, Bool.not_eq_true'] at h
    rw [List.mem_cons, List.mem_append] at hc
    rcases hc with rfl | hc | hc
    · decide
    · rcases mem_renderSingle hc with hc | rfl | hc
      · exact isPrintable_of_mem_spaces hc
      · decide
      · exact isPrintable_of_needsEscape h.1.1 c hc
    · exact hsingle c hc
  | double =>
    rw [List.mem_cons, List.mem_append] at hc
    rcases hc with rfl | hc | hc
    · decide
    · exact isPrintable_of_mem_renderDouble hc
    · exact hdouble c hc
  | literal hne h =>
    rw [List.mem_cons, List.mem_append, List.mem_cons, List.mem_append] at hc
    rcases hc with rfl | hc | rfl | hc | hc
    · decide
    · exact isPrintable_of_mem_lineSigns hc
    · decide
    · rcases mem_renderLines hc with hc | hc
      · exact isPrintable_of_mem_spaces hc
      · exact isPrintable_of_needsEscape h c hc
    · rw [lineEnd] at hc
      split at hc
      · cases hc
      · exact hfeed c hc

end RequestTrail.Yaml
