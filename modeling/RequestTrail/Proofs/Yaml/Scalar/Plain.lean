import RequestTrail.Proofs.Yaml.Line
import RequestTrail.Yaml.Scalar.Flow

/-!
# Plain texts read back

A text that allows it is written as it is. It is read up to the colon of a key, or up to a line
that is indented less.
-/

namespace RequestTrail.Yaml

lemma takePlain_spaces {gap : Gap} (h : gap.isBroken = true) (margin n : Nat) (pos : Position)
    (rest : List Char) :
    takePlain false margin gap pos (spaces n ++ rest) =
      takePlain false margin gap (pos.nextAll (spaces n)) rest := by
  induction n generalizing pos with
  | zero => rfl
  | succ n ih =>
    rw [spaces_succ, List.cons_append, takePlain]
    simp only [isBlank, addBlank_of_isBroken h]
    simpa using ih (pos.next ' ')

/-- A plain text ends at the end of its line, if the next line is indented less. -/
lemma takePlain_line {line : List Char} (hline : startsLine line = true) {margin : Nat}
    (h : indentation line < margin) (pos : Position) :
    takePlain false margin .empty pos ('\n' :: line) =
      some ([], true,
        .place (pos.newLine.nextAll (spaces (indentation line))) (unindented line)) := by
  have hbroken : (Gap.empty.addBreak '\n').isBroken = true := rfl
  have hstep : takePlain false margin .empty pos ('\n' :: line) =
      takePlain false margin (Gap.empty.addBreak '\n') pos.newLine line := by
    simp [takePlain, isBlank, isBreak]
  have hskip := takePlain_spaces hbroken margin (indentation line) pos.newLine (unindented line)
  rw [spaces_append_unindented] at hskip
  rw [hstep, hskip]
  rw [startsLine] at hline
  cases hrest : unindented line with
  | nil => simp [takePlain, hbroken]
  | cons c rest =>
    simp only [hrest, startsToken, Bool.and_eq_true, Bool.not_eq_true'] at hline
    obtain ⟨⟨⟨hblank, hbreak⟩, -⟩, -⟩ := hline
    have hends : endsAfterGap false margin (indentation line) (c :: rest) = true := by
      simp [endsAfterGap, h]
    have hgap : (Gap.empty.addBreak '\n').isEmpty = false := rfl
    simp [takePlain, hblank, hbreak, hends, hbroken, hgap]

/-- A plain text ends at a colon before a blank or a line break. -/
lemma takePlain_colon {rest : List Char} (h : endsWord rest = true) (margin : Nat)
    (pos : Position) :
    takePlain false margin .empty pos (':' :: rest) =
      some ([], false, .place pos (':' :: rest)) := by
  have hends : endsPlain false ':' rest = true := by simp [endsPlain, h]
  simp [takePlain, isBlank, isBreak, lineSeparator, paragraphSeparator, Gap.isEmpty, Gap.empty,
    Gap.isBroken, hends]

/-- A word that goes on in the text does so whatever follows the text. -/
lemma endsWord_append {text : List Char} (h : endsAnyWord text = false) (rest : List Char) :
    endsWord (text ++ rest) = false := by
  cases text with
  | nil => cases h
  | cons c text =>
    simp only [endsAnyWord, Bool.or_eq_false_iff] at h
    simp [endsWord, h.1, isBreak_eq_false h.2]

lemma takePlain_append {text : List Char} (hprint : ∀ c ∈ text, isPrintable c = true)
    (hbreak : ∀ c ∈ text, isAnyBreak c = false) (hlast : text.getLast? ≠ some ' ')
    {before : Char} (hsign : hasInnerSign before text = false) (gap : Gap)
    (hgap : gap.breaks = none) (hbefore : gap.blanks ≠ [] → isBlank before = true)
    (hend : text = [] → gap.blanks = []) {margin : Nat} (pos : Position) (hpos : 0 < pos.column)
    (hmargin : margin ≤ pos.column) (rest : List Char) :
    takePlain false margin gap pos (text ++ rest) =
      prepend (gap.text ++ text) (takePlain false margin .empty (pos.nextAll text) rest) := by
  induction text generalizing before gap pos with
  | nil =>
    obtain ⟨blanks, breaks⟩ := gap
    obtain rfl : breaks = none := hgap
    obtain rfl : blanks = [] := hend rfl
    simp [Gap.text, Gap.empty]
  | cons c text ih =>
    rw [List.forall_mem_cons] at hprint hbreak
    simp only [hasInnerSign, Bool.or_eq_false_iff, Bool.and_eq_false_imp, beq_iff_eq] at hsign
    obtain ⟨⟨hcolon, hhash⟩, hsign⟩ := hsign
    rw [List.cons_append, takePlain]
    by_cases hc : c = ' '
    · subst hc
      have htext : text ≠ [] := by
        rintro rfl
        exact hlast rfl
      have hlast' : text.getLast? ≠ some ' ' := by
        rwa [List.getLast?_cons_of_ne_nil htext] at hlast
      have hblanks : gap.addBlank ' ' = { gap with blanks := ' ' :: gap.blanks } := by
        simp [Gap.addBlank, hgap]
      have hread := ih hprint.2 hbreak.2 hlast' hsign (gap.addBlank ' ')
        (by simp [hblanks, hgap]) (fun _ => rfl) (fun hnil => absurd hnil htext) (pos.next ' ')
        (by simp)
        (Nat.le_succ_of_le hmargin)
      have htexts : (gap.addBlank ' ').text = gap.text ++ [' '] := by
        simp [hblanks, Gap.text, hgap]
      rw [if_pos (by decide), if_neg (by simp [Gap.isBroken, hgap]), hread, htexts,
        List.append_assoc, List.singleton_append, Position.nextAll_cons]
    · have hblank : isBlank c = false := by
        rw [Bool.eq_false_iff]
        exact fun h => hc (eq_space_of_isBlank hprint.1 h)
      have hline : isBreak c = false := isBreak_eq_false hbreak.1
      have hgo : (!gap.isEmpty && endsAfterGap false margin pos.column (c :: (text ++ rest))) =
          false := by
        by_cases hblanks : gap.blanks = []
        · simp [Gap.isEmpty, hblanks, hgap]
        · have hne : c ≠ '#' := by
            intro h
            simpa [hbefore hblanks] using hhash h
          simp [endsAfterGap, hne, Nat.ne_of_gt hpos, hmargin]
      have hplain : endsPlain false c (text ++ rest) = false := by
        by_cases h : c = ':'
        · simp [endsPlain, endsWord_append (hcolon h)]
        · simp [endsPlain, h]
      have hlast' : text.getLast? ≠ some ' ' := by
        cases text with
        | nil => simp
        | cons d text => rwa [List.getLast?_cons_cons] at hlast
      have hread := ih hprint.2 hbreak.2 hlast' hsign .empty rfl (fun h => absurd rfl h)
        (fun _ => rfl) (pos.next c) (by simp) (Nat.le_succ_of_le hmargin)
      simp only [hblank, hline, hgo, hplain, Bool.false_and, Bool.false_eq_true, if_false]
      rw [hread, prepend_prepend]
      simp [Gap.text, Gap.empty]

/-- What a text that is written plainly begins with and holds. -/
structure PlainText (c : Char) (text : List Char) : Prop where
  isPrintable : ∀ d ∈ c :: text, isPrintable d = true
  isAnyBreak : ∀ d ∈ c :: text, isAnyBreak d = false
  isBlank : isBlank c = false
  last : (c :: text).getLast? ≠ some ' '
  sign : c ∉ "#,[]\x7b\x7d&*!|>'\"%@`".toList
  word : c = '?' ∨ c = ':' ∨ c = '-' → endsAnyWord text = false
  inner : hasInnerSign c text = false

lemma plainText_of_allowsPlain {c : Char} {text : List Char}
    (h : allowsPlain (c :: text) = true) : PlainText c text := by
  simp only [allowsPlain, hasSign, Bool.and_eq_true, Bool.not_eq_true', bne_iff_ne,
    Bool.or_eq_false_iff] at h
  obtain ⟨⟨⟨⟨hprint, hbreak⟩, hhead⟩, hlast⟩, ⟨⟨-, hsign⟩, hword⟩, hinner⟩ := h
  have hprint := isPrintable_of_needsEscape hprint
  refine ⟨hprint, ?_, ?_, hlast, ?_, ?_, hinner⟩
  · simpa [Bool.not_eq_true] using hbreak
  · rw [Bool.eq_false_iff]
    intro hblank
    exact hhead (by rw [eq_space_of_isBlank (hprint c List.mem_cons_self) hblank]; rfl)
  · simpa using hsign
  · intro hc
    rw [Bool.and_eq_false_imp] at hword
    exact hword (by simpa [or_assoc] using hc)

/-- A text that is written plainly is read as it is, with what is read after it. -/
lemma takePlain_of_plainText {c : Char} {text : List Char} (h : PlainText c text) {margin : Nat}
    (pos : Position) (hmargin : margin ≤ pos.column + 1) (rest : List Char) :
    takePlain false margin .empty pos (c :: text ++ rest) =
      prepend (c :: text) (takePlain false margin .empty (pos.nextAll (c :: text)) rest) := by
  have hbreak : isBreak c = false := isBreak_eq_false (h.isAnyBreak c List.mem_cons_self)
  have hgap : Gap.empty.isEmpty = true := rfl
  have hplain : endsPlain false c (text ++ rest) = false := by
    by_cases hc : c = ':'
    · simp [endsPlain, endsWord_append (h.word (Or.inr (Or.inl hc)))]
    · simp [endsPlain, hc]
  have hlast : text.getLast? ≠ some ' ' := by
    intro hlast
    exact h.last (by simp [List.getLast?_cons, hlast])
  have hread := takePlain_append (fun d hd => h.isPrintable d (List.mem_cons_of_mem c hd))
    (fun d hd => h.isAnyBreak d (List.mem_cons_of_mem c hd)) hlast h.inner .empty rfl
    (fun hne => absurd rfl hne) (fun _ => rfl) (pos.next c) (by simp) hmargin rest
  rw [List.cons_append, takePlain]
  simp only [h.isBlank, hbreak, hgap, hplain, Bool.not_true, Bool.false_and, Bool.false_eq_true,
    if_false]
  rw [hread, prepend_prepend]
  rfl

end RequestTrail.Yaml
