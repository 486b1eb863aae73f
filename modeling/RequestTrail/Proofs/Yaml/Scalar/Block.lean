import Mathlib.Data.List.Basic
import RequestTrail.Proofs.Yaml.Line
import RequestTrail.Yaml.Scalar.Block

/-!
# Texts written line by line read back

The lines of a text are read as the text, up to the first line that is indented less. The signs at
the bar tell the margin, where the first line does not show it, and keep the breaks at the end.
-/

namespace RequestTrail.Yaml

namespace BlockPlace

/-- The line breaks that have been read and not yet given to the text. -/
def pending : BlockPlace → List Char
  | .text _ => []
  | .margin first more _ => first ++ more.reverse

/-- Whether a line begins at the place. -/
def atMargin : BlockPlace → Bool
  | .text _ => false
  | .margin .. => true

/-- The place after a character of the text. -/
def after (place : BlockPlace) (c : Char) : BlockPlace :=
  match place with
  | .text blank => if isBreak c then .margin [c] [] blank else .text blank
  | .margin first more blank =>
    if isBreak c then .margin first (c :: more) blank else .text (isBlank c)

end BlockPlace

lemma takeLines_spaces (chomping : Chomping) (margin : Nat) (first more : List Char) (blank : Bool)
    (n : Nat) (pos : Position) (h : pos.column + n ≤ margin) (rest : List Char) :
    takeLines false chomping margin (.margin first more blank) pos (spaces n ++ rest) =
      takeLines false chomping margin (.margin first more blank) (pos.nextAll (spaces n)) rest := by
  induction n generalizing pos with
  | zero => rfl
  | succ n ih =>
    rw [spaces_succ, List.cons_append, takeLines, if_pos ⟨rfl, by omega⟩]
    exact ih (pos.next ' ') (by rw [Position.column_next]; omega)

/-- The lines of a text lead from a place to the place after all of its characters. What is read
then, with the breaks that are pending, is the text with the breaks that were pending before. -/
lemma takeLines_renderLines (chomping : Chomping) (margin : Nat) {text : List Char}
    (hprint : ∀ c ∈ text, isPrintable c = true) (place : BlockPlace) (pos : Position)
    (hpos : place.atMargin = true → pos.column = 0) (rest : List Char) :
    ∃ front pos', front ++ (text.foldl BlockPlace.after place).pending = place.pending ++ text ∧
      ((text.foldl BlockPlace.after place).atMargin = true → pos'.column = 0) ∧
      pos.line ≤ pos'.line ∧
      takeLines false chomping margin place pos
          (renderLines margin place.atMargin text ++ rest) =
        prepend front (takeLines false chomping margin (text.foldl BlockPlace.after place) pos'
          rest) := by
  induction text generalizing place pos with
  | nil => exact ⟨[], pos, by simp, hpos, Nat.le_refl _, by simp [renderLines]⟩
  | cons c text ih =>
    rw [List.forall_mem_cons] at hprint
    by_cases hbreak : isBreak c = true
    · have hmargin : (place.after c).atMargin = true := by
        cases place <;> simp [BlockPlace.after, hbreak, BlockPlace.atMargin]
      obtain ⟨front, pos', hfront, hcolumn, hline, hread⟩ :=
        ih hprint.2 (place.after c) pos.newLine (fun _ => rfl)
      refine ⟨front, pos', ?_, hcolumn, Nat.le_of_succ_le hline, ?_⟩
      · rw [List.foldl_cons, hfront]
        cases place <;> simp [BlockPlace.after, hbreak, BlockPlace.pending]
      · rw [hmargin] at hread
        rw [renderLines, if_pos hbreak, List.cons_append, List.foldl_cons, ← hread]
        have hspace : c ≠ ' ' := by
          rintro rfl
          exact absurd hbreak (by decide)
        have htab : c ≠ '\t' := by
          rintro rfl
          exact absurd hbreak (by decide)
        cases place <;> simp [takeLines, BlockPlace.after, hbreak, hspace, htab]
    · have hplace : (place.after c).atMargin = false := by
        cases place <;> simp [BlockPlace.after, hbreak, BlockPlace.atMargin]
      have hpending : (place.after c).pending = [] := by
        cases place <;> simp [BlockPlace.after, hbreak, BlockPlace.pending]
      -- the character stands at the margin, or somewhere in its line
      obtain ⟨pos₁, hline₁, hstep⟩ : ∃ pos₁ : Position, pos₁.line = pos.line ∧
          takeLines false chomping margin place pos
            (renderLines margin place.atMargin (c :: text) ++ rest) =
          prepend (place.pending ++ [c]) (takeLines false chomping margin (place.after c) pos₁
            (renderLines margin false text ++ rest)) := by
        cases place with
        | text blank =>
          refine ⟨pos.next c, rfl, ?_⟩
          simp [renderLines, takeLines, hbreak, BlockPlace.after, BlockPlace.atMargin,
            BlockPlace.pending]
        | margin first more blank =>
          have hzero : pos.column = 0 := hpos rfl
          have hskip := takeLines_spaces chomping margin first more blank margin pos
            (by omega) (c :: (renderLines margin false text ++ rest))
          have hcolumn : (pos.nextAll (spaces margin)).column = margin := by simp [hzero]
          refine ⟨(pos.nextAll (spaces margin)).next c, by simp, ?_⟩
          rw [renderLines, if_neg hbreak, BlockPlace.atMargin, if_pos rfl, List.append_assoc,
            List.cons_append, hskip, takeLines, if_neg (by omega), if_neg (by omega), if_neg hbreak,
            if_pos hcolumn]
          simp [BlockPlace.after, hbreak, BlockPlace.pending, joinLines]
      obtain ⟨front, pos', hfront, hcolumn, hline, hread⟩ :=
        ih hprint.2 (place.after c) pos₁ (fun h => by rw [hplace] at h; cases h)
      rw [hplace] at hread
      refine ⟨place.pending ++ [c] ++ front, pos', ?_, hcolumn, hline₁ ▸ hline, ?_⟩
      · rw [List.foldl_cons, List.append_assoc, hfront, hpending]
        simp
      · rw [hstep, hread, prepend_prepend, List.foldl_cons]

/-- The lines end at a line that is indented less. -/
lemma takeLines_end (chomping : Chomping) {margin : Nat} (first more : List Char) (blank : Bool)
    (pos : Position) (hpos : pos.column = 0) {line : List Char} (hline : startsLine line = true)
    (h : indentation line < margin) :
    takeLines false chomping margin (.margin first more blank) pos line =
      some (chomping.tail first more,
        .place (pos.nextAll (spaces (indentation line))) (unindented line)) := by
  have hskip := takeLines_spaces chomping margin first more blank (indentation line)
    pos (by omega) (unindented line)
  rw [spaces_append_unindented] at hskip
  rw [hskip]
  have hcolumn : (pos.nextAll (spaces (indentation line))).column = indentation line := by
    simp [hpos]
  rw [startsLine] at hline
  cases hrest : unindented line with
  | nil => rfl
  | cons c rest =>
    simp only [hrest, startsToken, Bool.and_eq_true, Bool.not_eq_true', isBlank,
      Bool.or_eq_false_iff, beq_eq_false_iff_ne] at hline
    obtain ⟨⟨⟨⟨hspace, htab⟩, hbreak⟩, -⟩, -⟩ := hline
    rw [takeLines, if_neg (by simp [hspace]), if_neg (by simp [htab]), if_neg (by simp [hbreak]),
      if_neg (by omega)]

/-- What becomes of the breaks at the end of a text that is written line by line. -/
def endChomping (text : List Char) : Chomping :=
  match text.reverse with
  | [] => .strip
  | last :: before =>
    if !isBreak last then .strip
    else
      match before with
      | [] => .keep
      | c :: _ => if isBreak c then .keep else .clip

/-- Whether a text must tell the margin of its lines. -/
def tellsMargin (text : List Char) : Bool :=
  text.head?.any fun c => c == ' ' || isBreak c

/-- The sign of a way to treat the breaks at the end. -/
def Chomping.sign : Chomping → List Char
  | .strip => ['-']
  | .clip => []
  | .keep => ['+']

lemma lineSigns_eq (text : List Char) :
    lineSigns text = (if tellsMargin text then ['2'] else []) ++ (endChomping text).sign := by
  unfold lineSigns
  congr 1
  · cases text <;> simp [tellsMargin]
  · rw [endChomping]
    rcases text.reverse with _ | ⟨last, before⟩
    · rfl
    · by_cases hlast : isBreak last = true
      · rcases before with _ | ⟨c, before⟩
        · simp [hlast, Chomping.sign]
        · by_cases hc : isBreak c = true <;> simp [hlast, hc, Chomping.sign]
      · simp [hlast, Chomping.sign]

lemma takeSigns?_lineSigns (text rest : List Char) :
    takeSigns? (lineSigns text ++ '\n' :: rest) =
      some (endChomping text, if tellsMargin text then some 2 else none, '\n' :: rest) := by
  rw [lineSigns_eq]
  cases endChomping text <;> by_cases h : tellsMargin text = true <;> simp only [h] <;> rfl

/-- A text with a last character leads to a place in its last line, or after breaks that are all
kept. -/
lemma foldl_after_concat (text : List Char) (last : Char) :
    (isBreak last = false ∧ endChomping (text ++ [last]) = .strip ∧
      ∃ blank, (text ++ [last]).foldl BlockPlace.after (.margin [] [] false) = .text blank) ∨
    (isBreak last = true ∧ ∃ first more blank,
      (text ++ [last]).foldl BlockPlace.after (.margin [] [] false) = .margin first more blank ∧
        (endChomping (text ++ [last])).tail first more = first ++ more.reverse) := by
  rw [List.foldl_append, List.foldl_cons, List.foldl_nil]
  by_cases hlast : isBreak last = true
  · right
    refine ⟨hlast, ?_⟩
    rcases List.eq_nil_or_concat' text with rfl | ⟨text, c, rfl⟩
    · refine ⟨[], [last], false, by simp [BlockPlace.after, hlast], ?_⟩
      simp [endChomping, hlast]
      rfl
    · by_cases hc : isBreak c = true
      · have hkeep : endChomping (text ++ [c] ++ [last]) = .keep := by
          simp [endChomping, hlast, hc]
        rw [hkeep]
        cases (text ++ [c]).foldl BlockPlace.after (.margin [] [] false) with
        | text blank => exact ⟨[last], [], blank, by simp [BlockPlace.after, hlast], rfl⟩
        | margin first more blank =>
          exact ⟨first, last :: more, blank, by simp [BlockPlace.after, hlast], rfl⟩
      · have hclip : endChomping (text ++ [c] ++ [last]) = .clip := by
          simp [endChomping, hlast, hc]
        obtain ⟨blank, hplace⟩ :
            ∃ blank, (text ++ [c]).foldl BlockPlace.after (.margin [] [] false) = .text blank := by
          rw [List.foldl_append, List.foldl_cons, List.foldl_nil]
          cases text.foldl BlockPlace.after (.margin [] [] false) <;>
            simp [BlockPlace.after, hc]
        exact ⟨[last], [], blank, by simp [hplace, BlockPlace.after, hlast], by rw [hclip]; rfl⟩
  · left
    rw [Bool.not_eq_true] at hlast
    refine ⟨hlast, by simp [endChomping, hlast], ?_⟩
    cases text.foldl BlockPlace.after (.margin [] [] false) <;> simp [BlockPlace.after, hlast]

lemma takeLeading_spaces (widest n : Nat) (pos : Position) (rest : List Char) :
    takeLeading widest pos (spaces n ++ rest) =
      takeLeading widest (pos.nextAll (spaces n)) rest := by
  induction n generalizing pos with
  | zero => rfl
  | succ n ih =>
    rw [spaces_succ, List.cons_append, takeLeading, if_pos rfl]
    exact ih (pos.next ' ')

/-- The break that is put after a text whose last line has none. -/
def lineEnd (text : List Char) : List Char :=
  if text.getLast?.any isBreak then [] else ['\n']

/-- The lines of a text from the margin to a line that is indented less are the text. -/
lemma takeLines_text (margin : Nat) {text : List Char} (hne : text ≠ [])
    (hprint : ∀ c ∈ text, isPrintable c = true) (pos : Position) (hpos : pos.column = 0)
    {line : List Char} (hline : startsLine line = true) (h : indentation line < margin) :
    ∃ pos', pos.line ≤ pos'.line ∧ pos'.column = indentation line ∧
      takeLines false (endChomping text) margin (.margin [] [] false) pos
          (renderLines margin true text ++ (lineEnd text ++ line)) =
        some (text, .place pos' (unindented line)) := by
  obtain ⟨front, pos₁, hfront, hcolumn, hline₁, hread⟩ :=
    takeLines_renderLines (endChomping text) margin hprint (.margin [] [] false) pos
      (fun _ => hpos) (lineEnd text ++ line)
  rw [show (BlockPlace.margin [] [] false).pending = [] from rfl, List.nil_append] at hfront
  rw [show (BlockPlace.margin [] [] false).atMargin = true from rfl] at hread
  obtain ⟨body, last, rfl⟩ := (List.eq_nil_or_concat' text).resolve_left hne
  rw [hread]
  rcases foldl_after_concat body last with ⟨hlast, hstrip, blank, hplace⟩ |
    ⟨hlast, first, more, blank, hplace, hkeep⟩
  · refine ⟨pos₁.newLine.nextAll (spaces (indentation line)), by simp; omega, by simp, ?_⟩
    have hend := takeLines_end .strip ['\n'] [] blank pos₁.newLine rfl hline h
    rw [hplace] at hfront ⊢
    rw [BlockPlace.pending, List.append_nil] at hfront
    rw [lineEnd, if_neg (by simp [hlast]), List.singleton_append, hstrip, takeLines,
      if_pos (by decide), hend, prepend_some, hfront]
    simp [Chomping.tail]
  · refine ⟨pos₁.nextAll (spaces (indentation line)), by simpa using hline₁, ?_, ?_⟩
    · rw [hplace] at hcolumn
      simp [hcolumn rfl]
    · rw [hplace] at hfront hcolumn ⊢
      rw [lineEnd, if_pos (by simp [hlast]), List.nil_append,
        takeLines_end _ first more blank pos₁ (hcolumn rfl) hline h, hkeep, prepend_some]
      rw [BlockPlace.pending] at hfront
      rw [hfront]

lemma takeBlock_renderLines {text : List Char} (hne : text ≠ [])
    (hprint : ∀ c ∈ text, isPrintable c = true) (depth : Nat) (pos : Position) {line : List Char}
    (hline : startsLine line = true) (h : indentation line ≤ depth) :
    ∃ pos', pos.line < pos'.line ∧ pos'.column = indentation line ∧
      takeBlock false (depth + 1) pos (lineSigns text ++ '\n' ::
          (renderLines (depth + 2) true text ++ (lineEnd text ++ line))) =
        some (text, .place pos' (unindented line)) := by
  obtain ⟨pos', hline', hcolumn, hread⟩ := takeLines_text (depth + 2) hne hprint pos.newLine rfl
    hline (by omega)
  refine ⟨pos', hline', hcolumn, ?_⟩
  simp only [takeBlock, takeSigns?_lineSigns, Option.bind_eq_bind, Option.bind_some]
  have hfeed : ∀ cs, restOfLine? ('\n' :: cs) = some ('\n' :: cs) := fun _ => rfl
  simp only [hfeed, Option.bind_some]
  by_cases hmargin : tellsMargin text = true
  · simpa [hmargin, Nat.add_sub_cancel] using hread
  · -- the first line shows the margin
    simp only [hmargin, if_neg, Bool.false_eq_true, not_false_eq_true]
    obtain ⟨c, text, rfl⟩ := List.exists_cons_of_ne_nil hne
    simp only [tellsMargin, List.head?_cons, Option.any_some, Bool.or_eq_true, beq_iff_eq,
      not_or] at hmargin
    have htab : c ≠ '\t' := by
      rintro rfl
      exact absurd (hprint '\t' List.mem_cons_self) (by decide)
    have hbody : renderLines (depth + 2) true (c :: text) ++ (lineEnd (c :: text) ++ line) =
        spaces (depth + 2) ++
          c :: (renderLines (depth + 2) false text ++ (lineEnd (c :: text) ++ line)) := by
      simp [renderLines, hmargin.2]
    rw [hbody] at hread ⊢
    rw [takeLines_spaces _ _ _ _ _ _ _ (by simp)] at hread
    have hcolumn : max 0 (pos.newLine.nextAll (spaces (depth + 2))).column = depth + 2 := by
      rw [Position.column_nextAll, length_spaces, Position.column_newLine]
      omega
    have hmax : max (depth + 2) (max (depth + 1) 1) = depth + 2 := by omega
    rw [takeLeading_spaces, takeLeading, if_neg hmargin.1, if_neg htab, if_neg hmargin.2, hcolumn]
    simp only [Option.bind_some, hmax]
    exact hread

end RequestTrail.Yaml
