import Mathlib.Data.List.TakeWhile
import RequestTrail.Yaml.Printer
import RequestTrail.Yaml.Scalar.Flow

/-!
# Lines and places

Small facts about places in a text, about the characters that are written as they are, and about
the indentation of lines.
-/

namespace RequestTrail.Yaml

/-! ### Places -/

namespace Position

@[simp]
lemma line_next (pos : Position) (c : Char) : (pos.next c).line = pos.line := rfl

@[simp]
lemma column_next (pos : Position) (c : Char) : (pos.next c).column = pos.column + 1 := rfl

@[simp]
lemma nextAll_nil (pos : Position) : pos.nextAll [] = pos := rfl

@[simp]
lemma nextAll_cons (pos : Position) (c : Char) (cs : List Char) :
    pos.nextAll (c :: cs) = (pos.next c).nextAll cs := rfl

@[simp]
lemma line_nextAll (pos : Position) (cs : List Char) : (pos.nextAll cs).line = pos.line := by
  induction cs generalizing pos with
  | nil => rfl
  | cons c cs ih => exact ih (pos.next c)

@[simp]
lemma column_nextAll (pos : Position) (cs : List Char) :
    (pos.nextAll cs).column = pos.column + cs.length := by
  induction cs generalizing pos with
  | nil => rfl
  | cons c cs ih =>
    rw [nextAll_cons, ih, column_next, List.length_cons]
    omega

lemma offset_nextAll_le (pos : Position) (cs : List Char) :
    (pos.nextAll cs).offset ≤ pos.offset + 4 * cs.length := by
  induction cs generalizing pos with
  | nil => simp
  | cons c cs ih =>
    have hnext : (pos.next c).offset = pos.offset + c.utf8Size := rfl
    have := ih (pos.next c)
    have := c.utf8Size_le_four
    rw [nextAll_cons, List.length_cons]
    omega

@[simp]
lemma column_newLine (pos : Position) : pos.newLine.column = 0 := rfl

@[simp]
lemma line_newLine (pos : Position) : pos.newLine.line = pos.line + 1 := rfl

end Position

lemma prepend_prepend {α : Type} (first second : List Char) (result : Option (List Char × α)) :
    prepend first (prepend second result) = prepend (first ++ second) result := by
  cases result <;> simp [prepend]

@[simp]
lemma prepend_nil {α : Type} (result : Option (List Char × α)) : prepend [] result = result := by
  cases result <;> simp [prepend]

@[simp]
lemma prepend_some {α : Type} (front text : List Char) (rest : α) :
    prepend front (some (text, rest)) = some (front ++ text, rest) := rfl

lemma addBlank_of_isBroken {gap : Gap} (h : gap.isBroken = true) (c : Char) :
    gap.addBlank c = gap := by
  obtain ⟨blanks, breaks⟩ := gap
  cases breaks with
  | none => cases h
  | some breaks => rfl

/-! ### Characters that are written as they are -/

lemma isPrintable_of_needsEscape {text : List Char} (h : needsEscape text = false) :
    ∀ c ∈ text, isPrintable c = true := by
  simpa [needsEscape] using h

/-- Of the blanks, only the space is printed as it is. -/
lemma eq_space_of_isBlank {c : Char} (hc : isPrintable c = true) (h : isBlank c = true) :
    c = ' ' := by
  simp only [isBlank, Bool.or_eq_true, beq_iff_eq] at h
  rcases h with rfl | rfl
  · rfl
  · exact absurd hc (by decide)

lemma isBreak_eq_false {c : Char} (h : isAnyBreak c = false) : isBreak c = false := by
  simp only [isAnyBreak, Bool.or_eq_false_iff] at h
  exact h.1.1

/-! ### Lines -/

/-- How far a line is indented. -/
def indentation (line : List Char) : Nat :=
  (line.takeWhile (· == ' ')).length

/-- A line without its indentation. -/
def unindented (line : List Char) : List Char :=
  line.dropWhile (· == ' ')

/-- Whether a sign comes next that is neither skipped nor the start of a comment, or nothing. -/
def startsToken : List Char → Bool
  | [] => true
  | c :: _ => !isBlank c && !isBreak c && c != '#' && c != byteOrderMark

/-- Whether a line begins with such a sign after its indentation. -/
def startsLine (line : List Char) : Bool :=
  startsToken (unindented line)

@[simp]
lemma spaces_succ (n : Nat) : spaces (n + 1) = ' ' :: spaces n := rfl

@[simp]
lemma length_spaces (n : Nat) : (spaces n).length = n :=
  List.length_replicate

lemma spaces_append_unindented (line : List Char) :
    spaces (indentation line) ++ unindented line = line := by
  have hspaces : spaces (indentation line) = line.takeWhile (· == ' ') := by
    rw [spaces, indentation, eq_comm, List.eq_replicate_iff]
    refine ⟨rfl, fun c hc => ?_⟩
    simpa using List.mem_takeWhile_imp hc
  rw [hspaces, unindented, List.takeWhile_append_dropWhile]

lemma indentation_spaces_append (n : Nat) {c : Char} (h : c ≠ ' ') (rest : List Char) :
    indentation (spaces n ++ c :: rest) = n := by
  simp [indentation, spaces, List.takeWhile_append_of_pos, h]

lemma unindented_spaces_append (n : Nat) {c : Char} (h : c ≠ ' ') (rest : List Char) :
    unindented (spaces n ++ c :: rest) = c :: rest := by
  simp [unindented, spaces, List.dropWhile_append_of_pos, h]

end RequestTrail.Yaml
