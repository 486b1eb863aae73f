import Mathlib.Data.List.TakeWhile
import Mathlib.Tactic.Ring
import RequestTrail.Attribution
import RequestTrail.Proofs.Traversal

/-!
# Runs of digits

What the scan for resource identifiers finds in a text, told from the runs of ASCII digits in it. A
run is maximal if no digit stands next to it. It yields its first ten digits, the ten digits after
them and so on; what is left over at its end is not joined with the digits of a later run. Ten
digits always fit into 64 bits, so that no identifier is lost.

The scan counts digits one by one, and a search for ten digits in a row jumps ahead behind each that
it finds. Both take a text apart in the same way: a run of digits gives its blocks, a character that
is no digit gives nothing, and nothing is carried over from either.
-/

namespace RequestTrail

namespace Text

lemma digitValue_lt (c : Char) : digitValue c < 10 := by
  unfold digitValue
  split
  · rename_i hc
    simp only [Char.isDigit, ge_iff_le, Bool.and_eq_true, decide_eq_true_eq] at hc
    have hle : c.toNat ≤ 57 := hc.2
    omega
  · omega

/-- There are no digits but the ten of ASCII. -/
lemma mem_of_isDigit {c : Char} (h : c.isDigit = true) : c ∈ "0123456789".toList := by
  have hdigit : ∀ n < 10, digit n ∈ "0123456789".toList := by decide
  have hlow : 48 ≤ c.toNat := by
    simp only [Char.isDigit, ge_iff_le, Bool.and_eq_true, decide_eq_true_eq] at h
    exact h.1
  have hc : digit (digitValue c) = c := by
    rw [digit, digitValue, if_pos h, Nat.add_sub_cancel' hlow, Char.ofNat_toNat]
  rw [← hc]
  exact hdigit _ (digitValue_lt c)

lemma valueFrom_lt (start : Nat) (digits : List Char) :
    valueFrom start digits < (start + 1) * 10 ^ digits.length := by
  induction digits generalizing start with
  | nil => simp [valueFrom]
  | cons c cs ih =>
    have hc := digitValue_lt c
    calc valueFrom start (c :: cs)
      _ = valueFrom (start * 10 + digitValue c) cs := rfl
      _ < (start * 10 + digitValue c + 1) * 10 ^ cs.length := ih _
      _ ≤ ((start + 1) * 10) * 10 ^ cs.length := Nat.mul_le_mul_right _ (by omega)
      _ = (start + 1) * 10 ^ (c :: cs).length := by rw [List.length_cons]; ring

lemma value_lt (digits : List Char) : value digits < 10 ^ digits.length := by
  have h := valueFrom_lt 0 digits
  rwa [Nat.zero_add, Nat.one_mul] at h

end Text

namespace ResourceId

variable {front rest digits : List Char}

/-! ### Maximal runs -/

/-- Digits in a row, and how many characters stand before them in a text. -/
structure DigitRun where
  start : Nat
  digits : List Char
deriving DecidableEq, Repr

namespace DigitRun

/-- The run when more characters stand before it. -/
def shift (offset : Nat) (run : DigitRun) : DigitRun :=
  { run with start := offset + run.start }

/-- The run stands in the text, and no digit stands next to it. -/
def IsMaximalIn (text : List Char) (run : DigitRun) : Prop :=
  ∃ before after, text = before ++ run.digits ++ after ∧ before.length = run.start ∧
    run.digits ≠ [] ∧ (∀ c ∈ run.digits, c.isDigit = true) ∧
    (∀ c ∈ before.getLast?, c.isDigit = false) ∧ ∀ c ∈ after.head?, c.isDigit = false

variable {run : DigitRun}

lemma IsMaximalIn.start_lt (h : run.IsMaximalIn front) : run.start < front.length := by
  obtain ⟨before, after, rfl, hstart, hne, -⟩ := h
  have hpos := List.length_pos_iff.2 hne
  simp only [List.length_append]
  omega

/-! ### Parted texts -/

lemma eq_nil_of_getLast? (hdigits : ∀ c ∈ digits, c.isDigit = true)
    (h : ∀ c ∈ digits.getLast?, c.isDigit = false) : digits = [] := by
  by_contra hne
  have hlast := h _ (List.getLast_mem_getLast? hne)
  rw [hdigits _ (List.getLast_mem hne)] at hlast
  exact absurd hlast (by simp)

lemma eq_nil_of_head? (hdigits : ∀ c ∈ digits, c.isDigit = true)
    (h : ∀ c ∈ digits.head?, c.isDigit = false) : digits = [] := by
  by_contra hne
  have hhead := h _ (List.head_mem_head? hne)
  rw [hdigits _ (List.head_mem hne)] at hhead
  exact absurd hhead (by simp)

/-- Two texts between which no run of digits goes on. -/
def Parted (front rest : List Char) : Prop :=
  (∀ c ∈ front.getLast?, c.isDigit = false) ∨ ∀ c ∈ rest.head?, c.isDigit = false

/-- Digits that lie on both sides of the border between parted texts lie on one side. -/
lemma Parted.eq_nil {before left right after : List Char}
    (h : Parted (before ++ left) (right ++ after))
    (hdigits : ∀ c ∈ left ++ right, c.isDigit = true) : left = [] ∨ right = [] := by
  rw [List.forall_mem_append] at hdigits
  rcases h with hlast | hhead
  · refine .inl (eq_nil_of_getLast? hdigits.1 ?_)
    intro c hc
    exact hlast c (List.mem_getLast?_append_of_mem_getLast? hc)
  · refine .inr (eq_nil_of_head? hdigits.2 ?_)
    intro c hc
    exact hhead c (List.mem_head?_append_of_mem_head? hc)

/-- A maximal run in the first of two parted texts is one in both together. -/
lemma IsMaximalIn.append_right (hparted : Parted front rest) (h : run.IsMaximalIn front) :
    run.IsMaximalIn (front ++ rest) := by
  obtain ⟨before, after, rfl, hstart, hne, hdigits, hbefore, hafter⟩ := h
  refine ⟨before, after ++ rest, by simp, hstart, hne, hdigits, hbefore, ?_⟩
  cases after with
  | nil =>
    -- the run ends at the border, so that it is the second text that parts them
    rcases hparted with hlast | hhead
    · refine absurd (eq_nil_of_getLast? hdigits ?_) hne
      intro c hc
      rw [List.append_nil] at hlast
      exact hlast c (List.mem_getLast?_append_of_mem_getLast? hc)
    · exact hhead
  | cons c after => simpa using hafter

/-- A maximal run in the second of two parted texts is one in both together. -/
lemma IsMaximalIn.append_left (hparted : Parted front rest) (h : run.IsMaximalIn rest) :
    (run.shift front.length).IsMaximalIn (front ++ rest) := by
  obtain ⟨before, after, rfl, hstart, hne, hdigits, hbefore, hafter⟩ := h
  refine ⟨front ++ before, after, by simp [shift], by simp [shift, hstart], hne, hdigits, ?_,
    hafter⟩
  cases before with
  | nil =>
    rcases hparted with hlast | hhead
    · rwa [List.append_nil]
    · refine absurd (eq_nil_of_head? hdigits ?_) hne
      intro c hc
      exact hhead c (List.mem_head?_append_of_mem_head? hc)
  | cons c before => rwa [List.getLast?_append_of_ne_nil _ (List.cons_ne_nil c before)]

/-- No maximal run goes over the border between two parted texts. -/
lemma IsMaximalIn.of_append (hparted : Parted front rest) (h : run.IsMaximalIn (front ++ rest)) :
    run.IsMaximalIn front ∨
      ∃ later : DigitRun, later.IsMaximalIn rest ∧ later.shift front.length = run := by
  obtain ⟨start, digits⟩ := run
  obtain ⟨before, after, htext, rfl, hne, hdigits, hbefore, hafter⟩ := h
  dsimp only at htext hne hdigits
  -- where the run ends, in the second text or in the first, and then where it starts
  rcases List.append_eq_append_iff.1 htext with ⟨right, hfront, rfl⟩ | ⟨gap, rfl, rfl⟩
  · rcases List.append_eq_append_iff.1 hfront with ⟨left, rfl, rfl⟩ | ⟨gap, rfl, rfl⟩
    · rcases hparted.eq_nil hdigits with rfl | rfl
      · refine .inr ⟨⟨0, right⟩, ?_, by simp [shift]⟩
        exact ⟨[], after, rfl, rfl, hne, hdigits, by simp, hafter⟩
      · rw [List.append_nil] at hne hdigits ⊢
        exact .inl ⟨before, [], by simp, rfl, hne, hdigits, hbefore, by simp⟩
    · refine .inr ⟨⟨gap.length, digits⟩, ⟨gap, after, rfl, rfl, hne, hdigits, ?_, hafter⟩, ?_⟩
      · intro c hc
        exact hbefore c (List.mem_getLast?_append_of_mem_getLast? hc)
      · simp [shift]
  · refine .inl ⟨before, gap, rfl, rfl, hne, hdigits, hbefore, ?_⟩
    intro c hc
    exact hafter c (List.mem_head?_append_of_mem_head? hc)

/-- A row of digits is its only maximal run. -/
lemma isMaximalIn_digits_iff (hne : digits ≠ []) (hdigits : ∀ c ∈ digits, c.isDigit = true) :
    run.IsMaximalIn digits ↔ run = ⟨0, digits⟩ := by
  constructor
  · rintro ⟨before, after, rfl, hstart, -, -, hbefore, hafter⟩
    simp only [List.forall_mem_append] at hdigits
    obtain rfl := eq_nil_of_getLast? hdigits.1.1 hbefore
    obtain rfl := eq_nil_of_head? hdigits.2 hafter
    obtain ⟨start, digits⟩ := run
    simpa using hstart.symm
  · rintro rfl
    exact ⟨[], [], by simp, rfl, hne, hdigits, by simp, by simp⟩

lemma not_isMaximalIn_singleton {c : Char} (hc : c.isDigit = false) :
    ¬ run.IsMaximalIn [c] := by
  rintro ⟨before, after, htext, -, hne, hdigits, -⟩
  obtain ⟨d, hd⟩ := List.exists_mem_of_ne_nil _ hne
  have hmem : d ∈ [c] := by simp [htext, hd]
  obtain rfl := List.mem_singleton.1 hmem
  exact absurd (hdigits d hd) (by simp [hc])

/-- The maximal runs of parted texts are those of the first and then those of the second. -/
lemma enumerates_append {runs later : List DigitRun} (hparted : Parted front rest)
    (hfront : Enumerates (IsMaximalIn front) (fun a b => a.start < b.start) runs)
    (hrest : Enumerates (IsMaximalIn rest) (fun a b => a.start < b.start) later) :
    Enumerates (IsMaximalIn (front ++ rest)) (fun a b => a.start < b.start)
      (runs ++ later.map (shift front.length)) where
  mem_iff run := by
    rw [List.mem_append, List.mem_map, hfront.mem_iff]
    simp only [hrest.mem_iff]
    constructor
    · rintro (h | ⟨run, h, rfl⟩)
      · exact h.append_right hparted
      · exact h.append_left hparted
    · exact IsMaximalIn.of_append hparted
  ordered := by
    refine List.pairwise_append.2 ⟨hfront.ordered, ?_, ?_⟩
    · rw [List.pairwise_map]
      refine hrest.ordered.imp ?_
      intro a b hlt
      exact Nat.add_lt_add_left hlt _
    · intro a ha b hb
      obtain ⟨b, -, rfl⟩ := List.mem_map.1 hb
      exact Nat.lt_of_lt_of_le ((hfront.mem_iff a).1 ha).start_lt (Nat.le_add_right _ _)

end DigitRun

/-- The maximal runs of digits in a text, from left to right. -/
def digitRuns : List Char → List DigitRun
  | [] => []
  | c :: cs =>
    if c.isDigit then
      let digits := c :: cs.takeWhile Char.isDigit
      ⟨0, digits⟩ :: (digitRuns (cs.dropWhile Char.isDigit)).map (.shift digits.length)
    else (digitRuns cs).map (.shift 1)
termination_by text => text.length
decreasing_by
  · exact Nat.lt_succ_of_le (List.length_dropWhile_le Char.isDigit cs)
  · simp

/-- Induction along a text, over one character that is no digit or a whole run at a time. -/
lemma runs_induction {motive : List Char → Prop} (nil : motive [])
    (other : ∀ c cs, c.isDigit = false → motive cs → motive (c :: cs))
    (run : ∀ digits rest, digits ≠ [] → (∀ c ∈ digits, c.isDigit = true) →
      (∀ c ∈ rest.head?, c.isDigit = false) → motive rest → motive (digits ++ rest))
    (text : List Char) : motive text := by
  fun_induction digitRuns text with
  | case1 => exact nil
  | case2 c cs hc digits ih =>
    rw [← List.takeWhile_append_dropWhile (p := Char.isDigit) (l := cs), ← List.cons_append]
    refine run digits _ (List.cons_ne_nil _ _) ?_ ?_ ih
    · rw [List.forall_mem_cons]
      exact ⟨hc, fun d hd => List.mem_takeWhile_imp hd⟩
    · intro d hd
      have hhead := List.head?_dropWhile_not Char.isDigit cs
      rwa [Option.mem_def.1 hd] at hhead
  | case3 c cs hc ih => exact other c cs (by simpa using hc) ih

lemma digitRuns_cons {c : Char} (hc : c.isDigit = false) (cs : List Char) :
    digitRuns (c :: cs) = (digitRuns cs).map (.shift 1) := by
  simp [digitRuns, hc]

lemma digitRuns_append (hne : digits ≠ []) (hdigits : ∀ c ∈ digits, c.isDigit = true)
    (hrest : ∀ c ∈ rest.head?, c.isDigit = false) :
    digitRuns (digits ++ rest) = ⟨0, digits⟩ :: (digitRuns rest).map (.shift digits.length) := by
  have hspan : rest.takeWhile Char.isDigit = [] ∧ rest.dropWhile Char.isDigit = rest := by
    cases rest <;> simp_all
  cases digits with
  | nil => exact absurd rfl hne
  | cons c cs =>
    rw [List.forall_mem_cons] at hdigits
    rw [List.cons_append, digitRuns, if_pos hdigits.1, List.takeWhile_append_of_pos hdigits.2,
      List.dropWhile_append_of_pos hdigits.2, hspan.1, hspan.2, List.append_nil]

/-- The runs that are listed are the maximal ones, from left to right. -/
lemma enumerates_digitRuns (text : List Char) :
    Enumerates (DigitRun.IsMaximalIn text) (fun a b => a.start < b.start) (digitRuns text) := by
  induction text using runs_induction with
  | nil =>
    refine ⟨fun run => ?_, by simp [digitRuns]⟩
    simp only [digitRuns, List.not_mem_nil, false_iff]
    intro h
    exact absurd h.start_lt (Nat.not_lt_zero _)
  | other c cs hc ih =>
    have hnone : Enumerates (DigitRun.IsMaximalIn [c]) (fun a b => a.start < b.start) [] :=
      ⟨fun run => by simp [DigitRun.not_isMaximalIn_singleton hc], .nil⟩
    rw [digitRuns_cons hc]
    exact DigitRun.enumerates_append (.inl (by simpa using hc)) hnone ih
  | run digits rest hne hdigits hrest ih =>
    have hone : Enumerates (DigitRun.IsMaximalIn digits) (fun a b => a.start < b.start)
        [⟨0, digits⟩] := by
      refine ⟨fun run => ?_, List.pairwise_singleton _ _⟩
      rw [List.mem_singleton, DigitRun.isMaximalIn_digits_iff hne hdigits]
    rw [digitRuns_append hne hdigits hrest]
    exact DigitRun.enumerates_append (.inr hrest) hone ih

/-! ### Blocks of ten -/

/-- The blocks of ten digits one after the other from the start of a run; the digits that are left
over at its end are in none of them. -/
def blocks (digits : List Char) : List (List Char) :=
  (List.range (digits.length / width)).map fun i => (digits.drop (width * i)).take width

/-- Induction along a run, over a block at a time. -/
lemma blocks_induction {motive : List Char → Prop}
    (short : ∀ digits, digits.length < width → motive digits)
    (block : ∀ block digits, block.length = width → motive digits → motive (block ++ digits))
    (digits : List Char) : motive digits := by
  induction h : digits.length using Nat.strongRecOn generalizing digits with
  | _ n ih =>
    rcases Nat.lt_or_ge digits.length width with hlt | hge
    · exact short digits hlt
    · rw [← List.take_append_drop width digits]
      refine block _ _ (List.length_take_of_le hge) (ih _ ?_ _ rfl)
      rw [List.length_drop, ← h]
      exact Nat.sub_lt (Nat.lt_of_lt_of_le (by decide) hge) (by decide)

lemma blocks_of_length_lt (h : digits.length < width) : blocks digits = [] := by
  simp [blocks, Nat.div_eq_of_lt h]

lemma blocks_append {block : List Char} (h : block.length = width) (digits : List Char) :
    blocks (block ++ digits) = block :: blocks digits := by
  have hpos : 0 < width := by decide
  rw [blocks, List.length_append, h, Nat.add_div_left _ hpos, List.range_succ_eq_map, List.map_cons,
    List.map_map]
  congr 1
  · simp [← h]
  · apply List.map_congr_left
    intro i _
    have hdrop : (block ++ digits).drop (width * (i + 1)) = digits.drop (width * i) := by
      rw [Nat.mul_succ, Nat.add_comm, ← List.drop_drop, List.drop_left' h]
    exact congrArg (List.take width) hdrop

lemma of_mem_blocks {block : List Char} (h : block ∈ blocks digits) :
    block.length = width ∧ block ⊆ digits := by
  induction digits using blocks_induction with
  | short digits hlt => simp [blocks_of_length_lt hlt] at h
  | block first digits hfirst ih =>
    rw [blocks_append hfirst, List.mem_cons] at h
    rcases h with rfl | h
    · exact ⟨hfirst, List.subset_append_left _ _⟩
    · exact ⟨(ih h).1, fun c hc => List.mem_append_right _ ((ih h).2 hc)⟩

/-! ### The scan -/

/-- Digits that do not complete a block are kept in mind. -/
lemma scanFrom_append {count seen : Nat} (hdigits : ∀ c ∈ digits, c.isDigit = true)
    (h : count + digits.length < width) (rest : List Char) :
    scanFrom count seen (digits ++ rest) =
      scanFrom (count + digits.length) (Text.valueFrom seen digits) rest := by
  induction digits generalizing count seen with
  | nil => rfl
  | cons c cs ih =>
    rw [List.forall_mem_cons] at hdigits
    rw [List.length_cons] at h
    have hcount : count + 1 ≠ width := by omega
    rw [List.cons_append, scanFrom, if_pos hdigits.1, if_neg hcount, ih hdigits.2 (by omega),
      List.length_cons, Nat.add_assoc, Nat.add_comm 1]
    rfl

/-- A character that is no digit, or the end of the text, makes the scan forget. -/
lemma scanFrom_of_head? (count seen : Nat) (h : ∀ c ∈ rest.head?, c.isDigit = false) :
    scanFrom count seen rest = scanFrom 0 0 rest := by
  cases rest with
  | nil => rfl
  | cons c cs =>
    have hc : c.isDigit = false := h c rfl
    simp [scanFrom, hc]

lemma scanFrom_block_append {block : List Char} (h : block.length = width)
    (hblock : ∀ c ∈ block, c.isDigit = true) (rest : List Char) :
    scanFrom 0 0 (block ++ rest) = UInt64.ofNat (Text.value block) :: scanFrom 0 0 rest := by
  obtain rfl | ⟨front, last, rfl⟩ := List.eq_nil_or_concat' block
  · exact absurd h (by decide)
  · rw [List.forall_mem_append] at hblock
    rw [List.length_append, List.length_singleton] at h
    have hvalue : Text.value (front ++ [last]) =
        Text.valueFrom 0 front * 10 + Text.digitValue last := by
      simp [Text.value, Text.valueFrom]
    rw [List.append_assoc, scanFrom_append hblock.1 (by omega), List.singleton_append, scanFrom,
      if_pos (hblock.2 last (by simp)), if_pos (by omega), hvalue]

/-- A run of digits is scanned block by block. -/
lemma scanFrom_digits_append (hdigits : ∀ c ∈ digits, c.isDigit = true)
    (hrest : ∀ c ∈ rest.head?, c.isDigit = false) :
    scanFrom 0 0 (digits ++ rest) =
      (blocks digits).map (fun block => UInt64.ofNat (Text.value block)) ++ scanFrom 0 0 rest := by
  induction digits using blocks_induction with
  | short digits hlt =>
    rw [scanFrom_append hdigits (by rwa [Nat.zero_add]), scanFrom_of_head? _ _ hrest,
      blocks_of_length_lt hlt, List.map_nil, List.nil_append]
  | block block digits hblock ih =>
    rw [List.forall_mem_append] at hdigits
    rw [List.append_assoc, scanFrom_block_append hblock hdigits.1, ih hdigits.2,
      blocks_append hblock, List.map_cons, List.cons_append]

/-! ### The search for ten digits in a row -/

lemma occurrences_cons {c : Char} (hc : c.isDigit = false) (cs : List Char) :
    occurrences (c :: cs) = occurrences cs := by
  simp [occurrences, hc]

lemma occurrences_block_append {block : List Char} (h : block.length = width)
    (hblock : ∀ c ∈ block, c.isDigit = true) (rest : List Char) :
    occurrences (block ++ rest) = block :: occurrences rest := by
  cases block with
  | nil => exact absurd h (by decide)
  | cons c cs =>
    have hcs : cs.length = width - 1 := by rw [← h, List.length_cons, Nat.add_sub_cancel]
    rw [List.cons_append, occurrences, List.take_left' hcs, List.drop_left' hcs,
      if_pos ⟨h, List.all_eq_true.2 hblock⟩]

/-- Where a run ends before ten digits, none of them starts an occurrence. -/
lemma occurrences_short_append (hdigits : ∀ c ∈ digits, c.isDigit = true)
    (h : digits.length < width) (hrest : ∀ c ∈ rest.head?, c.isDigit = false) :
    occurrences (digits ++ rest) = occurrences rest := by
  induction digits with
  | nil => rfl
  | cons c cs ih =>
    rw [List.forall_mem_cons] at hdigits
    rw [List.length_cons] at h
    rw [List.cons_append, occurrences, if_neg, ih hdigits.2 (by omega)]
    rintro ⟨hlen, hall⟩
    cases rest with
    | nil =>
      rw [List.append_nil, List.length_cons] at hlen
      have hle := List.length_take_le (width - 1) cs
      have hle' := List.length_take_le' (width - 1) cs
      omega
    | cons d rest =>
      -- the character behind the run is among the ten
      have hmem : d ∈ (cs ++ d :: rest).take (width - 1) := by
        obtain ⟨k, hk⟩ : ∃ k, width - 1 - cs.length = k + 1 :=
          ⟨width - 2 - cs.length, by omega⟩
        simp [List.take_append, hk]
      have hd := List.all_eq_true.1 hall d (List.mem_cons_of_mem c hmem)
      rw [hrest d rfl] at hd
      exact absurd hd (by simp)

lemma occurrences_digits_append (hdigits : ∀ c ∈ digits, c.isDigit = true)
    (hrest : ∀ c ∈ rest.head?, c.isDigit = false) :
    occurrences (digits ++ rest) = blocks digits ++ occurrences rest := by
  induction digits using blocks_induction with
  | short digits hlt =>
    rw [occurrences_short_append hdigits hlt hrest, blocks_of_length_lt hlt, List.nil_append]
  | block block digits hblock ih =>
    rw [List.forall_mem_append] at hdigits
    rw [List.append_assoc, occurrences_block_append hblock hdigits.1, ih hdigits.2,
      blocks_append hblock, List.cons_append]

/-! ### The whole text -/

/-- The search finds the blocks of the maximal runs. -/
lemma occurrences_eq (text : List Char) :
    occurrences text = (digitRuns text).flatMap fun run => blocks run.digits := by
  induction text using runs_induction with
  | nil => simp [occurrences, digitRuns]
  | other c cs hc ih =>
    rw [occurrences_cons hc, digitRuns_cons hc, List.flatMap_map]
    exact ih
  | run digits rest hne hdigits hrest ih =>
    rw [occurrences_digits_append hdigits hrest, digitRuns_append hne hdigits hrest,
      List.flatMap_cons, List.flatMap_map, ih]
    rfl

/-- The scan gives the values of what the search finds. -/
lemma scanFrom_eq (text : List Char) :
    scanFrom 0 0 text = (occurrences text).map fun block => UInt64.ofNat (Text.value block) := by
  induction text using runs_induction with
  | nil => simp [scanFrom, occurrences]
  | other c cs hc ih =>
    rw [occurrences_cons hc, ← ih]
    simp [scanFrom, hc]
  | run digits rest hne hdigits hrest ih =>
    rw [scanFrom_digits_append hdigits hrest, occurrences_digits_append hdigits hrest,
      List.map_append, ih]

/-- What the search finds is ten digits each time. -/
lemma of_mem_occurrences {text block : List Char} (h : block ∈ occurrences text) :
    block.length = width ∧ ∀ c ∈ block, c.isDigit = true := by
  rw [occurrences_eq, List.mem_flatMap] at h
  obtain ⟨run, hrun, hblock⟩ := h
  obtain ⟨-, -, -, -, -, hdigits, -⟩ := ((enumerates_digitRuns text).mem_iff run).1 hrun
  exact ⟨(of_mem_blocks hblock).1, fun c hc => hdigits c ((of_mem_blocks hblock).2 hc)⟩

/-- Ten digits write a number that fits into 64 bits. -/
lemma word64?_block {block : List Char} (h : block.length = width)
    (hblock : ∀ c ∈ block, c.isDigit = true) :
    Text.value block < 10 ^ 10 ∧ (UInt64.ofNat (Text.value block)).toNat = Text.value block ∧
      Text.word64? block = some (UInt64.ofNat (Text.value block)) := by
  have hlt : Text.value block < 10 ^ 10 := by
    have hvalue := Text.value_lt block
    rwa [h] at hvalue
  have hsize : Text.value block < UInt64.size := Nat.lt_trans hlt (by decide)
  have hne : block ≠ [] := by
    rintro rfl
    exact absurd h (by decide)
  have hsign : block.head? ≠ some '+' := by
    intro hhead
    exact absurd (hblock '+' (List.mem_of_mem_head? hhead)) (by decide)
  refine ⟨hlt, UInt64.toNat_ofNat_of_lt' hsize, ?_⟩
  rw [Text.word64?, if_neg hsign, if_pos ⟨hne, List.all_eq_true.2 hblock, hsize⟩]

/-- Texts with a character between them that is no digit are scanned one by one. -/
lemma scanFrom_append_cons {c : Char} (hc : c.isDigit = false) (before after : List Char) :
    scanFrom 0 0 (before ++ c :: after) = scanFrom 0 0 before ++ scanFrom 0 0 after := by
  induction before using runs_induction with
  | nil => simp [scanFrom, hc]
  | other d cs hd ih => simpa [scanFrom, hd] using ih
  | run digits rest hne hdigits hrest ih =>
    have hhead : ∀ d ∈ (rest ++ c :: after).head?, d.isDigit = false := by
      cases rest with
      | nil => simpa using hc
      | cons d rest => simpa using hrest
    rw [List.append_assoc, scanFrom_digits_append hdigits hhead, ih,
      scanFrom_digits_append hdigits hrest, List.append_assoc]

/-- The scan reads the maximal runs of digits in a text from left to right, each in blocks of ten
from its start. These are the places that a search for ten digits in a row comes to. Every one of
them is a number of 64 bits, so none is dropped on the way, and the identifiers are the values of
the blocks. A character that is not one of the ten ASCII digits, whatever Unicode says of it, parts
a text into two that are scanned one by one. -/
theorem scan_reads_runs (text : String) :
    Enumerates (DigitRun.IsMaximalIn text.toList) (fun a b => a.start < b.start)
      (digitRuns text.toList) ∧
    (scan text).map UInt64.toNat =
      (digitRuns text.toList).flatMap (fun run => (blocks run.digits).map Text.value) ∧
    occurrences text.toList = (digitRuns text.toList).flatMap (fun run => blocks run.digits) ∧
    scan text = (occurrences text.toList).filterMap Text.word64? ∧
    (occurrences text.toList).map Text.word64? = (scan text).map some ∧
    (∀ id ∈ scan text, id.toNat < 10 ^ 10) ∧
    ∀ before c after, text = before.push c ++ after → c ∉ "0123456789".toList →
      scan text = scan before ++ scan after := by
  have hscan : scan text =
      (occurrences text.toList).map fun block => UInt64.ofNat (Text.value block) :=
    scanFrom_eq text.toList
  have hword : ∀ block ∈ occurrences text.toList, Text.value block < 10 ^ 10 ∧
      (UInt64.ofNat (Text.value block)).toNat = Text.value block ∧
      Text.word64? block = some (UInt64.ofNat (Text.value block)) := by
    intro block hblock
    obtain ⟨hlen, hdigits⟩ := of_mem_occurrences hblock
    exact word64?_block hlen hdigits
  have hsome : (occurrences text.toList).map Text.word64? = (scan text).map some := by
    rw [hscan, List.map_map]
    exact List.map_congr_left fun block hblock => (hword block hblock).2.2
  refine ⟨enumerates_digitRuns text.toList, ?_, occurrences_eq text.toList, ?_, hsome, ?_, ?_⟩
  · rw [hscan, ← List.map_flatMap, ← occurrences_eq, List.map_map]
    exact List.map_congr_left fun block hblock => (hword block hblock).2.1
  · rw [hscan, ← List.filterMap_eq_map]
    exact List.filterMap_congr fun block hblock => (hword block hblock).2.2.symm
  · intro id hid
    rw [hscan] at hid
    obtain ⟨block, hblock, rfl⟩ := List.mem_map.1 hid
    obtain ⟨hlt, hvalue, -⟩ := hword block hblock
    rwa [hvalue]
  · rintro before c after rfl hc
    have hdigit : c.isDigit = false := by
      rw [← Bool.not_eq_true]
      exact fun h => hc (Text.mem_of_isDigit h)
    have htext : (before.push c ++ after).toList = before.toList ++ c :: after.toList := by
      simp
    rw [scan, htext]
    exact scanFrom_append_cons hdigit before.toList after.toList

theorem scan_reads_runs_foreign :
    let before := "0x7f: 12345678909876543210123"
    let after := "4567890 or 2131623970"
    '١' ∉ "0123456789".toList ∧
      scan (before.push '١' ++ after) = [1234567890, 9876543210] ++ [2131623970] := by
  obtain ⟨-, -, -, -, -, -, hparts⟩ :=
    scan_reads_runs ("0x7f: 12345678909876543210123".push '١' ++ "4567890 or 2131623970")
  exact ⟨by decide, (hparts _ _ _ rfl (by decide)).trans (by decide)⟩

end ResourceId

end RequestTrail
