/-!
# Texts

Texts are compared character by character. The empty text begins every text and occurs in every
text. A text is blank when it holds nothing but white space, in the sense of Unicode.

Natural numbers are written as rows of ASCII digits. `numeral` writes a number without leading
zeros, and `value` reads any row of digits. Main statements: a written number reads back
(`value_numeral`), and is the canonical row of digits for it (`isCanonical_numeral`).
-/

namespace RequestTrail

namespace Text

/-! ### Prefixes and substrings -/

/-- Whether `needle` stands somewhere in the given characters. -/
def occursIn (needle : List Char) : List Char → Bool
  | [] => needle.isEmpty
  | c :: cs => needle.isPrefixOf (c :: cs) || occursIn needle cs

theorem occursIn_iff_infix {needle cs : List Char} :
    occursIn needle cs = true ↔ needle <:+: cs := by
  induction cs with
  | nil => simp [occursIn]
  | cons c cs ih => simp [occursIn, ih, List.infix_cons_iff]

/-- Whether `text` has `needle` as a substring. -/
def contains (text needle : String) : Bool :=
  occursIn needle.toList text.toList

theorem contains_iff_infix {text needle : String} :
    contains text needle = true ↔ needle.toList <:+: text.toList :=
  occursIn_iff_infix

/-- Whether `text` begins with `start`. -/
def startsWith (text start : String) : Bool :=
  start.toList.isPrefixOf text.toList

theorem startsWith_iff {text start : String} :
    startsWith text start = true ↔ start.toList <+: text.toList :=
  List.isPrefixOf_iff_prefix

/-! ### Blank texts -/

/-- The characters with the Unicode property `White_Space`. -/
def isWhiteSpace (c : Char) : Bool :=
  let n := c.toNat
  (0x09 ≤ n && n ≤ 0x0D) || n == 0x20 || n == 0x85 || n == 0xA0 || n == 0x1680 ||
    (0x2000 ≤ n && n ≤ 0x200A) || n == 0x2028 || n == 0x2029 || n == 0x202F || n == 0x205F ||
    n == 0x3000

/-- Whether nothing is left of the text when white space is trimmed from it. -/
def isBlank (text : String) : Bool :=
  text.toList.all isWhiteSpace

@[simp]
theorem isBlank_empty : isBlank "" = true := by
  decide

/-! ### Decimal numerals -/

/-- The value of a digit of base at most sixteen, in either case. -/
def digitValue? (c : Char) : Option Nat :=
  let n := c.toNat
  if 48 ≤ n ∧ n ≤ 57 then some (n - 48)
  else if 97 ≤ n ∧ n ≤ 102 then some (n - 87)
  else if 65 ≤ n ∧ n ≤ 70 then some (n - 55)
  else none

/-- The value of an ASCII decimal digit, and `0` for any other character. -/
def digitValue (c : Char) : Nat :=
  if c.isDigit then c.toNat - 48 else 0

/-- The ASCII digit of a number below ten. -/
def digit (n : Nat) : Char :=
  Char.ofNat (48 + n)

/-- The number that a row of decimal digits writes after the digits of `start`. -/
def valueFrom (start : Nat) (digits : List Char) : Nat :=
  digits.foldl (fun n c => n * 10 + digitValue c) start

/-- The number written by a row of decimal digits. -/
def value (digits : List Char) : Nat :=
  valueFrom 0 digits

/-- The decimal digits of a number, without leading zeros. -/
def numeral (n : Nat) : List Char :=
  if n < 10 then [digit n] else numeral (n / 10) ++ [digit (n % 10)]

theorem digitValue_digit {n : Nat} (h : n < 10) : digitValue (digit n) = n := by
  revert n
  decide

theorem isDigit_digit {n : Nat} (h : n < 10) : (digit n).isDigit = true := by
  revert n
  decide

theorem value_numeral (n : Nat) : value (numeral n) = n := by
  fun_induction numeral n with
  | case1 n h => simp [value, valueFrom, digitValue_digit h]
  | case2 n h ih =>
    simp only [value, valueFrom, List.foldl_append, List.foldl_cons, List.foldl_nil] at ih ⊢
    rw [ih, digitValue_digit (Nat.mod_lt n (by decide))]
    omega

theorem isDigit_of_mem_numeral {n : Nat} {c : Char} (h : c ∈ numeral n) : c.isDigit = true := by
  fun_induction numeral n with
  | case1 n hn => simp_all [isDigit_digit hn]
  | case2 n hn ih =>
    rcases List.mem_append.1 h with h | h
    · exact ih h
    · rw [List.mem_singleton.1 h]
      exact isDigit_digit (Nat.mod_lt n (by decide))

theorem numeral_ne_nil (n : Nat) : numeral n ≠ [] := by
  unfold numeral
  split <;> simp

/-- A numeral is canonical when it is a row of digits with no needless leading zero. -/
def isCanonical : List Char → Bool
  | [] => false
  | [c] => c.isDigit
  | c :: cs => c != '0' && c.isDigit && cs.all Char.isDigit

/-- The number below `bound` that a canonical numeral writes. -/
def canonicalBelow? (bound : Nat) (digits : List Char) : Option Nat :=
  if isCanonical digits && decide (value digits < bound) then some (value digits) else none

theorem digit_ne_zero {n : Nat} (h : n < 10) (pos : 0 < n) : digit n ≠ '0' := by
  revert n
  decide

/-- Only the numeral of zero begins with a zero. -/
theorem head_numeral_ne_zero {n : Nat} (pos : 0 < n) :
    ∃ c rest, numeral n = c :: rest ∧ c ≠ '0' := by
  fun_induction numeral n with
  | case1 n h => exact ⟨digit n, [], rfl, digit_ne_zero h pos⟩
  | case2 n h ih =>
    obtain ⟨c, rest, heq, hc⟩ := ih (by omega)
    exact ⟨c, rest ++ [digit (n % 10)], by rw [heq, List.cons_append], hc⟩

theorem isCanonical_numeral (n : Nat) : isCanonical (numeral n) = true := by
  by_cases hn : n < 10
  · rw [numeral, if_pos hn]
    exact isDigit_digit hn
  · obtain ⟨c, rest, heq, hc⟩ := head_numeral_ne_zero (n := n) (by omega)
    have hdigit : ∀ d ∈ c :: rest, d.isDigit = true := by
      intro d hd
      exact isDigit_of_mem_numeral (heq ▸ hd)
    rw [List.forall_mem_cons] at hdigit
    rw [heq]
    cases rest with
    | nil => exact hdigit.1
    | cons d rest => simp [isCanonical, hc, hdigit.1, List.all_eq_true.2 hdigit.2]

theorem canonicalBelow?_numeral {bound n : Nat} (h : n < bound) :
    canonicalBelow? bound (numeral n) = some n := by
  simp [canonicalBelow?, isCanonical_numeral, value_numeral, h]

end Text

/-! ### Overflow of double precision

When a decimal is too large for a double precision number. A natural number rounds to one with 53
significant bits, halves to the even neighbour; everything that would round to `2 ^ 1024` or beyond
has no finite value.
-/

namespace Binary64

/-- The nearest natural number with at most 53 significant bits, halves to even. -/
def roundNat (n : Nat) : Nat :=
  if n < Nat.pow 2 53 then n
  else
    let unit := Nat.pow 2 (n.log2 - 52)
    let q := n / unit
    let r := n % unit
    let up := unit < 2 * r || (unit == 2 * r && q % 2 == 1)
    (if up then q + 1 else q) * unit

/-- The least number that does not round to a finite value. -/
def limit : Nat := Nat.pow 2 1024 - Nat.pow 2 970

/-- Whether `significand * 10 ^ exponent` has no finite value. The bounds on the exponent only spare
the work of a power that settles nothing. -/
def decimalOverflows (significand : Nat) : Int → Bool
  | .ofNat e => significand != 0 && (decide (310 ≤ e) || decide (limit ≤ significand * Nat.pow 10 e))
  | .negSucc e =>
    decide (e < significand.log2) && decide (limit * Nat.pow 10 (e + 1) ≤ significand)

end Binary64

end RequestTrail
