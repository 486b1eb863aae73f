import RequestTrail.Text

/-!
# String literals

The characters between the quotes of a JSON string literal. `escape` writes a text as such
characters, `unescape?` reads them back, and `take?` finds where a literal ends. A literal may hold
an escape for half of a surrogate pair; it is well formed, but no text can be read from it. Main
statements: a written literal ends at its own closing quote (`take?_escape_append`), and what is
written reads back (`unescape?_escape`).
-/

namespace RequestTrail.Json

/-- The hexadecimal digit of a number below sixteen, in lower case. -/
def hexDigit (n : Nat) : Char :=
  if n < 10 then Char.ofNat (48 + n) else Char.ofNat (87 + n)

/-- The character that a one-letter escape stands for. -/
def shortEscape? : Char → Option Char
  | '"' => some '"'
  | '\\' => some '\\'
  | '/' => some '/'
  | 'b' => some '\x08'
  | 'f' => some '\x0c'
  | 'n' => some '\n'
  | 'r' => some '\r'
  | 't' => some '\t'
  | _ => none

/-- The number written by four hexadecimal digits. -/
def hexQuad? (a b c d : Char) : Option Nat := do
  let a ← Text.digitValue? a
  let b ← Text.digitValue? b
  let c ← Text.digitValue? c
  let d ← Text.digitValue? d
  return ((a * 16 + b) * 16 + c) * 16 + d

/-- Whether a character may stand for itself in a literal. -/
def isPlain (c : Char) : Bool :=
  0x20 ≤ c.toNat && c != '"' && c != '\\'

/-- A character as it is written in a literal: by itself, by a one-letter escape, or, for the other
control characters, by its number. -/
def escapeChar (c : Char) : List Char :=
  if c = '"' then ['\\', '"']
  else if c = '\\' then ['\\', '\\']
  else if c = '\x08' then ['\\', 'b']
  else if c = '\x0c' then ['\\', 'f']
  else if c = '\n' then ['\\', 'n']
  else if c = '\r' then ['\\', 'r']
  else if c = '\t' then ['\\', 't']
  else if c.toNat < 0x20 then
    ['\\', 'u', '0', '0', hexDigit (c.toNat / 16), hexDigit (c.toNat % 16)]
  else [c]

/-- A text as the characters of a literal. -/
def escape (text : List Char) : List Char :=
  text.flatMap escapeChar

/-- The text of a literal's characters. A high surrogate must be followed by a low one. -/
def unescape? : List Char → Option (List Char)
  | [] => some []
  | '\\' :: 'u' :: a :: b :: c :: d :: rest =>
    match hexQuad? a b c d with
    | none => none
    | some n =>
      if 0xD800 ≤ n ∧ n < 0xDC00 then
        match rest with
        | '\\' :: 'u' :: a :: b :: c :: d :: rest =>
          match hexQuad? a b c d with
          | none => none
          | some m =>
            if 0xDC00 ≤ m ∧ m < 0xE000 then
              (unescape? rest).map
                (Char.ofNat (0x10000 + (n - 0xD800) * 0x400 + (m - 0xDC00)) :: ·)
            else none
        | _ => none
      else if 0xDC00 ≤ n ∧ n < 0xE000 then none
      else (unescape? rest).map (Char.ofNat n :: ·)
  | '\\' :: c :: rest =>
    match shortEscape? c with
    | none => none
    | some decoded => (unescape? rest).map (decoded :: ·)
  | c :: rest => if isPlain c then (unescape? rest).map (c :: ·) else none

/-- The characters of a literal up to its closing quote, and the characters after that quote. -/
def take? : List Char → Option (List Char × List Char)
  | [] => none
  | '"' :: rest => some ([], rest)
  | '\\' :: 'u' :: a :: b :: c :: d :: rest =>
    if (hexQuad? a b c d).isSome then
      (take? rest).map fun (raw, rest) => ('\\' :: 'u' :: a :: b :: c :: d :: raw, rest)
    else none
  | '\\' :: c :: rest =>
    if (shortEscape? c).isSome then (take? rest).map fun (raw, rest) => ('\\' :: c :: raw, rest)
    else none
  | c :: rest => if isPlain c then (take? rest).map fun (raw, rest) => (c :: raw, rest) else none

/-! ### Reading what was written -/

theorem isPlain_iff {c : Char} : isPlain c = true ↔ 0x20 ≤ c.toNat ∧ c ≠ '"' ∧ c ≠ '\\' := by
  simp [isPlain, and_assoc]

theorem unescape?_cons_of_isPlain {c : Char} (h : isPlain c = true) (rest : List Char) :
    unescape? (c :: rest) = (unescape? rest).map (c :: ·) := by
  have hc : c ≠ '\\' := (isPlain_iff.1 h).2.2
  rw [unescape?]
  · simp [h]
  · rintro a b x y r rfl; exact absurd rfl hc
  · rintro a r rfl; exact absurd rfl hc

theorem hexQuad?_hexDigit {n : Nat} (h : n < 0x20) :
    hexQuad? '0' '0' (hexDigit (n / 16)) (hexDigit (n % 16)) = some n := by
  revert n
  decide

theorem unescape?_escapeChar_append (c : Char) (rest : List Char) :
    unescape? (escapeChar c ++ rest) = (unescape? rest).map (c :: ·) := by
  unfold escapeChar
  repeat' split
  case isFalse.isFalse.isFalse.isFalse.isFalse.isFalse.isFalse.isTrue h =>
    have hn : ¬ 0xD800 ≤ c.toNat := by omega
    have hm : ¬ 0xDC00 ≤ c.toNat := by omega
    simp [unescape?, hexQuad?_hexDigit h, hn, hm]
  case isFalse.isFalse.isFalse.isFalse.isFalse.isFalse.isFalse.isFalse hq hb _ _ _ _ _ h =>
    exact unescape?_cons_of_isPlain (isPlain_iff.2 ⟨by omega, hq, hb⟩) rest
  all_goals subst c; simp [unescape?, shortEscape?]

theorem unescape?_escape (text : List Char) : unescape? (escape text) = some text := by
  induction text with
  | nil => simp [escape, unescape?]
  | cons c text ih =>
    rw [escape, List.flatMap_cons, unescape?_escapeChar_append]
    simpa [escape] using ih

theorem escapeChar_of_isPlain {c : Char} (h : isPlain c = true) : escapeChar c = [c] := by
  obtain ⟨hn, hq, hb⟩ := isPlain_iff.1 h
  have hne : ∀ d : Char, d.toNat < 0x20 → c ≠ d := by
    rintro d hd rfl
    omega
  simp [escapeChar, hq, hb, hne '\x08' (by decide), hne '\x0c' (by decide), hne '\n' (by decide),
    hne '\r' (by decide), hne '\t' (by decide), Nat.not_lt.2 hn]

theorem escape_of_forall_isPlain {text : List Char} (h : ∀ c ∈ text, isPlain c = true) :
    escape text = text := by
  induction text with
  | nil => rfl
  | cons c text ih =>
    rw [List.forall_mem_cons] at h
    rw [escape, List.flatMap_cons, escapeChar_of_isPlain h.1, ← escape, ih h.2,
      List.singleton_append]

/-! ### Where a written literal ends -/

theorem take?_cons_of_isPlain {c : Char} (h : isPlain c = true) (rest : List Char) :
    take? (c :: rest) = (take? rest).map fun (raw, rest) => (c :: raw, rest) := by
  obtain ⟨-, hq, hb⟩ := isPlain_iff.1 h
  rw [take?]
  · simp [h]
  · exact hq
  · rintro a b x y r rfl; exact absurd rfl hb
  · rintro a r rfl; exact absurd rfl hb

theorem take?_escapeChar_append (c : Char) (rest : List Char) :
    take? (escapeChar c ++ rest) =
      (take? rest).map fun (raw, rest) => (escapeChar c ++ raw, rest) := by
  unfold escapeChar
  repeat' split
  case isFalse.isFalse.isFalse.isFalse.isFalse.isFalse.isFalse.isTrue h =>
    simp [take?, hexQuad?_hexDigit h]
  case isFalse.isFalse.isFalse.isFalse.isFalse.isFalse.isFalse.isFalse hq hb _ _ _ _ _ h =>
    exact take?_cons_of_isPlain (isPlain_iff.2 ⟨by omega, hq, hb⟩) rest
  all_goals subst c; simp [take?, shortEscape?]

theorem take?_escape_append (text rest : List Char) :
    take? (escape text ++ '"' :: rest) = some (escape text, rest) := by
  induction text with
  | nil => simp [escape, take?]
  | cons c text ih =>
    rw [escape, List.flatMap_cons, List.append_assoc, take?_escapeChar_append]
    simp [← escape.eq_1, ih]

end RequestTrail.Json
