import RequestTrail.Proofs.Yaml.Style
import RequestTrail.Yaml.Lexer

/-!
# Steps of the lexer

One step of the lexer moves on to the next token and reads it. The places between the steps are of
two kinds: at a line of which nothing has been read, and after the colon or the dash of a line. The
lemmas here say how the lexer moves on at either.
-/

namespace RequestTrail.Yaml

namespace TokenLog

lemma size_eq_length (log : TokenLog) : log.size = log.toList.length := by
  rw [toList, List.length_reverse, log.size_eq]

lemma toList_insertAt {log : TokenLog} {front back : List Token} (h : log.toList = front ++ back)
    (token : Token) : (log.insertAt front.length token).toList = front ++ token :: back := by
  have hinsert : ∀ xs ys : List Token,
      (xs ++ ys).insertIdx xs.length token = xs ++ token :: ys := by
    intro xs ys
    induction xs with
    | nil => rfl
    | cons x xs ih => simp [ih]
  have hlatest : log.latest = back.reverse ++ front.reverse := by
    rw [← List.reverse_append, ← h, toList, List.reverse_reverse]
  have hindex : log.size - front.length = back.reverse.length := by
    rw [log.size_eq, hlatest]
    simp
  show (log.latest.insertIdx (log.size - front.length) token).reverse = front ++ token :: back
  rw [hindex, hlatest, hinsert]
  simp

lemma toList_foldl_push (columns : List Nat) (log : TokenLog) (token : Token) :
    (columns.foldl (fun log _ => log.push token) log).toList =
      log.toList ++ columns.map fun _ => token := by
  induction columns generalizing log with
  | nil => simp
  | cons column columns ih => simp [ih]

end TokenLog

namespace Lexer

/-! ### Steps and places -/

/-- Moves on to the next token, and leaves the keys and the blocks that end before it. -/
def settle (l : Lexer) : Option Lexer :=
  l.advance.expireKeys.map fun l => l.closeBlocks fun column => decide (l.cursor.column < column)

lemma run_of_lexToken {l next l' : Lexer} {c : Char} {rest : List Char} (h : l.settle = some next)
    (hrest : next.cursor.rest = c :: rest) (hlex : next.lexToken c rest = some l') (n : Nat) :
    run (n + 1) l = run n l' := by
  obtain ⟨l₁, hexpire, rfl⟩ := Option.map_eq_some_iff.1 h
  simp only [run, hexpire, Option.bind_eq_bind, Option.bind_some]
  simp [hrest, hlex]

lemma run_of_leaveBlocks {l next l' : Lexer} (h : l.settle = some next)
    (hrest : next.cursor.rest = []) (hleave : next.leaveBlocks = some l') (n : Nat) :
    run (n + 1) l = some l'.tokens.toList := by
  obtain ⟨l₁, hexpire, rfl⟩ := Option.map_eq_some_iff.1 h
  simp only [run, hexpire, Option.bind_eq_bind, Option.bind_some]
  simp [hrest, hleave]

/-- Reading at most `bound` tokens leads from one place to another. -/
def Leads (bound : Nat) (l l' : Lexer) : Prop :=
  ∃ k ≤ bound, ∀ n, run (n + k) l = run n l'

lemma leads_refl (l : Lexer) : Leads 0 l l :=
  ⟨0, Nat.le_refl 0, fun _ => rfl⟩

lemma leads_of_lexToken {l next l' : Lexer} {c : Char} {rest : List Char} (h : l.settle = some next)
    (hrest : next.cursor.rest = c :: rest) (hlex : next.lexToken c rest = some l') : Leads 1 l l' :=
  ⟨1, Nat.le_refl 1, run_of_lexToken h hrest hlex⟩

lemma Leads.trans {j k : Nat} {l l₁ l₂ : Lexer} (h₁ : Leads j l l₁) (h₂ : Leads k l₁ l₂) :
    Leads (j + k) l l₂ := by
  obtain ⟨j', hj, hread₁⟩ := h₁
  obtain ⟨k', hk, hread₂⟩ := h₂
  refine ⟨k' + j', by omega, fun n => ?_⟩
  rw [← Nat.add_assoc, hread₁, hread₂]

lemma Leads.mono {j k : Nat} {l l' : Lexer} (h : Leads j l l') (hjk : j ≤ k) : Leads k l l' := by
  obtain ⟨j', hj, hread⟩ := h
  exact ⟨j', Nat.le_trans hj hjk, hread⟩

/-- The lexer stands at the characters `rest`, outside brackets and braces and after no key. -/
structure Before (l : Lexer) (rest : List Char) (indents : List Nat) (tokens : List Token) : Prop
    where
  rest : l.cursor.rest = rest
  outerKeys : l.outerKeys = []
  key : l.key = none
  indents : l.indents = indents
  tokens : l.tokens.toList = tokens

/-- The lexer stands at the first token of a line. -/
structure AtToken (l : Lexer) (column : Nat) (rest : List Char) (indents : List Nat)
    (tokens : List Token) : Prop extends Before l rest indents tokens where
  column : l.cursor.column = column
  keyAllowed : l.keyAllowed = true

/-- The lexer stands in a line of the innermost block, to the right of its column. -/
structure AfterSign (l : Lexer) (column : Nat) (outer : List Nat) (rest : List Char)
    (tokens : List Token) : Prop extends Before l rest (column :: outer) tokens where
  column_lt : column < l.cursor.column

/-- The lexer comes to a line next, where the blocks further to the right than the line end. -/
def AtLine (l : Lexer) (line : List Char) (indents : List Nat) (tokens : List Token) : Prop :=
  ∃ next, l.settle = some next ∧
    AtToken next (indentation line) (unindented line)
      (indents.dropWhile fun column => decide (indentation line < column))
      (tokens ++ (indents.takeWhile fun column => decide (indentation line < column)).map
        fun _ => .blockEnd)

/-- A block further to the right than the line ends before it. -/
lemma AtLine.leave {l : Lexer} {line : List Char} {column : Nat} {outer : List Nat}
    {tokens : List Token} (h : AtLine l line (column :: outer) tokens)
    (hcolumn : indentation line < column) : AtLine l line outer (tokens ++ [.blockEnd]) := by
  obtain ⟨next, hsettle, hnext⟩ := h
  refine ⟨next, hsettle, ?_⟩
  rw [List.dropWhile_cons_of_pos (by simpa), List.takeWhile_cons_of_pos (by simpa)] at hnext
  simpa using hnext

/-! ### Moving on -/

lemma skipSpace_of_startsToken {rest : List Char} (h : startsToken rest = true)
    (flow allowed : Bool) (pos : Position) :
    skipSpace flow allowed false pos rest = (.place pos rest, allowed) := by
  cases rest with
  | nil => rfl
  | cons c rest =>
    simp only [startsToken, Bool.and_eq_true, Bool.not_eq_true', isBlank, Bool.or_eq_false_iff,
      beq_eq_false_iff_ne, bne_iff_ne] at h
    obtain ⟨⟨⟨⟨hspace, htab⟩, hbreak⟩, hhash⟩, hmark⟩ := h
    simp [skipSpace, isSkipped, hspace, htab, hbreak, hhash, hmark]

lemma skipSpace_spaces (n : Nat) (allowed : Bool) (pos : Position) (rest : List Char) :
    skipSpace false allowed false pos (spaces n ++ rest) =
      skipSpace false allowed false (pos.nextAll (spaces n)) rest := by
  induction n generalizing pos with
  | zero => rfl
  | succ n ih =>
    have hspace : isBreak ' ' = false := by decide
    rw [spaces_succ, List.cons_append, skipSpace]
    simpa [isSkipped, hspace] using ih (pos.next ' ')

lemma skipSpace_line {line : List Char} (h : startsLine line = true) (allowed : Bool)
    (pos : Position) :
    skipSpace false allowed false pos ('\n' :: line) =
      (.place (pos.newLine.nextAll (spaces (indentation line))) (unindented line), true) := by
  have hskip := skipSpace_spaces (indentation line) true pos.newLine (unindented line)
  rw [spaces_append_unindented, skipSpace_of_startsToken h] at hskip
  have hfeed : isBreak '\n' = true := by decide
  simpa [skipSpace, hfeed] using hskip

lemma advance_of_startsToken {l : Lexer} (h : startsToken l.cursor.rest = true) :
    l.advance = l := by
  rw [advance, skipSpace_of_startsToken h]
  rfl

/-- Inside brackets and braces no block is left. -/
lemma settle_flow {l : Lexer} (h : startsToken l.cursor.rest = true) (hflow : l.inFlow = true)
    (hkey : expireKey l.cursor l.key = some l.key)
    (houter : l.outerKeys.mapM (expireKey l.cursor) = some l.outerKeys) : l.settle = some l := by
  simp [settle, advance_of_startsToken h, expireKeys, hkey, houter, closeBlocks, hflow]

lemma foldl_emit (columns : List Nat) (token : Token) (l : Lexer) :
    columns.foldl (fun l _ => l.emit token) l =
      { l with tokens := columns.foldl (fun log _ => log.push token) l.tokens } := by
  induction columns generalizing l with
  | nil => rfl
  | cons column columns ih => exact ih (l.emit token)

lemma dropWhile_of_head_le {indents : List Nat} {column : Nat}
    (h : ∀ indent ∈ indents.head?, indent ≤ column) :
    indents.dropWhile (fun indent => decide (column < indent)) = indents := by
  cases indents with
  | nil => rfl
  | cons indent indents => simpa using h indent rfl

lemma takeWhile_of_head_le {indents : List Nat} {column : Nat}
    (h : ∀ indent ∈ indents.head?, indent ≤ column) :
    indents.takeWhile (fun indent => decide (column < indent)) = [] := by
  cases indents with
  | nil => rfl
  | cons indent indents => simpa using h indent rfl

lemma settle_eq {l : Lexer} {cursor : Cursor} {allowed : Bool} {key : Option PossibleKey}
    (hadvance : l.advance = { l with cursor, keyAllowed := allowed }) (houter : l.outerKeys = [])
    (hkey : expireKey cursor l.key = some key) :
    l.settle = some { l with
      cursor
      keyAllowed := allowed
      key
      indents := l.indents.dropWhile fun column => decide (cursor.column < column)
      tokens := (l.indents.takeWhile fun column => decide (cursor.column < column)).foldl
        (fun log _ => log.push .blockEnd) l.tokens } := by
  simp [settle, hadvance, expireKeys, hkey, houter, closeBlocks, inFlow, foldl_emit]

/-- No block is left at a place to the right of all their columns. -/
lemma settle_inside {l : Lexer} {cursor : Cursor} {allowed : Bool} {key : Option PossibleKey}
    (hadvance : l.advance = { l with cursor, keyAllowed := allowed }) (houter : l.outerKeys = [])
    (hkey : expireKey cursor l.key = some key)
    (hindents : ∀ column ∈ l.indents.head?, column ≤ cursor.column) :
    l.settle = some { l with cursor, keyAllowed := allowed, key } := by
  rw [settle_eq hadvance houter hkey, dropWhile_of_head_le hindents, takeWhile_of_head_le hindents]
  rfl

/-- The lexer comes to a line, if blanks are all that is left before it and no key is required. -/
lemma atLine_of_advance {l : Lexer} {line : List Char} {pos : Position}
    (hadvance : l.advance = { l with cursor := .place pos (unindented line), keyAllowed := true })
    (hcolumn : pos.column = indentation line) (houter : l.outerKeys = [])
    (hkey : ∀ key, l.key = some key → key.required = false ∧ key.line < pos.line) :
    l.AtLine line l.indents l.tokens.toList := by
  have hexpire : expireKey (.place pos (unindented line)) l.key = some none := by
    cases h : l.key with
    | none => rfl
    | some key => simp [expireKey, hkey key h, Cursor.place]
  refine ⟨_, settle_eq hadvance houter hexpire, ⟨rfl, houter, rfl, ?_, ?_⟩, hcolumn, rfl⟩
  · simp [Cursor.place, hcolumn]
  · rw [TokenLog.toList_foldl_push]
    simp [Cursor.place, hcolumn]

/-- Before the break at the end of a line, the lexer comes to the next line. -/
lemma atLine_of_break {l : Lexer} {line : List Char} (hline : startsLine line = true)
    (hrest : l.cursor.rest = '\n' :: line) (houter : l.outerKeys = [])
    (hkey : ∀ key, l.key = some key → key.required = false ∧ key.line ≤ l.cursor.line) :
    l.AtLine line l.indents l.tokens.toList := by
  have hadvance : l.advance = { l with
      cursor := .place (l.cursor.newLine.nextAll (spaces (indentation line))) (unindented line)
      keyAllowed := true } := by
    simp [advance, inFlow, houter, hrest, skipSpace_line hline]
  refine atLine_of_advance hadvance (by simp) houter fun key h => ?_
  obtain ⟨hrequired, hbefore⟩ := hkey key h
  exact ⟨hrequired, by simpa using Nat.lt_succ_of_le hbefore⟩

/-- Where a line begins with its first token, the lexer comes to the line. -/
lemma atLine_of_unindented {l : Lexer} {line : List Char} (hline : startsLine line = true)
    (hrest : l.cursor.rest = unindented line) (hcolumn : l.cursor.column = indentation line)
    (hallowed : l.keyAllowed = true) (houter : l.outerKeys = [])
    (hkey : ∀ key, l.key = some key → key.required = false ∧ key.line < l.cursor.line) :
    l.AtLine line l.indents l.tokens.toList := by
  have hadvance : l.advance = { l with
      cursor := .place l.cursor.toPosition (unindented line)
      keyAllowed := true } := by
    simp [advance, inFlow, houter, hrest, hallowed, skipSpace_of_startsToken hline]
  exact atLine_of_advance hadvance hcolumn houter hkey

/-- After the sign of a line, the lexer moves on over a space. -/
lemma AfterSign.settle {l : Lexer} {column : Nat} {outer : List Nat} {shown : List Char}
    {tokens : List Token} (h : AfterSign l column outer (' ' :: shown) tokens)
    (hshown : startsToken shown = true) :
    ∃ next, l.settle = some next ∧ AfterSign next column outer shown tokens := by
  have hskip : skipSpace false l.keyAllowed false l.cursor.toPosition (' ' :: shown) =
      (.place (l.cursor.next ' ') shown, l.keyAllowed) :=
    (skipSpace_spaces 1 _ _ shown).trans (skipSpace_of_startsToken hshown _ _ _)
  have hadvance : l.advance = { l with
      cursor := .place (l.cursor.next ' ') shown
      keyAllowed := l.keyAllowed } := by
    simp [advance, inFlow, h.outerKeys, h.rest, hskip]
  have hkey : expireKey (.place (l.cursor.next ' ') shown) l.key = some none := by
    rw [h.key]
    rfl
  have hcolumn : column < l.cursor.column + 1 := Nat.lt_succ_of_lt h.column_lt
  have hsettle := settle_inside hadvance h.outerKeys hkey (by
    simpa [h.indents, Cursor.place] using Nat.le_of_lt hcolumn)
  exact ⟨_, hsettle, ⟨rfl, h.outerKeys, rfl, h.indents, h.tokens⟩, hcolumn⟩

/-- At a line that begins with a sign to the right of all open blocks, the sign comes next. -/
lemma AtLine.settle {l : Lexer} {column : Nat} {c : Char} {rest : List Char} {indents : List Nat}
    {tokens : List Token} (h : AtLine l (spaces column ++ c :: rest) indents tokens) (hc : c ≠ ' ')
    (hindents : ∀ indent ∈ indents.head?, indent ≤ column) :
    ∃ next, l.settle = some next ∧ AtToken next column (c :: rest) indents tokens := by
  obtain ⟨next, hsettle, hnext⟩ := h
  rw [indentation_spaces_append column hc, unindented_spaces_append column hc,
    dropWhile_of_head_le hindents, takeWhile_of_head_le hindents] at hnext
  exact ⟨next, hsettle, by simpa using hnext⟩

lemma leaveBlocks_eq {l : Lexer} (houter : l.outerKeys = []) (hkey : l.key = none) :
    l.leaveBlocks = some { l with
      indents := []
      keyAllowed := false
      tokens := l.indents.foldl (fun log _ => log.push .blockEnd) l.tokens } := by
  have htake : l.indents.takeWhile (fun _ => true) = l.indents :=
    List.takeWhile_eq_self_iff.2 fun _ _ => rfl
  simp [leaveBlocks, closeBlocks, inFlow, houter, foldl_emit, dropKey, hkey, htake]

/-- At the end of the text all open blocks end. -/
lemma AtLine.run_end {l : Lexer} {indents : List Nat} {tokens : List Token}
    (h : AtLine l [] indents tokens) (n : Nat) :
    run (n + 1) l = some (tokens ++ indents.map fun _ => .blockEnd) := by
  obtain ⟨next, hsettle, hnext⟩ := h
  rw [run_of_leaveBlocks hsettle hnext.rest (leaveBlocks_eq hnext.outerKeys hnext.key),
    TokenLog.toList_foldl_push, hnext.tokens, hnext.indents, List.append_assoc, ← List.map_append,
    List.takeWhile_append_dropWhile]

end Lexer

end RequestTrail.Yaml
