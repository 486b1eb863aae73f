/-!
# YAML tokens

The signs of which a YAML text consists. Blocks, which a text marks by indentation only, have
tokens where they begin and end; the end of the token list is the end of the text.
-/

namespace RequestTrail.Yaml

/-- How a scalar is written. -/
inductive ScalarStyle where
  | plain
  | singleQuoted
  | doubleQuoted
  | literal
  | folded
deriving DecidableEq, Repr

/-- A sign of a YAML text. -/
inductive Token where
  | version (major minor : Nat)
  | tagHandle (handle start : List Char)
  | documentStart
  | documentEnd
  | blockSequence
  | blockMapping
  | blockEnd
  | flowSequence
  | flowSequenceEnd
  | flowMapping
  | flowMappingEnd
  | flowEntry
  | blockEntry
  | key
  | value
  | alias (name : List Char)
  | anchor (name : List Char)
  | tag (handle suffix : List Char)
  | scalar (style : ScalarStyle) (text : List Char)
deriving DecidableEq, Repr

/-- The tokens that have been read, with their number. -/
structure TokenLog where
  /-- The tokens, latest first. -/
  latest : List Token := []
  size : Nat := 0
  size_eq : size = latest.length := by rfl
deriving Repr

namespace TokenLog

/-- The tokens in the order of the text. -/
def toList (log : TokenLog) : List Token :=
  log.latest.reverse

/-- Adds a token at the end. -/
def push (log : TokenLog) (token : Token) : TokenLog where
  latest := token :: log.latest
  size := log.size + 1
  size_eq := by simp [log.size_eq]

/-- Adds a token before those from the given index on. -/
def insertAt (log : TokenLog) (index : Nat) (token : Token) : TokenLog where
  latest := log.latest.insertIdx (log.size - index) token
  size := log.size + 1
  size_eq := by
    have h : log.size - index ≤ log.latest.length := by
      have := log.size_eq
      omega
    rw [List.length_insertIdx_of_le_length h, log.size_eq]

@[simp]
theorem toList_push (log : TokenLog) (token : Token) :
    (log.push token).toList = log.toList ++ [token] := by
  simp [toList, push]

end TokenLog

end RequestTrail.Yaml
