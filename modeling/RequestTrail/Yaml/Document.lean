import RequestTrail.Yaml.Lexer
import RequestTrail.Yaml.Node

/-!
# From tokens to a document

A text holds at most one document. Its nodes are read from the tokens by the grammar of block and
flow collections; where the grammar asks for a node and finds none, an empty one is read. The number
that decreases bounds the nodes and entries still to be read.
-/

namespace RequestTrail.Yaml

/-- The tokens still to be read, and the anchor names so far with their numbers. -/
structure Reading where
  tokens : List Token
  anchors : List (List Char × Nat) := []
deriving Repr

namespace Reading

/-- Moves on to the given tokens. -/
def goto (r : Reading) (tokens : List Token) : Reading :=
  { r with tokens }

/-- Gives a name the number of names that are known before. -/
def define (r : Reading) : Option (List Char) → Option Nat × Reading
  | none => (none, r)
  | some name =>
    let number := r.anchors.length
    let others := r.anchors.filter fun a => a.1 != name
    (some number, { r with anchors := others ++ [(name, number)] })

end Reading

/-- The properties that may stand before a node. -/
structure Properties where
  anchor : Option (List Char) := none
  tag : Option (List Char) := none

/-- A tag in full: the handle stands for the text it is declared for. -/
def fullTag? (handles : List (List Char × List Char)) (handle suffix : List Char) :
    Option (List Char) :=
  if handle.isEmpty then some suffix else (handles.lookup handle).map (· ++ suffix)

/-- Reads an anchor and a tag, in either order. -/
def readProperties? (handles : List (List Char × List Char)) :
    List Token → Option (Properties × List Token)
  | .anchor name :: .tag handle suffix :: rest =>
    (fullTag? handles handle suffix).map fun tag => ({ anchor := some name, tag := some tag }, rest)
  | .tag handle suffix :: .anchor name :: rest =>
    (fullTag? handles handle suffix).map fun tag => ({ anchor := some name, tag := some tag }, rest)
  | .anchor name :: rest => some ({ anchor := some name }, rest)
  | .tag handle suffix :: rest =>
    (fullTag? handles handle suffix).map fun tag => ({ tag := some tag }, rest)
  | rest => some ({}, rest)

/-- Whether a token stands where a block entry or its value would, so that nothing is written. -/
def endsBlockEntry : List Token → Bool
  | .key :: _ => true
  | .value :: _ => true
  | .blockEnd :: _ => true
  | _ => false

/-- Whether no item follows the dash of a block sequence. -/
def endsBlockItem : List Token → Bool
  | .blockEntry :: _ => true
  | .blockEnd :: _ => true
  | _ => false

/-- Whether no value follows in braces. -/
def endsFlowEntry : List Token → Bool
  | .flowEntry :: _ => true
  | .flowMappingEnd :: _ => true
  | _ => false

/-- Whether no value follows in brackets. -/
def endsFlowItem : List Token → Bool
  | .flowEntry :: _ => true
  | .flowSequenceEnd :: _ => true
  | _ => false

/-- Whether the value sign comes next. -/
def atValue : List Token → Bool
  | .value :: _ => true
  | _ => false

/-- Reads the node of properties after which nothing is written; without properties there is
none. -/
def readAbsent (properties : Properties) (anchor : Option Nat) (r : Reading) :
    Option (Node × Reading) :=
  if properties.anchor.isSome || properties.tag.isSome then
    some (.scalar anchor properties.tag .plain [], r)
  else none

mutual

/-- Reads a node. Block collections are allowed only if `block` holds, and sequences at the column
of their key only if `indentless` holds. -/
def readNode (handles : List (List Char × List Char)) :
    Nat → (block indentless : Bool) → Reading → Option (Node × Reading)
  | 0, _, _, _ => none
  | n + 1, block, indentless, r =>
    match r.tokens with
    | .alias name :: rest => (r.anchors.lookup name).map fun number => (.alias number, r.goto rest)
    | tokens =>
      match readProperties? handles tokens with
      | none => none
      | some (properties, tokens) =>
        let (anchor, r) := r.define properties.anchor
        match tokens with
        | .scalar style text :: rest =>
          -- a scalar keeps its tag, the tag `!` like any other
          some (.scalar anchor properties.tag style text, r.goto rest)
        | .flowSequence :: rest =>
          (readFlowItems handles n true (r.goto rest)).map fun (items, r) =>
            (.sequence anchor items, r)
        | .flowMapping :: rest =>
          (readFlowEntries handles n true (r.goto rest)).map fun (entries, r) =>
            (.mapping anchor entries, r)
        | .blockEntry :: rest =>
          if indentless then
            (readIndentless handles n (r.goto (.blockEntry :: rest))).map fun (items, r) =>
              (.sequence anchor items, r)
          else readAbsent properties anchor (r.goto (.blockEntry :: rest))
        | .blockSequence :: rest =>
          if block then
            (readBlockItems handles n (r.goto rest)).map fun (items, r) =>
              (.sequence anchor items, r)
          else readAbsent properties anchor (r.goto (.blockSequence :: rest))
        | .blockMapping :: rest =>
          if block then
            (readBlockEntries handles n (r.goto rest)).map fun (entries, r) =>
              (.mapping anchor entries, r)
          else readAbsent properties anchor (r.goto (.blockMapping :: rest))
        | rest => readAbsent properties anchor (r.goto rest)

/-- Reads the items of a block sequence and the end of the block. -/
def readBlockItems (handles : List (List Char × List Char)) :
    Nat → Reading → Option (List Node × Reading)
  | 0, _ => none
  | n + 1, r =>
    match r.tokens with
    | .blockEnd :: rest => some ([], r.goto rest)
    | .blockEntry :: rest =>
      let item? :=
        if endsBlockItem rest then some (Node.empty, r.goto rest)
        else readNode handles n true false (r.goto rest)
      match item? with
      | none => none
      | some (item, r) => (readBlockItems handles n r).map fun (items, r) => (item :: items, r)
    | _ => none

/-- Reads the items of a sequence at the column of its key, up to the first token that is no dash. -/
def readIndentless (handles : List (List Char × List Char)) :
    Nat → Reading → Option (List Node × Reading)
  | 0, _ => none
  | n + 1, r =>
    match r.tokens with
    | .blockEntry :: rest =>
      let item? :=
        if endsBlockItem rest || endsBlockEntry rest then some (Node.empty, r.goto rest)
        else readNode handles n true false (r.goto rest)
      match item? with
      | none => none
      | some (item, r) => (readIndentless handles n r).map fun (items, r) => (item :: items, r)
    | _ => some ([], r)

/-- Reads the entries of a block mapping and the end of the block. -/
def readBlockEntries (handles : List (List Char × List Char)) :
    Nat → Reading → Option (List (Node × Node) × Reading)
  | 0, _ => none
  | n + 1, r =>
    match r.tokens with
    | .blockEnd :: rest => some ([], r.goto rest)
    | .key :: rest =>
      let key? :=
        if endsBlockEntry rest then some (Node.empty, r.goto rest)
        else readNode handles n true true (r.goto rest)
      match key? with
      | none => none
      | some (key, r) =>
        let value? :=
          match r.tokens with
          | .value :: rest =>
            if endsBlockEntry rest then some (Node.empty, r.goto rest)
            else readNode handles n true true (r.goto rest)
          | _ => some (Node.empty, r)
        match value? with
        | none => none
        | some (value, r) =>
          (readBlockEntries handles n r).map fun (entries, r) => ((key, value) :: entries, r)
    | _ => none

/-- Reads the items in brackets and the closing bracket. An item may be a single entry of a
mapping. -/
def readFlowItems (handles : List (List Char × List Char)) :
    Nat → (first : Bool) → Reading → Option (List Node × Reading)
  | 0, _, _ => none
  | n + 1, first, r =>
    match r.tokens with
    | .flowSequenceEnd :: rest => some ([], r.goto rest)
    | tokens =>
      let tokens? :=
        if first then some tokens
        else
          match tokens with
          | .flowEntry :: rest => some rest
          | _ => none
      match tokens? with
      | none => none
      | some (.flowSequenceEnd :: rest) => some ([], r.goto rest)
      | some (.key :: rest) =>
        match readPair handles n (r.goto rest) with
        | none => none
        | some (entry, r) =>
          (readFlowItems handles n false r).map fun (items, r) =>
            (.mapping none [entry] :: items, r)
      | some rest =>
        match readNode handles n false false (r.goto rest) with
        | none => none
        | some (item, r) => (readFlowItems handles n false r).map fun (items, r) => (item :: items, r)

/-- Reads the key and the value of an entry in brackets. If no key is written, the token that shows
it is passed over. -/
def readPair (handles : List (List Char × List Char)) :
    Nat → Reading → Option ((Node × Node) × Reading)
  | 0, _ => none
  | n + 1, r =>
    let key? :=
      if atValue r.tokens || endsFlowItem r.tokens then some (Node.empty, r.goto r.tokens.tail)
      else readNode handles n false false r
    match key? with
    | none => none
    | some (key, r) =>
      match r.tokens with
      | .value :: rest =>
        if endsFlowItem rest then some ((key, .empty), r.goto rest)
        else (readNode handles n false false (r.goto rest)).map fun (value, r) => ((key, value), r)
      | _ => some ((key, .empty), r)

/-- Reads the entries in braces and the closing brace. -/
def readFlowEntries (handles : List (List Char × List Char)) :
    Nat → (first : Bool) → Reading → Option (List (Node × Node) × Reading)
  | 0, _, _ => none
  | n + 1, first, r =>
    match r.tokens with
    | .flowMappingEnd :: rest => some ([], r.goto rest)
    | tokens =>
      let tokens? :=
        if first then some tokens
        else
          match tokens with
          | .flowEntry :: rest => some rest
          | _ => none
      match tokens? with
      | none => none
      | some (.flowMappingEnd :: rest) => some ([], r.goto rest)
      | some (.key :: rest) =>
        let key? :=
          if atValue rest || endsFlowEntry rest then some (Node.empty, r.goto rest)
          else readNode handles n false false (r.goto rest)
        match key? with
        | none => none
        | some (key, r) =>
          let value? :=
            match r.tokens with
            | .value :: rest =>
              if endsFlowEntry rest then some (Node.empty, r.goto rest)
              else readNode handles n false false (r.goto rest)
            | _ => some (Node.empty, r)
          match value? with
          | none => none
          | some (value, r) =>
            (readFlowEntries handles n false r).map fun (entries, r) => ((key, value) :: entries, r)
      | some rest =>
        match readNode handles n false false (r.goto rest) with
        | none => none
        | some (key, r) =>
          (readFlowEntries handles n false r).map fun (entries, r) => ((key, .empty) :: entries, r)

end

/-! ### Documents -/

/-- The tag handles that are declared without a directive. -/
def standardHandles : List (List Char × List Char) :=
  [(['!'], ['!']), (['!', '!'], "tag:yaml.org,2002:".toList)]

/-- Reads the directives before a document: at most one version, which must be 1.1 or 1.2, and no
handle twice. Returns the declared handles. -/
def readDirectives? (version : Bool) (handles : List (List Char × List Char)) :
    List Token → Option (List (List Char × List Char) × List Token)
  | .version major minor :: rest =>
    if !version && major == 1 && (minor == 1 || minor == 2) then
      readDirectives? true handles rest
    else none
  | .tagHandle handle start :: rest =>
    if (handles.lookup handle).isSome then none
    else readDirectives? version (handles ++ [(handle, start)]) rest
  | rest => some (handles, rest)

/-- Whether a document that is announced has no content. -/
def endsDocument : List Token → Bool
  | [] => true
  | .version .. :: _ => true
  | .tagHandle .. :: _ => true
  | .documentStart :: _ => true
  | .documentEnd :: _ => true
  | _ => false

/-- The node of a document without its end. -/
def readContent? (handles : List (List Char × List Char)) (tokens : List Token) :
    Option (Node × Reading) :=
  readNode (handles ++ standardHandles) (2 * tokens.length + 2) true false { tokens }

/-- Reads a document, announced or not. -/
def readDocument? (tokens : List Token) : Option (Node × Reading) :=
  match tokens with
  | .version .. :: _ => announced
  | .tagHandle .. :: _ => announced
  | .documentStart :: _ => announced
  | _ => readContent? [] tokens
where
  /-- Reads a document after its directives and its start. -/
  announced : Option (Node × Reading) :=
    match readDirectives? false [] tokens with
    | some (handles, .documentStart :: rest) =>
      if endsDocument rest then some (.empty, { tokens := rest }) else readContent? handles rest
    | _ => none

/-- The only document of the tokens, empty if there are none. -/
def documentOfTokens? (tokens : List Token) : Option Node :=
  if tokens.isEmpty then some .empty
  else
    match readDocument? tokens with
    | some (node, r) =>
      if r.tokens.all (· == .documentEnd) then some node else none
    | none => none

/-- The only document of a text, empty if there is none. -/
def document? (text : String) : Option Node :=
  (tokens? text.toList).bind documentOfTokens?

end RequestTrail.Yaml
