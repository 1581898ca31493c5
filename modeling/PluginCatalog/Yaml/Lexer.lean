import PluginCatalog.Yaml.Lexeme

/-!
# Layout of YAML

How the characters of a YAML text become tokens. Two things are known only later than they are
written: that a piece was a key, which the colon after it says, and that a block collection has
ended, which the indentation of the next line says.

* `Layout` is what is known at a point of the text: the position, the indentations of the open
  block collections, the number of open brackets, and the pieces that may still turn out keys.
* `Layout.step` reads the next piece. `tokenize` reads a whole text; where the text breaks the
  rules, it gives the tokens before that point and the reason.
-/

namespace PluginCatalog.Yaml

/-- A piece that may turn out to be a key. -/
structure PossibleKey where
  /-- How many brackets are open around it. -/
  level : Nat
  /-- How many tokens stand before it. -/
  place : Nat
  /-- Whether nothing but a key may stand there. -/
  required : Bool
  index : Nat
  line : Nat
  column : Nat

/-- What is known at a point of a text. -/
structure Layout where
  rest : List Char
  index : Nat
  line : Nat
  column : Nat
  /-- The indentation of the innermost block collection, -1 outside all of them. -/
  indent : Int
  /-- The indentations around it. -/
  outer : List Int
  /-- The number of open brackets. -/
  level : Nat
  /-- Whether a key may start here. -/
  keyAllowed : Bool
  keys : List PossibleKey
  /-- The tokens so far, the last one first. -/
  tokens : List Token
  /-- The number of tokens so far. -/
  count : Nat

namespace Layout

/-- The start of a text. -/
def start (cs : List Char) : Layout :=
  { rest := cs, index := 0, line := 0, column := 0, indent := -1, outer := [], level := 0
    keyAllowed := true, keys := [], tokens := [], count := 0 }

/-! ## Positions -/

/-- The layout after one more character; a byte order mark takes no column. -/
def pass (l : Layout) (c : Char) : Layout :=
  if isBreak c then { l with index := l.index + 1, line := l.line + 1, column := 0 }
  else { l with index := l.index + 1, column := if c == '\ufeff' then l.column else l.column + 1 }

/-- Goes on to `rest`, which is what follows some characters of the text. -/
def goTo (l : Layout) (rest : List Char) : Layout :=
  { (l.rest.take (l.rest.length - rest.length)).foldl pass l with rest }

/-- Adds a token. -/
def emit (l : Layout) (t : Token) : Layout :=
  { l with tokens := t :: l.tokens, count := l.count + 1 }

/-- The tokens with `t` before the last `after` of them. -/
def insertBefore (t : Token) : Nat → List Token → List Token
  | after + 1, last :: tokens => last :: insertBefore t after tokens
  | _, tokens => t :: tokens

/-- Adds a token in front of those from `place` on. -/
def emitAt (l : Layout) (place : Nat) (t : Token) : Layout :=
  { l with tokens := insertBefore t (l.count - place) l.tokens, count := l.count + 1 }

/-! ## Indentation -/

/-- Ends the block collections that are indented more than `column`. Between brackets, indentation
says nothing. -/
def closeBlocks (l : Layout) (column : Int) : Layout :=
  if l.level != 0 then l else go l.outer l
where
  /-- Ends collections while their indentation is greater; `outer` are those around. -/
  go : List Int → Layout → Layout
    | [], l => if column < l.indent then { l.emit .blockEnd with indent := -1, outer := [] } else l
    | i :: outer, l =>
      if column < l.indent then go outer { l.emit .blockEnd with indent := i, outer } else l

/-- Starts a block collection at a column, if that is further in than the innermost one; `t` is put
in front of the tokens from `place` on. -/
def openBlock (l : Layout) (column place : Nat) (t : Token) : Layout :=
  if l.indent < column then
    { l.emitAt place t with indent := column, outer := l.indent :: l.outer }
  else l

/-! ## Possible keys -/

/-- The furthest that the colon may stand from the start of its key. -/
def maxKeyLength : Nat := 1024

/-- Whether the colon can no longer follow a possible key. -/
def isStale (l : Layout) (k : PossibleKey) : Bool :=
  k.line != l.line || l.index - k.index > maxKeyLength

/-- Gives up possible keys that the colon can no longer follow. -/
def dropStale (l : Layout) : Except Error Layout :=
  if l.keys.any fun k => l.isStale k && k.required then .error .malformed
  else .ok { l with keys := l.keys.filter (!l.isStale ·) }

/-- Gives up the possible key between the brackets of the present level. -/
def dropKey (l : Layout) : Except Error Layout :=
  if l.keys.any fun k => k.level == l.level && k.required then .error .malformed
  else .ok { l with keys := l.keys.filter (·.level != l.level) }

/-- Notes that the next piece may be a key. -/
def saveKey (l : Layout) : Except Error Layout :=
  if l.keyAllowed then do
    let required := l.level == 0 && l.indent == l.column
    let l ← l.dropKey
    return { l with keys := ⟨l.level, l.count, required, l.index, l.line, l.column⟩ :: l.keys }
  else .ok l

/-! ## Pieces -/

/-- A token of `width` characters that cannot be a key. -/
def indicator (l : Layout) (width : Nat) (t : Token) (keyAllowed : Bool) : Except Error Layout := do
  let l ← l.dropKey
  return ({ l with keyAllowed }.goTo (l.rest.drop width)).emit t

/-- A mark between documents. -/
def separator (l : Layout) (t : Token) : Except Error Layout :=
  (l.closeBlocks (-1)).indicator 3 t false

/-- A directive. -/
def directive (l : Layout) : Except Error Layout := do
  let l ← (l.closeBlocks (-1)).dropKey
  let (d, rest) ← directiveLine (l.rest.drop 1)
  return ({ l with keyAllowed := false }.goTo rest).emit (.directive d)

/-- An opening bracket. -/
def openBracket (l : Layout) (t : Token) : Except Error Layout := do
  let l ← l.saveKey
  return ({ l with level := l.level + 1, keyAllowed := true }.goTo (l.rest.drop 1)).emit t

/-- A closing bracket. One that nothing opened is a token that fits nowhere. -/
def closeBracket (l : Layout) (t : Token) : Except Error Layout := do
  let l ← l.dropKey
  return ({ l with level := l.level - 1, keyAllowed := false }.goTo (l.rest.drop 1)).emit t

/-- The hyphen of an item. -/
def blockEntry (l : Layout) : Except Error Layout := do
  if l.level != 0 then l.indicator 1 .blockEntry true
  else if !l.keyAllowed then throw .malformed
  else (l.openBlock l.column l.count .blockSequenceStart).indicator 1 .blockEntry true

/-- The question mark of a key. -/
def keyMark (l : Layout) : Except Error Layout := do
  if l.level != 0 then l.indicator 1 .key false
  else if !l.keyAllowed then throw .malformed
  else (l.openBlock l.column l.count .blockMappingStart).indicator 1 .key true

/-- The colon of a value: the possible key of this level turns out to be one. -/
def valueMark (l : Layout) : Except Error Layout := do
  match l.keys.find? (·.level == l.level) with
  | some k =>
    let l := { l with keys := l.keys.filter (·.level != l.level) }.emitAt k.place .key
    let l := if l.level == 0 then l.openBlock k.column k.place .blockMappingStart else l
    return ({ l with keyAllowed := false }.goTo (l.rest.drop 1)).emit .value
  | none =>
    if l.level != 0 then l.indicator 1 .value false
    else if !l.keyAllowed then throw .malformed
    else (l.openBlock l.column l.count .blockMappingStart).indicator 1 .value true

/-- An anchor or alias, after its indicator. -/
def name (l : Layout) (t : String → Token) : Except Error Layout := do
  let l ← l.saveKey
  let (name, rest) ← anchorName (l.rest.drop 1)
  return ({ l with keyAllowed := false }.goTo rest).emit (t name)

/-- A tag. -/
def tag (l : Layout) : Except Error Layout := do
  let l ← l.saveKey
  let (handle, suffix, rest) ← tagProperty (l.rest.drop 1)
  return ({ l with keyAllowed := false }.goTo rest).emit (.tag handle suffix)

/-- A literal or folded scalar. -/
def block (l : Layout) (folded : Bool) : Except Error Layout := do
  let l ← l.dropKey
  let (text, rest) ← blockScalar folded l.indent (l.rest.drop 1)
  return ({ l with keyAllowed := true }.goTo rest).emit (.scalar (String.ofList text) false)

/-- A quoted scalar. -/
def quoted (l : Layout) (double : Bool) : Except Error Layout := do
  let l ← l.saveKey
  let (text, rest) ← quotedScalar double (l.rest.drop 1)
  return ({ l with keyAllowed := false }.goTo rest).emit (.scalar (String.ofList text) false)

/-- A plain scalar. -/
def plain (l : Layout) : Except Error Layout := do
  let l ← l.saveKey
  let (text, broken, rest) := plainScalar (l.level != 0) (l.indent + 1) l.rest
  return ({ l with keyAllowed := broken }.goTo rest).emit (.scalar (String.ofList text) true)

/-- Whether a plain scalar may start with this character. -/
def startsPlain (inFlow : Bool) (c : Char) (rest : List Char) : Bool :=
  let special := "-?:,[]\x7b\x7d#&*!|>'\"%@`".toList
  !(c == ' ' || c == '\t' || isBreak c || special.contains c)
    || (!endsToken rest && (c == '-' || (!inFlow && (c == '?' || c == ':'))))

/-- The piece that starts with the given character. -/
def piece (l : Layout) (c : Char) (rest : List Char) : Except Error Layout :=
  let inFlow := l.level != 0
  if c == '%' && l.column == 0 then l.directive
  else if c == '-' && l.column == 0 && isSeparator (c :: rest) then l.separator .documentStart
  else if c == '.' && l.column == 0 && isSeparator (c :: rest) then l.separator .documentEnd
  else if c == '[' then l.openBracket .flowSequenceStart
  else if c == '\x7b' then l.openBracket .flowMappingStart
  else if c == ']' then l.closeBracket .flowSequenceEnd
  else if c == '\x7d' then l.closeBracket .flowMappingEnd
  else if c == ',' then l.indicator 1 .flowEntry true
  else if c == '-' && endsToken rest then l.blockEntry
  else if c == '?' && (inFlow || endsToken rest) then l.keyMark
  else if c == ':' && (inFlow || endsToken rest) then l.valueMark
  else if c == '*' then l.name .alias
  else if c == '&' then l.name .anchor
  else if c == '!' then l.tag
  else if c == '|' && !inFlow then l.block false
  else if c == '>' && !inFlow then l.block true
  else if c == '\'' then l.quoted false
  else if c == '"' then l.quoted true
  else if startsPlain inFlow c rest then l.plain
  else .error .malformed

/-- The end of the text. -/
def finish (l : Layout) : Except Error Layout := do
  let l ← (l.closeBlocks (-1)).dropKey
  return l.emit .streamEnd

/-- Passes over filler to the next piece. -/
def skip (l : Layout) : Layout :=
  let cs := match l.index, l.rest with
    | 0, '\ufeff' :: rest => rest
    | _, rest => rest
  let (broken, rest) := skipFiller false cs
  { l.goTo rest with keyAllowed := l.keyAllowed || (broken && l.level == 0) }

/-- Reads the next piece; tells whether the text has ended. -/
def step (l : Layout) : Except Error (Layout × Bool) := do
  let l ← l.skip.dropStale
  let l := l.closeBlocks l.column
  match l.rest with
  | [] => return (← l.finish, true)
  | c :: rest => return (← l.piece c rest, false)

/-- The tokens that no later character changes: those before the first possible key. -/
def settled (l : Layout) : List Token :=
  let undecided := l.keys.filter (!l.isStale ·)
  l.tokens.reverse.take (undecided.foldl (fun n k => min n k.place) l.count)

/-- Reads pieces up to the end of the text, at most `fuel` of them: the tokens, and the reason if
the text breaks the rules; then there are those that are settled. -/
def run : Nat → Layout → List Token × Option Error
  | 0, l => (l.settled, some .malformed)
  | fuel + 1, l =>
    match l.step with
    | .error e => (l.settled, some e)
    | .ok (l, true) => (l.tokens.reverse, none)
    | .ok (l, false) => run fuel l

end Layout

/-- The tokens of a text; where it breaks the rules, those settled before that point and the
reason. -/
def tokenize (cs : List Char) : List Token × Option Error :=
  if cs.all isAllowed then Layout.run (cs.length + 1) (Layout.start cs)
  else ([], some .malformed)

end PluginCatalog.Yaml
