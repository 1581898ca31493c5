import PluginCatalog.Text.Hex
import PluginCatalog.Yaml.Token

/-!
# Lexemes of YAML

How the single pieces of a YAML text are read from its characters. Every function takes the text
from the piece on and gives the text after it, besides what the piece denotes.

* `skipFiller` passes over blanks, comments and line breaks.
* `plainScalar`, `quotedScalar` and `blockScalar` read the scalars. In all of them a single line
  break between two lines is a space, and each further one is a line break.
* `anchorName`, `tagProperty` and `directiveLine` read the other pieces.
-/

namespace PluginCatalog.Yaml

/-! ## Characters -/

/-- The characters that end a line. -/
def isBreak (c : Char) : Bool :=
  c == '\n' || c == '\x85' || c == '\u2028' || c == '\u2029'

/-- What a line break denotes: the separators of lines and paragraphs denote themselves. -/
def breakValue (c : Char) : Char := if c == '\u2028' || c == '\u2029' then c else '\n'

/-- Whether the text ends here, or goes on with a space or a line break. -/
def endsWord : List Char → Bool
  | [] => true
  | c :: _ => c == ' ' || isBreak c

/-- Whether the text ends here, or goes on with a space, a tab or a line break. -/
def endsToken : List Char → Bool
  | [] => true
  | c :: _ => c == ' ' || c == '\t' || isBreak c

/-- Whether the line ends here. -/
def endsLine : List Char → Bool
  | [] => true
  | c :: _ => isBreak c

/-- Whether a line starts with a mark between documents. -/
def isSeparator : List Char → Bool
  | '-' :: '-' :: '-' :: rest => endsToken rest
  | '.' :: '.' :: '.' :: rest => endsToken rest
  | _ => false

/-- The characters of names: the letters and digits of ASCII, the hyphen and the underscore. -/
def isNameChar (c : Char) : Bool := c.isAlphanum || c == '-' || c == '_'

/-- The characters that may occur in a text. -/
def isAllowed (c : Char) : Bool :=
  let n := c.toNat
  n == 9 || n == 10 || n == 13 || (0x20 ≤ n && n ≤ 0x7e) || n == 0x85 || (0xa0 ≤ n && n ≤ 0xd7ff)
    || (0xe000 ≤ n && n ≤ 0xfffd) || 0x10000 ≤ n

/-- The text after the spaces in front. -/
def skipSpaces (cs : List Char) : List Char := cs.dropWhile (· == ' ')

/-- The text from the end of the line on. -/
def skipLine (cs : List Char) : List Char := cs.dropWhile (!isBreak ·)

/-- The text after the line break in front, if there is one. -/
def skipBreak : List Char → List Char
  | c :: rest => if isBreak c then rest else c :: rest
  | [] => []

/-- The text after the rest of a line that says nothing more than a comment. -/
def blankLine (cs : List Char) : Except Error (List Char) :=
  let rest := match skipSpaces cs with
    | '#' :: rest => skipLine rest
    | rest => rest
  if endsLine rest then .ok (skipBreak rest) else .error .malformed

/-- Passes over spaces, line breaks and comments; tells whether a line ended on the way. -/
def skipFiller (inComment : Bool) : List Char → Bool × List Char
  | [] => (false, [])
  | c :: rest =>
    if isBreak c then (true, (skipFiller false rest).2)
    else if inComment || c == '#' then skipFiller true rest
    else if c == ' ' then skipFiller false rest
    else (false, c :: rest)

/-! ## Plain scalars -/

/-- Whether a plain scalar stops in front of a character; `inFlow` between brackets. -/
def stopsPlain (inFlow : Bool) (c : Char) (rest : List Char) : Bool :=
  c == ' ' || c == '\t' || isBreak c
    || (c == ':' && (endsToken rest || (inFlow && rest.head?.any (",[]\x7b\x7d".toList.contains ·))))
    || (inFlow && ",?[]\x7b\x7d".toList.contains c)

/-- The word of a plain scalar in front, and the text after it. -/
def plainWord (inFlow : Bool) : List Char → List Char × List Char
  | [] => ([], [])
  | c :: rest =>
    if stopsPlain inFlow c rest then ([], c :: rest)
    else
      let (word, rest) := plainWord inFlow rest
      (c :: word, rest)

/-- The space between two words of a scalar. -/
structure Gap where
  /-- What the space denotes. -/
  text : List Char
  /-- Whether a line ends in it. -/
  broken : Bool
  /-- The column of what follows, if a line ends in it. -/
  column : Nat
  rest : List Char

/-- What the line breaks of a gap denote, the first of them given apart. -/
def foldedBreaks (first : Char) (more : List Char) : List Char :=
  if first != '\n' then first :: more else if more.isEmpty then [' '] else more

/-- The further lines of a gap between words: the line breaks, the column of what follows, and the
text from there; nothing if a mark between documents comes up. `column` spaces precede. -/
def gapLines : Nat → List Char → Option (List Char × Nat × List Char)
  | column, [] => some ([], column, [])
  | column, c :: rest =>
    if c == ' ' then gapLines (column + 1) rest
    else if isBreak c then
      if isSeparator rest then none
      else (gapLines 0 rest).map fun (breaks, more) => (breakValue c :: breaks, more)
    else some ([], column, c :: rest)

/-- The rest of the text where a mark between documents comes up after line breaks. -/
def toSeparator : List Char → List Char
  | [] => []
  | c :: rest => if isBreak c && isSeparator rest then rest else toSeparator rest

/-- The gap after a word of a plain scalar. Nothing denotes a gap that leads to a mark between
documents. -/
def plainGap (cs : List Char) : Gap :=
  let spaces := cs.takeWhile (· == ' ')
  match skipSpaces cs with
  | [] => ⟨spaces, false, 0, []⟩
  | c :: rest =>
    if !isBreak c then ⟨spaces, false, 0, c :: rest⟩
    else if isSeparator rest then ⟨[], true, 0, rest⟩
    else match gapLines 0 rest with
      | none => ⟨[], true, 0, toSeparator rest⟩
      | some (breaks, column, rest) => ⟨foldedBreaks (breakValue c) breaks, true, column, rest⟩

/-- The words of a plain scalar after the gap `before`, at most `fuel` of them: what they denote,
whether the line ended after the last one, and the text after it. Outside brackets the scalar ends
in front of a line that is indented less than `indent`. -/
def plainWords (inFlow : Bool) (indent : Int) :
    Nat → List Char → Bool → List Char → List Char × Bool × List Char
  | 0, _, broken, cs => ([], broken, cs)
  | fuel + 1, before, broken, cs =>
    let (word, rest) := plainWord inFlow cs
    if cs.head? == some '#' || word.isEmpty then ([], broken, cs)
    else
      let gap := plainGap rest
      if gap.text.isEmpty || gap.rest.head? == some '#'
          || (!inFlow && gap.broken && (gap.column : Int) < indent) then
        (before ++ word, gap.broken, gap.rest)
      else
        let (more, broken, rest) := plainWords inFlow indent fuel gap.text gap.broken gap.rest
        (before ++ word ++ more, broken, rest)

/-- A plain scalar: its text, whether a line ended after it, and the text after it. -/
def plainScalar (inFlow : Bool) (indent : Int) (cs : List Char) : List Char × Bool × List Char :=
  plainWords inFlow indent cs.length [] false cs

/-! ## Quoted scalars -/

/-- The further lines of a gap in a quoted scalar: their breaks and the text from there. A mark
between documents must not come up. -/
def quotedBreaks (atStart : Bool) : List Char → Except Error (List Char × List Char)
  | [] => .ok ([], [])
  | c :: rest =>
    if atStart && isSeparator (c :: rest) then .error .malformed
    else if c == ' ' || c == '\t' then quotedBreaks false rest
    else if isBreak c then
      (quotedBreaks true rest).map fun (breaks, rest) => (breakValue c :: breaks, rest)
    else .ok ([], c :: rest)

/-- What the character after a backslash denotes, if it denotes one by itself. -/
def escaped? : Char → Option Char
  | '0' => some '\x00'
  | 'a' => some '\x07'
  | 'b' => some '\x08'
  | 't' | '\t' => some '\t'
  | 'n' => some '\n'
  | 'v' => some '\x0b'
  | 'f' => some '\x0c'
  | 'r' => some '\r'
  | 'e' => some '\x1b'
  | ' ' => some ' '
  | '"' => some '"'
  | '\\' => some '\\'
  | '/' => some '/'
  | 'N' => some '\x85'
  | '_' => some '\xa0'
  | 'L' => some '\u2028'
  | 'P' => some '\u2029'
  | _ => none

/-- How many hexadecimal digits follow the character after a backslash. -/
def escapeWidth? : Char → Option Nat
  | 'x' => some 2
  | 'u' => some 4
  | 'U' => some 8
  | _ => none

/-- The number of the given count of hexadecimal digits in front. -/
def hexNumber? : Nat → Nat → List Char → Option (Nat × List Char)
  | 0, n, rest => some (n, rest)
  | count + 1, n, c :: rest => do hexNumber? count (16 * n + (← Text.hexValue? c)) rest
  | _ + 1, _, [] => none

/-- The character of a code point; half of a pair of surrogates is none and is replaced. -/
def codePoint (n : Nat) : Char := if n.isValidChar then Char.ofNat n else '\ufffd'

/-- The character of a number. The two halves of a pair of surrogates denote one character. -/
def numberedChar (n : Nat) (rest : List Char) : Except Error (Char × List Char) :=
  if 0x7fffffff < n then .error (.fault .hugeCharacter)
  else if 0x10ffff < n then .error (.fault .impossibleCharacter)
  else match rest with
    | '\\' :: 'u' :: more =>
      match hexNumber? 4 0 more with
      | some (low, more) =>
        if 0xd800 ≤ n && n < 0xdc00 && 0xdc00 ≤ low && low < 0xe000 then
          .ok (codePoint (0x10000 + (n - 0xd800) * 1024 + (low - 0xdc00)), more)
        else .ok (codePoint n, rest)
      | none => .ok (codePoint n, rest)
    | _ => .ok (codePoint n, rest)

/-- What follows a backslash between double quotes, and the text after it. -/
def escape : List Char → Except Error (List Char × List Char)
  | [] => .error .malformed
  | c :: rest =>
    match escaped? c, escapeWidth? c with
    | some d, _ => .ok ([d], rest)
    | none, some width =>
      match hexNumber? width 0 rest with
      | none => .error .malformed
      | some (n, rest) => (numberedChar n rest).map fun (d, rest) => ([d], rest)
    | none, none => if isBreak c then quotedBreaks true rest else .error .malformed

/-- The gap of blanks and line breaks in front, between quotes. -/
def quotedGap (cs : List Char) : Except Error (List Char × List Char) :=
  let isBlank (c : Char) := c == ' ' || c == '\t'
  match cs.dropWhile isBlank with
  | [] => .error .malformed
  | c :: rest =>
    if isBreak c then
      (quotedBreaks true rest).map fun (breaks, rest) => (foldedBreaks (breakValue c) breaks, rest)
    else .ok (cs.takeWhile isBlank, c :: rest)

/-- The scalar up to its closing quote, and the text after that; at most `fuel` pieces. -/
def quotedBody (double : Bool) : Nat → List Char → Except Error (List Char × List Char)
  | 0, _ | _, [] => .error .malformed
  | fuel + 1, c :: rest => do
    let continueWith (text : List Char) (rest : List Char) : Except Error (List Char × List Char) :=
      (quotedBody double fuel rest).map fun (more, rest) => (text ++ more, rest)
    if c == ' ' || c == '\t' || isBreak c then
      let (gap, rest) ← quotedGap (c :: rest)
      continueWith gap rest
    else if double && c == '\\' then
      let (text, rest) ← escape rest
      continueWith text rest
    else if double then
      if c == '"' then return ([], rest) else continueWith [c] rest
    else if c == '\'' then
      match rest with
      | '\'' :: rest => continueWith ['\''] rest
      | rest => return ([], rest)
    else continueWith [c] rest

/-- A quoted scalar after its opening quote. -/
def quotedScalar (double : Bool) (cs : List Char) : Except Error (List Char × List Char) :=
  quotedBody double (cs.length + 1) cs

/-! ## Block scalars -/

/-- What becomes of the line breaks at the end of a block scalar. -/
inductive Chomping where
  /-- None is kept. -/
  | strip
  /-- One is kept. -/
  | clip
  /-- All are kept. -/
  | keep
  deriving DecidableEq

/-- A sign for the line breaks at the end, if there is one in front. -/
def chompingSign? : List Char → Option (Chomping × List Char)
  | '+' :: rest => some (.keep, rest)
  | '-' :: rest => some (.strip, rest)
  | _ => none

/-- A digit for the indentation, if there is one in front; zero is refused. -/
def indentDigit? : List Char → Except Error (Option Nat × List Char)
  | c :: rest =>
    if !c.isDigit then .ok (none, c :: rest)
    else if c == '0' then .error .malformed
    else .ok (some (c.toNat - 48), rest)
  | [] => .ok (none, [])

/-- The header of a block scalar: a sign and a digit in either order, both optional. -/
def blockHeader (cs : List Char) : Except Error (Chomping × Option Nat × List Char) :=
  match chompingSign? cs with
  | some (chomping, rest) => (indentDigit? rest).map fun (digit, rest) => (chomping, digit, rest)
  | none => do
    match ← indentDigit? cs with
    | (none, rest) => return (.clip, none, rest)
    | (some digit, rest) =>
      match chompingSign? rest with
      | some (chomping, rest) => return (chomping, some digit, rest)
      | none => return (.clip, some digit, rest)

/-- The blank lines in front of a block scalar: their breaks, the greatest indentation, the column
of what follows, and the text from there. -/
def leadingLines (column greatest : Nat) : List Char → List Char × Nat × Nat × List Char
  | [] => ([], greatest, column, [])
  | c :: rest =>
    if c == ' ' then leadingLines (column + 1) (max greatest (column + 1)) rest
    else if isBreak c then
      let (breaks, more) := leadingLines 0 greatest rest
      (breakValue c :: breaks, more)
    else ([], greatest, column, c :: rest)

/-- The blank lines inside a block scalar of the given indentation: their breaks, the column of what
follows, and the text from there. -/
def innerLines (indent column : Nat) : List Char → List Char × Nat × List Char
  | [] => ([], column, [])
  | c :: rest =>
    if c == ' ' && column < indent then innerLines indent (column + 1) rest
    else if isBreak c then
      let (breaks, more) := innerLines indent 0 rest
      (breakValue c :: breaks, more)
    else ([], column, c :: rest)

/-- Whether a line starts with a blank or there is none. -/
def startsBlank : List Char → Bool
  | [] => false
  | c :: _ => c == ' ' || c == '\t'

/-- What stands between two lines of a block scalar: their break, or a space in its place where a
folded scalar goes on with a line that does not start with a blank. -/
def betweenLines (folded : Bool) (lineBreak : List Char) (breaks line next : List Char) :
    List Char :=
  if folded && lineBreak == ['\n'] && !startsBlank line && !startsBlank next then
    if breaks.isEmpty then [' '] else []
  else lineBreak

/-- The lines of a block scalar after the line breaks `before`, at most `fuel` of them: their text,
the break of the last line, the breaks after it, and the text from there. -/
def blockLines (folded : Bool) (indent : Nat) :
    Nat → List Char → Nat → List Char → List Char × List Char × List Char × List Char
  | 0, before, _, cs => ([], [], before, cs)
  | fuel + 1, before, column, cs =>
    if column != indent || cs.isEmpty then ([], [], before, cs)
    else
      let line := cs.takeWhile (!isBreak ·)
      let rest := skipLine cs
      let lineBreak := (rest.head?.map breakValue).toList
      let (breaks, column, rest) := innerLines indent 0 (skipBreak rest)
      if column == indent && !rest.isEmpty then
        let between := betweenLines folded lineBreak breaks line rest
        let (more, last) := blockLines folded indent fuel breaks column rest
        (before ++ line ++ between ++ more, last)
      else (before ++ line, lineBreak, breaks, rest)

/-- A block scalar after its indicator, inside a collection of indentation `indent`: its text and
the text after it. -/
def blockScalar (folded : Bool) (indent : Int) (cs : List Char) :
    Except Error (List Char × List Char) := do
  let (chomping, digit, rest) ← blockHeader cs
  if !endsWord rest then throw .malformed
  let rest ← blankLine rest
  let least := (max 1 (indent + 1)).toNat
  let (before, column, inner, rest) :=
    match digit with
    | none =>
      let (breaks, greatest, column, rest) := leadingLines 0 0 rest
      (breaks, column, max least greatest, rest)
    | some digit =>
      let inner := least + digit - 1
      let (breaks, column, rest) := innerLines inner 0 rest
      (breaks, column, inner, rest)
  let (text, lineBreak, breaks, rest) := blockLines folded inner (rest.length + 1) before column rest
  let final := match chomping with
    | .strip => []
    | .clip => lineBreak
    | .keep => lineBreak ++ breaks
  return (text ++ final, rest)

/-! ## Anchors and tags -/

/-- The name after the indicator of an anchor or alias, and the text after it. -/
def anchorName (cs : List Char) : Except Error (String × List Char) :=
  let name := cs.takeWhile isNameChar
  let rest := cs.dropWhile isNameChar
  let ends := endsToken rest || rest.head?.any ("?:,]\x7d%@`".toList.contains ·)
  if name.isEmpty || !ends then .error .malformed else .ok (String.ofList name, rest)

/-- The characters of the text of a tag, the escape sign apart. -/
def isTagChar (c : Char) : Bool := c.isAlphanum || "-;/?:@&=+$,_.!~*'()[]".toList.contains c

/-- Bytes written as escape signs with two hexadecimal digits each. -/
def escapedBytes : List Char → Except Error (List UInt8 × List Char)
  | '%' :: a :: b :: rest =>
    match Text.hexValue? a, Text.hexValue? b with
    | some x, some y =>
      (escapedBytes rest).map fun (bytes, rest) => (UInt8.ofNat (16 * x + y) :: bytes, rest)
    | _, _ => .error .malformed
  | '%' :: _ => .error .malformed
  | rest => .ok ([], rest)

/-- The text of escaped bytes. -/
def bytesText (bytes : List UInt8) : Except Error (List Char) :=
  match String.fromUTF8? (ByteArray.mk bytes.toArray) with
  | some s => .ok s.toList
  | none => .error .malformed

/-- The text of a tag in front, at most `fuel` pieces of it. -/
def tagText : Nat → List Char → Except Error (List Char × List Char)
  | 0, cs => .ok ([], cs)
  | fuel + 1, cs => do
    let plain := cs.takeWhile isTagChar
    match cs.dropWhile isTagChar with
    | '%' :: rest =>
      let (bytes, rest) ← escapedBytes ('%' :: rest)
      let text ← bytesText bytes
      let (more, rest) ← tagText fuel rest
      return (plain ++ text ++ more, rest)
    | rest => return (plain, rest)

/-- The text of a tag, which must not be empty. -/
def tagUri (cs : List Char) : Except Error (String × List Char) := do
  let (text, rest) ← tagText (cs.length + 1) cs
  if rest.length == cs.length then throw .malformed
  return (String.ofList text, rest)

/-- The handle of a tag: one exclamation mark, or a name between two. -/
def tagHandle (cs : List Char) : Except Error (String × List Char) :=
  match cs with
  | '!' :: ' ' :: rest => .ok ("!", ' ' :: rest)
  | '!' :: rest =>
    match rest.dropWhile isNameChar with
    | '!' :: after => .ok (String.ofList ('!' :: rest.takeWhile isNameChar ++ ['!']), after)
    | _ => .error .malformed
  | _ => .error .malformed

/-- A tag after its exclamation mark: its handle, if it has one, its suffix, and the text after
it. -/
def tagProperty (cs : List Char) : Except Error (Option String × String × List Char) := do
  let (handle, suffix, rest) ← match cs with
    | '<' :: rest => do
      let (suffix, rest) ← tagUri rest
      match rest with
      | '>' :: rest => pure (none, suffix, rest)
      | _ => throw .malformed
    | _ =>
      if endsToken cs then pure (none, "!", cs)
      else if (cs.takeWhile fun c => !(c == ' ' || isBreak c)).contains '!' then do
        let (handle, rest) ← tagHandle ('!' :: cs)
        let (suffix, rest) ← tagUri rest
        pure (some handle, suffix, rest)
      else do
        let (suffix, rest) ← tagUri cs
        pure (some "!", suffix, rest)
  if endsWord rest then return (handle, suffix, rest) else throw .malformed

/-! ## Directives -/

/-- The digits in front, as a number. -/
def decimalNumber (cs : List Char) : Except Error (Nat × List Char) :=
  let ds := cs.takeWhile Char.isDigit
  if ds.isEmpty then .error .malformed
  else .ok (ds.foldl (fun n c => 10 * n + (c.toNat - 48)) 0, cs.dropWhile Char.isDigit)

/-- The version of the language: two numbers with a point between them. -/
def versionDirective (cs : List Char) : Except Error (Directive × List Char) := do
  let (major, rest) ← decimalNumber (skipSpaces cs)
  match rest with
  | '.' :: rest =>
    let (_, rest) ← decimalNumber rest
    if endsWord rest then return (.version major, rest) else throw .malformed
  | _ => throw .malformed

/-- A handle of tags and what it stands for. -/
def handleDirective (cs : List Char) : Except Error (Directive × List Char) := do
  let (handle, rest) ← tagHandle (skipSpaces cs)
  if rest.head? != some ' ' then throw .malformed
  let (expansion, rest) ← tagUri (skipSpaces rest)
  if endsWord rest then return (.tagHandle handle expansion, rest) else throw .malformed

/-- A directive after its percent sign, and the text after its line. -/
def directiveLine (cs : List Char) : Except Error (Directive × List Char) := do
  let name := cs.takeWhile isNameChar
  let rest := cs.dropWhile isNameChar
  if name.isEmpty || !endsWord rest then throw .malformed
  let (directive, rest) ←
    if name == "YAML".toList then versionDirective rest
    else if name == "TAG".toList then handleDirective rest
    else pure (.other, skipLine rest)
  return (directive, ← blankLine rest)

end PluginCatalog.Yaml
