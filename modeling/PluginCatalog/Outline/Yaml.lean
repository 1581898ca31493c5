import PluginCatalog.Outline
import PluginCatalog.Text.Hex
import PluginCatalog.Yaml.Scalar

/-!
# Outlines in YAML

* `Outline.yaml` prints an outline as a YAML document in block style: items after dashes, fields
  as keys, two more blanks of indentation per level. Empty collections are in flow style.
* `Style.of` chooses how a text is written: plain where it reads back as this text, else in single
  quotes, and in double quotes if it holds characters beyond printable ASCII and line feeds.
* Words that begin beyond column 80 go to a new line where the text allows it (`folded`,
  `doubleQuoted`).
-/

namespace PluginCatalog.Yaml.Writing

/-- The column beyond which texts are continued on a new line. -/
def width : Nat := 80

/-- A new line with its indentation. -/
def newLine (indent : Nat) : List Char := '\n' :: List.replicate indent ' '

/-! ## Styles -/

/-- How a text is written. -/
inductive Style where
  | plain
  | single
  | double
  deriving DecidableEq, Repr

/-- Whether a character is printable ASCII. -/
def isPlainChar (c : Char) : Bool := ' ' ≤ c && c ≤ '~'

/-- Whether a blank or the end follows. -/
def endsHere : List Char → Bool
  | [] => true
  | c :: _ => c == ' '

/-- Whether a text starts like something else than a plain text. -/
def startsMarked : List Char → Bool
  | '-' :: '-' :: '-' :: _ | '.' :: '.' :: '.' :: _ => true
  | c :: rest =>
    "#,[]\x7b\x7d&*!|>'\"%@`".toList.contains c
      || ((c == '?' || c == ':' || c == '-') && endsHere rest)
  | [] => false

/-- Whether a colon before a blank or a number sign after one stands in a text. -/
def holdsMark : List Char → Bool
  | [] => false
  | ':' :: rest => endsHere rest || holdsMark rest
  | ' ' :: '#' :: _ => true
  | _ :: rest => holdsMark rest

/-- Whether a text can be written plain. -/
def plainAllowed (cs : List Char) : Bool :=
  cs.all isPlainChar && !startsMarked cs && !holdsMark cs
    && cs.head? != some ' ' && cs.getLast? != some ' ' && Tag.implied cs == .text

/-- Whether a blank stands beside a line feed. -/
def blankAtBreak : List Char → Bool
  | ' ' :: '\n' :: _ | '\n' :: ' ' :: _ => true
  | _ :: rest => blankAtBreak rest
  | [] => false

/-- Whether a text can be written in single quotes. -/
def singleAllowed (cs : List Char) : Bool :=
  cs.all (fun c => isPlainChar c || c == '\n') && !blankAtBreak cs

/-- The style in which a text is written. -/
def Style.of (cs : List Char) : Style :=
  if plainAllowed cs then .plain
  else if singleAllowed cs then .single
  else .double

/-! ## Plain and single quoted texts -/

/-- Where and whether a text is continued on new lines. -/
structure Margin where
  indent : Nat
  /-- Whether a long text is continued. -/
  folds : Bool

/-- Whether a blank at a column, between the given character and text, becomes a new line. -/
def isFolded (m : Margin) (column : Nat) (before : Option Char) (after : List Char) : Bool :=
  m.folds && width < column && before.isSome && before != some ' '
    && (match after with
      | [] => false
      | c :: _ => c != ' ')

/-- A text from a column on, after the given character; quotes are doubled if `quoted` is set. -/
def folded (m : Margin) (quoted : Bool) : Nat → Option Char → List Char → List Char
  | _, _, [] => []
  | column, before, c :: rest =>
    if c = ' ' ∧ isFolded m column before rest then
      newLine m.indent ++ folded m quoted m.indent (some c) rest
    else if c = '\n' then
      (if before = some '\n' then ['\n'] else ['\n', '\n'])
        ++ (if rest.head? = some '\n' then folded m quoted 0 (some c) rest
          else List.replicate m.indent ' ' ++ folded m quoted m.indent (some c) rest)
    else if c = '\'' ∧ quoted then
      '\'' :: '\'' :: folded m quoted (column + 2) (some c) rest
    else c :: folded m quoted (column + 1) (some c) rest

/-! ## Double quoted texts -/

/-- The letters of characters that have one. -/
def letters : List (Char × Char) :=
  [('\x00', '0'), ('\x07', 'a'), ('\x08', 'b'), ('\t', 't'), ('\n', 'n'), ('\x0b', 'v'),
    ('\x0c', 'f'), ('\r', 'r'), ('\x1b', 'e'), ('"', '"'), ('\\', '\\'), ('\x85', 'N'),
    ('\xa0', '_'), ('\u2028', 'L'), ('\u2029', 'P')]

/-- A character after a backslash, by its letter or its number. -/
def escaped (c : Char) : List Char :=
  let n := c.toNat
  match letters.lookup c with
  | some letter => ['\\', letter]
  | none =>
    if n < 0x100 then '\\' :: 'x' :: Text.hex true 2 n
    else if n < 0x10000 then '\\' :: 'u' :: Text.hex true 4 n
    else '\\' :: 'U' :: Text.hex true 8 n

/-- Whether a character stands for itself between double quotes. -/
def isItself (c : Char) : Bool := isPlainChar c && c != '"' && c != '\\'

/-- A text between double quotes, from a column on. `held` is the number of characters before the
text that stand for themselves since the last escape or line end; `isFirst` tells that the text is
at its beginning. A line is continued before a blank or beside an escape, never before the last
character; a blank at the start of the new line has a backslash. -/
def doubleQuoted (m : Margin) : Bool → Nat → Nat → List Char → List Char
  | _, _, _, [] => []
  | isFirst, held, column, c :: rest =>
    let mayFold := m.folds && !isFirst && !rest.isEmpty
    if isItself c then
      if mayFold && (c == ' ' || held == 0) && width < column then
        let start := if c = ' ' then ['\\'] else []
        '\\' :: newLine m.indent ++ start
          ++ c :: doubleQuoted m false 1 (m.indent + start.length + 1) rest
      else c :: doubleQuoted m false (held + 1) (column + 1) rest
    else
      let shown := escaped c
      let column := column + shown.length
      if mayFold && width + 1 < column then
        let start := if rest.head? = some ' ' then ['\\'] else []
        shown ++ '\\' :: newLine m.indent ++ start
          ++ doubleQuoted m false 0 (m.indent + start.length) rest
      else shown ++ doubleQuoted m false 0 column rest

/-! ## Scalars -/

/-- A text from a column on. -/
def scalar (m : Margin) (column : Nat) (s : String) : List Char :=
  let cs := s.toList
  match Style.of cs with
  | .plain => folded m false column none cs
  | .single => '\'' :: folded m true (column + 1) none cs ++ ['\'']
  | .double => '"' :: doubleQuoted m true 0 (column + 1) cs ++ ['"']

/-- The greatest length of a key that stands on the line of its value. -/
def longestKey : Nat := 122

/-- Whether a key stands on the line of its value. -/
def isShortKey (s : String) : Bool :=
  !s.isEmpty && s.length ≤ longestKey && !s.toList.contains '\n'
    && !s.toList.any fun c => c == '\x85' || c == '\u2028' || c == '\u2029'

/-! ## Collections -/

/-- Where a node is written. -/
structure Position where
  /-- The indentation of the collection around it, if there is one. -/
  outer : Option Nat
  /-- The column of the next character. -/
  column : Nat
  /-- Whether only indentation and indicators stand before it on the line. -/
  fresh : Bool

namespace Position

/-- The indentation inside a node. -/
def inner (p : Position) : Nat := p.outer.elim 0 (· + 2)

/-- The blank that separates a node from what is before it on the line. -/
def gap (p : Position) : List Char := if p.column = 0 then [] else [' ']

/-- The way to the first entry of a collection: along a line with nothing else on it, or on a new
line. -/
def toFirst (p : Position) (indent : Nat) : List Char :=
  if p.fresh then List.replicate (indent - p.column) ' ' else newLine indent

end Position

/-- A text at a position. -/
def scalarAt (p : Position) (s : String) : List Char :=
  p.gap ++ scalar ⟨p.outer.elim 2 (· + 2), true⟩ (p.column + p.gap.length) s

/-- A key with its colon, and the position of its value. A long key and its value each have a mark
of their own, on a line of its own. -/
def keyAt (indent : Nat) (name : String) : List Char × Position :=
  if isShortKey name then
    let key := scalar ⟨indent, false⟩ indent name
    (key ++ [':'], ⟨some indent, indent + key.length + 1, false⟩)
  else
    ('?' :: scalarAt ⟨some indent, indent + 1, true⟩ name ++ newLine indent ++ [':'],
      ⟨some indent, indent + 1, true⟩)

mutual

/-- A node at a position; `isValue` tells that it is the value of a key. The items of a list that
starts on a new line below its key are not indented further. -/
def node (isValue : Bool) (p : Position) : Outline → List Char
  | .absent => p.gap ++ "null".toList
  | .text s => scalarAt p s
  | .list [] => p.gap ++ "[]".toList
  | .list its =>
    let indent := if isValue && !p.fresh then p.outer.getD 0 else p.inner
    items (p.toFirst indent) indent its
  | .record [] => p.gap ++ "\x7b\x7d".toList
  | .record fs => fields (p.toFirst p.inner) p.inner fs

/-- The items of a list, with the way to the first one. -/
def items (start : List Char) (indent : Nat) : List Outline → List Char
  | [] => []
  | item :: rest =>
    start ++ '-' :: node false ⟨some indent, indent + 1, true⟩ item
      ++ items (newLine indent) indent rest

/-- The fields of a record, with the way to the first one. -/
def fields (start : List Char) (indent : Nat) : List (String × Outline) → List Char
  | [] => []
  | (name, v) :: rest =>
    let (key, value) := keyAt indent name
    start ++ key ++ node true value v ++ fields (newLine indent) indent rest

end

end Yaml.Writing

open Yaml.Writing in
/-- The YAML document of an outline. -/
def Outline.yaml (o : Outline) : String :=
  String.ofList (node false ⟨none, 0, true⟩ o ++ ['\n'])

end PluginCatalog
