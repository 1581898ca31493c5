import PluginCatalog.Yaml.Scalar

/-!
# Nodes of YAML

A document is a tree of nodes: scalars, sequences and mappings, each with a tag that says what kind
of value it denotes.

* `Reader.document?` reads the next document of a list of tokens. An alias stands for the node of
  its anchor; inside that node itself it stands for a mention of it.
-/

namespace PluginCatalog.Yaml

/-- A node of a document. -/
inductive Node where
  | scalar (tag : Tag) (text : String)
  | sequence (tag : Tag) (items : List Node)
  | mapping (tag : Tag) (entries : List (Node × Node))
  /-- A mention of the collection at an anchor inside itself; `keyed` if it is a mapping. -/
  | cycle (keyed : Bool) (anchor : String)
  deriving Inhabited

/-! ## The state of reading -/

/-- What an anchor stands for. -/
inductive Anchored where
  | node (n : Node)
  /-- A collection that is not read to its end; `keyed` if it is a mapping. -/
  | unfinished (keyed : Bool)

/-- What is known between two tokens. -/
structure Reading where
  tokens : List Token
  /-- Why there are no further tokens, if the text breaks the rules. -/
  broken : Option Error
  anchors : List (String × Anchored)
  handles : List (String × String)

/-- A step of reading. -/
abbrev Reader := StateT Reading (Except Error)

namespace Reader

/-- The token in front. -/
def peek : Reader Token := do
  let s ← get
  match s.tokens with
  | t :: _ => return t
  | [] => throw (s.broken.getD .malformed)

/-- Passes over the token in front. -/
def next : Reader Unit := modify fun s => { s with tokens := s.tokens.drop 1 }

/-- Passes over the token in front if it is `t`, and tells whether it was. -/
def accept (t : Token) : Reader Bool := do
  if (← peek) == t then next; return true else return false

/-- Passes over the token in front, which has to be `t`. -/
def expect (t : Token) : Reader Unit := do if !(← accept t) then throw .malformed

/-- Whether the token in front is one of the given ones. -/
def isOneOf (ts : List Token) : Reader Bool := return ts.contains (← peek)

/-! ## Properties -/

/-- The anchor in front, if there is one. -/
def anchor? : Reader (Option String) := do
  match ← peek with
  | .anchor name => next; return some name
  | _ => return none

/-- The tag in front, if there is one, its handle replaced by what it stands for. -/
def tag? : Reader (Option (Option String × String)) := do
  match ← peek with
  | .tag handle suffix => next; return some (handle, suffix)
  | _ => return none

/-- The full text of a tag. -/
def fullTag (handle : Option String) (suffix : String) : Reader String := do
  match handle with
  | none => return suffix
  | some handle =>
    match (← get).handles.lookup handle with
    | some expansion => return expansion ++ suffix
    | none => throw .malformed

/-- The anchor and the full tag in front, in either order, both optional. -/
def properties : Reader (Option String × Option String) := do
  let (anchor, tag) ←
    match ← anchor? with
    | some name => pure (some name, ← tag?)
    | none =>
      match ← tag? with
      | some tag => pure (← anchor?, some tag)
      | none => pure (none, none)
  match tag with
  | none => return (anchor, none)
  | some (handle, suffix) => return (anchor, some (← fullTag handle suffix))

/-- Notes what an anchor stands for. -/
def setAnchor (anchor : Option String) (a : Anchored) : Reader Unit := do
  match anchor with
  | none => return
  | some name => modify fun s => { s with anchors := (name, a) :: s.anchors }

/-- Refuses an anchor that stands for something already. -/
def checkAnchor (anchor : Option String) : Reader Unit := do
  match anchor with
  | none => return
  | some name => if ((← get).anchors.lookup name).isSome then throw .malformed

/-- The node of an alias. -/
def aliased (name : String) : Reader Node := do
  match (← get).anchors.lookup name with
  | some (.node n) => return n
  | some (.unfinished keyed) => return .cycle keyed name
  | none => throw .malformed

/-! ## Nodes -/

/-- The tag of a collection: the one written, or the usual one of its shape. -/
def collectionTag (tag : Option String) (usual : Tag) : Tag :=
  match tag with
  | none | some "!" => usual
  | some tag => Tag.ofText tag

/-- The tag of a scalar: the one written, or the one that its text suggests; the text suggests one
if the scalar is plain, or if the tag is an exclamation mark. -/
def scalarTag (tag : Option String) (plain : Bool) (text : String) : Tag :=
  match tag with
  | some "!" => Tag.implied text.toList
  | some tag => Tag.ofText tag
  | none => if plain then Tag.implied text.toList else .text

/-- The scalar that stands where nothing is written. -/
def absent : Node := .scalar .null ""

/-- The tokens of blocks, in front of which a key or value may be left out. -/
def blockMarks : List Token := [.key, .value, .blockEnd]

mutual

/-- Reads a node. Block collections are admitted if `inBlock`, and items without further
indentation if `indentless`. -/
def node (inBlock indentless : Bool) : Nat → Reader Node
  | 0 => throw .malformed
  | fuel + 1 => do
    match ← peek with
    | .alias name => next; aliased name
    | _ =>
      let (anchor, tag) ← properties
      let front ← peek
      let isCollection := match front with
        | .blockEntry => indentless
        | .blockSequenceStart | .blockMappingStart => inBlock
        | .flowSequenceStart | .flowMappingStart => true
        | _ => false
      if isCollection then
        checkAnchor anchor
        let keyed := front == .blockMappingStart || front == .flowMappingStart
        setAnchor anchor (.unfinished keyed)
        if front != .blockEntry then next
        let n ← match front with
          | .blockMappingStart =>
            (Node.mapping (collectionTag tag .map)) <$> blockEntries fuel
          | .flowMappingStart =>
            (Node.mapping (collectionTag tag .map)) <$> flowEntries true fuel
          | .flowSequenceStart =>
            (Node.sequence (collectionTag tag .sequence)) <$> flowItems true fuel
          | .blockSequenceStart =>
            (Node.sequence (collectionTag tag .sequence)) <$> blockItems false fuel
          | _ => (Node.sequence (collectionTag tag .sequence)) <$> blockItems true fuel
        setAnchor anchor (.node n)
        return n
      else
        let n ← match front with
          | .scalar text plain => do
            next
            pure (Node.scalar (scalarTag tag plain text) text)
          | _ =>
            if anchor.isSome || tag.isSome then pure (Node.scalar (scalarTag tag true "") "")
            else throw .malformed
        checkAnchor anchor
        setAnchor anchor (.node n)
        return n

/-- Reads a node unless one of the given tokens is in front, which leave it out. -/
def nodeUnless (marks : List Token) (inBlock indentless : Bool) : Nat → Reader Node
  | 0 => throw .malformed
  | fuel + 1 => do
    if ← isOneOf marks then return absent else node inBlock indentless fuel

/-- Reads the items of a block sequence up to its end; without indentation of its own it ends in
front of the next token that is no item. -/
def blockItems (indentless : Bool) : Nat → Reader (List Node)
  | 0 => throw .malformed
  | fuel + 1 => do
    if ← accept .blockEntry then
      let marks := if indentless then .blockEntry :: blockMarks else [.blockEntry, .blockEnd]
      let item ← nodeUnless marks true false fuel
      return item :: (← blockItems indentless fuel)
    else if indentless then return []
    else
      expect .blockEnd
      return []

/-- Reads the entries of a block mapping up to its end. -/
def blockEntries : Nat → Reader (List (Node × Node))
  | 0 => throw .malformed
  | fuel + 1 => do
    if ← accept .key then
      let key ← nodeUnless blockMarks true true fuel
      let value ← if ← accept .value then nodeUnless blockMarks true true fuel else pure absent
      return (key, value) :: (← blockEntries fuel)
    else
      expect .blockEnd
      return []

/-- Reads the items of a sequence between brackets up to the closing one. -/
def flowItems (isFirst : Bool) : Nat → Reader (List Node)
  | 0 => throw .malformed
  | fuel + 1 => do
    if ← accept .flowSequenceEnd then return []
    if !isFirst then expect .flowEntry
    if ← accept .flowSequenceEnd then return []
    let marks : List Token := [.flowEntry, .flowSequenceEnd]
    let item ←
      if ← accept .key then
        let key ← nodeUnless (.value :: marks) false false fuel
        let value ← if ← accept .value then nodeUnless marks false false fuel else pure absent
        pure (Node.mapping .map [(key, value)])
      else node false false fuel
    return item :: (← flowItems false fuel)

/-- Reads the entries of a mapping between brackets up to the closing one. -/
def flowEntries (isFirst : Bool) : Nat → Reader (List (Node × Node))
  | 0 => throw .malformed
  | fuel + 1 => do
    if ← accept .flowMappingEnd then return []
    if !isFirst then expect .flowEntry
    if ← accept .flowMappingEnd then return []
    let marks : List Token := [.flowEntry, .flowMappingEnd]
    let entry ←
      if ← accept .key then
        let key ← nodeUnless (.value :: marks) false false fuel
        let value ← if ← accept .value then nodeUnless marks false false fuel else pure absent
        pure (key, value)
      else
        let key ← node false false fuel
        pure (key, absent)
    return entry :: (← flowEntries false fuel)

end

/-! ## Documents -/

/-- The handles of tags that every document has. -/
def usualHandles : List (String × String) := [("!", "!"), ("!!", "tag:yaml.org,2002:")]

/-- Reads directives: the handles that they define, and whether a version was given. Repeated ones
and other versions of the language are refused. -/
def directives (handles : List (String × String)) (versioned : Bool) :
    Nat → Reader (List (String × String))
  | 0 => throw .malformed
  | fuel + 1 => do
    match ← peek with
    | .directive d =>
      next
      match d with
      | .version major =>
        if versioned || major != 1 then throw .malformed
        directives handles true fuel
      | .tagHandle handle expansion =>
        if (handles.lookup handle).isSome then throw .malformed
        directives ((handle, expansion) :: handles) versioned fuel
      | .other => directives handles versioned fuel
    | _ => return handles ++ usualHandles

/-- Passes over marks of the end of a document. -/
def skipEnds : Nat → Reader Unit
  | 0 => throw .malformed
  | fuel + 1 => do if ← accept .documentEnd then skipEnds fuel

/-- Reads the next document, if there is one. The first one needs no mark in front. -/
def document? (isFirst : Bool) : Reader (Option Node) := do
  let fuel := 4 * (← get).tokens.length + 4
  let front ← peek
  let marked := match front with
    | .directive _ | .documentStart | .streamEnd => true
    | _ => !isFirst
  let finish (n : Node) : Reader (Option Node) := do
    let _ ← accept .documentEnd
    return some n
  modify fun s => { s with anchors := [], handles := usualHandles }
  if marked then
    skipEnds fuel
    if (← peek) == .streamEnd then return none
    let handles ← directives [] false fuel
    modify fun s => { s with handles }
    expect .documentStart
    match ← peek with
    | .directive _ | .documentStart | .documentEnd | .streamEnd => finish absent
    | _ => finish (← node true false fuel)
  else finish (← node true false fuel)

/-- Whether nothing but marks of the end of a document follows. -/
def atEnd : Reader Bool := do
  skipEnds ((← get).tokens.length + 1)
  return (← peek) == .streamEnd

end Reader

end PluginCatalog.Yaml
