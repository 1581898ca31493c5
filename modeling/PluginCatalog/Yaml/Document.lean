import PluginCatalog.Yaml.Lexer
import PluginCatalog.Yaml.Node

/-!
# Documents of YAML

* `Node.value` is the value that a node denotes. The mappings that a mapping merges come before its
  own entries, so that its own entries win. A mention of a collection inside itself denotes the
  collection once more, and no further (`Node.mentioned`).
* `documents` are the values of all documents of a text, `document` the value of a text of at most
  one document; a text without documents denotes null.

Collections denote their values level by level: where several nodes of a document denote none, the
one nearest to its root is reported.
-/

namespace PluginCatalog.Yaml

namespace Node

/-! ## Shape -/

mutual

/-- The number of collections on the longest way down. -/
def depth : Node → Nat
  | scalar _ _ | cycle _ _ => 0
  | sequence _ items => itemsDepth items + 1
  | mapping _ entries => entriesDepth entries + 1

/-- The greatest depth of several nodes. -/
def itemsDepth : List Node → Nat
  | [] => 0
  | n :: rest => max n.depth (itemsDepth rest)

/-- The greatest depth of several entries. -/
def entriesDepth : List (Node × Node) → Nat
  | [] => 0
  | (k, v) :: rest => max (max k.depth v.depth) (entriesDepth rest)

end

/-- The tag of a node. -/
def tag : Node → Tag
  | scalar t _ | sequence t _ | mapping t _ => t
  | cycle keyed _ => if keyed then .map else .sequence

end Node

/-- Whether a tag is one of collections. -/
def Tag.isCollection : Tag → Bool
  | sequence | map | orderedMap | pairs | set => true
  | _ => false

namespace Node

/-! ## Merging -/

/-- The entries of a mapping with the mappings that it merges in front, of which earlier ones in a
list of several win; `fuel` bounds how deep merged mappings lie. -/
def flatten : Nat → List (Node × Node) → Except Error (List (Node × Node))
  | 0, _ => .error .malformed
  | fuel + 1, entries => do
    let merged ← (entries.filter (·.1.tag == .merge)).mapM fun (_, source) =>
      match source with
      | mapping _ sub => flatten fuel sub
      | sequence _ items => do
        let subs ← items.mapM fun
          | mapping _ sub => flatten fuel sub
          | cycle true _ => pure []
          | _ => throw .malformed
        return subs.reverse.flatten
      | cycle _ _ => pure []
      | scalar _ _ => throw .malformed
    let own := (entries.filter (·.1.tag != .merge)).map fun (k, v) =>
      match k with
      | scalar .value s => (scalar .text s, v)
      | k => (k, v)
    return merged.flatten ++ own

/-! ## Values -/

/-- The text of a scalar; that of a mapping is the one of its default value. -/
def scalarText? : Node → Option String
  | scalar _ s => some s
  | mapping _ entries =>
    match entries.find? (·.1.tag == .value) with
    | some (_, scalar _ s) => some s
    | _ => none
  | _ => none

/-- The value of a node with a tag of scalars. -/
def leafValue (n : Node) : Except Error Value :=
  match n.scalarText? with
  | some s => scalarValue n.tag s
  | none => .error .malformed

/-- Whether a node can be a key. -/
def isKey : Node → Bool
  | cycle _ _ => false
  | n => !n.tag.isCollection

/-- The only entry of a mapping that is an item of a list of pairs. -/
def onlyEntry : Node → Except Error (Node × Node)
  | mapping _ [entry] => .ok entry
  | _ => .error .malformed

/-- What a node with a tag of collections consists of. -/
inductive Parts where
  | items (ns : List Node)
  | entries (es : List (Node × Node))
  | pairs (es : List (Node × Node))

/-- The nodes of parts, in order. -/
def Parts.nodes : Parts → List Node
  | items ns => ns
  | entries es | pairs es => es.flatMap fun (k, v) => [k, v]

/-- What a node with a tag of collections consists of, keys checked apart. -/
def parts (n : Node) : Except Error Parts :=
  match n.tag, n with
  | .sequence, sequence _ ns => .ok (.items ns)
  | .map, mapping _ es | .set, mapping _ es => (flatten (n.depth + 1) es).map .entries
  | .orderedMap, sequence _ ns | .pairs, sequence _ ns => (ns.mapM onlyEntry).map .pairs
  | _, _ => .error .malformed

/-- Looks at a node: one with a tag of scalars has to denote a value, one with a tag of collections
is to be looked into later. -/
def visit (n : Node) : Except Error (List Node) :=
  match n with
  | cycle _ _ => .ok []
  | n => if n.tag.isCollection then .ok [n] else n.leafValue.map fun _ => []

/-- Looks at the parts of a collection, one after the other. -/
def lookInto (n : Node) : Except Error (List Node) := do
  match ← n.parts with
  | .entries es =>
    return (← es.mapM fun (k, v) => do
      if !k.isKey then throw .malformed
      return (← k.visit) ++ (← v.visit)).flatten
  | p => return (← p.nodes.mapM visit).flatten

/-- Looks into collections level by level, `fuel` levels at most. -/
def checkLevels : Nat → List Node → Except Error Unit
  | 0, _ => .ok ()
  | fuel + 1, pending => do
    if pending.isEmpty then return
    checkLevels fuel (← pending.mapM lookInto).flatten

/-- The entries of a mapping: the last one of a key wins. -/
def byKey (entries : List (Value × Value)) : List (Value × Value) :=
  entries.foldl (fun acc (k, v) => Value.put k v acc) []

/-- The value of a node that lies `fuel` levels above the deepest node, with what its mentions stand
for. -/
def build (mentioned : Bool → String → Value) : Nat → Node → Except Error Value
  | _, cycle keyed anchor => .ok (.cycle (mentioned keyed anchor))
  | 0, n => if n.tag.isCollection then .error .malformed else n.leafValue
  | fuel + 1, n =>
    if !n.tag.isCollection then n.leafValue
    else do
      let both : Node × Node → Except Error (Value × Value) := fun (k, v) => do
        return (← build mentioned fuel k, ← build mentioned fuel v)
      match ← n.parts, n.tag with
      | .items ns, _ => return .list (← ns.mapM (build mentioned fuel))
      | .entries es, .set => return .set ((byKey (← es.mapM both)).map (·.1))
      | .entries es, _ => return .map (byKey (← es.mapM both))
      | .pairs es, _ => return .list ((← es.mapM both).map fun (k, v) => .pair k v)

/-- A collection of which nothing is known. -/
def emptied (keyed : Bool) : Value := if keyed then .map [] else .list []

/-- The collection that a mention stands for, its own mentions left empty. -/
def mentioned (anchors : List (String × Anchored)) (keyed : Bool) (anchor : String) : Value :=
  match anchors.lookup anchor with
  | some (.node n) =>
    (build (fun keyed _ => emptied keyed) (n.depth + 1) n).toOption.getD (emptied keyed)
  | _ => emptied keyed

/-- The value that a node denotes, where the anchors stand for nodes of its document. -/
def value (anchors : List (String × Anchored)) (n : Node) : Except Error Value := do
  checkLevels (n.depth + 1) (← n.visit)
  build (mentioned anchors) (n.depth + 1) n

end Node

/-! ## Texts -/

/-- The state of reading at the start of a text. -/
def Reading.start (cs : List Char) : Reading :=
  let (tokens, broken) := tokenize cs
  { tokens, broken, anchors := [], handles := [] }

/-- The values of the documents that follow, at most `fuel` of them. -/
def documentsFrom (isFirst : Bool) : Nat → Reading → Except Error (List Value)
  | 0, _ => .error .malformed
  | fuel + 1, s => do
    match ← (Reader.document? isFirst).run s with
    | (none, _) => return []
    | (some n, s) => do
      let v ← n.value s.anchors
      return v :: (← documentsFrom false fuel s)

/-- The values of all documents of a text. -/
def documents (text : String) : Except Error (List Value) :=
  let s := Reading.start text.toList
  documentsFrom true (s.tokens.length + 1) s

/-- The value of a text of at most one document. -/
def document (text : String) : Except Error Value := do
  match ← (Reader.document? true).run (Reading.start text.toList) with
  | (none, _) => return .null
  | (some n, s) =>
    let (ended, _) ← Reader.atEnd.run s
    if ended then n.value s.anchors else throw .malformed

end PluginCatalog.Yaml
