import PluginCatalog.Archive.Member
import PluginCatalog.Fault
import PluginCatalog.Keyed
import PluginCatalog.Path

/-!
# File trees

A file tree holds directories, files, symbolic links and special files, each at a location: the
names on the way from the root. A file has a serial number; files of one number are one file under
several names, so that what is written to one is read from all.

* `FileTree.node?` is what stands at a location; `FileTree.set` and `FileTree.erase` change it.
* `FileTree.follow p` is where a path leads when links are followed, `FileTree.locate p` the same
  without following a link at its end. Both fail as the system does: on a missing or wrong
  component on the way, and after forty links.
-/

namespace PluginCatalog

/-- The names on the way from the root. -/
abbrev Location := List String

/-- What stands at a location. -/
inductive Node where
  | directory
  | file (serial : Nat) (content : Content)
  /-- A symbolic link with its target as written. -/
  | link (target : String)
  | special

/-- A node, with new content if it is the file of a serial number. -/
def Node.withContent (serial : Nat) (content : Content) : Node → Node
  | file s c => file s (if s = serial then content else c)
  | node => node

/-- A tree of files, and the directory from which relative paths are seen. -/
structure FileTree where
  working : Location
  entries : List (Location × Node)

/-- Where a path leads. -/
inductive Spot where
  /-- Something stands there. -/
  | taken (location : Location) (node : Node)
  /-- Nothing stands there, but it is a place in a directory. -/
  | free (location : Location)

/-- The location of a spot. -/
def Spot.location : Spot → Location
  | taken loc _ => loc
  | free loc => loc

@[simp] theorem Spot.location_taken (loc : Location) (node : Node) :
    (taken loc node).location = loc := rfl

@[simp] theorem Spot.location_free (loc : Location) : (free loc).location = loc := rfl

namespace FileTree

/-! ## Locations -/

/-- What stands at a location; the root is a directory. -/
def node? (t : FileTree) : Location → Option Node
  | [] => some .directory
  | loc => t.entries.lookup loc

/-- The entries with `node` at `loc`. -/
def setEntry (loc : Location) (node : Node) : List (Location × Node) → List (Location × Node) :=
  putBy Prod.fst (loc, node)

/-- Puts a node at a location. -/
def set (t : FileTree) (loc : Location) (node : Node) : FileTree :=
  { t with entries := setEntry loc node t.entries }

/-- Removes what stands at a location. -/
def erase (t : FileTree) (loc : Location) : FileTree :=
  { t with entries := t.entries.filter fun (l, _) => l != loc }

/-- Removes a location and everything below it. -/
def eraseBelow (t : FileTree) (loc : Location) : FileTree :=
  { t with entries := t.entries.filter fun (l, _) => !loc.isPrefixOf l }

/-- The entries strictly below a location, with the names from there on. -/
def below (t : FileTree) (loc : Location) : List (Location × Node) :=
  t.entries.filterMap fun (l, n) =>
    if loc.isPrefixOf l && l.length != loc.length then some (l.drop loc.length, n) else none

/-- The number after `n` and after all numbers of files in a list of entries. -/
def serialAfter (n : Nat) (entries : List (Location × Node)) : Nat :=
  entries.foldl (fun n (_, node) => match node with
    | .file serial _ => max n (serial + 1)
    | _ => n) n

/-- A serial number that no file has. -/
def freshSerial (t : FileTree) : Nat := serialAfter 0 t.entries

/-- Gives new content to the file of a serial number, under all its names. -/
def setContent (t : FileTree) (serial : Nat) (content : Content) : FileTree :=
  { t with entries := t.entries.map fun (l, node) => (l, node.withContent serial content) }

/-! ## Ways -/

/-- The directory from which a target or path is seen: the root for an absolute one. -/
def origin (here : Location) (target : Path) : Location := if target.isAbsolute then [] else here

/-- Walks along names from `here`; a link on the way is handed to `onLink` with the directory from
which its target is seen and the names to walk from there. A link at the end is handed over only if
`last` is set. -/
def walkWith (t : FileTree) (last : Bool)
    (onLink : Location → List String → Except FileFault Spot) :
    Location → List String → Except FileFault Spot
  | here, [] => .ok (.taken here .directory)
  | here, name :: rest =>
    if name = "." then t.walkWith last onLink here rest
    else if name = ".." then t.walkWith last onLink here.dropLast rest
    else
      let loc := here ++ [name]
      match t.node? loc with
      | none => if rest.isEmpty then .ok (.free loc) else .error .notFound
      | some .directory => t.walkWith last onLink loc rest
      | some (.link target) =>
        if rest.isEmpty && !last then .ok (.taken loc (.link target))
        else if target.isEmpty then .error .notFound
        else onLink (origin here (Path.ofText target)) (Path.components target ++ rest)
      | some node => if rest.isEmpty then .ok (.taken loc node) else .error .notADirectory

/-- Walks along names with a number of links to follow at most. -/
def walk (t : FileTree) (last : Bool) : Nat → Location → List String → Except FileFault Spot
  | 0 => t.walkWith last fun _ _ => .error .tooManyLinks
  | links + 1 => t.walkWith last (t.walk last links)

/-- The number of links that are followed on the way to a file. -/
def maxLinks : Nat := 40

/-- Where a path leads, links followed. -/
def follow (t : FileTree) (p : Path) : Except FileFault Spot :=
  t.walk true maxLinks (origin t.working p) p.parts

/-- Where a path leads, a link at its end not followed. -/
def locate (t : FileTree) (p : Path) : Except FileFault Spot :=
  t.walk false maxLinks (origin t.working p) p.parts

/-! ## Questions -/

/-- What a path leads to, links followed, if it leads to something. -/
def find? (t : FileTree) (p : Path) : Option Node :=
  match t.follow p with
  | .ok (.taken _ node) => some node
  | _ => none

/-- Whether a path leads to something. -/
def pathExists (t : FileTree) (p : Path) : Bool := (t.find? p).isSome

/-- The content of the file to which a path leads. -/
def file? (t : FileTree) (p : Path) : Option Content :=
  match t.find? p with
  | some (.file _ content) => some content
  | _ => none

/-- Whether a path leads to a file. -/
def isFile (t : FileTree) (p : Path) : Bool := (t.file? p).isSome

/-- Whether a path leads to a directory. -/
def isDirectory (t : FileTree) (p : Path) : Bool :=
  match t.find? p with
  | some .directory => true
  | _ => false

/-- Opens a file for reading. -/
def read (t : FileTree) (p : Path) : Except FileFault Content := do
  match ← t.follow p with
  | .taken _ (.file _ content) => return content
  | .taken _ .directory => throw .isADirectory
  | .taken _ _ => throw .notPermitted
  | .free _ => throw .notFound

/-! ## Changes -/

/-- Writes a file: one that is there gets the content, otherwise a new one is made. -/
def write (t : FileTree) (p : Path) (content : Content) : Except FileFault FileTree := do
  match ← t.follow p with
  | .taken _ (.file serial _) => return t.setContent serial content
  | .taken _ .directory => throw .isADirectory
  | .taken _ _ => throw .notPermitted
  | .free loc => return t.set loc (.file t.freshSerial content)

/-- Takes the lock that a file is: the file is made, or loses what it holds, also behind a symbolic
link. A special file is taken as it is. -/
def takeLock (t : FileTree) (p : Path) : Except FileFault FileTree :=
  match t.find? p with
  | some .special => .ok t
  | _ => t.write p (.text "")

/-- Puts a node where nothing stands yet. -/
def make (t : FileTree) (p : Path) (node : Node) : Except FileFault FileTree := do
  match ← t.locate p with
  | .taken _ _ => throw .alreadyExists
  | .free loc => return t.set loc node

/-- Makes a directory. -/
def makeDirectory (t : FileTree) (p : Path) : Except FileFault FileTree := t.make p .directory

/-- Makes a symbolic link; its target must not be empty. -/
def makeLink (t : FileTree) (target : String) (p : Path) : Except FileFault FileTree :=
  if target.isEmpty then .error .notFound else t.make p (.link target)

/-- Gives a second name to a file or link; a directory cannot have one. -/
def makeHardLink (t : FileTree) (source p : Path) : Except FileFault FileTree := do
  match ← t.locate source with
  | .free _ => throw .notFound
  | .taken _ .directory => do
    let _ ← t.make p .special
    throw .notPermitted
  | .taken _ node => t.make p node

/-- Removes a file or link. -/
def unlink (t : FileTree) (p : Path) : Except FileFault FileTree := do
  match ← t.locate p with
  | .taken _ .directory => throw .isADirectory
  | .taken loc _ => return t.erase loc
  | .free _ => throw .notFound

/-- A change, or the tree as it was and why it is refused. -/
def orUnchanged (t : FileTree) : Except FileFault FileTree → FileTree × Except FileFault Unit
  | .ok t => (t, .ok ())
  | .error e => (t, .error e)

/-- Makes a directory after the directories above it, of which some may be there. The names are
given from the last to the first. A directory above that comes into being by another way is no
failure. -/
def makeWayReversed (t : FileTree) (slashes : Nat) :
    List String → FileTree × Except FileFault Unit
  | [] => (t, .error .alreadyExists)
  | name :: above =>
    let p : Path := ⟨slashes, (name :: above).reverse⟩
    if above.isEmpty || t.pathExists ⟨slashes, above.reverse⟩ then
      t.orUnchanged (t.makeDirectory p)
    else
      match t.makeWayReversed slashes above with
      | (t, .ok ()) | (t, .error .alreadyExists) =>
        if name = "." then (t, .ok ()) else t.orUnchanged (t.makeDirectory p)
      | refused => refused

/-- Makes a directory and those above it. What was made before a failure stays. -/
def makeWay (t : FileTree) (p : Path) : FileTree × Except FileFault Unit :=
  t.makeWayReversed p.slashes p.parts.reverse

/-- Makes a directory and those above it unless there is one already; the names are given from the
last to the first. What was made before a failure stays. -/
def ensureReversed (t : FileTree) (slashes : Nat) : List String → FileTree × Except FileFault Unit
  | [] => (t, .ok ())
  | name :: above =>
    let p : Path := ⟨slashes, (name :: above).reverse⟩
    match t.makeDirectory p with
    | .ok t => (t, .ok ())
    | .error .notFound =>
      match t.ensureReversed slashes above with
      | (t, .error e) => (t, .error e)
      | (t, .ok ()) => match t.makeDirectory p with
        | .ok t => (t, .ok ())
        | .error e => if t.isDirectory p then (t, .ok ()) else (t, .error e)
    | .error e => if t.isDirectory p then (t, .ok ()) else (t, .error e)

/-- Makes a directory and those above it unless there is one already. -/
def ensureDirectory (t : FileTree) (p : Path) : FileTree × Except FileFault Unit :=
  t.ensureReversed p.slashes p.parts.reverse

/-- Puts a node at a path, in place of a file or link that stands there, and makes the directories
above it; a directory that is there stays. -/
def place (t : FileTree) (p : Path) (node : Node) : FileTree :=
  let (t, _) := t.ensureDirectory p.parent
  match t.locate p, node with
  | .ok (.free loc), _ => t.set loc node
  | .ok (.taken _ .directory), .directory => t
  | .ok (.taken loc _), _ => t.set loc node
  | .error _, _ => t

/-- Puts a file at a path. -/
def placeFile (t : FileTree) (p : Path) (content : Content) : FileTree :=
  t.place p (.file t.freshSerial content)

end FileTree

end PluginCatalog
