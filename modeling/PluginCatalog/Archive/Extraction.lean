import PluginCatalog.Archive.Safety
import PluginCatalog.Run

/-!
# Extraction of archives

* `extract archive destination` unpacks an archive into a directory, after all of its members have
  been listed and found safe.
* `extractMember` writes one member: directories above it are made, links on the way are followed,
  a file overwrites one that is there, and a symbolic link takes the place of a file or link.
* A hard link is a second name for what its target leads to. Where that is not there yet, and where
  a link cannot be made, the member to which the link points is written in its place
  (`linkTarget?`). Symbolic links may point to any member, hard links to members before them.
-/

namespace PluginCatalog

/-- Why a member is not written. -/
inductive Obstacle where
  /-- The system refuses it. -/
  | system (cause : FileFault)
  /-- A hard link points to nothing. -/
  | noTarget
  /-- A link cannot be made, and the member to which it points is not there; it is left out. -/
  | leftOut
  /-- The member to which a link points comes back to the link. -/
  | endless
  deriving DecidableEq, Repr

/-- The files after a change, and whether it was made. -/
abbrev Written := FileTree × Except Obstacle Unit

/-- A change of files, or why the system refuses it. -/
def Written.of (t : FileTree) : Except FileFault FileTree → Written
  | .ok t => (t, .ok ())
  | .error e => (t, .error (.system e))

/-! ## Members by name -/

/-- A path with `..` resolved as it is written: kept only at the front of a relative path. -/
def Path.plain (p : Path) : Path :=
  let step (kept : List String) (part : String) : List String :=
    if part != ".." then part :: kept
    else match kept with
      | [] => if p.isAbsolute then [] else [".."]
      | last :: above => if last == ".." then ".." :: kept else above
  { p with parts := (p.parts.foldl step []).reverse }

/-- The place in a list of the last member of a name. -/
def lastNamed? (members : List Member) (name : Path) : Option Nat :=
  let named (m : Member) : Bool := (Path.ofText m.name).plain == name.plain
  (members.reverse.findIdx? named).map (members.length - 1 - ·)

/-- The place of the member to which the link at place `i` points: for a hard link one of the
members before it, for a symbolic link one of all members, its target seen from the link's
directory. -/
def linkTarget? (members : List Member) (i : Nat) : Option Nat :=
  match members[i]? with
  | some ⟨_, .hardlink target⟩ => lastNamed? (members.take i) (Path.ofText target)
  | some ⟨name, .symlink target⟩ => lastNamed? members ((Path.ofText name).parent / target)
  | _ => none

/-! ## Single changes -/

/-- Makes the directories above a path unless they are there. -/
def makeAbove (t : FileTree) (p : Path) : Written :=
  if p.parent.parts.isEmpty || t.pathExists p.parent then (t, .ok ())
  else match t.makeWay p.parent with
    | (t, .ok ()) => (t, .ok ())
    | (t, .error e) => (t, .error (.system e))

/-- Makes a symbolic link, in the place of a file or link if there is one. -/
def replaceByLink (t : FileTree) (target : String) (p : Path) : Written :=
  match t.locate p with
  | .ok (.taken _ _) =>
    match t.unlink p with
    | .ok t => Written.of t (t.makeLink target p)
    | .error e => (t, .error (.system e))
  | _ => Written.of t (t.makeLink target p)

/-- Makes a directory; what is there already stays. -/
def makeOrKeep (t : FileTree) (p : Path) : Written :=
  match t.makeDirectory p with
  | .error .alreadyExists => (t, .ok ())
  | changed => Written.of t changed

/-- A second attempt where the system refuses the first one. -/
def Written.orElse (w : Written) (instead : FileTree → Written) : Written :=
  match w with
  | (t, .error (.system _)) => instead t
  | w => w

/-- A change in which a hard link without target is left out. -/
def Written.leavingOut : Written → Written
  | (t, .error .noTarget) => (t, .error .leftOut)
  | w => w

/-! ## Members -/

/-- Writes the member that an impossible link leads to in place of the link; the link is left out
then, as without such a member. -/
def writeInstead (write : Nat → FileTree → Written) (other : Option Nat) (t : FileTree) : Written :=
  match other with
  | some j => (write j t).leavingOut
  | none => (t, .error .leftOut)

/-- Writes the member at place `i` to a path, when the turn of the members up to place `turn` has
come; `fuel` bounds the links between members. -/
def writeMember (members : List Member) (destination : Path) (turn : Nat) :
    Nat → Nat → Path → FileTree → Written
  | 0, _, _, t => (t, .error .endless)
  | fuel + 1, i, p, t =>
    match makeAbove t p with
    | (t, .error e) => (t, .error e)
    | (t, .ok ()) =>
      let write (j : Nat) (t : FileTree) : Written :=
        writeMember members destination turn fuel j p t
      let instead := writeInstead write (linkTarget? members i)
      match members[i]?.map Member.kind with
      | none => (t, .ok ())
      | some (.file data) => Written.of t (t.write p (.data data))
      | some .directory => makeOrKeep t p
      | some .fifo => Written.of t (t.make p .special)
      | some (.symlink target) => (replaceByLink t target p).orElse instead
      | some (.hardlink target) =>
        let source := destination.append (Path.ofTextDotted target)
        if turn < i then instead t
        else if t.pathExists source then (Written.of t (t.makeHardLink source p)).orElse instead
        else match linkTarget? members i with
          | some j => (write j t).orElse instead
          | none => (t, .error .noTarget)

/-- Writes the members from place `i` on, in order, up to the first obstacle; a member that is left
out is none. -/
def writeMembers (members : List Member) (destination : Path) :
    List Member → Nat → FileTree → Written
  | [], _, t => (t, .ok ())
  | m :: rest, i, t =>
    let p := destination.append (Path.ofTextDotted m.name)
    match writeMember members destination i (members.length + 1) i p t with
    | (t, .ok ()) | (t, .error .leftOut) => writeMembers members destination rest (i + 1) t
    | stopped => stopped

/-- The failure of an extraction that meets an obstacle. -/
def Obstacle.failure (archive : Path) : Obstacle → Failure
  | system _ => .archive (.unreadable archive)
  | noTarget | leftOut => .fault .missingLinkTarget
  | endless => .fault .endlessLinks

/-! ## Archives -/

/-- The files after unpacking an archive into a directory, and whether that succeeded. -/
def extractFrom (t : FileTree) (archive destination : Path) :
    FileTree × Except Failure Unit :=
  match t.file? archive with
  | none => (t, .error (.archive (.missing archive)))
  | some (.data _) => (t, .error (.archive (.unreadable archive)))
  | some (.damaged _ foundOut) =>
    (t, .error (if foundOut then .archive (.unreadable archive) else .fault .undecodable))
  | some (.archive a) =>
    match checkMembers t archive destination a.members with
    | .error e => (t, .error e)
    | .ok () =>
      match writeMembers a.members destination a.members 0 t with
      | (t, .ok ()) => (t, .ok ())
      | (t, .error obstacle) => (t, .error (obstacle.failure archive))

/-- Unpacks an archive into a directory. -/
def extract {σ : Type} (archive destination : Path) : Run σ Unit := do
  let (t, done) := extractFrom (← Run.files) archive destination
  Run.setFiles t
  match done with
  | .error e => throw e
  | .ok () => Run.note .debug s!"Extracted {archive.text} to {destination.text}"

end PluginCatalog
