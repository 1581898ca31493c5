import PluginCatalog.Failure
import PluginCatalog.FileTree.Canonical

/-!
# Safe members

* `checkMember` refuses a member of an archive that would land outside the directory into which it
  is unpacked, and a link that is absolute or would point outside. To find out, it looks at files;
  at a name or target with the null character the system does not look (`lookUp`).
* `checkMembers` refuses an archive at the first of its members that is refused.
-/

namespace PluginCatalog

/-- Whether a location is the root or below it. -/
def isWithin (root loc : Location) : Bool := root.isPrefixOf loc

/-- The location of what a name says, seen from a directory. -/
def lookUp (t : FileTree) (directory : Path) (name : String) : Except Fault Location :=
  if name.toList.contains '\x00' then .error .nullCharacter else t.canonical (directory / name)

/-- The location that a link of a member points to, for a member that lands at `place`: the target
of a symbolic link is seen from the member's directory, that of a hard link from the root of the
archive. -/
def linkLocation? (t : FileTree) (destination : Path) (place : Location) :
    MemberKind → Except Fault (Option (String × Location))
  | .symlink target => do
    return some (target, ← lookUp t (⟨1, place.dropLast⟩ : Path) target)
  | .hardlink target => do return some (target, ← lookUp t destination target)
  | _ => .ok none

/-- Refuses a member that would land or point outside. -/
def checkMember (t : FileTree) (archive destination : Path) (root : Location) (m : Member) :
    Except Failure Unit := do
  let place ← (lookUp t destination m.name).mapError .fault
  if !isWithin root place then throw (.archive (.unsafePath m.name archive))
  match ← (linkLocation? t destination place m.kind).mapError .fault with
  | none => return
  | some (target, loc) =>
    if (Path.ofText target).isAbsolute || !isWithin root loc then
      throw (.archive (.unsafeLink m.name target archive))

/-- Refuses an archive with a member that would land or point outside. -/
def checkMembers (t : FileTree) (archive destination : Path) (members : List Member) :
    Except Failure Unit := do
  let root ← (t.canonical destination).mapError .fault
  members.forM (checkMember t archive destination root)

end PluginCatalog
