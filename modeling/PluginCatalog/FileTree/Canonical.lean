import PluginCatalog.FileTree

/-!
# Canonical locations

* `FileTree.canonical t p` is the location of a path with all links on the way resolved. What does
  not exist is taken as it is written, `..` dropping the name before it. A path that leads into a
  link that leads back to itself has none.
-/

namespace PluginCatalog

namespace FileTree

/-- Goes along names without looking at what is there. -/
def goAlong : Location → List String → Location
  | here, [] => here
  | here, name :: rest => goAlong (if name = ".." then here.dropLast else here ++ [name]) rest

/-- The links met on the way, with the locations that they lead to; a link without a location is
being resolved. -/
abbrev Resolved := List (Location × Option Location)

/-- Where a way leads, and whether no link on it leads back to itself. -/
structure Way where
  location : Location
  straight : Bool
  resolved : Resolved

/-- Goes along names and resolves links by `onLink`, which is given the directory from which the
target is seen and the names of the target. -/
def resolveWith (t : FileTree) (onLink : Resolved → Location → List String → Way) :
    Resolved → Location → List String → Way
  | known, here, [] => ⟨here, true, known⟩
  | known, here, name :: rest =>
    if name = ".." then t.resolveWith onLink known here.dropLast rest
    else
      let loc := here ++ [name]
      match t.node? loc with
      | some (.link target) =>
        match known.lookup loc with
        | some (some there) => t.resolveWith onLink known there rest
        | some none => ⟨goAlong loc rest, false, known⟩
        | none =>
          let origin := origin here (Path.ofText target)
          let way := onLink ((loc, none) :: known) origin (Path.components target)
          if way.straight then
            t.resolveWith onLink ((loc, some way.location) :: way.resolved) way.location rest
          else ⟨goAlong way.location rest, false, way.resolved⟩
      | _ => t.resolveWith onLink known loc rest

/-- Goes along names and resolves links inside links, `fuel` deep at most. -/
def resolve (t : FileTree) : Nat → Resolved → Location → List String → Way
  | 0 => t.resolveWith fun known here rest => ⟨goAlong here rest, false, known⟩
  | fuel + 1 => t.resolveWith (t.resolve fuel)

/-- The location of a path with all links resolved. -/
def canonical (t : FileTree) (p : Path) : Except Fault Location :=
  let way := t.resolve (t.entries.length + 1) [] (origin t.working p) p.parts
  if way.straight then .ok way.location
  else match t.follow ⟨1, way.location⟩ with
    | .error .tooManyLinks => .error .linkCycle
    | _ => .ok way.location

end FileTree

end PluginCatalog
