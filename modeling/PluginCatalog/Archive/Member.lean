import PluginCatalog.Store

/-!
# Archives as data

An archive is a list of members in the order in which they were written. Names and link targets are
kept as written, since what they mean depends on where the archive is unpacked.
-/

namespace PluginCatalog

/-- What a plain file holds: a text or a store. -/
inductive FileData where
  | text (s : String)
  | store (s : Store)

/-- What a member of an archive is. -/
inductive MemberKind where
  | file (data : FileData)
  | directory
  /-- A symbolic link, its target seen from its own directory. -/
  | symlink (target : String)
  /-- A hard link to the member or file of the given name. -/
  | hardlink (target : String)
  | fifo

/-- A member of an archive. -/
structure Member where
  name : String
  kind : MemberKind

/-- An archive, compressed or not. -/
structure Archive where
  compressed : Bool
  members : List Member

/-- What a file holds. -/
inductive Content where
  | data (d : FileData)
  | archive (a : Archive)
  /-- An archive that is cut off or damaged, so that its members cannot be listed. That is found
  out by what reads archives, or else comes up as a failure of what undoes their compression. -/
  | damaged (compressed foundOut : Bool)

/-- A file that holds a text. -/
abbrev Content.text (s : String) : Content := .data (.text s)

/-- A file that holds a store. -/
abbrev Content.store (s : Store) : Content := .data (.store s)

end PluginCatalog
