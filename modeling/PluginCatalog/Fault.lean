/-!
# Faults

A fault is a failure that no part of the catalogue expects and words: a number that cannot be
represented, a value of the wrong kind where a text is needed, a file operation that the system
refuses. It ends the operation in which it arises and is told apart by its kind alone.
-/

namespace PluginCatalog

/-- Why the system refuses a file operation. -/
inductive FileFault where
  /-- Nothing has this path. -/
  | notFound
  /-- A component on the way is no directory. -/
  | notADirectory
  /-- A directory stands where a file is needed. -/
  | isADirectory
  /-- Something has this path already. -/
  | alreadyExists
  /-- Too many symbolic links on the way. -/
  | tooManyLinks
  /-- The operation is not allowed on this kind of file. -/
  | notPermitted
  deriving DecidableEq, Repr

/-- The kinds of failures that are not worded. -/
inductive Fault where
  /-- A number has more digits than numbers may have. -/
  | overlongNumber
  /-- A number is too large for a double, or a time too long for a clock. -/
  | numberTooLarge
  /-- A text or value that has to be a number is none. -/
  | malformedNumber
  /-- A text that has to be a number is empty. -/
  | emptyNumber
  /-- A date that the calendar does not have. -/
  | impossibleDate
  /-- A text that has to be a date is none. -/
  | malformedDate
  /-- A word that has to be true or false is neither. -/
  | unknownFlag
  /-- A code point beyond the last character. -/
  | impossibleCharacter
  /-- A code point beyond all numbers of its width. -/
  | hugeCharacter
  /-- A value is no text, or absent, where a text is needed. -/
  | notText
  /-- A value is no mapping where a mapping is needed. -/
  | notAMapping
  /-- Values of different kinds that have to be joined or compared. -/
  | mixedKinds
  /-- A path whose last component is needed has none. -/
  | nameless
  /-- A text holds the null character where the system does not allow it. -/
  | nullCharacter
  /-- The bytes of a file or an output are no text, or no compressed archive. -/
  | undecodable
  /-- A hard link to nothing that exists. -/
  | missingLinkTarget
  /-- A chain of links in an archive that comes back to itself. -/
  | endlessLinks
  /-- A symbolic link that leads back to itself. -/
  | linkCycle
  /-- A refused file operation. -/
  | file (cause : FileFault)
  deriving DecidableEq, Repr

end PluginCatalog
