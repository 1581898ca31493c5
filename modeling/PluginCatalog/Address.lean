/-!
# Image addresses

* `Address.join base path` puts a path below a repository, with one slash between them.
* `Address.join?` is the same for a repository that may be empty, and fails on an empty one.
* `Address.resolve` is the address of an artifact in a catalogue whose images have a common
  beginning, and `Address.relative` the path of an image below that beginning.
-/

namespace PluginCatalog.Address

/-- The text without the slashes at its end. -/
def withoutFinalSlashes (s : String) : List Char :=
  (s.toList.reverse.dropWhile (· == '/')).reverse

/-- The text without the slashes at its beginning. -/
def withoutInitialSlashes (s : String) : List Char := s.toList.dropWhile (· == '/')

/-- The two texts with exactly one slash between them. -/
def slashed (base path : String) : String :=
  String.ofList (withoutFinalSlashes base ++ '/' :: withoutInitialSlashes path)

/-- The address of a path below a repository; the empty path is the repository itself. -/
def join (base path : String) : String := if path.isEmpty then base else slashed base path

/-- The address of a path below a repository, which must not be empty. -/
def join? (base path : String) : Option String :=
  if base.isEmpty then none else some (join base path)

/-- The address of an artifact: the stored text itself in a catalogue without a common beginning. -/
def resolve (imagePrefix uri : String) : String :=
  if imagePrefix.isEmpty then uri else slashed imagePrefix uri

/-- The path of an image below the common beginning; an image that lies elsewhere keeps its full
address. -/
def relative (imagePrefix image : String) : String :=
  let start := withoutFinalSlashes imagePrefix ++ ['/']
  if !imagePrefix.isEmpty && start.isPrefixOf image.toList then
    String.ofList (image.toList.drop start.length)
  else image

end PluginCatalog.Address
