/-!
# Small letters

Words of the catalogue's vocabularies are looked up in small letters. All of them are written in
ASCII, so only the letters that have an ASCII small letter matter: the capitals of ASCII and the
sign for kelvin, which is a capital K.

* `Text.fold cs` writes these letters small and leaves every other character alone.
-/

namespace PluginCatalog.Text

/-- The small letter of an ASCII capital or of the kelvin sign. -/
def foldChar (c : Char) : Char :=
  if c = '\u212a' then 'k' else c.toLower

/-- The text with its ASCII capitals and kelvin signs in small letters. -/
def fold (cs : List Char) : List Char := cs.map foldChar

/-- The string with its ASCII capitals and kelvin signs in small letters. -/
def folded (s : String) : String := String.ofList (fold s.toList)

end PluginCatalog.Text
