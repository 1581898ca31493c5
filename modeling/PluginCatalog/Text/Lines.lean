/-!
# Line ends

* `Text.unixLines s` writes every line end, a carriage return with or without a line feed, as a line
  feed.
-/

namespace PluginCatalog.Text

/-- The text with line feeds for carriage returns; `after` tells that a carriage return, written as
a line feed already, precedes the text. -/
def feeds (after : Bool) : List Char → List Char
  | [] => []
  | c :: rest =>
    if c = '\r' then '\n' :: feeds true rest
    else if c = '\n' ∧ after then feeds false rest
    else c :: feeds false rest

/-- The text with line feeds for all line ends. -/
def unixLines (s : String) : String := String.ofList (feeds false s.toList)

end PluginCatalog.Text
