import PluginCatalog.Text.Fields
import PluginCatalog.Text.Quoted

/-!
# Misuse of the command line

* `UsageError` is why the words of a command line cannot be used, with its `message`.
* `Place` is the part of the program that the words are meant for; `UsageError.report` is what is
  printed about a misuse there.
-/

namespace PluginCatalog.CommandLine

/-- The name of the program. -/
def programName : String := "main"

/-- The part of the program that words are meant for. -/
inductive Place where
  | program
  | list
  | upload
  | merge
  deriving DecidableEq, Repr

namespace Place

/-- The words with which a place is reached. -/
def path : Place → String
  | program => programName
  | list => programName ++ " list"
  | upload => programName ++ " upload-bundle"
  | merge => programName ++ " merge"

/-- What may stand after these words. -/
def pieces : Place → String
  | program => "[OPTIONS] COMMAND [ARGS]..."
  | list | upload => "[OPTIONS]"
  | merge => "[OPTIONS] LOCAL_DB INCOMING_DB"

/-- The line that shows how a place is used. -/
def usage (p : Place) : String := s!"Usage: {p.path} {p.pieces}\n"

end Place

/-- Why the value of an option or argument is refused. -/
inductive ValueError where
  | notOneOf (value : String) (choices : List String)
  | notANumber (value : String)
  | noSuchFile (name : String)
  | isDirectory (name : String)
  | isFile (name : String)
  | negative
  deriving DecidableEq, Repr

/-- The wording of the error. -/
def ValueError.message : ValueError → String
  | notOneOf value choices =>
    let shown := Text.joined ", " (choices.map Text.quoted)
    s!"{Text.quoted value} is not one of {shown}."
  | notANumber value => s!"{Text.quoted value} is not a valid float."
  | noSuchFile name => s!"File {Text.quoted name} does not exist."
  | isDirectory name => s!"File {Text.quoted name} is a directory."
  | isFile name => s!"Directory {Text.quoted name} is a file."
  | negative => "must not be negative"

/-- Why the words of a command line cannot be used. -/
inductive UsageError where
  | noSuchOption (name : String)
  | noArgument (name : String)
  /-- A value is given to an option that has none. -/
  | unwantedValue (name : String)
  | noSuchCommand (name : String)
  | noCommand
  | missingOption (name : String)
  | missingArgument (name : String)
  | extraArguments (words : List String)
  /-- The value of what is shown as `parameter` is refused. -/
  | invalidValue (parameter : String) (cause : ValueError)
  deriving DecidableEq, Repr

namespace UsageError

/-- The wording of the error. -/
def message : UsageError → String
  | noSuchOption name => s!"No such option {Text.quoted name}."
  | noArgument name => s!"Option {Text.quoted name} requires an argument."
  | unwantedValue name => s!"Option {Text.quoted name} does not take a value."
  | noSuchCommand name => s!"No such command {Text.quoted name}."
  | noCommand => "Missing command."
  | missingOption name => s!"Missing option {Text.quoted name}."
  | missingArgument name => s!"Missing argument {Text.quoted name}."
  | extraArguments [word] => s!"Got unexpected extra argument ({word})"
  | extraArguments words =>
    let shown := Text.joined " " words
    s!"Got unexpected extra arguments ({shown})"
  | invalidValue parameter cause => s!"Invalid value for {parameter}: {cause.message}"

/-- Whether the usage of the place is shown with the error. -/
def showsUsage : UsageError → Bool
  | noArgument _ | unwantedValue _ => false
  | _ => true

/-- What is printed about a misuse at a place. -/
def report (p : Place) (e : UsageError) : String :=
  let usage := if e.showsUsage then s!"{p.usage}Try '{p.path} --help' for help.\n\n" else ""
  s!"{usage}Error: {e.message}\n"

end UsageError

end PluginCatalog.CommandLine
