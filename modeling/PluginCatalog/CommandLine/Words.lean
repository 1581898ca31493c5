import PluginCatalog.CommandLine.Usage

/-!
# Words of a command line

A command line has options and other words. An option is a long name after two dashes, with its
value after an equality sign or in the next word; or a letter after one dash, where several letters
can stand together and the last of them can have its value in the same word or in the next one.
Two dashes alone end the options.

* `Switch` is an option with its names; `Switch.takesValue` tells whether it has a value.
* `readWords` tells the options of a command line, in order and with their values, from its other
  words.
-/

namespace PluginCatalog.CommandLine

/-- An option that is known by the names in a list, each with its dashes. -/
structure Switch (ι : Type) where
  names : List String
  option : ι
  takesValue : Bool

/-- The option of a name. -/
def find? {ι : Type} (switches : List (Switch ι)) (name : String) : Option (Switch ι) :=
  switches.find? (·.names.contains name)

/-- An option that was given, with its value, which is empty where it has none. -/
abbrev Given (ι : Type) := ι × String

/-- What one word says: options that are given with it, and an option whose value is to follow. -/
structure WordReading (ι : Type) where
  given : List (Given ι)
  waiting : Option (String × ι)

variable {ι : Type}

/-- Whether a word gives options. -/
def isOption (word : String) : Bool :=
  match word.toList with
  | '-' :: _ :: _ => true
  | _ => false

/-- Reads the letters of a word. -/
def readLetters (switches : List (Switch ι)) : List Char → Except UsageError (WordReading ι)
  | [] => .ok ⟨[], none⟩
  | c :: rest =>
    let name := String.ofList ['-', c]
    match find? switches name with
    | none => .error (.noSuchOption name)
    | some s =>
      if s.takesValue then
        if rest.isEmpty then .ok ⟨[], some (name, s.option)⟩
        else .ok ⟨[(s.option, String.ofList rest)], none⟩
      else do
        let more ← readLetters switches rest
        return { more with given := (s.option, "") :: more.given }

/-- The name and the value of a long option. -/
def nameAndValue (cs : List Char) : String × Option String :=
  match cs.dropWhile (· != '=') with
  | [] => (String.ofList cs, none)
  | _ :: value => (String.ofList (cs.takeWhile (· != '=')), some (String.ofList value))

/-- Reads a long option. -/
def readLong (switches : List (Switch ι)) (cs : List Char) :
    Except UsageError (WordReading ι) :=
  let (name, value) := nameAndValue cs
  match find? switches name, value with
  | none, _ => .error (.noSuchOption name)
  | some s, some value =>
    if s.takesValue then .ok ⟨[(s.option, value)], none⟩ else .error (.unwantedValue name)
  | some s, none =>
    .ok (if s.takesValue then ⟨[], some (name, s.option)⟩ else ⟨[(s.option, "")], none⟩)

/-- Reads a word that gives options. -/
def readOption (switches : List (Switch ι)) (word : String) :
    Except UsageError (WordReading ι) :=
  match word.toList with
  | '-' :: '-' :: cs => readLong switches ('-' :: '-' :: cs)
  | cs => readLetters switches (cs.drop 1)

/-- The options of a command line and its other words. Without `interspersed`, the first other word
ends the options. -/
def readWords (switches : List (Switch ι)) (interspersed : Bool) :
    List String → Except UsageError (List (Given ι) × List String)
  | [] => .ok ([], [])
  | word :: rest =>
    if word = "--" then .ok ([], rest)
    else if isOption word then
      match readOption switches word with
      | .error e => .error e
      | .ok ⟨given, none⟩ => do
        let (more, others) ← readWords switches interspersed rest
        return (given ++ more, others)
      | .ok ⟨given, some (name, option)⟩ =>
        match rest with
        | [] => .error (.noArgument name)
        | value :: rest => do
          let (more, others) ← readWords switches interspersed rest
          return (given ++ (option, value) :: more, others)
    else if interspersed then do
      let (given, others) ← readWords switches interspersed rest
      return (given, word :: others)
    else .ok ([], word :: rest)

/-- The value that an option was given last. -/
def lastValue? [BEq ι] (given : List (Given ι)) (option : ι) : Option String :=
  given.reverse.lookup option

end PluginCatalog.CommandLine
