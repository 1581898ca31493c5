import PluginCatalog.FileTree
import PluginCatalog.Text.Lines
import PluginCatalog.Yaml.Document

/-!
# Documents in files

* `readDocument t p` is the value of the document in the file at `p`, `readDocuments` those of all
  documents in it. They fail with a `DocumentError`: the file is missing, its text is malformed, or
  a fault arises on the way.
-/

namespace PluginCatalog

/-- Why a file gives no documents. -/
inductive DocumentError where
  /-- There is no file. -/
  | missing
  /-- The file holds no document. -/
  | malformed
  | fault (cause : Fault)
  deriving DecidableEq, Repr

/-- A failure of reading a text. -/
def DocumentError.ofYaml : Yaml.Error → DocumentError
  | .malformed => .malformed
  | .fault cause => .fault cause

/-- The text of a file. Stores and compressed archives are no text; an archive that is not
compressed is a text with characters that documents do not have. Damage does not change that. -/
def Content.readText : Content → Except DocumentError String
  | .data (.text s) => .ok (Text.unixLines s)
  | .data (.store _) => .error (.fault .undecodable)
  | .archive ⟨compressed, _⟩ | .damaged compressed _ =>
    .error (if compressed then .fault .undecodable else .malformed)

/-- The text of the file at a path. -/
def readTextAt (t : FileTree) (p : Path) : Except DocumentError String :=
  if p.text.toList.contains '\x00' then .error (.fault .nullCharacter)
  else match t.read p with
    | .error .notFound => .error .missing
    | .error e => .error (.fault (.file e))
    | .ok content => content.readText

/-- The value of the document in a file. -/
def readDocument (t : FileTree) (p : Path) : Except DocumentError Value := do
  (Yaml.document (← readTextAt t p)).mapError .ofYaml

/-- The values of all documents in a file. -/
def readDocuments (t : FileTree) (p : Path) : Except DocumentError (List Value) := do
  (Yaml.documents (← readTextAt t p)).mapError .ofYaml

end PluginCatalog
