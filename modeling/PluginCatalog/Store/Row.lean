import PluginCatalog.Target

/-!
# Rows of the catalogue

A row describes one platform build of one version of a plugin. Texts may be absent, and the type of
the hidden flag depends on where the row is: in a store, read from it, or to be put into it.

* `Row.key` are the five columns that tell rows of a store apart; `Key.precedes` is the order in
  which rows are read: column by column, absent texts first, then by code points.
* `Row.build` is what the row is a build of: the key with the target that its spelling denotes.
* `Row.missing?` is the first column, in the order of the table, without a value.
-/

namespace PluginCatalog

/-- A row of the catalogue with a hidden flag of type `φ`. -/
structure Row (φ : Type) where
  name : Option String
  target : Option String
  recommended : Option String
  version : Option String
  hidden : φ
  description : Option String
  publisher : Option String
  vendor : Option String
  os : Option String
  architecture : Option String
  digest : Option String
  uri : Option String
  deriving DecidableEq, Repr

/-! ## Keys -/

/-- The columns that tell the rows of a store apart. -/
structure Key where
  name : Option String
  target : Option String
  version : Option String
  os : Option String
  architecture : Option String
  deriving DecidableEq, Repr

namespace Key

/-- Keys are ordered column by column, absent texts first. -/
protected def compare (a b : Key) : Ordering :=
  (Ord.compare a.name b.name).then <| (Ord.compare a.target b.target).then <|
    (Ord.compare a.version b.version).then <| (Ord.compare a.os b.os).then <|
      Ord.compare a.architecture b.architecture

/-- Whether `a` does not come after `b`. -/
def precedes (a b : Key) : Bool := (a.compare b).isLE

end Key

/-- What a row is a build of: its target is the one that the stored spelling denotes. -/
structure Build where
  name : Option String
  target : String
  version : Option String
  os : Option String
  architecture : Option String
  deriving DecidableEq, Repr

namespace Row

variable {φ ψ : Type}

/-- The key of a row. -/
def key (r : Row φ) : Key := ⟨r.name, r.target, r.version, r.os, r.architecture⟩

/-- The build that a row describes. -/
def build (r : Row φ) : Build :=
  ⟨r.name, Target.normalize? r.target, r.version, r.os, r.architecture⟩

/-- The row with another flag. -/
def withHidden (r : Row φ) (hidden : ψ) : Row ψ := { r with hidden }

@[simp] theorem key_withHidden (r : Row φ) (h : ψ) : (r.withHidden h).key = r.key := rfl

@[simp] theorem build_withHidden (r : Row φ) (h : ψ) : (r.withHidden h).build = r.build := rfl

/-- Rows of one key describe one build. -/
theorem build_eq_of_key_eq {r : Row φ} {s : Row ψ} (h : r.key = s.key) : r.build = s.build := by
  simp only [key, Key.mk.injEq] at h
  obtain ⟨h₁, h₂, h₃, h₄, h₅⟩ := h
  simp [build, h₁, h₂, h₃, h₄, h₅]

/-- The text columns of a row and their names, in the order of the table; the flag, which has a
type of its own, is present if `flagged`. -/
def columns (flagged : Bool) (r : Row φ) : List (String × Bool) :=
  [("PluginName", r.name.isSome), ("Target", r.target.isSome),
    ("RecommendedVersion", r.recommended.isSome), ("Version", r.version.isSome),
    ("Hidden", flagged), ("Description", r.description.isSome),
    ("Publisher", r.publisher.isSome), ("Vendor", r.vendor.isSome), ("OS", r.os.isSome),
    ("Architecture", r.architecture.isSome), ("Digest", r.digest.isSome), ("URI", r.uri.isSome)]

/-- The first column without a value. -/
def missing? (flagged : Bool) (r : Row φ) : Option String :=
  ((r.columns flagged).find? fun (_, present) => !present).map (·.1)

end Row

end PluginCatalog
