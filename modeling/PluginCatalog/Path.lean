import PluginCatalog.Text.Fields

/-!
# Paths

A path is absolute or relative and has components; empty components and the component `.` say
nothing and are dropped, while `..` is kept, because what it leads to depends on links.

* `Path.ofText` reads a path, `Path.text` writes it; the path without components is `.`.
* `Path.ofTextDotted` keeps the components `.`.
* `p / q` is the path of `q` seen from `p`; an absolute `q` stands for itself.
* `Path.name` is the last component, `Path.parent` the path without it. It is not empty if there
  are components (`name_ofText`, `name_div`).
* `Path.lock` is the file beside that of a path whose name ends with `.lock`.
-/

namespace PluginCatalog

/-- A path: the number of slashes at its front, none for a relative path, and its components. -/
structure Path where
  slashes : Nat
  parts : List String
  deriving DecidableEq, Repr

namespace Path

/-- The components of a text that say something. -/
def components (s : String) : List String :=
  ((Text.fields '/' s.toList).map String.ofList).filter fun part => part != "" && part != "."

theorem dot_not_mem_components (s : String) : "." ∉ components s := by
  simp [components]

theorem empty_not_mem_components (s : String) : "" ∉ components s := by
  simp [components]

/-- The slashes that are kept of those at the front: exactly two have a meaning of their own, more
are one. -/
def keptSlashes : List Char → Nat
  | '/' :: '/' :: '/' :: _ => 1
  | '/' :: '/' :: _ => 2
  | '/' :: _ => 1
  | _ => 0

/-- Reads a path. -/
def ofText (s : String) : Path := ⟨keptSlashes s.toList, components s⟩

/-- Reads a path and keeps the components `.`, which matter at the end of a path that is yet to
come into being. -/
def ofTextDotted (s : String) : Path :=
  ⟨keptSlashes s.toList, ((Text.fields '/' s.toList).map String.ofList).filter (· != "")⟩

/-- Whether a path starts at the root. -/
def isAbsolute (p : Path) : Bool := p.slashes != 0

/-- Writes a path. -/
def text (p : Path) : String :=
  if p.slashes = 0 ∧ p.parts = [] then "."
  else String.ofList (List.replicate p.slashes '/') ++ Text.joined "/" p.parts

/-- The path of `q` seen from `p`. -/
def append (p q : Path) : Path := if q.isAbsolute then q else { p with parts := p.parts ++ q.parts }

instance : HDiv Path Path Path := ⟨append⟩

instance : HDiv Path String Path := ⟨fun p s => p.append (ofText s)⟩

/-- The last component, or the empty text if there is none. -/
def name (p : Path) : String := p.parts.getLast?.getD ""

/-- The path without its last component. -/
def parent (p : Path) : Path := { p with parts := p.parts.dropLast }

/-- The path of the lock of a file: beside it, with a longer name. -/
def lock (p : Path) : Path := { p with parts := p.parts.dropLast ++ [p.name ++ ".lock"] }

/-- A path that was read has a name unless it has no components. -/
theorem name_ofText {s : String} (h : components s ≠ []) : (ofText s).name ≠ "" := by
  change (components s).getLast?.getD "" ≠ ""
  rw [List.getLast?_eq_some_getLast h, Option.getD_some]
  intro hempty
  exact empty_not_mem_components s (hempty ▸ List.getLast_mem h)

/-- What is seen from a path with a name has a name unless it has no components. -/
theorem name_div {p : Path} (hp : p.name ≠ "") {s : String} (h : (p / ofText s).parts ≠ []) :
    (p / ofText s).name ≠ "" := by
  change (p.append (ofText s)).parts ≠ [] at h
  change (p.append (ofText s)).name ≠ ""
  unfold append at h ⊢
  by_cases habs : (ofText s).isAbsolute
  · rw [if_pos habs] at h ⊢
    exact name_ofText h
  · rw [if_neg habs]
    change (p.parts ++ components s).getLast?.getD "" ≠ ""
    by_cases hs : components s = []
    · rw [hs, List.append_nil]
      exact hp
    · rw [List.getLast?_append, List.getLast?_eq_some_getLast hs, Option.some_or,
        ← List.getLast?_eq_some_getLast hs]
      exact name_ofText hs

instance : Coe String Path := ⟨ofText⟩

example : (ofText "a/./b//../c/").text = "a/b/../c" := by decide +kernel

end Path

end PluginCatalog
