import PluginCatalog.Sorting
import PluginCatalog.Text.Blank
import PluginCatalog.Text.Fold

/-!
# Targets and their spellings

A plugin is made for a target, and some targets have several spellings.

* `Target.aliases` lists the known spellings with the target that each denotes.
* `Target.normalize t` is the target that `t` denotes: known spellings are recognised in letters of
  any case and with blanks around them, every other text denotes itself.
* `Target.spellings t` are the spellings under which a plugin for the target of `t` may be stored;
  each of them denotes it (`Target.normalize_of_mem_spellings`).
-/

namespace PluginCatalog.Target

/-- The known spellings, each with the target that it denotes. -/
def aliases : List (String × String) :=
  [("", ""), ("global", ""), ("k8s", "kubernetes"), ("kubernetes", "kubernetes"),
    ("tmc", "mission-control"), ("mission-control", "mission-control")]

/-- The target that a text denotes. -/
def normalize (t : String) : String :=
  (aliases.lookup (Text.folded (Text.stripped t))).getD t

/-- The target that a text denotes, where an absent text denotes the target without a name. -/
def normalize? : Option String → String
  | none => ""
  | some t => normalize t

/-- The known spellings of a target. -/
def known (target : String) : List String :=
  (aliases.filter fun (_, denoted) => denoted == target).map (·.1)

/-- The known spellings of the target of `t`, and `t` itself, ascending. -/
def spellings (t : String) : List String :=
  let known := known (normalize t)
  stableSort (fun a b => (compare a b).isLE) (if known.contains t then known else t :: known)

/-- The spellings are the known ones and the text itself. -/
theorem mem_spellings {s t : String} : s ∈ spellings t ↔ s = t ∨ s ∈ known (normalize t) := by
  rw [spellings]
  simp only [mem_stableSort]
  split
  next h => exact ⟨.inr, fun hs => hs.elim (fun h' => by simpa [h'] using h) id⟩
  · exact List.mem_cons

/-- A known spelling denotes the target that it is listed with. -/
theorem normalize_of_mem_aliases {s target : String} (h : (s, target) ∈ aliases) :
    normalize s = target := by
  have hall : ∀ a ∈ aliases, normalize a.1 = a.2 := by decide +kernel
  exact hall (s, target) h

/-- Every spelling of a target denotes it. -/
theorem normalize_of_mem_spellings {s t : String} (h : s ∈ spellings t) :
    normalize s = normalize t := by
  rcases mem_spellings.1 h with rfl | h
  · rfl
  · obtain ⟨a, ha, rfl⟩ := List.mem_map.1 h
    obtain ⟨ha, hdenoted⟩ := List.mem_filter.1 ha
    exact (normalize_of_mem_aliases ha).trans (beq_iff_eq.1 hdenoted)

example : spellings "K8S" = ["K8S", "k8s", "kubernetes"] := by decide +kernel

end PluginCatalog.Target
