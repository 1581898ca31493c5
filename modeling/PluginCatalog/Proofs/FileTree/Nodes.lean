import PluginCatalog.FileTree

/-!
# What stands in a tree after a change

`FileTree.node?_set`, `FileTree.node?_erase` and `FileTree.node?_eraseBelow` say what stands at a
location after a change; `FileTree.lt_freshSerial`: the number of a new file is that of no other.
-/

namespace PluginCatalog.FileTree

/-- What leads to a file has components. -/
theorem parts_ne_nil_of_file? {t : FileTree} {p : Path} {c : Content} (h : t.file? p = some c) :
    p.parts ≠ [] := by
  intro hnil
  simp only [file?, find?, follow, hnil] at h
  cases h

theorem node?_eq_lookup (t : FileTree) {loc : Location} (h : loc ≠ []) :
    t.node? loc = t.entries.lookup loc := by
  cases loc with
  | nil => exact absurd rfl h
  | cons name loc => rfl

/-- What stands at a location is an entry, unless it is the root. -/
theorem mem_entries_of_node? {t : FileTree} {loc : Location} {node : Node} (h : loc ≠ [])
    (hn : t.node? loc = some node) : (loc, node) ∈ t.entries := by
  rw [node?_eq_lookup t h] at hn
  generalize t.entries = l at hn
  induction l with
  | nil => cases hn
  | cons e l ih =>
    obtain ⟨k, v⟩ := e
    rw [lookup_cons] at hn
    split at hn
    next hk =>
      obtain rfl : v = node := Option.some.inj hn
      exact hk ▸ List.mem_cons_self
    next => exact List.mem_cons_of_mem _ (ih hn)

/-- After a node was put at a location, it stands there. -/
theorem node?_set (t : FileTree) {loc : Location} (h : loc ≠ []) (node : Node) (l : Location) :
    (t.set loc node).node? l = if l = loc then some node else t.node? l := by
  by_cases hl : l = []
  · subst hl
    rw [if_neg (Ne.symm h)]
    rfl
  · rw [node?_eq_lookup _ hl, node?_eq_lookup _ hl]
    exact lookup_putBy loc l node t.entries

theorem lookup_filter (l : List (Location × Node)) (keep : Location → Bool) (loc : Location) :
    (l.filter fun e => keep e.1).lookup loc = if keep loc then l.lookup loc else none := by
  induction l with
  | nil => simp
  | cons e l ih =>
    obtain ⟨k, v⟩ := e
    rw [List.filter_cons]
    by_cases hk : keep k
    · rw [if_pos hk, lookup_cons, lookup_cons, ih]
      by_cases h : loc = k
      · simp [h, hk]
      · simp [h]
    · rw [if_neg hk, lookup_cons, ih]
      by_cases h : loc = k
      · simp [h, hk]
      · simp [h]

/-- After a location was cleared, nothing stands there. -/
theorem node?_erase (t : FileTree) {loc : Location} (h : loc ≠ []) (l : Location) :
    (t.erase loc).node? l = if l = loc then none else t.node? l := by
  by_cases hl : l = []
  · subst hl
    rw [if_neg (Ne.symm h)]
    rfl
  · rw [node?_eq_lookup _ hl, node?_eq_lookup _ hl]
    have he := lookup_filter t.entries (· != loc) l
    by_cases hloc : l = loc
    · subst hloc
      simpa [erase] using he
    · simpa [erase, hloc] using he

/-- After a place was cleared with everything below it, nothing stands there. -/
theorem node?_eraseBelow (t : FileTree) (loc : Location) {l : Location} (hl : l ≠ []) :
    (t.eraseBelow loc).node? l = if loc <+: l then none else t.node? l := by
  rw [node?_eq_lookup _ hl, node?_eq_lookup _ hl]
  have he := lookup_filter t.entries (fun l => !loc.isPrefixOf l) l
  refine he.trans ?_
  by_cases hp : loc <+: l
  · simp [hp, List.isPrefixOf_iff_prefix.2 hp]
  · simp [hp, mt List.isPrefixOf_iff_prefix.1 hp]

theorem le_serialAfter (n : Nat) (l : List (Location × Node)) : n ≤ serialAfter n l := by
  induction l generalizing n with
  | nil => exact Nat.le_refl n
  | cons e l ih =>
    obtain ⟨loc, node⟩ := e
    cases node with
    | file serial content => exact Nat.le_trans (Nat.le_max_left _ _) (ih (max n (serial + 1)))
    | directory => exact ih n
    | link target => exact ih n
    | special => exact ih n

theorem lt_serialAfter {loc : Location} {serial : Nat} {content : Content} (n : Nat)
    {l : List (Location × Node)} (h : (loc, Node.file serial content) ∈ l) :
    serial < serialAfter n l := by
  induction l generalizing n with
  | nil => cases h
  | cons e l ih =>
    rcases List.mem_cons.1 h with rfl | h
    · exact Nat.lt_of_lt_of_le (Nat.lt_of_lt_of_le (Nat.lt_succ_self serial)
        (Nat.le_max_right n (serial + 1))) (le_serialAfter (max n (serial + 1)) l)
    · exact ih _ h

/-- The number of a new file is greater than that of every file. -/
theorem lt_freshSerial {t : FileTree} {loc : Location} {serial : Nat} {content : Content}
    (h : t.node? loc = some (.file serial content)) : serial < t.freshSerial := by
  have hne : loc ≠ [] := by
    rintro rfl
    cases h
  exact lt_serialAfter 0 (mem_entries_of_node? hne h)

end PluginCatalog.FileTree
