import PluginCatalog.FileTree

/-!
# New content of a file

Giving new content to a file changes no way through the tree (`FileTree.follow_setContent`), and
what is read from the file afterwards is what was written (`FileTree.file?_setContent`). Other files
keep their content (`FileTree.find?_setContent_of_not_sameFile`).
-/

namespace PluginCatalog

/-- A spot with another node at it. -/
def Spot.map (f : Node → Node) : Spot → Spot
  | taken loc node => taken loc (f node)
  | free loc => free loc

namespace FileTree

theorem lookup_map_withContent (serial : Nat) (content : Content) (loc : Location)
    (l : List (Location × Node)) :
    (l.map fun (l, node) => (l, node.withContent serial content)).lookup loc =
      (l.lookup loc).map (·.withContent serial content) := by
  induction l with
  | nil => rfl
  | cons e l ih =>
    obtain ⟨k, node⟩ := e
    rw [List.map_cons, lookup_cons, lookup_cons, ih]
    split <;> rfl

/-- What stands at a location has the new content if it is the file. -/
theorem node?_setContent (t : FileTree) (serial : Nat) (content : Content) (loc : Location) :
    (t.setContent serial content).node? loc = (t.node? loc).map (·.withContent serial content) := by
  cases loc with
  | nil => rfl
  | cons name loc => exact lookup_map_withContent serial content (name :: loc) t.entries

theorem walkWith_setContent (t : FileTree) (serial : Nat) (content : Content) (last : Bool)
    {onLink onLink' : Location → List String → Except FileFault Spot}
    (h : ∀ here names, onLink' here names =
      (onLink here names).map (Spot.map (·.withContent serial content)))
    (here : Location) (names : List String) :
    (t.setContent serial content).walkWith last onLink' here names =
      (t.walkWith last onLink here names).map (Spot.map (·.withContent serial content)) := by
  induction names generalizing here with
  | nil => rfl
  | cons name rest ih =>
    unfold walkWith
    simp only [node?_setContent]
    split
    · exact ih here
    split
    · exact ih here.dropLast
    cases t.node? (here ++ [name]) with
    | none => by_cases hr : rest.isEmpty <;> simp [hr, Except.map, Spot.map]
    | some node =>
      cases node with
      | directory => exact ih (here ++ [name])
      | link target =>
        simp only [Option.map_some, Node.withContent]
        split
        · rfl
        split
        · rfl
        · exact h _ _
      | file s c => by_cases hr : rest.isEmpty <;> simp [hr, Except.map, Spot.map, Node.withContent]
      | special => by_cases hr : rest.isEmpty <;> simp [hr, Except.map, Spot.map, Node.withContent]

theorem walk_setContent (t : FileTree) (serial : Nat) (content : Content) (last : Bool)
    (links : Nat) (here : Location) (names : List String) :
    (t.setContent serial content).walk last links here names =
      (t.walk last links here names).map (Spot.map (·.withContent serial content)) := by
  induction links generalizing here names with
  | zero =>
    unfold walk
    refine walkWith_setContent t serial content last ?_ here names
    intro here names
    rfl
  | succ links ih =>
    unfold walk
    exact walkWith_setContent t serial content last ih here names

/-- **No way changes** when a file gets new content. -/
theorem follow_setContent (t : FileTree) (serial : Nat) (content : Content) (p : Path) :
    (t.setContent serial content).follow p =
      (t.follow p).map (Spot.map (·.withContent serial content)) :=
  walk_setContent t serial content true maxLinks (origin t.working p) p.parts

theorem find?_setContent (t : FileTree) (serial : Nat) (content : Content) (p : Path) :
    (t.setContent serial content).find? p = (t.find? p).map (·.withContent serial content) := by
  unfold find?
  rw [follow_setContent]
  rcases t.follow p with _ | ⟨_, _⟩ | _ <;> rfl

/-- What is written to the file to which a path leads is read from there. -/
theorem file?_setContent {t : FileTree} {serial : Nat} {loc : Location} {old : Content} {p : Path}
    (h : t.follow p = .ok (.taken loc (.file serial old))) (content : Content) :
    (t.setContent serial content).file? p = some content := by
  have hf : t.find? p = some (.file serial old) := by simp only [find?, h]
  unfold file?
  rw [find?_setContent, hf]
  simp [Node.withContent]

/-- Two paths lead to one file, perhaps under two names. -/
def SameFile (t : FileTree) (p q : Path) : Prop :=
  ∃ loc loc' serial c c', t.follow p = .ok (.taken loc (.file serial c)) ∧
    t.follow q = .ok (.taken loc' (.file serial c'))

theorem SameFile.symm {t : FileTree} {p q : Path} (h : t.SameFile p q) : t.SameFile q p := by
  obtain ⟨loc, loc', n, c, c', hp, hq⟩ := h
  exact ⟨loc', loc, n, c', c, hq, hp⟩

/-- Files of different serial numbers are not one file. -/
theorem not_sameFile_of_serial_ne {t : FileTree} {p q : Path} {loc loc' : Location} {n m : Nat}
    {c c' : Content} (hp : t.follow p = .ok (.taken loc (.file n c)))
    (hq : t.follow q = .ok (.taken loc' (.file m c'))) (h : n ≠ m) : ¬t.SameFile p q := by
  rintro ⟨_, _, serial, _, _, hp', hq'⟩
  have hn : n = serial := (Node.file.inj (Spot.taken.inj (Except.ok.inj (hp.symm.trans hp'))).2).1
  have hm : m = serial := (Node.file.inj (Spot.taken.inj (Except.ok.inj (hq.symm.trans hq'))).2).1
  exact h (hn.trans hm.symm)

/-- A file that gets new content was one before. -/
theorem follow_of_setContent {t : FileTree} {serial : Nat} {content : Content} {p : Path}
    {loc : Location} {n : Nat} {c : Content}
    (h : (t.setContent serial content).follow p = .ok (.taken loc (.file n c))) :
    ∃ old, t.follow p = .ok (.taken loc (.file n old)) := by
  rw [follow_setContent] at h
  rcases hf : t.follow p with _ | ⟨loc', node⟩ | _
  · simp [hf, Except.map] at h
  · rw [hf] at h
    obtain ⟨rfl, hnode⟩ := Spot.taken.inj (Except.ok.inj h)
    cases node with
    | file n' old =>
      obtain ⟨rfl, -⟩ := Node.file.inj hnode
      exact ⟨old, rfl⟩
    | directory => cases hnode
    | link target => cases hnode
    | special => cases hnode
  · simp [hf, Except.map, Spot.map] at h

/-- No two paths come to lead to one file. -/
theorem SameFile.of_setContent {t : FileTree} {serial : Nat} {content : Content} {p q : Path}
    (h : (t.setContent serial content).SameFile p q) : t.SameFile p q := by
  obtain ⟨loc, loc', n, c, c', hp, hq⟩ := h
  obtain ⟨old, hp⟩ := follow_of_setContent hp
  obtain ⟨old', hq⟩ := follow_of_setContent hq
  exact ⟨loc, loc', n, old, old', hp, hq⟩

/-- What was one file stays one. -/
theorem SameFile.setContent {t : FileTree} {p q : Path} (h : t.SameFile p q) (serial : Nat)
    (content : Content) : (t.setContent serial content).SameFile p q := by
  obtain ⟨loc, loc', n, c, c', hp, hq⟩ := h
  refine ⟨loc, loc', n, if n = serial then content else c, if n = serial then content else c', ?_,
    ?_⟩
  · rw [follow_setContent, hp]
    rfl
  · rw [follow_setContent, hq]
    rfl

/-- Other files keep their content. -/
theorem find?_setContent_of_not_sameFile {t : FileTree} {p q : Path} {loc : Location}
    {serial : Nat} {old : Content} (h : t.follow p = .ok (.taken loc (.file serial old)))
    (hq : ¬t.SameFile p q) (content : Content) :
    (t.setContent serial content).find? q = t.find? q := by
  rw [find?_setContent]
  unfold find?
  rcases hf : t.follow q with _ | ⟨loc', node⟩ | _
  · rfl
  · cases node with
    | file serial' c =>
      have hne : serial' ≠ serial := by
        rintro rfl
        exact hq ⟨loc, loc', serial', old, c, h, hf⟩
      simp [Node.withContent, hne]
    | directory => rfl
    | link target => rfl
    | special => rfl
  · rfl

/-- A path that leads to a file leads to one of some serial number. -/
theorem follow_of_file? {t : FileTree} {p : Path} {content : Content}
    (h : t.file? p = some content) :
    ∃ loc serial, t.follow p = .ok (.taken loc (.file serial content)) := by
  unfold file? find? at h
  rcases hf : t.follow p with _ | ⟨loc, node⟩ | _
  · simp [hf] at h
  · cases node with
    | file serial c => exact ⟨loc, serial, by simpa [hf] using h⟩
    | directory => simp [hf] at h
    | link target => simp [hf] at h
    | special => simp [hf] at h
  · simp [hf] at h

end FileTree

end PluginCatalog
