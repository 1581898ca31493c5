import PluginCatalog.Proofs.FileTree.Changes

/-!
# Directories all along

* `FileTree.Paved t loc`: all that stands on the way to a location are directories. A walk goes
  along them (`FileTree.Paved.walk`), and a directory that is there is not made again
  (`FileTree.Paved.ensureDirectory`).
* `FileTree.Clear t p`: an absolute path at which a new directory can be made; it is placed there,
  and nothing else changes (`FileTree.Clear.place`).
-/

namespace PluginCatalog.FileTree

variable {t : FileTree}

/-- There are directories at a location and all along the way to it. -/
def Paved (t : FileTree) (loc : Location) : Prop :=
  (∀ name ∈ loc, IsName name) ∧ ∀ l, l <+: loc → t.node? l = some .directory

theorem Paved.walk_append {here front : Location} (h : Paved t (here ++ front)) (last : Bool)
    (links : Nat) (rest : List String) :
    t.walk last links here (front ++ rest) = t.walk last links (here ++ front) rest := by
  induction front generalizing here with
  | nil => rw [List.append_nil, List.nil_append]
  | cons name front ih =>
    have hn : IsName name := h.1 name (by simp)
    have hnode : t.node? (here ++ [name]) = some .directory := h.2 _ ⟨front, by simp⟩
    have h' : Paved t (here ++ [name] ++ front) := by simpa using h
    rw [List.cons_append, walk_directory t last links here hn hnode, ih h', List.append_assoc,
      List.singleton_append]

/-- **A walk along directories.** -/
theorem Paved.walk {loc : Location} (h : Paved t loc) (last : Bool) (links : Nat)
    (rest : List String) : t.walk last links [] (loc ++ rest) = t.walk last links loc rest :=
  @Paved.walk_append t [] loc h last links rest

theorem Paved.walk_self {loc : Location} (h : Paved t loc) (last : Bool) (links : Nat) :
    t.walk last links [] loc = .ok (.taken loc .directory) := by
  have hw := h.walk last links []
  rwa [List.append_nil, walk_nil] at hw

theorem Paved.mono {t' : FileTree} {loc : Location} (h : Paved t loc) (hs : t.DirectoriesStay t') :
    Paved t' loc := ⟨h.1, fun l hl => hs l (h.2 l hl)⟩

theorem Paved.snoc {loc : Location} (h : Paved t loc) {name : String} (hn : IsName name)
    (hnode : t.node? (loc ++ [name]) = some .directory) : Paved t (loc ++ [name]) := by
  refine ⟨fun x hx => ?_, fun l hl => ?_⟩
  · rcases List.mem_append.1 hx with hx | hx
    · exact h.1 x hx
    · exact List.mem_singleton.1 hx ▸ hn
  · rcases List.prefix_concat_iff.1 hl with rfl | hl
    · exact hnode
    · exact h.2 l hl

theorem Paved.settled {loc : Location} (h : Paved t loc) : Settled t loc where
  up hu := (h.1 _ hu).2 rfl
  links l hl target := by
    rw [h.2 l hl]
    exact nofun

variable {p : Path}

theorem Paved.follow (hp : p.isAbsolute) (h : Paved t p.parts) :
    t.follow p = .ok (.taken p.parts .directory) := by
  rw [FileTree.follow, origin, if_pos hp]
  exact h.walk_self true maxLinks

theorem Paved.locate (hp : p.isAbsolute) (h : Paved t p.parts) :
    t.locate p = .ok (.taken p.parts .directory) := by
  rw [FileTree.locate, origin, if_pos hp]
  exact h.walk_self false maxLinks

theorem isDirectory_of_follow {loc : Location} (h : t.follow p = .ok (.taken loc .directory)) :
    t.isDirectory p := by
  simp [isDirectory, find?, h]

/-! ## Making sure of a directory -/

/-- No directory is made where something is. -/
theorem makeDirectory_taken {loc : Location} {node : Node}
    (h : t.locate p = .ok (.taken loc node)) : t.makeDirectory p = .error .alreadyExists := by
  unfold makeDirectory make
  rw [h]
  rfl

/-- A directory is made where nothing is. -/
theorem makeDirectory_free {loc : Location} (h : t.locate p = .ok (.free loc)) :
    t.makeDirectory p = .ok (t.set loc .directory) := by
  unfold makeDirectory make
  rw [h]
  rfl

/-- The first step is to make the directory alone. -/
theorem ensureDirectory_eq (hne : p.parts ≠ []) : t.ensureDirectory p =
    match t.makeDirectory p with
    | .ok t' => (t', .ok ())
    | .error .notFound =>
      match t.ensureDirectory p.parent with
      | (t', .error e) => (t', .error e)
      | (t', .ok ()) => match t'.makeDirectory p with
        | .ok t'' => (t'', .ok ())
        | .error e => if t'.isDirectory p then (t', .ok ()) else (t', .error e)
    | .error e => if t.isDirectory p then (t, .ok ()) else (t, .error e) := by
  obtain ⟨front, name, hparts⟩ := List.eq_nil_or_concat p.parts |>.resolve_left hne
  rw [List.concat_eq_append] at hparts
  have hpath : (⟨p.slashes, (name :: front.reverse).reverse⟩ : Path) = p := by
    rw [List.reverse_cons, List.reverse_reverse, ← hparts]
  have hrev : p.parts.reverse = name :: front.reverse := by
    rw [hparts, List.reverse_append, List.reverse_singleton, List.singleton_append]
  have hparent : p.parent = ⟨p.slashes, front⟩ := by
    rw [Path.parent, hparts, List.dropLast_concat]
  unfold FileTree.ensureDirectory
  rewrite [hrev, hparent, ensureReversed, hpath]
  rfl

/-- Where something is, nothing is made. -/
theorem ensureDirectory_taken {loc : Location} {node : Node} (hne : p.parts ≠ [])
    (h : t.locate p = .ok (.taken loc node)) : t.ensureDirectory p =
      (t, if t.isDirectory p then .ok () else .error .alreadyExists) := by
  rw [ensureDirectory_eq hne, makeDirectory_taken h]
  dsimp only
  split <;> rfl

/-- Where nothing is in a directory, it is made. -/
theorem ensureDirectory_free {loc : Location} (hne : p.parts ≠ [])
    (h : t.locate p = .ok (.free loc)) : t.ensureDirectory p = (t.set loc .directory, .ok ()) := by
  rw [ensureDirectory_eq hne, makeDirectory_free h]

/-- A directory that is there is not made again. -/
theorem Paved.ensureDirectory (hp : p.isAbsolute) (h : Paved t p.parts) :
    t.ensureDirectory p = (t, .ok ()) := by
  by_cases hne : p.parts = []
  · unfold FileTree.ensureDirectory
    rw [hne]
    rfl
  · rw [ensureDirectory_taken hne (h.locate hp), if_pos (isDirectory_of_follow (h.follow hp))]

section Child

variable {loc : Location} {name : String} (hp : p.isAbsolute) (hparts : p.parts = loc ++ [name])
  (hn : IsName name) (h : Paved t loc)

include hp hparts h

theorem Paved.walk_child (last : Bool) : t.walk last maxLinks (origin t.working p) p.parts =
    t.walk last maxLinks loc [name] := by
  rw [origin, if_pos hp, hparts, h.walk]

include hn

/-- A directory is made where nothing is in one that is there. -/
theorem Paved.ensureDirectory_free (hfree : t.node? p.parts = none) :
    t.ensureDirectory p = (t.set p.parts .directory, .ok ()) := by
  refine FileTree.ensureDirectory_free (by simp [hparts]) ?_
  rw [FileTree.locate, h.walk_child hp hparts, hparts]
  exact walk_free t false maxLinks loc hn (hparts ▸ hfree)

/-- What comes of making sure of a directory in one that is there: at most the directory is new, and
after a success it is there. -/
theorem Paved.ensureDirectory_child (hl : ∀ target, t.node? p.parts ≠ some (.link target)) :
    ((t.ensureDirectory p).1 = t ∨ (t.ensureDirectory p).1 = t.set p.parts .directory) ∧
      ((t.ensureDirectory p).2 = .ok () →
        (t.ensureDirectory p).1.node? p.parts = some .directory) := by
  have hne : p.parts ≠ [] := by simp [hparts]
  rcases hnode : t.node? p.parts with _ | node
  · rw [h.ensureDirectory_free hp hparts hn hnode]
    refine ⟨.inr rfl, fun _ => ?_⟩
    rw [node?_set t hne, if_pos rfl]
  by_cases hd : node = .directory
  · subst hd
    have hpaved : Paved t p.parts := hparts ▸ h.snoc hn (hparts ▸ hnode)
    rw [hpaved.ensureDirectory hp]
    exact ⟨.inl rfl, fun _ => hnode⟩
  · have hlink : ∀ target, node ≠ .link target := by
      rintro target rfl
      exact hl target hnode
    have hleaf : ∀ last, t.walk last maxLinks (origin t.working p) p.parts =
        .ok (.taken p.parts node) := by
      intro last
      rw [h.walk_child hp hparts, hparts]
      exact walk_leaf t last maxLinks loc hn (hparts ▸ hnode) hd hlink
    have hdir : t.isDirectory p = false := by
      unfold isDirectory find? FileTree.follow
      rw [hleaf]
      cases node <;> first | rfl | exact absurd rfl hd
    rw [ensureDirectory_taken hne (hleaf false), hdir]
    exact ⟨.inl rfl, nofun⟩

end Child

/-! ## New directories -/

/-- An absolute path at which there is nothing yet, but directories all along the way. -/
structure Clear (t : FileTree) (p : Path) : Prop where
  absolute : p.isAbsolute
  nonempty : p.parts ≠ []
  names : ∀ name ∈ p.parts, IsName name
  above : ∀ l, l <+: p.parts → l ≠ p.parts → t.node? l = some .directory
  free : ∀ l, p.parts <+: l → t.node? l = none

/-- A place right below the root. -/
theorem clear_of_root {slashes : Nat} (hs : slashes ≠ 0) {name : String} (hn : IsName name)
    (hfree : ∀ rest, t.node? (name :: rest) = none) : Clear t ⟨slashes, [name]⟩ where
  absolute := bne_iff_ne.2 hs
  nonempty := nofun
  names x hx := List.mem_singleton.1 hx ▸ hn
  above l hl hne := by
    have hl : l <+: [] ++ [name] := hl
    obtain rfl := List.prefix_nil.1 ((List.prefix_concat_iff.1 hl).resolve_left hne)
    rfl
  free l hl := by
    obtain ⟨rest, rfl⟩ := hl
    exact hfree rest

/-- The last name is one of a directory that is there. -/
theorem Clear.parts (h : Clear t p) :
    ∃ front name, p.parts = front ++ [name] ∧ IsName name ∧ Paved t front := by
  rcases List.eq_nil_or_concat p.parts with hnil | ⟨front, name, hparts⟩
  · exact absurd hnil h.nonempty
  rw [List.concat_eq_append] at hparts
  have hfront : front <+: p.parts := hparts ▸ List.prefix_append front [name]
  refine ⟨front, name, hparts, h.names name (by simp [hparts]), ?_, fun l hl => ?_⟩
  · exact fun x hx => h.names x (hfront.subset hx)
  · refine h.above l (hl.trans hfront) fun he => ?_
    have hlen := hl.length_le
    rw [he, hparts, List.length_append, List.length_singleton] at hlen
    omega

/-- **A directory is placed** where nothing is, and nothing else changes. -/
theorem Clear.place (h : Clear t p) : t.place p .directory = t.set p.parts .directory := by
  obtain ⟨front, name, hparts, hn, hfront⟩ := h.parts
  have hparent : t.ensureDirectory p.parent = (t, .ok ()) := by
    refine Paved.ensureDirectory (p := p.parent) h.absolute ?_
    rwa [Path.parent, hparts, List.dropLast_concat]
  have hspot : t.locate p = .ok (.free p.parts) := by
    rw [FileTree.locate, origin, if_pos h.absolute, hparts, hfront.walk]
    refine walk_free t false maxLinks front hn ?_
    exact h.free _ (hparts ▸ List.prefix_rfl)
  unfold FileTree.place
  simp only [hparent, hspot]

theorem Clear.paved_place (h : Clear t p) : Paved (t.place p .directory) p.parts := by
  refine ⟨h.names, fun l hl => ?_⟩
  rw [h.place, node?_set t h.nonempty]
  split
  · rfl
  next hne => exact h.above l hl hne

end PluginCatalog.FileTree
