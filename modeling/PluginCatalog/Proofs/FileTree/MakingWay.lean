import PluginCatalog.Proofs.FileTree.Changes

/-!
# Making directories again

* `FileTree.walk_set`: after something other than a link was put in a free place, a walk goes as
  before, but where it found the place free it finds what was put there. After a file was put there,
  no other walks succeed (`FileTree.walk_of_set`).
* `FileTree.makeWayReversed_again`: what was made with the directories above it is not made again.
* `FileTree.Blocked`: nothing can be written at a path, be it a file, a directory or a link.
-/

namespace PluginCatalog

/-- A spot after a node was put at a location. -/
def Spot.filled (loc : Location) (node : Node) : Spot → Spot
  | free l => if l = loc then taken loc node else free l
  | taken l old => taken l old

namespace FileTree

variable {t : FileTree}

/-! ## Walks after a place was taken -/

theorem directory_ne_link (target : String) : Node.directory ≠ .link target := nofun

theorem file_ne_directory (serial : Nat) (content : Content) :
    Node.file serial content ≠ .directory := nofun

theorem file_ne_link (serial : Nat) (content : Content) (target : String) :
    Node.file serial content ≠ .link target := nofun

/-- **A walk after something other than a link was put** where nothing stood. -/
theorem walk_set {loc : Location} (hne : loc ≠ []) (hfree : t.node? loc = none) {node : Node}
    (hlink : ∀ target, node ≠ .link target) {last : Bool} {links : Nat} {here : Location}
    {names : List String} {spot : Spot} (h : t.walk last links here names = .ok spot) :
    (t.set loc node).walk last links here names = .ok (spot.filled loc node) := by
  have hsame : ∀ {l : Location} {old : Node}, t.node? l = some old →
      (t.set loc node).node? l = some old := by
    intro l old hold
    rw [node?_set t hne, if_neg ?_, hold]
    rintro rfl
    simp [hfree] at hold
  have hr := reaches_of_walk h
  clear h
  induction hr with
  | here here => exact walk_nil _ last _ here
  | dot _ ih => rw [walk_dot, ih]
  | up _ ih => rw [walk_up, ih]
  | @free links here name hn hnode =>
    by_cases hl : here ++ [name] = loc
    · have hnew : (t.set loc node).node? (here ++ [name]) = some node := by
        rw [node?_set t hne, if_pos hl]
      rw [Spot.filled, if_pos hl, ← hl]
      by_cases hd : node = .directory
      · subst hd
        rw [walk_directory _ last links here hn (hl ▸ hnew), walk_nil]
      · exact walk_leaf _ last links here hn (hl ▸ hnew) hd hlink
    · have hstill : (t.set loc node).node? (here ++ [name]) = none := by
        rw [node?_set t hne, if_neg hl, hnode]
      rw [walk_free _ last links here hn hstill, Spot.filled, if_neg hl]
  | enter hn hnode _ ih => rw [walk_directory _ last _ _ hn (hsame hnode), ih]
  | keep hn hlast hnode =>
    subst hlast
    exact walk_keep _ _ _ hn (hsame hnode)
  | link hn hnode ht hlast _ ih => rw [walk_link _ last _ _ hn (hsame hnode) ht hlast, ih]
  | leaf hn hnode hd hl => exact walk_leaf _ last _ _ hn (hsame hnode) hd hl

/-- A walk that found the place free finds what was put there. -/
theorem walk_set_free {loc : Location} {node : Node} (hlink : ∀ target, node ≠ .link target)
    {last : Bool} {links : Nat} {here : Location} {names : List String}
    (h : t.walk last links here names = .ok (.free loc)) :
    (t.set loc node).walk last links here names = .ok (.taken loc node) := by
  obtain ⟨hne, hfree⟩ := (reaches_of_walk h).node?_free
  rw [walk_set hne hfree hlink h, Spot.filled, if_pos rfl]

/-- A walk after a file was put where nothing stood went as well before. -/
theorem walk_of_set {loc : Location} (hne : loc ≠ []) (hfree : t.node? loc = none) {node : Node}
    (hdir : node ≠ .directory) (hlink : ∀ target, node ≠ .link target) {last : Bool} {links : Nat}
    {here : Location} {names : List String} {spot' : Spot}
    (h : (t.set loc node).walk last links here names = .ok spot') :
    ∃ spot, t.walk last links here names = .ok spot ∧ spot' = spot.filled loc node := by
  have hcases : ∀ {l : Location} {found : Option Node}, (t.set loc node).node? l = found →
      (l = loc ∧ found = some node) ∨ (l ≠ loc ∧ t.node? l = found) := by
    intro l found hfound
    rw [node?_set t hne] at hfound
    split at hfound
    next hl => exact .inl ⟨hl, hfound.symm⟩
    next hl => exact .inr ⟨hl, hfound⟩
  have hr := reaches_of_walk h
  clear h
  induction hr with
  | here here => exact ⟨_, walk_nil t last _ here, rfl⟩
  | dot _ ih =>
    rw [walk_dot]
    exact ih
  | up _ ih =>
    rw [walk_up]
    exact ih
  | @free links here name hn hnode =>
    rcases hcases hnode with ⟨-, h⟩ | ⟨hl, hnode⟩
    · cases h
    · exact ⟨_, walk_free t last links here hn hnode, by rw [Spot.filled, if_neg hl]⟩
  | @enter links here _ _ _ hn hnode _ ih =>
    rcases hcases hnode with ⟨-, h⟩ | ⟨-, hnode⟩
    · exact absurd (Option.some.inj h).symm hdir
    · rw [walk_directory t last links here hn hnode]
      exact ih
  | @keep links here _ _ hn hlast hnode =>
    rcases hcases hnode with ⟨-, h⟩ | ⟨-, hnode⟩
    · exact absurd (Option.some.inj h).symm (hlink _)
    · subst hlast
      exact ⟨_, walk_keep t links here hn hnode, rfl⟩
  | @link links here _ _ _ _ hn hnode ht hlast _ ih =>
    rcases hcases hnode with ⟨-, h⟩ | ⟨-, hnode⟩
    · exact absurd (Option.some.inj h).symm (hlink _)
    · rw [walk_link t last links here hn hnode ht hlast]
      exact ih
  | @leaf links here _ _ hn hnode hd hl =>
    rcases hcases hnode with ⟨hloc, h⟩ | ⟨-, hnode⟩
    · refine ⟨_, walk_free t last links here hn (hloc ▸ hfree), ?_⟩
      rw [Spot.filled, if_pos hloc, Option.some.inj h, hloc]
    · exact ⟨_, walk_leaf t last links here hn hnode hd hl, rfl⟩

/-! ## The directory of a path -/

/-- A walk that succeeds goes through a directory before its last name. -/
theorem walk_front {last : Bool} {links : Nat} {here : Location} {front : List String}
    {name : String} {spot : Spot} (h : t.walk last links here (front ++ [name]) = .ok spot) :
    ∃ dir, t.walk true links here front = .ok (.taken dir .directory) := by
  have hr := reaches_of_walk h
  clear h
  generalize hnames : front ++ [name] = names at hr
  induction hr generalizing front with
  | here => simp at hnames
  | dot _ ih =>
    cases front with
    | nil => exact ⟨_, walk_nil _ _ _ _⟩
    | cons x front =>
      obtain ⟨rfl, hrest⟩ := List.cons.inj hnames
      rw [walk_dot]
      exact ih hrest
  | up _ ih =>
    cases front with
    | nil => exact ⟨_, walk_nil _ _ _ _⟩
    | cons x front =>
      obtain ⟨rfl, hrest⟩ := List.cons.inj hnames
      rw [walk_up]
      exact ih hrest
  | enter hn hnode _ ih =>
    cases front with
    | nil => exact ⟨_, walk_nil _ _ _ _⟩
    | cons x front =>
      obtain ⟨rfl, hrest⟩ := List.cons.inj hnames
      rw [walk_directory t true _ _ hn hnode]
      exact ih hrest
  | @link _ _ _ target _ _ hn hnode ht _ _ ih =>
    cases front with
    | nil => exact ⟨_, walk_nil _ _ _ _⟩
    | cons x front =>
      obtain ⟨rfl, rfl⟩ := List.cons.inj hnames
      rw [walk_link t true _ _ hn hnode ht (.inr rfl)]
      exact ih (List.append_assoc (Path.components target) front [name])
  | free | keep | leaf =>
    obtain rfl : front = [] := by
      cases front with
      | nil => rfl
      | cons x front => simp at hnames
    exact ⟨_, walk_nil _ _ _ _⟩

/-! ## Making directories -/

/-- A link is made where nothing stands. -/
theorem makeLink_of_free {p : Path} {target : String} (ht : target ≠ "") {loc : Location}
    (hspot : t.locate p = .ok (.free loc)) :
    t.makeLink target p = .ok (t.set loc (.link target)) := by
  simp only [makeLink, String.isEmpty_iff, if_neg ht, make, hspot]
  rfl

theorem pathExists_of_follow {p : Path} {loc : Location} {node : Node}
    (h : t.follow p = .ok (.taken loc node)) : t.pathExists p := by
  simp [pathExists, find?, h]

theorem follow_of_find? {p : Path} {node : Node} (h : t.find? p = some node) :
    ∃ loc, t.follow p = .ok (.taken loc node) := by
  unfold find? at h
  split at h
  next loc node' hf => exact ⟨loc, Option.some.inj h ▸ hf⟩
  next => cases h

theorem follow_of_pathExists {p : Path} (h : t.pathExists p) :
    ∃ loc node, t.follow p = .ok (.taken loc node) := by
  obtain ⟨node, hnode⟩ := Option.isSome_iff_exists.1 h
  obtain ⟨loc, hf⟩ := follow_of_find? hnode
  exact ⟨loc, node, hf⟩

/-- What exists is still there after a directory was made. -/
theorem pathExists_makeDirectory {p q : Path} {t' : FileTree} (h : t.makeDirectory p = .ok t')
    (hq : t.pathExists q) : t'.pathExists q := by
  obtain ⟨loc, hspot, rfl⟩ := make_inv h
  obtain ⟨hne, hfree⟩ := (reaches_of_locate hspot).node?_free
  obtain ⟨l, node, hf⟩ := follow_of_pathExists hq
  have hw : (t.set loc .directory).follow q = .ok (.taken l node) :=
    walk_set hne hfree directory_ne_link hf
  exact pathExists_of_follow hw

/-- A directory that was made is not made again. -/
theorem makeDirectory_again {p : Path} {t' : FileTree} (h : t.makeDirectory p = .ok t') :
    t'.makeDirectory p = .error .alreadyExists := by
  obtain ⟨loc, hspot, rfl⟩ := make_inv h
  have hw : (t.set loc .directory).locate p = .ok (.taken loc .directory) :=
    walk_set_free directory_ne_link hspot
  unfold makeDirectory make
  rw [hw]
  rfl

theorem orUnchanged_makeDirectory_again (t : FileTree) (p : Path) :
    let t' := (t.orUnchanged (t.makeDirectory p)).1
    (t'.orUnchanged (t'.makeDirectory p)).1 = t' := by
  rcases h : t.makeDirectory p with e | t'
  · simp [orUnchanged, h]
  · simp [orUnchanged, makeDirectory_again h]

/-- A directory is made in a directory that exists. -/
theorem pathExists_of_makeDirectory {slashes : Nat} {above : List String} {name : String}
    {t' : FileTree} (h : t.makeDirectory ⟨slashes, (name :: above).reverse⟩ = .ok t') :
    t.pathExists ⟨slashes, above.reverse⟩ := by
  obtain ⟨loc, hspot, -⟩ := make_inv h
  unfold locate at hspot
  rw [List.reverse_cons] at hspot
  obtain ⟨dir, hdir⟩ := walk_front hspot
  exact pathExists_of_follow (p := ⟨slashes, above.reverse⟩) hdir

/-- No directory is made at a path that ends with `.`. -/
theorem makeDirectory_dot {slashes : Nat} {above : List String} {t' : FileTree} :
    t.makeDirectory ⟨slashes, ("." :: above).reverse⟩ ≠ .ok t' := by
  intro h
  obtain ⟨loc, hspot, -⟩ := make_inv h
  have hr := reaches_of_locate hspot
  rw [List.reverse_cons] at hr
  obtain ⟨l, hl⟩ := hr.not_name fun hn => hn.1 rfl
  cases hl

theorem pathExists_orUnchanged {p q : Path} (hq : t.pathExists q) :
    (t.orUnchanged (t.makeDirectory p)).1.pathExists q := by
  rcases h : t.makeDirectory p with e | t'
  · exact hq
  · exact pathExists_makeDirectory h hq

/-- Where neither the directory nor those above it are made, nothing is. -/
theorem makeWayReversed_unchanged {slashes : Nat} {name : String} {above : List String}
    (hdir : (t.orUnchanged (t.makeDirectory ⟨slashes, (name :: above).reverse⟩)).1 = t)
    (habove : ¬(above.isEmpty || t.pathExists ⟨slashes, above.reverse⟩) →
      (t.makeWayReversed slashes above).1 = t) :
    (t.makeWayReversed slashes (name :: above)).1 = t := by
  unfold makeWayReversed
  dsimp only
  split
  · exact hdir
  next hcond =>
    have hsame := habove hcond
    split
    next t' hrun =>
      obtain rfl : t' = t := by rw [← hsame, hrun]
      split
      · rfl
      · exact hdir
    next t' hrun =>
      obtain rfl : t' = t := by rw [← hsame, hrun]
      split
      · rfl
      · exact hdir
    next => exact hsame

/-- A directory that was made, or could not be made, in those above it is not made again with them
if these are not. -/
theorem makeWayReversed_after_above {slashes : Nat} {name : String} {above : List String}
    {t₁ : FileTree} {r : Except FileFault Unit} (habove : (t.makeWayReversed slashes above).1 = t)
    (h : (if name = "." then (t, .ok ())
      else t.orUnchanged (t.makeDirectory ⟨slashes, (name :: above).reverse⟩)) = (t₁, r)) :
    (t₁.makeWayReversed slashes (name :: above)).1 = t₁ := by
  split at h
  next hdot =>
    obtain ⟨rfl, -⟩ := Prod.mk.inj h
    refine makeWayReversed_unchanged ?_ fun _ => habove
    rcases hm : t.makeDirectory ⟨slashes, (name :: above).reverse⟩ with e | t'
    · rfl
    · subst hdot
      exact absurd hm makeDirectory_dot
  next =>
    have ht₁ : (t.orUnchanged (t.makeDirectory ⟨slashes, (name :: above).reverse⟩)).1 = t₁ := by
      rw [h]
    refine makeWayReversed_unchanged (ht₁ ▸ orUnchanged_makeDirectory_again t _) fun hcond => ?_
    -- What was made was made in those above it; else the tree is as it was.
    rcases hm : t.makeDirectory ⟨slashes, (name :: above).reverse⟩ with e | t'
    · rw [hm] at ht₁
      obtain rfl : t = t₁ := ht₁
      exact habove
    · have hq := pathExists_orUnchanged (p := ⟨slashes, (name :: above).reverse⟩)
        (pathExists_of_makeDirectory hm)
      rw [ht₁] at hq
      exact absurd (by simp [hq]) hcond

/-- **What was made with the directories above it is not made again.** -/
theorem makeWayReversed_again {slashes : Nat} {names : List String} {t₁ : FileTree}
    {r : Except FileFault Unit} (h : t.makeWayReversed slashes names = (t₁, r))
    (hr : r = .ok () ∨ r = .error .alreadyExists) :
    (t₁.makeWayReversed slashes names).1 = t₁ := by
  induction names generalizing t₁ r with
  | nil => rfl
  | cons name above ih =>
    unfold makeWayReversed at h
    dsimp only at h
    split at h
    next hcond =>
      have ht₁ : (t.orUnchanged (t.makeDirectory ⟨slashes, (name :: above).reverse⟩)).1 = t₁ := by
        rw [h]
      refine makeWayReversed_unchanged (ht₁ ▸ orUnchanged_makeDirectory_again t _)
        fun hcond' => absurd ?_ hcond'
      rw [Bool.or_eq_true] at hcond ⊢
      refine hcond.imp id fun hq => ?_
      rw [← ht₁]
      exact pathExists_orUnchanged hq
    next =>
      split at h
      next t' hrun => exact makeWayReversed_after_above (ih hrun (.inl rfl)) h
      next t' hrun => exact makeWayReversed_after_above (ih hrun (.inr rfl)) h
      next hok hex =>
        rcases hr with rfl | rfl
        · exact absurd h (hok t₁)
        · exact absurd h (hex t₁)

/-! ## Blocked paths -/

/-- What a walk reaches that follows a link at the end is reached without following it, or there is
a link at the end. -/
theorem walk_or_link {links : Nat} {here : Location} {names : List String} {spot : Spot}
    (h : t.walk true links here names = .ok spot) :
    t.walk false links here names = .ok spot ∨
      ∃ loc target, t.walk false links here names = .ok (.taken loc (.link target)) := by
  have hr := reaches_of_walk h
  clear h
  induction hr with
  | here here => exact .inl (walk_nil t false _ here)
  | dot _ ih =>
    rw [walk_dot]
    exact ih
  | up _ ih =>
    rw [walk_up]
    exact ih
  | free hn hnode => exact .inl (walk_free t false _ _ hn hnode)
  | enter hn hnode _ ih =>
    rw [walk_directory t false _ _ hn hnode]
    exact ih
  | keep _ hlast => cases hlast
  | @link _ _ _ _ rest _ hn hnode ht _ _ ih =>
    by_cases hrest : rest = []
    · subst hrest
      exact .inr ⟨_, _, walk_keep t _ _ hn hnode⟩
    · rw [walk_link t false _ _ hn hnode ht (.inl hrest)]
      exact ih
  | leaf hn hnode hd hl => exact .inl (walk_leaf t false _ _ hn hnode hd hl)

/-- At a path that cannot be reached, or is a directory, nothing can be written. -/
structure Blocked (t : FileTree) (p : Path) : Prop where
  taken : ∀ loc node, t.locate p = .ok (.taken loc node) → node = .directory
  free : ∀ loc, t.locate p ≠ .ok (.free loc)

namespace Blocked

variable {p : Path}

theorem of_error {e : FileFault} (hspot : t.locate p = .error e) : t.Blocked p where
  taken := by simp [hspot]
  free := by simp [hspot]

/-- What is there and cannot be removed is a directory. -/
theorem of_unlink {e : FileFault} {loc : Location} {node : Node}
    (hspot : t.locate p = .ok (.taken loc node)) (hu : t.unlink p = .error e) : t.Blocked p := by
  obtain rfl : node = .directory := by
    unfold FileTree.unlink at hu
    rw [hspot] at hu
    cases node with
    | directory => rfl
    | file n c => cases hu
    | link target => cases hu
    | special => cases hu
  refine ⟨fun loc' node' h => ?_, by simp [hspot]⟩
  exact (Spot.taken.inj (Except.ok.inj (hspot.symm.trans h))).2.symm

theorem make (h : t.Blocked p) (node : Node) : ∃ e, t.make p node = .error e := by
  rcases hm : t.make p node with e | t'
  · exact ⟨e, rfl⟩
  · obtain ⟨loc, hspot, -⟩ := make_inv hm
    exact absurd hspot (h.free loc)

theorem write (h : t.Blocked p) (content : Content) : ∃ e, t.write p content = .error e := by
  unfold FileTree.write
  rcases hspot : t.follow p with e | spot
  · exact ⟨e, rfl⟩
  rcases walk_or_link hspot with hl | ⟨loc, target, hl⟩
  · rcases spot with ⟨loc, node⟩ | loc
    · obtain rfl := h.taken loc node hl
      exact ⟨_, rfl⟩
    · exact absurd hl (h.free loc)
  · cases h.taken _ _ hl

theorem makeHardLink (h : t.Blocked p) (source : Path) :
    ∃ e, t.makeHardLink source p = .error e := by
  unfold FileTree.makeHardLink
  rcases t.locate source with e | ⟨loc, node⟩ | loc
  · exact ⟨e, rfl⟩
  · cases node with
    | directory =>
      obtain ⟨e, he⟩ := h.make .special
      exact ⟨e, by simp [he, bind, Except.bind]⟩
    | file n c => exact h.make _
    | link target => exact h.make _
    | special => exact h.make _
  · exact ⟨_, rfl⟩

theorem makeLink (h : t.Blocked p) (target : String) : ∃ e, t.makeLink target p = .error e := by
  unfold FileTree.makeLink
  split
  · exact ⟨_, rfl⟩
  · exact h.make _

theorem unlink (h : t.Blocked p) : ∃ e, t.unlink p = .error e := by
  unfold FileTree.unlink
  rcases hspot : t.locate p with e | ⟨loc, node⟩ | loc
  · exact ⟨e, rfl⟩
  · obtain rfl := h.taken loc node hspot
    exact ⟨_, rfl⟩
  · exact ⟨_, rfl⟩

end Blocked

end FileTree

end PluginCatalog
