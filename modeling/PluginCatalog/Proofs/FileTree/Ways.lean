import PluginCatalog.Proofs.FileTree.Nodes

/-!
# Ways through a tree

* `FileTree.Reaches` is how a walk goes that succeeds, step by step (`FileTree.reaches_of_walk`,
  `FileTree.Reaches.walk`); `FileTree.Reaches.of_aside` is for trees that differ elsewhere.
* `FileTree.Leads` is where names lead when all links are followed and what is not there is passed
  as it is written.
* `FileTree.Settled`: the names of a location lead to itself.
-/

namespace PluginCatalog.FileTree

/-- A name of an entry of a directory. -/
def IsName (name : String) : Prop := name ≠ "." ∧ name ≠ ".."

/-! ## Steps of a walk -/

section Steps

variable (t : FileTree) (last : Bool) (links : Nat) (here : Location)

theorem walk_nil : t.walk last links here [] = .ok (.taken here .directory) := by
  cases links <;> rfl

theorem walk_dot (rest : List String) :
    t.walk last links here ("." :: rest) = t.walk last links here rest := by
  cases links <;> simp only [walk, walkWith, if_true]

theorem walk_up (rest : List String) :
    t.walk last links here (".." :: rest) = t.walk last links here.dropLast rest := by
  have hne : ".." ≠ "." := by decide
  cases links <;> simp only [walk, walkWith, if_neg hne, if_true]

variable {name : String} (hn : IsName name)

include hn

theorem walk_free (hnode : t.node? (here ++ [name]) = none) :
    t.walk last links here [name] = .ok (.free (here ++ [name])) := by
  cases links <;> simp [walk, walkWith, hn.1, hn.2, hnode]

theorem walk_directory (hnode : t.node? (here ++ [name]) = some .directory) (rest : List String) :
    t.walk last links here (name :: rest) = t.walk last links (here ++ [name]) rest := by
  cases links <;> simp only [walk, walkWith, if_neg hn.1, if_neg hn.2, hnode]

theorem walk_leaf {node : Node} (hnode : t.node? (here ++ [name]) = some node)
    (hd : node ≠ .directory) (hl : ∀ target, node ≠ .link target) :
    t.walk last links here [name] = .ok (.taken (here ++ [name]) node) := by
  cases node with
  | directory => exact absurd rfl hd
  | link target => exact absurd rfl (hl target)
  | file serial content => cases links <;> simp [walk, walkWith, hn.1, hn.2, hnode]
  | special => cases links <;> simp [walk, walkWith, hn.1, hn.2, hnode]

/-- A link at the end stays as it is if it is not to be followed. -/
theorem walk_keep {target : String} (hnode : t.node? (here ++ [name]) = some (.link target)) :
    t.walk false links here [name] = .ok (.taken (here ++ [name]) (.link target)) := by
  cases links <;> simp [walk, walkWith, hn.1, hn.2, hnode]

/-- A link that is followed needs one more link to be allowed. -/
theorem walk_link {target : String} (hnode : t.node? (here ++ [name]) = some (.link target))
    (ht : target ≠ "") {rest : List String} (hlast : rest ≠ [] ∨ last = true) :
    t.walk last (links + 1) here (name :: rest) =
      t.walk last links (origin here (Path.ofText target)) (Path.components target ++ rest) := by
  have hfollow : (rest.isEmpty && !last) = false := by
    rcases hlast with hrest | rfl
    · simp [hrest]
    · simp
  simp [walk, walkWith, hn.1, hn.2, hnode, ht, hfollow]

end Steps

/-! ## Walks -/

/-- A walk along names from a directory, with a number of links to follow at most, reaches a spot; a
link at the end is followed if `last`. -/
inductive Reaches (t : FileTree) (last : Bool) : Nat → Location → List String → Spot → Prop where
  | here {links : Nat} (here : Location) : Reaches t last links here [] (.taken here .directory)
  | dot {links : Nat} {here : Location} {rest : List String} {spot : Spot}
    (h : Reaches t last links here rest spot) : Reaches t last links here ("." :: rest) spot
  | up {links : Nat} {here : Location} {rest : List String} {spot : Spot}
    (h : Reaches t last links here.dropLast rest spot) :
    Reaches t last links here (".." :: rest) spot
  | free {links : Nat} {here : Location} {name : String} (hn : IsName name)
    (hnode : t.node? (here ++ [name]) = none) :
    Reaches t last links here [name] (.free (here ++ [name]))
  | enter {links : Nat} {here : Location} {name : String} {rest : List String} {spot : Spot}
    (hn : IsName name) (hnode : t.node? (here ++ [name]) = some .directory)
    (h : Reaches t last links (here ++ [name]) rest spot) :
    Reaches t last links here (name :: rest) spot
  | keep {links : Nat} {here : Location} {name target : String} (hn : IsName name)
    (hlast : last = false) (hnode : t.node? (here ++ [name]) = some (.link target)) :
    Reaches t last links here [name] (.taken (here ++ [name]) (.link target))
  | link {links : Nat} {here : Location} {name target : String} {rest : List String} {spot : Spot}
    (hn : IsName name) (hnode : t.node? (here ++ [name]) = some (.link target)) (ht : target ≠ "")
    (hlast : rest ≠ [] ∨ last = true)
    (h : Reaches t last links (origin here (Path.ofText target)) (Path.components target ++ rest)
      spot) :
    Reaches t last (links + 1) here (name :: rest) spot
  | leaf {links : Nat} {here : Location} {name : String} {node : Node} (hn : IsName name)
    (hnode : t.node? (here ++ [name]) = some node) (hd : node ≠ .directory)
    (hl : ∀ target, node ≠ .link target) :
    Reaches t last links here [name] (.taken (here ++ [name]) node)

section Reaches

variable {t : FileTree} {last : Bool} {links : Nat} {here loc : Location} {name : String}
  {front rest names : List String} {node : Node} {spot : Spot}

theorem reaches_of_walkWith {onLink : Location → List String → Except FileFault Spot}
    (hlink : ∀ here names spot, onLink here names = .ok spot →
      ∃ fewer, links = fewer + 1 ∧ Reaches t last fewer here names spot)
    (h : t.walkWith last onLink here names = .ok spot) : Reaches t last links here names spot := by
  induction names generalizing here with
  | nil =>
    obtain rfl := Except.ok.inj h
    exact .here here
  | cons name rest ih =>
    unfold walkWith at h
    split at h
    next hdot => exact hdot ▸ .dot (ih h)
    next hdot =>
      split at h
      next hup => exact hup ▸ .up (ih h)
      next hup =>
        have hn : IsName name := ⟨hdot, hup⟩
        dsimp only at h
        split at h
        next hnode =>
          split at h
          next hr =>
            obtain rfl := Except.ok.inj h
            obtain rfl := List.isEmpty_iff.1 hr
            exact .free hn hnode
          next => cases h
        next hnode => exact .enter hn hnode (ih h)
        next target hnode =>
          split at h
          next hr =>
            obtain rfl := Except.ok.inj h
            rw [Bool.and_eq_true, List.isEmpty_iff, Bool.not_eq_true'] at hr
            obtain ⟨rfl, hlast⟩ := hr
            exact .keep hn hlast hnode
          next hr =>
            split at h
            next => cases h
            next ht =>
              obtain ⟨fewer, rfl, hgo⟩ := hlink _ _ _ h
              refine .link hn hnode (mt String.isEmpty_iff.2 ht) ?_ hgo
              by_cases hrest : rest = []
              · exact .inr (by simpa [hrest] using hr)
              · exact .inl hrest
        next node hd hl hnode =>
          split at h
          next hr =>
            obtain rfl := Except.ok.inj h
            obtain rfl := List.isEmpty_iff.1 hr
            refine .leaf hn hnode ?_ ?_
            · rintro rfl
              exact hd rfl
            · rintro target rfl
              exact hl target rfl
          next => cases h

/-- **A walk that succeeds reaches its spot.** -/
theorem reaches_of_walk (h : t.walk last links here names = .ok spot) :
    Reaches t last links here names spot := by
  induction links generalizing here names spot with
  | zero =>
    unfold walk at h
    refine reaches_of_walkWith ?_ h
    intro here names spot h
    cases h
  | succ links ih =>
    unfold walk at h
    refine reaches_of_walkWith ?_ h
    intro here names spot h
    exact ⟨links, rfl, ih h⟩

/-- **A walk that reaches a spot succeeds.** -/
theorem Reaches.walk (h : Reaches t last links here names spot) :
    t.walk last links here names = .ok spot := by
  induction h with
  | here here => exact walk_nil t last _ here
  | dot _ ih => rw [walk_dot, ih]
  | up _ ih => rw [walk_up, ih]
  | free hn hnode => exact walk_free t last _ _ hn hnode
  | enter hn hnode _ ih => rw [walk_directory t last _ _ hn hnode, ih]
  | keep hn hlast hnode =>
    subst hlast
    exact walk_keep t _ _ hn hnode
  | link hn hnode ht hlast _ ih => rw [walk_link t last _ _ hn hnode ht hlast, ih]
  | leaf hn hnode hd hl => exact walk_leaf t last _ _ hn hnode hd hl

theorem reaches_of_follow {p : Path} (h : t.follow p = .ok spot) :
    Reaches t true maxLinks (origin t.working p) p.parts spot := reaches_of_walk h

theorem reaches_of_locate {p : Path} (h : t.locate p = .ok spot) :
    Reaches t false maxLinks (origin t.working p) p.parts spot := reaches_of_walk h

/-- Where a walk reaches a free place, nothing stands. -/
theorem Reaches.node?_free (h : Reaches t last links here names (.free loc)) :
    loc ≠ [] ∧ t.node? loc = none := by
  generalize hspot : Spot.free loc = spot at h
  induction h with
  | here => cases hspot
  | dot _ ih => exact ih hspot
  | up _ ih => exact ih hspot
  | free _ hnode =>
    obtain rfl := Spot.free.inj hspot
    exact ⟨by simp, hnode⟩
  | enter _ _ _ ih => exact ih hspot
  | keep => cases hspot
  | link _ _ _ _ _ ih => exact ih hspot
  | leaf => cases hspot

/-- Where a walk reaches something other than a directory, it stands. -/
theorem Reaches.node?_taken (h : Reaches t last links here names (.taken loc node))
    (hd : node ≠ .directory) : loc ≠ [] ∧ t.node? loc = some node := by
  generalize hspot : Spot.taken loc node = spot at h
  induction h with
  | here => exact absurd (Spot.taken.inj hspot).2 hd
  | dot _ ih => exact ih hspot
  | up _ ih => exact ih hspot
  | free => cases hspot
  | enter _ _ _ ih => exact ih hspot
  | keep _ _ hnode =>
    obtain ⟨rfl, rfl⟩ := Spot.taken.inj hspot
    exact ⟨by simp, hnode⟩
  | link _ _ _ _ _ ih => exact ih hspot
  | leaf _ hnode =>
    obtain ⟨rfl, rfl⟩ := Spot.taken.inj hspot
    exact ⟨by simp, hnode⟩

theorem Reaches.of_dot (h : Reaches t last links here ("." :: rest) spot) :
    Reaches t last links here rest spot := by
  generalize hnames : "." :: rest = names at h
  cases h with
  | here => cases hnames
  | dot h =>
    obtain ⟨-, rfl⟩ := List.cons.inj hnames
    exact h
  | up => exact absurd (List.cons.inj hnames).1 (by decide)
  | free hn => exact absurd (List.cons.inj hnames).1.symm hn.1
  | enter hn => exact absurd (List.cons.inj hnames).1.symm hn.1
  | keep hn => exact absurd (List.cons.inj hnames).1.symm hn.1
  | link hn => exact absurd (List.cons.inj hnames).1.symm hn.1
  | leaf hn => exact absurd (List.cons.inj hnames).1.symm hn.1

theorem Reaches.of_up (h : Reaches t last links here (".." :: rest) spot) :
    Reaches t last links here.dropLast rest spot := by
  generalize hnames : ".." :: rest = names at h
  cases h with
  | here => cases hnames
  | dot => exact absurd (List.cons.inj hnames).1 (by decide)
  | up h =>
    obtain ⟨-, rfl⟩ := List.cons.inj hnames
    exact h
  | free hn => exact absurd (List.cons.inj hnames).1.symm hn.2
  | enter hn => exact absurd (List.cons.inj hnames).1.symm hn.2
  | keep hn => exact absurd (List.cons.inj hnames).1.symm hn.2
  | link hn => exact absurd (List.cons.inj hnames).1.symm hn.2
  | leaf hn => exact absurd (List.cons.inj hnames).1.symm hn.2

/-- A walk past a name goes through a directory or a link with a target. -/
theorem Reaches.pass (hn : IsName name) (hrest : rest ≠ [])
    (h : Reaches t last links here (name :: rest) spot) :
    (t.node? (here ++ [name]) = some .directory ∧ Reaches t last links (here ++ [name]) rest spot) ∨
      ∃ target fewer, t.node? (here ++ [name]) = some (.link target) ∧ target ≠ "" ∧
        links = fewer + 1 ∧
        Reaches t last fewer (origin here (Path.ofText target)) (Path.components target ++ rest)
          spot := by
  cases h with
  | dot => exact absurd rfl hn.1
  | up => exact absurd rfl hn.2
  | free => exact absurd rfl hrest
  | enter _ hnode h => exact .inl ⟨hnode, h⟩
  | keep => exact absurd rfl hrest
  | link _ hnode ht _ h => exact .inr ⟨_, _, hnode, ht, rfl, h⟩
  | leaf => exact absurd rfl hrest

/-- A walk to a name from a directory, the link that may stand there not followed. -/
theorem Reaches.last_name (hn : IsName name) (h : Reaches t false links here [name] spot) :
    (t.node? (here ++ [name]) = none ∧ spot = .free (here ++ [name])) ∨
      ∃ node, t.node? (here ++ [name]) = some node ∧ spot = .taken (here ++ [name]) node := by
  cases h with
  | dot => exact absurd rfl hn.1
  | up => exact absurd rfl hn.2
  | free _ hnode => exact .inl ⟨hnode, rfl⟩
  | enter _ hnode h =>
    cases h with
    | here => exact .inr ⟨_, hnode, rfl⟩
  | keep _ _ hnode => exact .inr ⟨_, hnode, rfl⟩
  | link _ _ _ hlast => simp at hlast
  | leaf _ hnode => exact .inr ⟨_, hnode, rfl⟩

/-- A walk that ends with `.` or `..` reaches a directory. -/
theorem Reaches.not_name (hn : ¬IsName name)
    (h : Reaches t last links here (front ++ [name]) spot) :
    ∃ loc, spot = .taken loc .directory := by
  generalize hnames : front ++ [name] = names at h
  induction h generalizing front with
  | here => simp at hnames
  | dot h ih =>
    cases front with
    | nil =>
      obtain ⟨-, rfl⟩ := List.cons.inj hnames
      cases h with
      | here => exact ⟨_, rfl⟩
    | cons x front => exact ih (List.cons.inj hnames).2
  | up h ih =>
    cases front with
    | nil =>
      obtain ⟨-, rfl⟩ := List.cons.inj hnames
      cases h with
      | here => exact ⟨_, rfl⟩
    | cons x front => exact ih (List.cons.inj hnames).2
  | free hn' =>
    cases front with
    | nil => exact absurd ((List.cons.inj hnames).1 ▸ hn') hn
    | cons x front => simp at hnames
  | enter hn' _ _ ih =>
    cases front with
    | nil => exact absurd ((List.cons.inj hnames).1 ▸ hn') hn
    | cons x front => exact ih (List.cons.inj hnames).2
  | keep hn' =>
    cases front with
    | nil => exact absurd ((List.cons.inj hnames).1 ▸ hn') hn
    | cons x front => simp at hnames
  | @link _ _ _ target _ _ hn' _ _ _ _ ih =>
    cases front with
    | nil => exact absurd ((List.cons.inj hnames).1 ▸ hn') hn
    | cons x front =>
      obtain ⟨-, rfl⟩ := List.cons.inj hnames
      exact ih (List.append_assoc (Path.components target) front [name])
  | leaf hn' =>
    cases front with
    | nil => exact absurd ((List.cons.inj hnames).1 ▸ hn') hn
    | cons x front => simp at hnames

/-- **A walk to something goes as it did** in a tree in which only a place has changed where nothing
stood, with what is below it. -/
theorem Reaches.of_aside {t' : FileTree} {aside : Location} (hne : aside ≠ [])
    (hfree : t.node? aside = none) (hsame : ∀ l, ¬aside <+: l → t'.node? l = t.node? l)
    (hhere : ¬aside <+: here) (h : Reaches t last links here names (.taken loc node)) :
    Reaches t' last links here names (.taken loc node) := by
  -- A walk never comes to the place, since it would have to pass it.
  have hnext : ∀ {here : Location} {name : String} {node : Node}, ¬aside <+: here →
      t.node? (here ++ [name]) = some node → ¬aside <+: here ++ [name] := by
    intro here name node hhere hnode hp
    rcases List.prefix_concat_iff.1 hp with rfl | hp
    · simp [hfree] at hnode
    · exact hhere hp
  have hstill : ∀ {here : Location} {name : String} {node : Node}, ¬aside <+: here →
      t.node? (here ++ [name]) = some node → t'.node? (here ++ [name]) = some node :=
    fun hhere hnode => (hsame _ (hnext hhere hnode)).trans hnode
  generalize hspot : Spot.taken loc node = spot at h
  induction h with
  | here here => exact .here here
  | dot _ ih => exact .dot (ih hhere hspot)
  | up _ ih => exact .up (ih (fun hp => hhere (hp.trans (List.dropLast_prefix _))) hspot)
  | free => cases hspot
  | enter hn hnode _ ih => exact .enter hn (hstill hhere hnode) (ih (hnext hhere hnode) hspot)
  | keep hn hlast hnode => exact .keep hn hlast (hstill hhere hnode)
  | link hn hnode ht hlast _ ih =>
    refine .link hn (hstill hhere hnode) ht hlast (ih ?_ hspot)
    unfold origin
    split
    · exact fun hp => hne (List.prefix_nil.1 hp)
    · exact hhere
  | leaf hn hnode hd hl => exact .leaf hn (hstill hhere hnode) hd hl

end Reaches

/-! ## Where a way leads -/

theorem filter_dot {names : List String} (h : "." ∉ names) :
    names.filter (· != ".") = names := by
  refine List.filter_eq_self.2 fun name hname => bne_iff_ne.2 ?_
  rintro rfl
  exact h hname

theorem filter_components (s : String) :
    (Path.components s).filter (· != ".") = Path.components s :=
  filter_dot (Path.dot_not_mem_components s)

/-- Names lead from a directory to a location: links are followed, and what is not there is passed
as it is written. -/
inductive Leads (t : FileTree) : Location → List String → Location → Prop where
  | here (here : Location) : Leads t here [] here
  | up {here l : Location} {rest : List String} (h : Leads t here.dropLast rest l) :
    Leads t here (".." :: rest) l
  | step {here l : Location} {name : String} {rest : List String} (hn : name ≠ "..")
    (hnode : ∀ target, t.node? (here ++ [name]) ≠ some (.link target))
    (h : Leads t (here ++ [name]) rest l) : Leads t here (name :: rest) l
  | link {here there l : Location} {name target : String} {rest : List String} (hn : name ≠ "..")
    (hnode : t.node? (here ++ [name]) = some (.link target))
    (ht : Leads t (origin here (Path.ofText target)) (Path.components target) there)
    (h : Leads t there rest l) : Leads t here (name :: rest) l

/-- Two ways one after the other. -/
theorem Leads.append {t : FileTree} {here mid l : Location} {names rest : List String}
    (h : Leads t here names mid) (h' : Leads t mid rest l) : Leads t here (names ++ rest) l := by
  induction h with
  | here => exact h'
  | up h ih => exact .up (ih h')
  | step hn hnode h ih => exact .step hn hnode (ih h')
  | link hn hnode ht h _ ih => exact .link hn hnode ht (ih h')

/-- A way in two parts. -/
theorem Leads.split {t : FileTree} {here l : Location} {names rest : List String}
    (h : Leads t here (names ++ rest) l) : ∃ mid, Leads t here names mid ∧ Leads t mid rest l := by
  generalize hall : names ++ rest = all at h
  induction h generalizing names with
  | here here =>
    obtain ⟨rfl, rfl⟩ := List.append_eq_nil_iff.1 hall
    exact ⟨here, .here here, .here here⟩
  | @up here l all h ih =>
    rcases List.append_eq_cons_iff.1 hall with ⟨rfl, rfl⟩ | ⟨names, rfl, rfl⟩
    · exact ⟨here, .here here, .up h⟩
    · obtain ⟨mid, hmid, hl⟩ := ih rfl
      exact ⟨mid, .up hmid, hl⟩
  | @step here l name all hn hnode h ih =>
    rcases List.append_eq_cons_iff.1 hall with ⟨rfl, rfl⟩ | ⟨names, rfl, rfl⟩
    · exact ⟨here, .here here, .step hn hnode h⟩
    · obtain ⟨mid, hmid, hl⟩ := ih rfl
      exact ⟨mid, .step hn hnode hmid, hl⟩
  | @link here there l name target all hn hnode ht h _ ih =>
    rcases List.append_eq_cons_iff.1 hall with ⟨rfl, rfl⟩ | ⟨names, rfl, rfl⟩
    · exact ⟨here, .here here, .link hn hnode ht h⟩
    · obtain ⟨mid, hmid, hl⟩ := ih rfl
      exact ⟨mid, .link hn hnode ht hmid, hl⟩

/-- A walk that follows all links, or reaches a free place, reaches where its names lead, those that
are `.` left out. -/
theorem Reaches.leads {t : FileTree} {last : Bool} {links : Nat} {here : Location}
    {names : List String} {spot : Spot} (h : Reaches t last links here names spot)
    (hlast : last = true ∨ ∃ loc, spot = .free loc) :
    Leads t here (names.filter (· != ".")) spot.location := by
  have hname : ∀ {name : String} {rest : List String}, IsName name →
      (name :: rest).filter (· != ".") = name :: rest.filter (· != ".") := by
    intro name rest hn
    simp [hn.1]
  induction h with
  | here here => exact .here here
  | dot _ ih => exact ih hlast
  | up _ ih => exact .up (ih hlast)
  | free hn hnode =>
    rw [hname hn]
    exact .step hn.2 (by simp [hnode]) (.here _)
  | enter hn hnode _ ih =>
    rw [hname hn]
    exact .step hn.2 (by simp [hnode]) (ih hlast)
  | keep _ hl =>
    rcases hlast with hlast | ⟨loc, hspot⟩
    · simp [hl] at hlast
    · cases hspot
  | @link _ _ _ target _ _ hn hnode _ _ _ ih =>
    rw [hname hn]
    have hlead := ih hlast
    rw [List.filter_append, filter_components] at hlead
    obtain ⟨there, hthere, hrest⟩ := hlead.split
    exact .link hn.2 hnode hthere hrest
  | leaf hn hnode _ hl =>
    rw [hname hn]
    exact .step hn.2 (by simpa [hnode] using hl) (.here _)

/-- Where a path without `.` is followed to, it leads. -/
theorem leads_of_follow {t : FileTree} {p : Path} {spot : Spot} (h : t.follow p = .ok spot)
    (hdot : "." ∉ p.parts) : Leads t (origin t.working p) p.parts spot.location := by
  have hlead := (reaches_of_follow h).leads (.inl rfl)
  rwa [filter_dot hdot] at hlead

/-- No link and no `..` on the way to a location: its names lead to itself. -/
structure Settled (t : FileTree) (loc : Location) : Prop where
  up : ".." ∉ loc
  links : ∀ l, l <+: loc → ∀ target, t.node? l ≠ some (.link target)

theorem settled_nil (t : FileTree) : Settled t [] where
  up := by simp
  links := by
    intro l hl target
    rw [List.prefix_nil.1 hl]
    exact nofun

theorem Settled.of_prefix {t : FileTree} {l loc : Location} (h : Settled t loc) (hl : l <+: loc) :
    Settled t l where
  up hu := h.up (hl.subset hu)
  links l' hl' := h.links l' (hl'.trans hl)

/-- A way from a settled location leads to a settled one. -/
theorem Leads.settled {t : FileTree} {here l : Location} {names : List String}
    (h : Leads t here names l) (hs : Settled t here) : Settled t l := by
  induction h with
  | here => exact hs
  | up h ih => exact ih (hs.of_prefix (List.dropLast_prefix _))
  | @step here l name rest hn hnode h ih =>
    refine ih ⟨?_, ?_⟩
    · simpa [hs.up] using fun he : ".." = name => hn he.symm
    · intro l hl
      rcases List.prefix_concat_iff.1 hl with rfl | hl
      · exact hnode
      · exact hs.links l hl
  | @link here there l name target rest hn hnode ht h iht ih =>
    refine ih (iht ?_)
    unfold origin
    split
    · exact settled_nil t
    · exact hs

/-- The names of a settled location lead to it. -/
theorem Settled.leads {t : FileTree} {here rest : Location} (h : Settled t (here ++ rest)) :
    Leads t here rest (here ++ rest) := by
  induction rest generalizing here with
  | nil =>
    rw [List.append_nil]
    exact .here here
  | cons name rest ih =>
    have hp : here ++ [name] <+: here ++ name :: rest := ⟨rest, by simp⟩
    have hs : Settled t (here ++ [name] ++ rest) := by simpa using h
    have hrest := ih hs
    rw [List.append_assoc, List.singleton_append] at hrest
    refine .step ?_ (h.links _ hp) hrest
    rintro rfl
    exact h.up (by simp)

end PluginCatalog.FileTree
