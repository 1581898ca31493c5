import PluginCatalog.Proofs.FileTree.Ways

/-!
# Filling a directory

A site is a directory of a tree that is about to be filled, with the locations at which links may
be made. Ways through the tree are judged before anything is made:

* `Site.Way k` are the ways that do not take `..` after they met a link that is yet to be made; what
  follows such a link is in the directory, whatever the link is.
* `Site.Fresh.leads_of_way`: such a way leads somewhere. `Site.Way.dotted` is for ways with `.` in
  them, and `Site.Fresh.way_of_reaches` for ways through what exists.
-/

namespace PluginCatalog

open FileTree

/-- A directory that is about to be filled. -/
structure Site where
  tree : FileTree
  root : Location
  /-- The locations of the links that may be made. -/
  made : Location → Prop
  /-- The locations outside that a way may pass. -/
  solid : Location → Prop

namespace Site

/-- A location in the directory. -/
def Inside (k : Site) (loc : Location) : Prop := k.root <+: loc

/-- A location in the directory other than the directory itself. -/
def Below (k : Site) (loc : Location) : Prop := k.root <+: loc ∧ loc ≠ k.root

/-- There is a directory with nothing in it, and links are made only in it. -/
structure Fresh (k : Site) : Prop where
  directory : k.tree.node? k.root = some .directory
  empty : ∀ loc, k.Below loc → k.tree.node? loc = none
  made : ∀ loc, k.made loc → k.Below loc

variable {k : Site}

theorem Inside.below {here : Location} (h : k.Inside here) (name : String) :
    k.Below (here ++ [name]) := by
  refine ⟨h.trans (List.prefix_append _ _), fun he => ?_⟩
  have hlen := List.IsPrefix.length_le h
  rw [← he, List.length_append, List.length_singleton] at hlen
  omega

/-! ## Ways -/

/-- A way from a directory that can be judged beforehand. It may meet a link that is yet to be made
only if `through`, and takes no `..` after it; otherwise it ends at a location with `ends`. -/
inductive Way (k : Site) (through : Bool) (ends : Location → Prop) :
    Location → List String → Prop where
  | here {here : Location} (h : ends here) : Way k through ends here []
  | dot {here : Location} {rest : List String} (h : Way k through ends here rest) :
    Way k through ends here ("." :: rest)
  | up {here : Location} {rest : List String} (h : Way k through ends here.dropLast rest) :
    Way k through ends here (".." :: rest)
  | step {here : Location} {name : String} {rest : List String} (hn : IsName name)
    (hm : ¬k.made (here ++ [name]))
    (hl : ∀ target, k.tree.node? (here ++ [name]) ≠ some (.link target))
    (hs : k.Inside (here ++ [name]) ∨ k.solid (here ++ [name]))
    (h : Way k through ends (here ++ [name]) rest) : Way k through ends here (name :: rest)
  | link {here : Location} {name target : String} {rest : List String} (hn : IsName name)
    (hm : ¬k.made (here ++ [name]))
    (hnode : k.tree.node? (here ++ [name]) = some (.link target))
    (h : Way k through ends (origin here (Path.ofText target)) (Path.components target ++ rest)) :
    Way k through ends here (name :: rest)
  | made {here : Location} {name : String} {rest : List String} (hn : IsName name)
    (ht : through = true) (hm : k.made (here ++ [name])) (hrest : ".." ∉ rest) :
    Way k through ends here (name :: rest)

theorem Way.of_dot {through : Bool} {ends : Location → Prop} {here : Location}
    {rest : List String} (h : k.Way through ends here ("." :: rest)) :
    k.Way through ends here rest := by
  generalize hnames : "." :: rest = names at h
  cases h with
  | here => cases hnames
  | dot h =>
    obtain ⟨-, rfl⟩ := List.cons.inj hnames
    exact h
  | up => exact absurd (List.cons.inj hnames).1 (by decide)
  | step hn => exact absurd (List.cons.inj hnames).1.symm hn.1
  | link hn => exact absurd (List.cons.inj hnames).1.symm hn.1
  | made hn => exact absurd (List.cons.inj hnames).1.symm hn.1

theorem Way.of_up {through : Bool} {ends : Location → Prop} {here : Location}
    {rest : List String} (h : k.Way through ends here (".." :: rest)) :
    k.Way through ends here.dropLast rest := by
  generalize hnames : ".." :: rest = names at h
  cases h with
  | here => cases hnames
  | dot => exact absurd (List.cons.inj hnames).1 (by decide)
  | up h =>
    obtain ⟨-, rfl⟩ := List.cons.inj hnames
    exact h
  | step hn => exact absurd (List.cons.inj hnames).1.symm hn.2
  | link hn => exact absurd (List.cons.inj hnames).1.symm hn.2
  | made hn => exact absurd (List.cons.inj hnames).1.symm hn.2

theorem Way.mono {through : Bool} {ends ends' : Location → Prop} {here : Location}
    {names : List String} (h : k.Way through ends here names) (he : ∀ loc, ends loc → ends' loc) :
    k.Way through ends' here names := by
  induction h with
  | here h => exact .here (he _ h)
  | dot _ ih => exact .dot ih
  | up _ ih => exact .up ih
  | step hn hm hl hs _ ih => exact .step hn hm hl hs ih
  | link hn hm hnode _ ih => exact .link hn hm hnode ih
  | made hn ht hm hrest => exact .made hn ht hm hrest

/-- In the directory a name at which no link is made is a step. -/
theorem Fresh.step (hk : k.Fresh) {through : Bool} {ends : Location → Prop} {here : Location}
    (h : k.Inside here) {name : String} (hn : IsName name) (hm : ¬k.made (here ++ [name]))
    {rest : List String} (hw : k.Way through ends (here ++ [name]) rest) :
    k.Way through ends here (name :: rest) := by
  refine .step hn hm ?_ (.inl (h.below name).1) hw
  rw [hk.empty _ (h.below name)]
  exact nofun

/-- In the directory all names without `..` make a way. -/
theorem Fresh.way_of_inside (hk : k.Fresh) {here : Location} (h : k.Inside here)
    {names : List String} (hup : ".." ∉ names) : k.Way true k.Inside here names := by
  induction names generalizing here with
  | nil => exact .here h
  | cons name rest ih =>
    rw [List.mem_cons, not_or] at hup
    obtain ⟨hname, hrest⟩ := hup
    by_cases hdot : name = "."
    · subst hdot
      exact .dot (ih h hrest)
    have hn : IsName name := ⟨hdot, Ne.symm hname⟩
    have hb := h.below name
    by_cases hm : k.made (here ++ [name])
    · exact .made hn rfl hm hrest
    · exact hk.step h hn hm (ih hb.1 hrest)

/-- A way into the directory goes on there without `..`. -/
theorem Fresh.way_append (hk : k.Fresh) {here : Location} {names rest : List String}
    (h : k.Way true k.Inside here names) (hup : ".." ∉ rest) :
    k.Way true k.Inside here (names ++ rest) := by
  induction h with
  | here h => exact hk.way_of_inside h hup
  | dot _ ih => exact .dot ih
  | up _ ih => exact .up ih
  | step hn hm hl hs _ ih => exact .step hn hm hl hs ih
  | link hn hm hnode _ ih =>
    rw [List.append_assoc] at ih
    exact .link hn hm hnode ih
  | made hn ht hm hrest => exact .made hn ht hm (List.not_mem_append hrest hup)

/-- In the directory names without `..` lead where they say. -/
theorem Fresh.leads_of_inside (hk : k.Fresh) {here : Location} (h : k.Inside here)
    {names : List String} (hup : ".." ∉ names) : Leads k.tree here names (here ++ names) := by
  induction names generalizing here with
  | nil =>
    rw [List.append_nil]
    exact .here here
  | cons name rest ih =>
    rw [List.mem_cons, not_or] at hup
    obtain ⟨hname, hrest⟩ := hup
    have hb := h.below name
    have hlead := ih hb.1 hrest
    rw [List.append_assoc, List.singleton_append] at hlead
    refine .step (Ne.symm hname) ?_ hlead
    intro target
    rw [hk.empty _ hb]
    exact nofun

/-- A way of names without `.` leads somewhere, and ends there. -/
theorem Fresh.leads_of_way (hk : k.Fresh) {through : Bool} {ends : Location → Prop}
    {here : Location} {names : List String} (h : k.Way through ends here names)
    (hdot : "." ∉ names) :
    ∃ l, Leads k.tree here names l ∧ k.Way through (· = l) here names ∧
      (through = false → ends l) := by
  induction h with
  | @here here h => exact ⟨here, .here here, .here rfl, fun _ => h⟩
  | dot => exact absurd List.mem_cons_self hdot
  | up _ ih =>
    obtain ⟨l, hl, hw, he⟩ := ih fun hm => hdot (List.mem_cons_of_mem _ hm)
    exact ⟨l, .up hl, .up hw, he⟩
  | step hn hm hl hs _ ih =>
    obtain ⟨l, hlead, hw, he⟩ := ih fun hm => hdot (List.mem_cons_of_mem _ hm)
    exact ⟨l, .step hn.2 hl hlead, .step hn hm hl hs hw, he⟩
  | @link here name target rest hn hm hnode _ ih =>
    have hdot' : "." ∉ Path.components target ++ rest :=
      List.not_mem_append (Path.dot_not_mem_components target)
        fun hm => hdot (List.mem_cons_of_mem _ hm)
    obtain ⟨l, hlead, hw, he⟩ := ih hdot'
    obtain ⟨there, hthere, hrest⟩ := hlead.split
    exact ⟨l, .link hn.2 hnode hthere hrest, .link hn hm hnode hw, he⟩
  | @made here name rest hn ht hm hrest =>
    have hb := hk.made _ hm
    refine ⟨_, .step hn.2 ?_ (hk.leads_of_inside hb.1 hrest), .made hn ht hm hrest, ?_⟩
    · intro target
      rw [hk.empty _ hb]
      exact nofun
    · rw [ht]
      exact nofun

/-- A walk through what exists at the site is a way. -/
theorem Fresh.way_of_reaches (hk : k.Fresh) (hsolid : ∀ loc, k.tree.node? loc ≠ none → k.solid loc)
    {through : Bool} {ends : Location → Prop} {links : Nat} {here l : Location}
    {names rest : List String} (hr : Reaches k.tree true links here names (.taken l .directory))
    (hw : k.Way through ends l rest) : k.Way through ends here (names ++ rest) := by
  have hmade : ∀ loc node, k.tree.node? loc = some node → ¬k.made loc := by
    intro loc node hnode hm
    rw [hk.empty _ (hk.made _ hm)] at hnode
    cases hnode
  generalize hspot : Spot.taken l .directory = spot at hr
  induction hr with
  | here =>
    obtain ⟨rfl, -⟩ := Spot.taken.inj hspot
    exact hw
  | dot _ ih => exact .dot (ih hspot)
  | up _ ih => exact .up (ih hspot)
  | free => cases hspot
  | enter hn hnode _ ih =>
    refine .step hn (hmade _ _ hnode) ?_ (.inr (hsolid _ ?_)) (ih hspot) <;> simp [hnode]
  | keep _ hlast => cases hlast
  | link hn hnode _ _ _ ih =>
    have hgo := ih hspot
    rw [List.append_assoc] at hgo
    exact .link hn (hmade _ _ hnode) hnode hgo
  | leaf _ _ hd => exact absurd (Spot.taken.inj hspot).2.symm hd

theorem Way.dots {through : Bool} {ends : Location → Prop} {here : Location}
    {dots names : List String} (h : k.Way through ends here names)
    (hd : ∀ name ∈ dots, name = ".") : k.Way through ends here (dots ++ names) := by
  induction dots with
  | nil => exact h
  | cons name dots ih =>
    obtain rfl := hd name List.mem_cons_self
    exact .dot (ih fun name hm => hd name (List.mem_cons_of_mem _ hm))

/-- Names with more `.` in them begin with these. -/
theorem dots_of_filter {name : String} {rest dotted : List String}
    (hd : dotted.filter (· != ".") = name :: rest) :
    ∃ dots more, dotted = dots ++ name :: more ∧ (∀ x ∈ dots, x = ".") ∧
      more.filter (· != ".") = rest := by
  obtain ⟨dots, more, rfl, hdots, -, hmore⟩ := List.filter_eq_cons_iff.1 hd
  exact ⟨dots, more, rfl, fun x hx => by simpa using hdots x hx, hmore⟩

/-- A way stays one with more `.` in it. -/
theorem Way.dotted {through : Bool} {ends : Location → Prop} {here : Location}
    {names dotted : List String} (h : k.Way through ends here names)
    (hd : dotted.filter (· != ".") = names) : k.Way through ends here dotted := by
  induction h generalizing dotted with
  | here h =>
    have hall : ∀ name ∈ dotted, name = "." := by simpa [List.filter_eq_nil_iff] using hd
    have hw : k.Way through ends _ [] := .here h
    rw [← List.append_nil dotted]
    exact hw.dots hall
  | dot _ ih =>
    obtain ⟨dots, more, rfl, hdots, rfl⟩ := dots_of_filter hd
    exact (Way.dot (ih rfl)).dots hdots
  | up _ ih =>
    obtain ⟨dots, more, rfl, hdots, rfl⟩ := dots_of_filter hd
    exact (Way.up (ih rfl)).dots hdots
  | step hn hm hl hs _ ih =>
    obtain ⟨dots, more, rfl, hdots, rfl⟩ := dots_of_filter hd
    exact (Way.step hn hm hl hs (ih rfl)).dots hdots
  | @link here name target rest hn hm hnode _ ih =>
    obtain ⟨dots, more, rfl, hdots, rfl⟩ := dots_of_filter hd
    have hall : (Path.components target ++ more).filter (· != ".") =
        Path.components target ++ more.filter (· != ".") := by
      rw [List.filter_append, filter_components]
    exact (Way.link hn hm hnode (ih hall)).dots hdots
  | made hn ht hm hrest =>
    obtain ⟨dots, more, rfl, hdots, rfl⟩ := dots_of_filter hd
    refine (Way.made hn ht hm fun hu => hrest ?_).dots hdots
    exact List.mem_filter.2 ⟨hu, by decide⟩

end Site

end PluginCatalog
