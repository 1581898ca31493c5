import PluginCatalog.Proofs.FileTree.Filling
import PluginCatalog.Proofs.FileTree.MakingWay

/-!
# Steps that fill a directory

What each change of a tree does to a directory that is being filled: the tree stays one in which
the directory is filled (`Site.Filled`) if the path of the change leads into the directory
(`Site.Enters`) or, for links, meets none that is made on its way there (`Site.Direct`).

* For single nodes: `Filled.set_below`, `Filled.set_directory`, `Filled.erase_below` and
  `Filled.setContent`.
* For paths: `Filled.write`, `Filled.make`, `Filled.makeWayReversed`, `Filled.makeHardLink`,
  `Filled.makeLink` and `Filled.unlink`.
-/

namespace PluginCatalog.Site

open FileTree

variable {k : Site} {t : FileTree}

theorem Below.ne_nil {loc : Location} (h : k.Below loc) : loc ≠ [] := by
  rintro rfl
  exact h.2 (List.prefix_nil.1 h.1).symm

theorem Below.ne {loc l : Location} (h : k.Below loc) (hl : ¬k.Below l) : l ≠ loc := by
  rintro rfl
  exact hl h

/-- A node that may come to stand in the directory. -/
structure Fits (k : Site) (t : FileTree) (loc : Location) (node : Node) : Prop where
  link : ∀ target, node = .link target → k.Leash target loc
  file : ∀ n c, node = .file n c → ∀ loc' c', ¬k.Below loc' → t.node? loc' ≠ some (.file n c')

theorem fits_directory (loc : Location) : k.Fits t loc .directory := ⟨nofun, nofun⟩

theorem fits_special (loc : Location) : k.Fits t loc .special := ⟨nofun, nofun⟩

/-- A new file has a number that no other file has. -/
theorem fits_fresh (loc : Location) (content : Content) :
    k.Fits t loc (.file t.freshSerial content) where
  link := nofun
  file n c hn loc' c' _ hnode := by
    obtain ⟨rfl, -⟩ := Node.file.inj hn
    exact absurd (lt_freshSerial hnode) (Nat.lt_irrefl _)

namespace Filled

/-! ## Single nodes -/

/-- What fits is put into the directory. -/
theorem set_below (hf : k.Filled t) {loc : Location} {node : Node} (hb : k.Below loc)
    (hfits : k.Fits t loc node) : k.Filled (t.set loc node) where
  working := hf.working
  outside l hl := by
    rw [node?_set t hb.ne_nil, if_neg (hb.ne hl)]
    exact hf.outside l hl
  links l target hl hnode := by
    rw [node?_set t hb.ne_nil] at hnode
    split at hnode
    next he =>
      subst he
      exact hfits.link target (Option.some.inj hnode)
    next => exact hf.links l target hl hnode
  serials l l' n c c' hl hl' hnode := by
    rw [node?_set t hb.ne_nil, if_neg (hb.ne hl')]
    rw [node?_set t hb.ne_nil] at hnode
    split at hnode
    next => exact hfits.file n c (Option.some.inj hnode) l' c' hl'
    next => exact hf.serials l l' n c c' hl hl' hnode

/-- A directory is made where nothing stands and a way may pass. -/
theorem set_directory (hf : k.Filled t) (hk : k.Fresh) {loc : Location} (hne : loc ≠ [])
    (hfree : t.node? loc = none) (hs : k.Inside loc ∨ k.solid loc) :
    k.Filled (t.set loc .directory) := by
  by_cases hb : k.Below loc
  · exact hf.set_below hb (fits_directory loc)
  have hold : k.tree.node? loc = none ∧ k.solid loc := by
    rcases hf.outside loc hb with he | ⟨-, -, hd⟩
    · rw [hfree] at he
      refine ⟨he.symm, hs.resolve_left fun hin => hb ⟨hin, ?_⟩⟩
      rintro rfl
      rw [hk.directory] at he
      cases he
    · rw [hfree] at hd
      cases hd
  refine ⟨hf.working, fun l hl => ?_, fun l target hl hnode => ?_,
    fun l l' n c c' hl hl' hnode => ?_⟩
  · rw [node?_set t hne]
    split
    next he => exact .inr ⟨he ▸ hold.2, he ▸ hold.1, rfl⟩
    next => exact hf.outside l hl
  · rw [node?_set t hne, if_neg (hl.ne hb).symm] at hnode
    exact hf.links l target hl hnode
  · rw [node?_set t hne, if_neg (hl.ne hb).symm] at hnode
    rw [node?_set t hne]
    split
    · exact nofun
    · exact hf.serials l l' n c c' hl hl' hnode

/-- What is in the directory is removed. -/
theorem erase_below (hf : k.Filled t) {loc : Location} (hb : k.Below loc) :
    k.Filled (t.erase loc) where
  working := hf.working
  outside l hl := by
    rw [node?_erase t hb.ne_nil, if_neg (hb.ne hl)]
    exact hf.outside l hl
  links l target hl hnode := by
    rw [node?_erase t hb.ne_nil] at hnode
    split at hnode
    · cases hnode
    · exact hf.links l target hl hnode
  serials l l' n c c' hl hl' hnode := by
    rw [node?_erase t hb.ne_nil, if_neg (hb.ne hl')]
    rw [node?_erase t hb.ne_nil] at hnode
    split at hnode
    · cases hnode
    · exact hf.serials l l' n c c' hl hl' hnode

/-- A file in the directory gets new content. -/
theorem setContent (hf : k.Filled t) {loc : Location} {serial : Nat} {old : Content}
    (hb : k.Below loc) (hnode : t.node? loc = some (.file serial old)) (content : Content) :
    k.Filled (t.setContent serial content) := by
  -- A file that has the number is in the directory, so that others stay.
  have hsame : ∀ l, ¬k.Below l → (t.setContent serial content).node? l = t.node? l := by
    intro l hl
    rw [node?_setContent]
    rcases hl' : t.node? l with _ | _ | ⟨n, c⟩ | _ | _
    all_goals try rfl
    have hne : n ≠ serial := by
      rintro rfl
      exact hf.serials loc l n old c hb hl hnode hl'
    simp [Node.withContent, hne]
  refine ⟨hf.working, fun l hl => ?_, fun l target hl h => ?_, fun l l' n c c' hl hl' h => ?_⟩
  · rw [hsame l hl]
    exact hf.outside l hl
  · refine hf.links l target hl ?_
    rw [node?_setContent] at h
    rcases hl' : t.node? l with _ | _ | ⟨n, c⟩ | _ | _ <;> simp_all [Node.withContent]
  · rw [hsame l' hl']
    rw [node?_setContent] at h
    rcases hn : t.node? l with _ | _ | ⟨n', c''⟩ | _ | _ <;> simp [hn, Node.withContent] at h
    obtain ⟨rfl, -⟩ := h
    exact hf.serials l l' n' c'' c' hl hl' hn

/-! ## Paths -/

/-- What is in the directory and is no directory is below it. -/
theorem below_of_inside (hf : k.Filled t) (hk : k.Fresh) {loc : Location} (hin : k.Inside loc)
    (hnode : t.node? loc ≠ some .directory) : k.Below loc := by
  refine ⟨hin, ?_⟩
  rintro rfl
  have hb : ¬k.Below k.root := fun h => h.2 rfl
  rcases hf.outside _ hb with he | ⟨-, -, hd⟩
  · exact hnode (he.trans hk.directory)
  · exact hnode hd

end Filled

/-- The way of a path. -/
def PathWay (k : Site) (through : Bool) (ends : Location → Prop) (p : Path) : Prop :=
  k.Way through ends (origin k.tree.working p) p.parts

/-- Whatever is in the directory, a path leads into it, and what is missing on the way there is in
the directory or allowed to be missing. -/
structure Enters (k : Site) (p : Path) : Prop where
  ends : ∀ t last links spot, k.Filled t →
    Reaches t last links (origin k.tree.working p) p.parts spot →
      last = true ∨ (∃ loc, spot = .free loc) → k.Inside spot.location
  free : ∀ t links front more loc, k.Filled t → front ++ more = p.parts →
    Reaches t false links (origin k.tree.working p) front (.free loc) → k.Inside loc ∨ k.solid loc

/-- A path with a way into the directory leads into it. -/
theorem PathWay.enters (hk : k.Fresh) {p : Path} (hw : k.PathWay true k.Inside p) :
    k.Enters p where
  ends _ _ _ _ hf hr hlast := hf.ends_of_reaches hk (fun _ h => h) hw hr hlast
  free _ _ _ more _ hf hparts hr := by
    unfold PathWay at hw
    rw [← hparts] at hw
    exact hf.free_of_reaches hk (fun _ h => h) hw hr

namespace Filled

/-- **A file is written** at a path into the directory. -/
theorem write (hf : k.Filled t) (hk : k.Fresh) {p : Path} (hp : k.Enters p)
    {content : Content} {t' : FileTree} (h : t.write p content = .ok t') : k.Filled t' := by
  have hin : ∀ spot, t.follow p = .ok spot → k.Inside spot.location := by
    intro spot hspot
    have hr := reaches_of_follow hspot
    rw [hf.working] at hr
    exact hp.ends t true maxLinks spot hf hr (.inl rfl)
  rcases write_inv h with ⟨loc, serial, old, hspot, rfl⟩ | ⟨loc, hspot, rfl⟩
  · obtain ⟨-, hnode⟩ := (reaches_of_follow hspot).node?_taken nofun
    exact hf.setContent (hf.below_of_inside hk (hin _ hspot) (by simp [hnode])) hnode content
  · obtain ⟨-, hnode⟩ := (reaches_of_follow hspot).node?_free
    have hbelow := hf.below_of_inside hk (hin _ hspot) (by simp [hnode])
    exact hf.set_below hbelow (fits_fresh loc content)

/-- **A node is made** at a path into the directory. -/
theorem make (hf : k.Filled t) (hk : k.Fresh) {p : Path} (hp : k.Enters p)
    {node : Node} (hfits : ∀ loc, k.Fits t loc node) {t' : FileTree}
    (h : t.make p node = .ok t') : k.Filled t' := by
  obtain ⟨loc, hspot, rfl⟩ := make_inv h
  have hr := reaches_of_locate hspot
  rw [hf.working] at hr
  have hin : k.Inside loc := hp.ends t false maxLinks _ hf hr (.inr ⟨loc, rfl⟩)
  have hb := hf.below_of_inside hk hin (by simp [hr.node?_free.2])
  exact hf.set_below hb (hfits loc)

/-- **A directory is made** on the way of a path. -/
theorem makeDirectory (hf : k.Filled t) (hk : k.Fresh) {p : Path} (hp : k.Enters p)
    {front more : List String} (hparts : front ++ more = p.parts) {t' : FileTree}
    (h : t.makeDirectory ⟨p.slashes, front⟩ = .ok t') : k.Filled t' := by
  obtain ⟨loc, hspot, rfl⟩ := make_inv h
  have hr := reaches_of_locate hspot
  rw [hf.working] at hr
  obtain ⟨hne, hfree⟩ := hr.node?_free
  exact hf.set_directory hk hne hfree (hp.free t maxLinks front more loc hf hparts hr)

theorem makeWayReversed (hf : k.Filled t) (hk : k.Fresh) {p : Path} (hp : k.Enters p)
    {names more : List String} (hparts : names.reverse ++ more = p.parts) :
    k.Filled (t.makeWayReversed p.slashes names).1 := by
  refine makeWayReversed_keeps (P := k.Filled) (fun front hfront t t' hf h => ?_) hf
  obtain ⟨last, rfl⟩ := hfront
  rw [List.reverse_append, List.append_assoc] at hparts
  exact hf.makeDirectory hk hp hparts h

end Filled

/-! ## Direct paths -/

/-- The directory of a path is reached without links that are made, and lies in the directory of the
site; the location of the path itself is one with `ends`. -/
def Direct (k : Site) (ends : Location → Prop) (p : Path) : Prop :=
  ∃ front name, p.parts = front ++ [name] ∧ (IsName name →
    k.Way false (fun dir => k.Inside dir ∧ ends (dir ++ [name])) (origin k.tree.working p) front)

namespace Filled

/-- A direct path is located at a directory, or where it says. -/
theorem locate_direct (hf : k.Filled t) (hk : k.Fresh) {ends : Location → Prop} {p : Path}
    (hp : k.Direct ends p) {spot : Spot} (h : t.locate p = .ok spot) :
    (∃ loc, spot = .taken loc .directory) ∨ ∃ loc, k.Below loc ∧ ends loc ∧
      ((t.node? loc = none ∧ spot = .free loc) ∨
        ∃ node, t.node? loc = some node ∧ spot = .taken loc node) := by
  obtain ⟨front, name, hparts, hway⟩ := hp
  have hr := reaches_of_locate h
  rw [hf.working, hparts] at hr
  by_cases hn : IsName name
  · obtain ⟨_, dir, ⟨hin, hends⟩, hlast, -⟩ := hf.direct_of_reaches hk (hway hn) hr
    exact .inr ⟨dir ++ [name], hin.below name, hends, hlast.last_name hn⟩
  · exact .inl (hr.not_name hn)

/-- Where a file or link was removed at a direct path, the place is free. -/
theorem locate_erase (hf : k.Filled t) (hk : k.Fresh) {ends : Location → Prop} {p : Path}
    (hp : k.Direct ends p) {loc : Location} {node : Node} (hd : node ≠ .directory)
    (h : t.locate p = .ok (.taken loc node)) : (t.erase loc).locate p = .ok (.free loc) := by
  have hr := reaches_of_locate h
  obtain ⟨hne, hnode⟩ := hr.node?_taken hd
  obtain ⟨front, name, hparts, hway⟩ := hp
  rw [hf.working, hparts] at hr
  have hn : IsName name := by
    refine Classical.byContradiction fun hn => ?_
    obtain ⟨l, he⟩ := hr.not_name hn
    exact hd (Spot.taken.inj he).2
  obtain ⟨fewer, dir, ⟨hin, -⟩, hlast, hgo⟩ := hf.direct_of_reaches hk (hway hn) hr
  obtain rfl : loc = dir ++ [name] := by
    rcases hlast.last_name hn with ⟨-, hs⟩ | ⟨_, -, hs⟩
    · cases hs
    · exact (Spot.taken.inj hs).1
  have hdirs : ∀ l, t.node? l = some .directory →
      (t.erase (dir ++ [name])).node? l = some .directory := by
    intro l hl
    rw [node?_erase t hne, if_neg ?_, hl]
    rintro rfl
    exact hd (Option.some.inj (hnode.symm.trans hl))
  have hfree : Reaches (t.erase (dir ++ [name])) false fewer dir [name] (.free (dir ++ [name])) :=
    .free hn (by rw [node?_erase t hne, if_pos rfl])
  have hw := (hgo _ (hf.erase_below (hin.below name)) hdirs _ hfree).walk
  unfold locate
  rw [hparts]
  change (t.erase _).walk false maxLinks (origin t.working p) _ = _
  rw [hf.working]
  exact hw

/-- **A second name is given** to a file in the directory. -/
theorem makeHardLink (hf : k.Filled t) (hk : k.Fresh) {source p : Path}
    (hsource : k.Direct (fun loc => ¬k.made loc) source) (hp : k.Enters p)
    {t' : FileTree} (h : t.makeHardLink source p = .ok t') : k.Filled t' := by
  obtain ⟨loc, node, hspot, hd, hmake⟩ := makeHardLink_inv h
  rcases hf.locate_direct hk hsource hspot with ⟨l, he⟩ | ⟨l, hb, hmade, ⟨-, he⟩ | ⟨_, hnode, he⟩⟩
  · exact absurd (Spot.taken.inj he).2 hd
  · cases he
  · obtain ⟨rfl, rfl⟩ := Spot.taken.inj he
    refine hf.make hk hp (fun l' => ⟨?_, ?_⟩) hmake
    · rintro target rfl
      exact absurd (hf.links loc target hb hnode).made hmade
    · rintro n c rfl l' c' hl'
      exact hf.serials loc l' n c c' hb hl' hnode

/-- **A link is made** at a direct path. -/
theorem makeLink (hf : k.Filled t) (hk : k.Fresh) {target : String} {p : Path}
    (hp : k.Direct (k.Leash target) p) {t' : FileTree} (h : t.makeLink target p = .ok t') :
    k.Filled t' := by
  unfold FileTree.makeLink at h
  split at h
  · cases h
  obtain ⟨loc, hspot, rfl⟩ := make_inv h
  rcases hf.locate_direct hk hp hspot with ⟨loc, h⟩ | ⟨loc', hb, hgood, ⟨-, hfree⟩ | ⟨_, -, h⟩⟩
  · cases h
  · obtain rfl := Spot.free.inj hfree
    refine hf.set_below hb ⟨?_, nofun⟩
    rintro target' he
    obtain rfl := Node.link.inj he
    exact hgood
  · cases h

/-- **What is at a direct path is removed.** -/
theorem unlink (hf : k.Filled t) (hk : k.Fresh) {ends : Location → Prop} {p : Path}
    (hp : k.Direct ends p) {t' : FileTree} (h : t.unlink p = .ok t') : k.Filled t' := by
  obtain ⟨loc, node, hspot, hd, rfl⟩ := unlink_inv h
  rcases hf.locate_direct hk hp hspot with ⟨loc, h⟩ | ⟨loc', hb, -, ⟨-, hfree⟩ | ⟨_, -, h⟩⟩
  · exact absurd (Spot.taken.inj h).2 hd
  · cases hfree
  · obtain ⟨rfl, -⟩ := Spot.taken.inj h
    exact hf.erase_below hb

end Filled

end PluginCatalog.Site
