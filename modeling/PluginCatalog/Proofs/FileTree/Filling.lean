import PluginCatalog.Proofs.FileTree.Content
import PluginCatalog.Proofs.FileTree.Site

/-!
# A directory that is being filled

* `Site.Filled k t`: outside of the directory the tree `t` is the tree of the site, but for new
  directories that a way may pass, and each link in the directory stands where one may
  (`Site.Leash`).
* `Site.Filled.advance`: in such a tree a way goes on as it does at the site, so that it ends where
  it may (`Site.Filled.ends_of_reaches`, `Site.Filled.inside_of_link`), and what it finds missing
  is in the directory or allowed to be missing (`Site.Filled.free_of_reaches`).
-/

namespace PluginCatalog.Site

open FileTree

variable {k : Site} {t : FileTree}

/-- A link of this target may stand at the location: it is made there, and leads into the
directory. -/
structure Leash (k : Site) (target : String) (loc : Location) : Prop where
  made : k.made loc
  relative : (Path.ofText target).isAbsolute = false
  way : k.Way true k.Inside loc.dropLast (Path.components target)

/-- A tree in which the directory of a site is filled. -/
structure Filled (k : Site) (t : FileTree) : Prop where
  working : t.working = k.tree.working
  /-- Outside there may be new directories, at locations that a way may pass. -/
  outside : ∀ loc, ¬k.Below loc → t.node? loc = k.tree.node? loc ∨
    k.solid loc ∧ k.tree.node? loc = none ∧ t.node? loc = some .directory
  links : ∀ loc target, k.Below loc → t.node? loc = some (.link target) → k.Leash target loc
  /-- No file in the directory is one outside. -/
  serials : ∀ loc loc' n c c', k.Below loc → ¬k.Below loc' → t.node? loc = some (.file n c) →
    t.node? loc' ≠ some (.file n c')

/-- At first the directory is empty. -/
theorem Fresh.filled (hk : k.Fresh) : k.Filled k.tree where
  working := rfl
  outside _ _ := .inl rfl
  links loc target hb hnode := by
    rw [hk.empty loc hb] at hnode
    cases hnode
  serials loc loc' n c c' hb _ hnode := by
    rw [hk.empty loc hb] at hnode
    cases hnode

namespace Filled

/-! ## Ways in the tree -/

/-- A link of the site stands as it stood. -/
theorem link_of_site (hf : k.Filled t) (hk : k.Fresh) {loc : Location} {target : String}
    (h : k.tree.node? loc = some (.link target)) : t.node? loc = some (.link target) := by
  have hb : ¬k.Below loc := by
    intro hb
    rw [hk.empty loc hb] at h
    cases h
  rcases hf.outside loc hb with he | ⟨-, hn, -⟩
  · rw [he, h]
  · rw [hn] at h
    cases h

/-- A link of the tree is one of the site, or it has been made. -/
theorem link_cases (hf : k.Filled t) {loc : Location} {target : String}
    (h : t.node? loc = some (.link target)) :
    k.tree.node? loc = some (.link target) ∨ k.made loc := by
  by_cases hb : k.Below loc
  · exact .inr (hf.links loc target hb h).made
  · rcases hf.outside loc hb with he | ⟨-, -, hd⟩
    · exact .inl (he ▸ h)
    · rw [hd] at h
      cases h

/-- **A way goes on**: past a link along its target, and else below the name. -/
theorem advance (hf : k.Filled t) (hk : k.Fresh) {through : Bool} {ends : Location → Prop}
    (hends : ∀ loc, k.Inside loc → ends loc) {here : Location} {name : String}
    {rest : List String} (hn : IsName name) (hw : k.Way through ends here (name :: rest)) :
    (∀ target, t.node? (here ++ [name]) = some (.link target) →
      k.Way through ends (origin here (Path.ofText target)) (Path.components target ++ rest)) ∧
    ((∀ target, t.node? (here ++ [name]) ≠ some (.link target)) →
      k.Way through ends (here ++ [name]) rest) := by
  cases hw with
  | dot => exact absurd rfl hn.1
  | up => exact absurd rfl hn.2
  | step _ hm hl _ h =>
    refine ⟨fun target ht => ?_, fun _ => h⟩
    rcases hf.link_cases ht with ht | hmade
    · exact absurd ht (hl target)
    · exact absurd hmade hm
  | @link _ _ target _ _ _ hnode h =>
    have ht := hf.link_of_site hk hnode
    refine ⟨fun target' ht' => ?_, fun hl => absurd ht (hl target)⟩
    obtain rfl : target = target' := Node.link.inj (Option.some.inj (ht.symm.trans ht'))
    exact h
  | made _ hthrough hm hrest =>
    subst hthrough
    have hb := hk.made _ hm
    refine ⟨fun target ht => ?_, fun _ => (hk.way_of_inside hb.1 hrest).mono hends⟩
    obtain ⟨-, hrel, hway⟩ := hf.links _ _ hb ht
    rw [List.dropLast_concat] at hway
    rw [origin, hrel, if_neg Bool.false_ne_true]
    exact (hk.way_append hway hrest).mono hends

/-- What a way finds missing is in the directory, or allowed to be missing. -/
theorem free_of_reaches (hf : k.Filled t) (hk : k.Fresh) {through last : Bool} {links : Nat}
    {ends : Location → Prop} (hends : ∀ loc, k.Inside loc → ends loc) {here loc : Location}
    {names more : List String} (hw : k.Way through ends here (names ++ more))
    (hr : Reaches t last links here names (.free loc)) : k.Inside loc ∨ k.solid loc := by
  generalize hspot : Spot.free loc = spot at hr
  induction hr with
  | here => cases hspot
  | dot _ ih => exact ih (Way.of_dot hw) hspot
  | up _ ih => exact ih (Way.of_up hw) hspot
  | free hn hnode =>
    obtain rfl := Spot.free.inj hspot
    cases hw with
    | dot => exact absurd rfl hn.1
    | up => exact absurd rfl hn.2
    | step _ _ _ hs => exact hs
    | link _ _ hl =>
      rw [hf.link_of_site hk hl] at hnode
      cases hnode
    | made _ _ hm => exact .inl (hk.made _ hm).1
  | enter hn hnode _ ih =>
    refine ih ((hf.advance hk hends hn hw).2 ?_) hspot
    rw [hnode]
    exact nofun
  | keep => cases hspot
  | link hn hnode _ _ _ ih =>
    refine ih ?_ hspot
    rw [List.append_assoc]
    exact (hf.advance hk hends hn hw).1 _ hnode
  | leaf => cases hspot

/-- A walk along a way ends where the way may end, unless it ends at a link that is not followed. -/
theorem ends_of_reaches (hf : k.Filled t) (hk : k.Fresh) {through last : Bool} {links : Nat}
    {ends : Location → Prop} (hends : ∀ loc, k.Inside loc → ends loc) {here : Location}
    {names : List String} {spot : Spot} (hw : k.Way through ends here names)
    (hr : Reaches t last links here names spot) (hlast : last = true ∨ ∃ loc, spot = .free loc) :
    ends spot.location := by
  induction hr with
  | here =>
    cases hw with
    | here h => exact h
  | dot _ ih => exact ih hw.of_dot hlast
  | up _ ih => exact ih hw.of_up hlast
  | free hn hnode =>
    have hgo := (hf.advance hk hends hn hw).2 (by simp [hnode])
    cases hgo with
    | here h => exact h
  | enter hn hnode _ ih => exact ih ((hf.advance hk hends hn hw).2 (by simp [hnode])) hlast
  | keep _ hl =>
    rcases hlast with hl' | ⟨loc, hspot⟩
    · rw [hl] at hl'
      cases hl'
    · cases hspot
  | link hn hnode _ _ _ ih => exact ih ((hf.advance hk hends hn hw).1 _ hnode) hlast
  | leaf hn hnode _ hl =>
    have hgo := (hf.advance hk hends hn hw).2 (by simpa [hnode] using hl)
    cases hgo with
    | here h => exact h

/-- **A way that leads somewhere** ends where it may end, and goes on from there. -/
theorem way_of_leads (hf : k.Filled t) (hk : k.Fresh) {through : Bool} {ends : Location → Prop}
    (hends : ∀ loc, k.Inside loc → ends loc) {here there : Location} {names rest : List String}
    (hdot : "." ∉ names) (h : Leads t here names there)
    (hw : k.Way through ends here (names ++ rest)) : k.Way through ends there rest := by
  induction h generalizing rest with
  | here => exact hw
  | up _ ih => exact ih (fun hm => hdot (List.mem_cons_of_mem _ hm)) (Way.of_up hw)
  | step hn hnode _ ih =>
    have hname : IsName _ := ⟨fun he => hdot (he ▸ List.mem_cons_self), hn⟩
    refine ih (fun hm => hdot (List.mem_cons_of_mem _ hm)) ?_
    exact (hf.advance hk hends hname hw).2 hnode
  | @link _ _ _ _ target _ hn hnode _ _ iht ih =>
    have hname : IsName _ := ⟨fun he => hdot (he ▸ List.mem_cons_self), hn⟩
    refine ih (fun hm => hdot (List.mem_cons_of_mem _ hm)) ?_
    exact iht (Path.dot_not_mem_components target) ((hf.advance hk hends hname hw).1 _ hnode)

/-- **A walk along a way without links that are made** comes to the directory to which the way
leads, and so it does in any other such tree with the same directories. -/
theorem direct_of_reaches (hf : k.Filled t) (hk : k.Fresh) {ends : Location → Prop} {links : Nat}
    {here : Location} {front : List String} {name : String} {spot : Spot}
    (hw : k.Way false ends here front) (hr : Reaches t false links here (front ++ [name]) spot) :
    ∃ fewer dir, ends dir ∧ Reaches t false fewer dir [name] spot ∧ ∀ t', k.Filled t' →
      (∀ l, t.node? l = some .directory → t'.node? l = some .directory) → ∀ spot',
        Reaches t' false fewer dir [name] spot' →
          Reaches t' false links here (front ++ [name]) spot' := by
  induction hw generalizing links with
  | here h => exact ⟨links, _, h, hr, fun _ _ _ _ h => h⟩
  | dot _ ih =>
    obtain ⟨fewer, dir, he, hlast, hgo⟩ := ih hr.of_dot
    exact ⟨fewer, dir, he, hlast, fun t' hf' hdirs spot' h => .dot (hgo t' hf' hdirs spot' h)⟩
  | up _ ih =>
    obtain ⟨fewer, dir, he, hlast, hgo⟩ := ih hr.of_up
    exact ⟨fewer, dir, he, hlast, fun t' hf' hdirs spot' h => .up (hgo t' hf' hdirs spot' h)⟩
  | @step here name' rest hn hm hl _ _ ih =>
    rw [List.cons_append] at hr
    rcases hr.pass hn (by simp) with ⟨hnode, hr⟩ | ⟨target, -, hnode, -⟩
    · obtain ⟨fewer, dir, he, hlast, hgo⟩ := ih hr
      refine ⟨fewer, dir, he, hlast, fun t' hf' hdirs spot' h => ?_⟩
      exact .enter hn (hdirs _ hnode) (hgo t' hf' hdirs spot' h)
    · rcases hf.link_cases hnode with hsite | hmade
      · exact absurd hsite (hl target)
      · exact absurd hmade hm
  | @link here name' target rest hn _ hsite _ ih =>
    have hnode := hf.link_of_site hk hsite
    rw [List.cons_append] at hr
    rcases hr.pass hn (by simp) with ⟨hdir, -⟩ | ⟨target', links', hnode', ht, rfl, hr⟩
    · rw [hnode] at hdir
      cases hdir
    · obtain rfl : target = target' := Node.link.inj (Option.some.inj (hnode.symm.trans hnode'))
      rw [← List.append_assoc] at hr
      obtain ⟨fewer, dir, he, hlast, hgo⟩ := ih hr
      refine ⟨fewer, dir, he, hlast, fun t' hf' hdirs spot' h => ?_⟩
      have hon := hgo t' hf' hdirs spot' h
      rw [List.append_assoc] at hon
      exact .link hn (hf'.link_of_site hk hsite) ht (.inl (by simp)) hon
  | made _ ht => cases ht

/-- **No link in the directory leads out of it.** -/
theorem inside_of_link (hf : k.Filled t) (hk : k.Fresh) {loc l : Location} {target : String}
    (hb : k.Below loc) (hnode : t.node? loc = some (.link target))
    (h : Leads t (origin loc.dropLast (Path.ofText target)) (Path.components target) l) :
    k.Inside l := by
  obtain ⟨-, hrel, hway⟩ := hf.links loc target hb hnode
  rw [origin, hrel, if_neg Bool.false_ne_true] at h
  rw [← List.append_nil (Path.components target)] at hway
  cases hf.way_of_leads hk (fun _ h => h) (Path.dot_not_mem_components target) h hway with
  | here h => exact h

end Filled

end PluginCatalog.Site
