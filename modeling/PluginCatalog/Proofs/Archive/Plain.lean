import PluginCatalog.Proofs.Archive.Members
import PluginCatalog.Proofs.Archive.Safety

/-!
# Archives without links

`extractFrom_filled`: the extraction of an archive without links, whether it succeeds or not,
leaves a tree in which the directory is filled and no link is made. Outside of the directory
nothing changes, but for new directories, which a name with `..` can pass on its way back into the
directory.
-/

namespace PluginCatalog

open FileTree

/-- No member of the archive is a link. -/
def Archive.Plain (a : Archive) : Prop :=
  ∀ m ∈ a.members, ∀ target, m.kind ≠ .symlink target ∧ m.kind ≠ .hardlink target

/-- A directory in which no links are made. -/
def plainSite (t : FileTree) (root : Location) : Site where
  tree := t
  root := root
  made _ := False
  solid _ := True

namespace Site

variable {k : Site} {t : FileTree}

/-- Where no links are made, a way leads where it led at the site. -/
theorem Filled.leads_site (hf : k.Filled t) (hk : k.Fresh) (hm : ∀ loc, ¬k.made loc)
    {here l : Location} {names : List String} (h : Leads t here names l) :
    Leads k.tree here names l := by
  induction h with
  | here here => exact .here here
  | up _ ih => exact .up ih
  | step hn hnode _ ih =>
    refine .step hn (fun target hl => ?_) ih
    exact hnode target (hf.link_of_site hk hl)
  | link hn hnode _ _ iht ih =>
    refine .link hn ((hf.link_cases hnode).resolve_right (hm _)) iht ih

end Site

section Plain

variable {t : FileTree} {archive destination : Path} {root : Location}

theorem plainSite_fresh (hdir : t.node? root = some .directory)
    (hempty : ∀ loc, root <+: loc → loc ≠ root → t.node? loc = none) :
    (plainSite t root).Fresh where
  directory := hdir
  empty loc hb := hempty loc hb.1 hb.2
  made _ hm := hm.elim

/-- The path of a member that passes the check leads into the directory. -/
theorem enters_of_checkMember (hk : (plainSite t root).Fresh) (hdot : "." ∉ destination.parts)
    {m : Member} (h : checkMember t archive destination root m = .ok ()) :
    (plainSite t root).Enters (destination.append (Path.ofTextDotted m.name)) where
  ends t' last links spot hf hr hlast := by
    obtain ⟨place, hplace, hin, -⟩ := place_of_checkMember h
    have hlead := hf.leads_site hk (fun _ hm => hm) (hr.leads hlast)
    have hparts : (destination.append (Path.ofTextDotted m.name)).parts.filter (· != ".") =
        (destination / m.name).parts := by
      change _ = (destination.append (Path.ofText m.name)).parts
      unfold Path.append
      change (if (Path.ofText m.name).isAbsolute then _ else _ : Path).parts.filter _ = _
      split
      · exact filter_ofTextDotted m.name
      · change (destination.parts ++ _).filter _ = _
        rw [List.filter_append, filter_dot hdot, filter_ofTextDotted]
        rfl
    have horigin : origin t.working (destination.append (Path.ofTextDotted m.name)) =
        origin t.working (destination / m.name) := by
      change _ = origin t.working (destination.append (Path.ofText m.name))
      rw [origin_append, origin_append]
      rfl
    rw [hparts] at hlead
    change Leads t (origin t.working _) _ _ at hlead
    rw [horigin] at hlead
    obtain rfl : place = spot.location :=
      Except.ok.inj (hplace.symm.trans (canonical_of_leads hlead))
    exact hin
  free _ _ _ _ _ _ _ _ := .inr trivial

/-- **An archive without links fills the directory** and makes no links. -/
theorem extractFrom_filled (hk : (plainSite t root).Fresh) (hdot : "." ∉ destination.parts)
    (hcanon : t.canonical destination = .ok root)
    (hplain : ∀ a, t.file? archive = some (.archive a) → a.Plain) :
    (plainSite t root).Filled (extractFrom t archive destination).1 := by
  refine extractFrom_fst (P := (plainSite t root).Filled) hk.filled fun a ha hok => ?_
  have hcheck := checkMember_of_checkMembers hcanon hok
  have hnone := hplain a ha
  refine hk.filled.writeMembers hk ⟨?_, ?_, ?_, ?_⟩ rfl
  · exact fun m hm => enters_of_checkMember hk hdot (hcheck m hm)
  · exact fun m hm target hkind => absurd hkind (hnone m hm target).1
  · exact fun m hm target hkind => absurd hkind (hnone m hm target).2
  · intro i j m _ _ _ name target hj
    exact absurd rfl (hnone _ (List.mem_of_getElem? hj) target).1

end Plain

end PluginCatalog
